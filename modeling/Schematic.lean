import Schematic.Admin.Filter
import Schematic.Admin.Table
import Schematic.Main
import Schematic.Proofs.Aliases
import Schematic.Proofs.AsRequested
import Schematic.Proofs.BlankRecords
import Schematic.Proofs.Conditions
import Schematic.Proofs.ConnectedRows
import Schematic.Proofs.Connections
import Schematic.Proofs.Descent
import Schematic.Proofs.DirectNames
import Schematic.Proofs.GroupOrder
import Schematic.Proofs.Insertion
import Schematic.Proofs.LibraryClosed
import Schematic.Proofs.MemberNames
import Schematic.Proofs.MetaFields
import Schematic.Proofs.ModelAliases
import Schematic.Proofs.Monotone
import Schematic.Proofs.Overlays
import Schematic.Proofs.Pages
import Schematic.Proofs.RecordKeys
import Schematic.Proofs.Repeated
import Schematic.Proofs.RequestValues
import Schematic.Proofs.ResolverNames
import Schematic.Proofs.SameInputs
import Schematic.Proofs.StrictRoots
import Schematic.Proofs.Unchanged
