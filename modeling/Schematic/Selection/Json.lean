import Schematic.Json.Written
import Schematic.Selection.Basic

/-!
# Selections as JSON

The select argument of a data layer call. A field that is simply selected is
`true`, and a nested selection has its fields under `select`, before its
arguments.

A selection becomes a value, in which a key stands once (`Selection.toValue`), or it
is written entry by entry (`Selection.written`).
-/

namespace Schematic

open Json (Value Written)

/-- The members of a group, each selected. -/
def groupValue (names : List String) : Value :=
  .object (Keyed.ofPairs (names.map (·, .bool true)))

/-- Fields under `select`, followed by arguments. -/
def nodeValue (select arguments : Keyed Value) : Value :=
  .object (Keyed.putAll [("select", .object select)] arguments)

mutual
/-- The JSON form of what is selected under a field. -/
def Selected.toValue : Selected → Value
  | .field => .bool true
  | .nested select arguments => nodeValue (Selected.entryValues select) arguments
  | .counted arguments => .object arguments
  | .group names => groupValue names
termination_by structural s => s

/-- The JSON form of the selected fields. -/
def Selected.entryValues : List (String × Selected) → List (String × Value)
  | [] => []
  | (name, selected) :: rest => (name, selected.toValue) :: Selected.entryValues rest
termination_by structural entries => entries
end

/-- A group as it is written: a name as often as it is in the group. -/
def writtenGroup (names : List String) : Written :=
  .object (names.map fun name => (some name, .bool true))

/-- Fields under `select` and arguments as they are written. -/
def writtenNode (select : List (Option String × Written)) (arguments : Keyed Value) : Written :=
  .object ((some "select", .object select) :: Value.writtenEntries arguments)

mutual
/-- What is selected under a field as it is written. -/
def Selected.written : Selected → Written
  | .field => .bool true
  | .nested select arguments => writtenNode (Selected.writtenEntries select) arguments
  | .counted arguments => .object (Value.writtenEntries arguments)
  | .group names => writtenGroup names
termination_by structural s => s

/-- The selected fields as they are written. -/
def Selected.writtenEntries : List (String × Selected) → List (Option String × Written)
  | [] => []
  | (name, selected) :: rest => (some name, selected.written) :: Selected.writtenEntries rest
termination_by structural entries => entries
end

namespace Selection

/-- The whole select argument. -/
def toValue (s : Selection) : Value :=
  nodeValue (Selected.entryValues s.select) s.arguments

/-- The whole select argument as it is written. -/
def written (s : Selection) : Written :=
  writtenNode (Selected.writtenEntries s.select) s.arguments

/-- The selected fields alone. -/
def selectValue (s : Selection) : Value :=
  .object (Selected.entryValues s.select)

end Selection

end Schematic
