import Schematic.Json.Value
import Schematic.Text.Segments

/-!
# Requests

A request is one requested field with everything asked for below it: fragments
are spread out and variables put in. Its sub-requests are grouped by the type
they apply to and keyed by the label their answers go under; which type and
which label they stand under plays no part in what is fetched, so most of what
follows looks at `Request.fields`, all of them in one row.
-/

namespace Schematic

/-- One requested field. -/
structure Request where
  name : String
  /-- The name the answer goes under; empty if none is given. -/
  label : String
  args : List (String × Json.Value)
  /-- The sub-requests by type, then by label. -/
  groups : List (String × List (String × Request))

namespace Request

/-- A field requested under its own name, with nothing below it. -/
def ofName (name : String) : Request :=
  ⟨name, name, [], []⟩

/-- The request under another label. -/
def withLabel (r : Request) (label : String) : Request :=
  { r with label := label }

/-- The request with an argument. -/
def withArg (r : Request) (name : String) (value : Json.Value) : Request :=
  { r with args := Keyed.put r.args name value }

/-- The key a request has among others. -/
def key (r : Request) : String :=
  if r.label = "" then r.name else r.label

/-- The request with a further sub-request on a type. One with the same key
gives way to it. -/
def withField (r : Request) (type : String) (field : Request) : Request :=
  { r with
    groups := Keyed.alter type (fun group => Keyed.put (group.getD []) field.key field) r.groups }

/-- The request with further sub-requests on a type. -/
def withFields (r : Request) (type : String) (fields : List Request) : Request :=
  fields.foldl (·.withField type) r

/-! ## Looking into a request -/

/-- The sub-requests, across all types. -/
def fields (r : Request) : List Request :=
  r.groups.flatMap fun group => group.2.map Prod.snd

/-- The first sub-request for a field. -/
def field? (r : Request) (name : String) : Option Request :=
  r.fields.find? (·.name = name)

/-- Whether nothing is requested below the field. -/
def isLeaf (r : Request) : Bool :=
  r.groups.all (·.2.isEmpty)

/-- The names on a path with dots between them; empty ones count for nothing. -/
def pathNames (path : String) : List String :=
  (Text.split '.' path).filter (· ≠ "")

/-- Follows a path of field names, always to the first sub-request for a field. -/
def descend? (r : Request) (path : String) : Option Request :=
  (pathNames path).foldlM field? r

/-! ## Equality -/

/-- Equality of arguments, as maps. -/
def sameArgs (a b : List (String × Json.Value)) : Bool :=
  (Json.Value.object a).same (.object b)

mutual
/-- Equality of requests. The order of arguments, types and labels does not
matter. -/
def same : Request → Request → Bool
  | ⟨name, label, args, groups⟩, other =>
    name == other.name && label == other.label && sameArgs args other.args &&
      groups.length == other.groups.length && sameGroups groups other.groups
termination_by structural r => r

/-- Every group has an equal one for its type. -/
def sameGroups : List (String × List (String × Request)) →
    List (String × List (String × Request)) → Bool
  | [], _ => true
  | (type, entries) :: rest, groups =>
    (match Keyed.get? type groups with
      | some others => entries.length == others.length && sameEntries entries others
      | none => false) && sameGroups rest groups
termination_by structural groups => groups

/-- Every entry has an equal one under its key. -/
def sameEntries : List (String × Request) → List (String × Request) → Bool
  | [], _ => true
  | (key, r) :: rest, entries =>
    (match Keyed.get? key entries with
      | some other => r.same other
      | none => false) && sameEntries rest entries
termination_by structural entries => entries
end

end Request

end Schematic
