import Schematic.Json.Value

/-!
# Selections

A selection says which fields of a model to fetch, and with which arguments.
Under a field name it has a `Selected`; a field that is selected twice, say
under two labels, gets both selections merged into one (`Selected.merge`).
-/

namespace Schematic

/-- What is selected under a field name. -/
inductive Selected where
  /-- A plain field, or a relation with all of its plain fields. -/
  | field
  /-- A relation, or the count of relations, with a selection of its own. -/
  | nested (select : List (String × Selected)) (arguments : List (String × Json.Value))
  /-- A relation that is counted under arguments. -/
  | counted (arguments : List (String × Json.Value))
  /-- The members of an aggregate group. -/
  | group (names : List String)

/-- The fields to fetch from a model, and the arguments they are fetched with. -/
structure Selection where
  select : List (String × Selected)
  arguments : List (String × Json.Value)

/-- The names of a list followed by those of another that it lacks. -/
def appendMissing (names : List String) : List String → List String
  | [] => names
  | name :: rest =>
    if name ∈ names then appendMissing names rest else appendMissing (names ++ [name]) rest

mutual
/-- What two selections of one field come to. Nested selections merge field by
field and a plain one adds nothing to them; groups take in the members they
lack. Otherwise the later selection counts. -/
def Selected.merge (present : Selected) : Selected → Selected
  | .nested select arguments =>
    match present with
    | .nested select' arguments' =>
      .nested (Selected.mergeEntries select' select) (Keyed.putAll arguments' arguments)
    | _ => .nested select arguments
  | .field =>
    match present with
    | .nested select arguments => .nested select arguments
    | _ => .field
  | .group names =>
    match present with
    | .group names' => .group (appendMissing names' names)
    | _ => .group names
  | .counted arguments => .counted arguments
termination_by structural later => later

/-- Selects further fields: one that is there already is merged in its place. -/
def Selected.mergeEntries (present : List (String × Selected)) :
    List (String × Selected) → List (String × Selected)
  | [] => present
  | (name, later) :: rest =>
    Selected.mergeEntries (Keyed.alter name (fun
      | some selected => selected.merge later
      | none => later) present) rest
termination_by structural later => later
end

namespace Selection

/-- Selects nothing. -/
def empty : Selection :=
  ⟨[], []⟩

/-- The selection as what is selected under a field. -/
def toSelected (s : Selection) : Selected :=
  .nested s.select s.arguments

/-- What is selected under a field name. -/
def get? (s : Selection) (name : String) : Option Selected :=
  Keyed.get? name s.select

/-- Whether a field name is selected. -/
def contains (s : Selection) (name : String) : Bool :=
  Keyed.contains name s.select

/-- Whether no field is selected. Arguments alone select nothing. -/
def isEmpty (s : Selection) : Bool :=
  s.select.isEmpty

/-- Selects a field as well: one that is there already is merged in its place. -/
def insert (s : Selection) (name : String) (selected : Selected) : Selection :=
  { s with
    select := Keyed.alter name (fun
      | some present => present.merge selected
      | none => selected) s.select }

/-- Selects several fields as well, one after the other. -/
def insertAll (s : Selection) (entries : List (String × Selected)) : Selection :=
  entries.foldl (fun s entry => s.insert entry.1 entry.2) s

/-- The fields of several insertions are those of a merge. -/
theorem insertAll_select (s : Selection) (entries : List (String × Selected)) :
    (s.insertAll entries).select = Selected.mergeEntries s.select entries := by
  induction entries generalizing s with
  | nil => rw [Selected.mergeEntries]; rfl
  | cons entry rest ih =>
    obtain ⟨name, selected⟩ := entry
    rw [Selected.mergeEntries]
    exact ih (s.insert name selected)

end Selection

/-! ## Arguments -/

/-- The arguments a relation may be fetched with. -/
def relationArgumentNames : List String :=
  ["where", "orderBy", "cursor", "take", "skip", "distinct"]

/-- Of the arguments of a request those a relation may be fetched with, in the
order of `relationArgumentNames`; a null is no argument. -/
def relationArguments (args : Keyed Json.Value) : Keyed Json.Value :=
  relationArgumentNames.filterMap fun name =>
    match Keyed.get? name args with
    | some .null => none
    | some value => some (name, value)
    | none => none

end Schematic
