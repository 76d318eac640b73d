import Schematic.Declare.Reference

/-!
# Vacuous input types

An input type is usable if some value can be written for it: if one of its
fields is declared with a scalar, an enum, or an input type that is usable
itself. Types refer to each other in circles, so the search for a usable field
keeps the path it came by and does not enter a type on it again. A type the
schema does not know is taken to be usable.

What was found usable is remembered from one question to the next. What was not
is forgotten: it may have failed only because of the path.
-/

namespace Schematic

/-- The input types known to be usable. -/
abbrev Known := List String

namespace Vacuous

/-- The number of input types that are not on a path. -/
def offPath (schema : Schema) (path : List String) : Nat :=
  (schema.loadedInputs.filter (·.name ∉ path)).length

/-- Entering a type leaves fewer off the path. -/
theorem offPath_cons_lt {schema : Schema} {path : List String} {name : String} {input : InputType}
    (hpath : name ∉ path) (hfound : schema.findInput? name = some input) :
    offPath schema (name :: path) < offPath schema path := by
  have hname : input.name = name := by
    simpa using List.find?_some hfound
  have hmem : input ∈ schema.loadedInputs.filter (·.name ∉ path) :=
    List.mem_filter.2 ⟨List.mem_of_find?_eq_some hfound, by simpa [hname] using hpath⟩
  have hfilter : schema.loadedInputs.filter (·.name ∉ name :: path) =
      (schema.loadedInputs.filter (·.name ∉ path)).filter (·.name ≠ name) := by
    rw [List.filter_filter]
    congr 1
    funext t
    simp [List.mem_cons]
  rw [offPath, hfilter]
  exact List.length_filter_lt_length_iff_exists.2 ⟨input, hmem, by simp [hname]⟩

mutual
/-- Whether an input type is usable by way of types off the path, and what is
known after the search. -/
def usable (schema : Schema) (config : Config) (path : List String) (known : Known)
    (name : String) : Bool × Known :=
  if name ∈ known then (true, known)
  else if hpath : name ∈ path then (false, known)
  else match hfound : schema.findInput? name with
    | none => (true, known)
    | some input =>
      have := offPath_cons_lt hpath hfound
      match usableField schema config (name :: path) known input.fields with
      | (true, known) => (true, name :: known)
      | (false, known) => (false, known)
termination_by (offPath schema path, 0)

/-- Whether one of several fields is usable, looking no further than the first
that is. -/
def usableField (schema : Schema) (config : Config) (path : List String) (known : Known) :
    List InputField → Bool × Known
  | [] => (false, known)
  | field :: rest =>
    match field.shownType? config with
    | none => usableField schema config path known rest
    | some t =>
      if t.isInputObject then
        match usable schema config path known t.name with
        | (true, known) => (true, known)
        | (false, known) => usableField schema config path known rest
      else (true, known)
termination_by fields => (offPath schema path, fields.length)
end

end Vacuous

/-- A computation that asks which input types are vacuous. -/
abbrev Check := StateM Known

namespace Check

/-- Whether no value can be written for an input type. -/
def isVacuous (schema : Schema) (config : Config) (name : String) : Check Bool := do
  let (usable, known) := Vacuous.usable schema config [] (← get) name
  set known
  return !usable

/-- The answer of a computation that starts out knowing nothing. -/
def answer {α : Type} (check : Check α) : α :=
  (check.run []).1

/-- Whether a field declared with a type has to be left out: there is no value
for it. -/
def isOmitted (schema : Schema) (config : Config) (t : TypeRef) : Check Bool :=
  if t.isInputObject then isVacuous schema config t.name else return false

end Check

end Schematic
