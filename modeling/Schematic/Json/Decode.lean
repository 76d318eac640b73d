import Schematic.Json.Written

/-!
# Decoding

A `Decoder` turns what was written into a value of a type of its own, or
refuses it. None coerces: a number is no text, and a null is accepted only where
it is named. A record is written as an object, whose unknown keys are skipped
and whose known keys may be there only once, or as an array of its fields in
their order.
-/

namespace Schematic.Json

/-- Reads one type of value, given how many arrays and objects may still lie
within each other. -/
abbrev Decoder (α : Type) := Nat → Written → Option α

namespace Decoder

/-- What a whole text decodes to. -/
def ofText? {α : Type} (d : Decoder α) (text : String) : Option α :=
  Written.ofText? text >>= d Written.maxDepth

/-- A boolean. -/
def bool : Decoder Bool
  | _, .bool b => some b
  | _, _ => none

/-- A string. -/
def string : Decoder String
  | _, .string s => s
  | _, _ => none

/-- An integer, not written as a double, from zero up to below a limit. -/
def natBelow (limit : Nat) : Decoder Nat
  | _, .number (some (.int n)) => if 0 ≤ n ∧ n < limit then some n.toNat else none
  | _, _ => none

/-- Any value. -/
def value : Decoder Value :=
  Written.value?

/-- A value or null. -/
def nullable {α : Type} (d : Decoder α) : Decoder (Option α)
  | _, .null => some none
  | depth, w => (d depth w).map some

/-- An array of values of one type. -/
def list {α : Type} (d : Decoder α) : Decoder (List α)
  | depth + 1, .array items => items.mapM (d depth)
  | _, _ => none

/-- An object as a map from any keys: a repeated key keeps the place of its
first and the value of its last entry. -/
def keyed {α : Type} (d : Decoder α) : Decoder (Keyed α)
  | depth + 1, .object entries =>
    (entries.mapM fun (entry : Option String × Written) => do
      return (← entry.1, ← d depth entry.2)).map Keyed.ofPairs
  | _, _ => none

/-- One of several names, alone or as the only key of an object, with null. -/
def oneOf {α : Type} (names : Keyed α) : Decoder α
  | _, .string (some name) => Keyed.get? name names
  | _ + 1, .object [(some name, .null)] => Keyed.get? name names
  | _, _ => none

end Decoder

/-- The fields of a record as far as they were written, and the nesting allowed
inside them. -/
structure Fields where
  depth : Nat
  written : Keyed Written

namespace Fields

/-- Collects the known entries of an object; every key has to be a text, and
none of the known ones may come twice. -/
def ofEntries? (names : List String) : List (Option String × Written) → Option (Keyed Written)
  | [] => some []
  | (none, _) :: _ => none
  | (some key, w) :: rest =>
    match ofEntries? names rest with
    | none => none
    | some fields =>
      if key ∈ names then
        if Keyed.contains key fields then none else some ((key, w) :: fields)
      else some fields

/-- The fields of a record with the given names: by key, or by place. -/
def ofWritten? (names : List String) : Decoder Fields
  | depth + 1, .object entries => (ofEntries? names entries).map (Fields.mk depth)
  | depth + 1, .array items =>
    if items.length ≤ names.length then some ⟨depth, names.zip items⟩ else none
  | _, _ => none

/-- A field that has to be there. -/
def required {α : Type} (fields : Fields) (name : String) (d : Decoder α) : Option α :=
  match Keyed.get? name fields.written with
  | some w => d fields.depth w
  | none => none

/-- A field that stands for `default` if it is missing. -/
def optional {α : Type} (fields : Fields) (name : String) (default : α) (d : Decoder α) :
    Option α :=
  match Keyed.get? name fields.written with
  | some w => d fields.depth w
  | none => some default

/-- A field that may be missing or null. -/
def nullable {α : Type} (fields : Fields) (name : String) (d : Decoder α) :
    Option (Option α) :=
  fields.optional name none d.nullable

end Fields

end Schematic.Json
