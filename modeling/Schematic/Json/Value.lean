import Schematic.Decimal.Double
import Schematic.Keyed

/-!
# JSON values

A number is an integer or a double, and the two are never equal; an object
keeps the order of its keys, and equality (`Value.same`) does not look at it.
`Value.merge` lays one value over another, object by object.
-/

namespace Schematic.Json

/-- A number: an integer of 64 bits, signed or unsigned, or a finite double. -/
inductive Number where
  | int (n : Int)
  | double (d : Double)
  deriving DecidableEq, Repr

namespace Number

/-- An integer equals itself only, and the doubles have two equal zeros. -/
def same : Number → Number → Bool
  | .int a, .int b => a == b
  | .double a, .double b => a.same b
  | _, _ => false

theorem same_refl (a : Number) : a.same a = true := by
  cases a with
  | int n => exact beq_self_eq_true n
  | double d => exact d.same_refl

end Number

/-- A JSON value. -/
inductive Value where
  | null
  | bool (b : Bool)
  | number (n : Number)
  | string (s : String)
  | array (items : List Value)
  | object (entries : List (String × Value))
  deriving Inhabited

namespace Value

/-- The integer as a value. -/
def int (n : Int) : Value :=
  .number (.int n)

/-- Whether a value is null. -/
def isNull : Value → Bool
  | null => true
  | _ => false

/-- The entry of an object; other values have none. -/
def member? (key : String) : Value → Option Value
  | object entries => Keyed.get? key entries
  | _ => none

mutual
/-- Equality of values: arrays item by item, objects as maps. -/
def same : Value → Value → Bool
  | .null, .null => true
  | .bool a, .bool b => a == b
  | .number a, .number b => a.same b
  | .string a, .string b => a == b
  | .array a, .array b => sameItems a b
  | .object a, .object b => a.length == b.length && sameEntries a b
  | _, _ => false
termination_by structural a => a

/-- Arrays of equal items. -/
def sameItems : List Value → List Value → Bool
  | [], [] => true
  | a :: as, b :: bs => a.same b && sameItems as bs
  | _, _ => false
termination_by structural a => a

/-- Every entry has an equal one under its key in the other object. -/
def sameEntries : List (String × Value) → List (String × Value) → Bool
  | [], _ => true
  | (key, a) :: rest, entries =>
    (match Keyed.get? key entries with
      | some b => a.same b
      | none => false) && sameEntries rest entries
termination_by structural a => a
end

theorem isNull_iff {v : Value} : v.isNull ↔ v = .null := by
  cases v <;> simp [isNull]

/-- Only null equals null. -/
theorem same_null (v : Value) : v.same .null = v.isNull := by
  cases v <;> rfl

theorem null_same (v : Value) : null.same v = v.isNull := by
  cases v <;> rfl

mutual
/-- Lays a value over another: objects merge key by key, and anything else
replaces what was there. -/
def merge (target : Value) : Value → Value
  | .object source =>
    match target with
    | .object entries => .object (mergeEntries entries source)
    | _ => .object source
  | source => source
termination_by structural source => source

/-- Lays the entries of an object over those of another: a key they share
merges in its place, and a new key follows at the end. -/
def mergeEntries (target : List (String × Value)) : List (String × Value) → List (String × Value)
  | [] => target
  | (key, source) :: rest =>
    mergeEntries (Keyed.alter key (fun
      | some present => present.merge source
      | none => source) target) rest
termination_by structural source => source
end

end Value

end Schematic.Json
