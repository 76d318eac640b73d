import Schematic.Text.UpperTable

/-!
# Capitals

A text with its first character in upper case. What is no letter, or has no
case, stands for itself.
-/

namespace Schematic.Text

namespace UpperRun

/-- Whether a code point belongs to a run. -/
def holds (run : UpperRun) (n : Nat) : Bool :=
  run.first ≤ n && n ≤ run.last && (n - run.first) % run.step == 0

end UpperRun

/-- A character in upper case. -/
def toUpper (c : Char) : List Char :=
  match upperSequences.lookup c.toNat with
  | some codes => codes.map Char.ofNat
  | none =>
    match upperRuns.find? (·.holds c.toNat) with
    | some run => [Char.ofNat ((c.toNat : Int) + run.distance).toNat]
    | none => [c]

/-- A text with its first character in upper case. -/
def capitalize : List Char → List Char
  | [] => []
  | first :: rest => toUpper first ++ rest

end Schematic.Text
