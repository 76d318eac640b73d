import Schematic.Admin.Value

/-!
# Column filters

The state of a column filter, an operator and what was typed for it, made into a
condition. The operators for lists take items between commas, and the values of
a numeric column are read as numbers.
-/

namespace Schematic.Filter

open Json (Value)

/-- The operators that take lists. -/
def listOperators : List String :=
  ["in", "notIn"]

/-- A text, or an item of a list, as a value of the column. -/
def item (operator : String) (numeric : Bool) (text : String) : Except AdminError Value :=
  if numeric then
    match Numeral.number? (Text.trim text.toList) with
    | some n => .ok (.number n)
    | none => .error (.invalidNumber operator text)
  else .ok (.string text)

/-- The operand of an operator; what is no text has its type already. -/
def operand (operator : String) (numeric : Bool) : Value → Except AdminError Value
  | .string text =>
    if operator ∈ listOperators then
      ((Text.split ',' text).mapM (item operator numeric)).map .array
    else item operator numeric text
  | typed => .ok typed

/-- The condition of a filter: the operators that are set. None are, there is no
condition. -/
def condition (input : Keyed Value) (numeric : Bool) :
    Except AdminError (Option (Keyed Value)) := do
  let set := input.filter fun entry => !entry.2.isNull
  let operands ← set.mapM fun entry => do
    return (entry.1, ← operand entry.1 numeric entry.2)
  return match operands with
    | [] => none
    | operands => some operands

end Schematic.Filter
