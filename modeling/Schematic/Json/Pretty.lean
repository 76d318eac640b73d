import Schematic.Decimal.Style
import Schematic.Json.Value

/-!
# JSON text

Values are written one entry to a line, two spaces deeper than what holds them;
an empty array or object stays on its line.
-/

namespace Schematic.Json

/-- Doubles are positional from `1e-5` up to below `1e16`. -/
def doubleStyle : Decimal.Style := ⟨-5, 16⟩

/-- The two hexadecimal digits of a control character. -/
def controlDigits (n : Nat) : List Char :=
  [if n < 16 then '0' else '1', Nat.digitChar (n % 16)]

/-- A character inside a string: quotes, backslashes and control characters are
escaped, by a letter if they have one. -/
def escapeChar (c : Char) : List Char :=
  match c with
  | '"' => ['\\', '"']
  | '\\' => ['\\', '\\']
  | '\x08' => ['\\', 'b']
  | '\x0c' => ['\\', 'f']
  | '\n' => ['\\', 'n']
  | '\r' => ['\\', 'r']
  | '\t' => ['\\', 't']
  | c => if c.toNat < 0x20 then ['\\', 'u', '0', '0'] ++ controlDigits c.toNat else [c]

/-- A string between quotes. -/
def quoted (s : String) : String :=
  String.ofList ('"' :: s.toList.flatMap escapeChar ++ ['"'])

/-- The text of a number. -/
def Number.text : Number → String
  | .int n => toString n
  | .double d => String.ofList (doubleStyle.double d)

/-- The start of a line at a depth. -/
def newLine (depth : Nat) : String :=
  "\n" ++ String.ofList (List.replicate (2 * depth) ' ')

namespace Value

mutual
/-- The text of a value that starts at a depth. -/
def prettyAt (depth : Nat) : Value → String
  | .null => "null"
  | .bool b => if b then "true" else "false"
  | .number n => n.text
  | .string s => quoted s
  | .array [] => "[]"
  | .array (item :: rest) =>
    "[" ++ newLine (depth + 1) ++ item.prettyAt (depth + 1) ++ prettyItems (depth + 1) rest
      ++ newLine depth ++ "]"
  | .object [] => "\x7b\x7d"
  | .object ((key, item) :: rest) =>
    "\x7b" ++ newLine (depth + 1) ++ quoted key ++ ": " ++ item.prettyAt (depth + 1)
      ++ prettyEntries (depth + 1) rest ++ newLine depth ++ "\x7d"
termination_by structural v => v

/-- The items of an array after the first. -/
def prettyItems (depth : Nat) : List Value → String
  | [] => ""
  | item :: rest => "," ++ newLine depth ++ item.prettyAt depth ++ prettyItems depth rest
termination_by structural items => items

/-- The entries of an object after the first. -/
def prettyEntries (depth : Nat) : List (String × Value) → String
  | [] => ""
  | (key, item) :: rest =>
    "," ++ newLine depth ++ quoted key ++ ": " ++ item.prettyAt depth ++ prettyEntries depth rest
termination_by structural entries => entries
end

/-- The text of a value over several lines. -/
def pretty (v : Value) : String :=
  v.prettyAt 0

end Value

end Schematic.Json
