/-!
# Decimal numerals

The digits of a numeral and the parts behind them. Each reader takes the
longest part it can off a text and gives what is left; digits are the ten of
ASCII.
-/

namespace Schematic.Numeral

/-- The value of decimal digits. -/
def value (digits : List Char) : Nat :=
  digits.foldl (fun n c => 10 * n + (c.toNat - '0'.toNat)) 0

/-- The leading digits of a text and what follows them, if there is one at least. -/
def readDigits? (cs : List Char) : Option (List Char × List Char) :=
  match cs.takeWhile Char.isDigit with
  | [] => none
  | digits => some (digits, cs.dropWhile Char.isDigit)

/-- A sign, if there is one, and whether it is a minus. -/
def readSign : List Char → Bool × List Char
  | '-' :: rest => (true, rest)
  | '+' :: rest => (false, rest)
  | rest => (false, rest)

/-- An exponent: its letter needs digits behind it, perhaps signed. -/
def readExponent? : List Char → Option (Option Int × List Char)
  | [] => some (none, [])
  | c :: rest =>
    if c = 'e' ∨ c = 'E' then
      let (negative, rest) := readSign rest
      (readDigits? rest).map fun (digits, rest) =>
        let n : Int := value digits
        (some (if negative then -n else n), rest)
    else some (none, c :: rest)

end Schematic.Numeral
