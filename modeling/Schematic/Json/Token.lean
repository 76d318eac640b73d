import Schematic.Decimal.Numeral
import Schematic.Json.Value

/-!
# JSON tokens

The lexical grammar of JSON, strictly: no comments, no byte order mark, only
space, tab, line feed and carriage return between tokens, no control characters
inside strings, and numbers without leading zeros, plus signs or bare points. A
number too large for a double and a string whose escapes name half a surrogate
pair are tokens too, without a meaning: they are faults only where it is wanted.
-/

namespace Schematic.Json

/-- A number as it is spelled. -/
structure Literal where
  negative : Bool
  whole : List Char
  fraction : Option (List Char)
  exponent : Option Int

namespace Literal

/-- A plain integer is one of 64 bits if it fits, unsigned or, below zero,
signed. Every other literal, and `-0`, is the double next to it; one beyond all
doubles has no value. -/
def number? (l : Literal) : Option Number :=
  match l.fraction, l.exponent with
  | none, none =>
    let n := Numeral.value l.whole
    if !l.negative && n < UInt64.size then some (.int n)
    else if l.negative && 0 < n && Int64.minValue.toInt ≤ -n then some (.int (-n))
    else (Double.nearest? l.negative n 0).map .double
  | fraction, exponent =>
    let fraction := fraction.getD []
    let e := exponent.getD 0 - fraction.length
    (Double.nearest? l.negative (Numeral.value (l.whole ++ fraction)) e).map .double

end Literal

/-- A lexical unit of JSON text. -/
inductive Token where
  | beginArray
  | endArray
  | beginObject
  | endObject
  | comma
  | colon
  | null
  | bool (b : Bool)
  /-- A number, or nothing where it is beyond all doubles. -/
  | number (n : Option Number)
  /-- A string, or nothing where its escapes name no text. -/
  | string (s : Option String)

/-! ## Strings -/

/-- What a string is written with: characters and escaped UTF-16 units. -/
inductive Piece where
  | char (c : Char)
  | unit (n : Nat)

/-- The value of a hexadecimal digit of either case. -/
def hexDigit? (c : Char) : Option Nat :=
  if '0' ≤ c ∧ c ≤ '9' then some (c.toNat - '0'.toNat)
  else if 'a' ≤ c ∧ c ≤ 'f' then some (c.toNat - 'a'.toNat + 10)
  else if 'A' ≤ c ∧ c ≤ 'F' then some (c.toNat - 'A'.toNat + 10)
  else none

/-- The UTF-16 unit named by four hexadecimal digits. -/
def unit? (a b c d : Char) : Option Nat := do
  return (((← hexDigit? a) * 16 + (← hexDigit? b)) * 16 + (← hexDigit? c)) * 16 + (← hexDigit? d)

/-- The character a one-letter escape stands for. -/
def escaped? : Char → Option Char
  | '"' => some '"'
  | '\\' => some '\\'
  | '/' => some '/'
  | 'b' => some '\x08'
  | 'f' => some '\x0c'
  | 'n' => some '\n'
  | 'r' => some '\r'
  | 't' => some '\t'
  | _ => none

/-- Reads the inside of a string up to its closing quote: the pieces, put
before `done` in reverse, and the text behind the quote. -/
def readPieces (done : List Piece) : List Char → Option (List Piece × List Char)
  | [] => none
  | '"' :: rest => some (done.reverse, rest)
  | '\\' :: 'u' :: a :: b :: c :: d :: rest =>
    match unit? a b c d with
    | some n => readPieces (.unit n :: done) rest
    | none => none
  | '\\' :: c :: rest =>
    match escaped? c with
    | some c => readPieces (.char c :: done) rest
    | none => none
  | c :: rest => if c.toNat < 0x20 ∨ c = '\\' then none else readPieces (.char c :: done) rest

/-- The text of the pieces. Two units that form a surrogate pair name one
character; a unit of a pair without its partner names none. -/
def Piece.text? : List Piece → Option (List Char)
  | [] => some []
  | .char c :: rest => (Piece.text? rest).map (c :: ·)
  | .unit n :: rest =>
    if n < 0xD800 ∨ 0xE000 ≤ n then (Piece.text? rest).map (Char.ofNat n :: ·)
    else if 0xDC00 ≤ n then none
    else match rest with
      | .unit low :: rest =>
        if 0xDC00 ≤ low ∧ low < 0xE000 then
          let code := 0x10000 + (n - 0xD800) * 0x400 + (low - 0xDC00)
          (Piece.text? rest).map (Char.ofNat code :: ·)
        else none
      | _ => none

/-! ## Numbers -/

/-- The fraction of a number: a point needs digits behind it. -/
def readFraction? : List Char → Option (Option (List Char) × List Char)
  | '.' :: rest => (Numeral.readDigits? rest).map fun (digits, rest) => (some digits, rest)
  | rest => some (none, rest)

/-- A number without a sign of its own. A leading zero stands alone. -/
def readUnsigned? (negative : Bool) (cs : List Char) : Option (Literal × List Char) := do
  let (whole, rest) ← match cs with
    | '0' :: rest => some (['0'], rest)
    | cs => Numeral.readDigits? cs
  let (fraction, rest) ← readFraction? rest
  let (exponent, rest) ← Numeral.readExponent? rest
  return (⟨negative, whole, fraction, exponent⟩, rest)

/-! ## Texts -/

namespace Token

/-- The token at the start of a text that does not begin with white space. -/
def read? : List Char → Option (Token × List Char)
  | '[' :: rest => some (beginArray, rest)
  | ']' :: rest => some (endArray, rest)
  | '\x7b' :: rest => some (beginObject, rest)
  | '\x7d' :: rest => some (endObject, rest)
  | ',' :: rest => some (comma, rest)
  | ':' :: rest => some (colon, rest)
  | 'n' :: 'u' :: 'l' :: 'l' :: rest => some (null, rest)
  | 't' :: 'r' :: 'u' :: 'e' :: rest => some (bool true, rest)
  | 'f' :: 'a' :: 'l' :: 's' :: 'e' :: rest => some (bool false, rest)
  | '"' :: rest => (readPieces [] rest).map fun (pieces, rest) =>
    (string ((Piece.text? pieces).map String.ofList), rest)
  | '-' :: rest => (readUnsigned? true rest).map fun (l, rest) => (number l.number?, rest)
  | cs => (readUnsigned? false cs).map fun (l, rest) => (number l.number?, rest)

/-- The white space between tokens. -/
def isSpace (c : Char) : Bool :=
  c == ' ' || c == '\t' || c == '\n' || c == '\r'

/-- The tokens of a text, put before `done` in reverse. Every step takes a
character at least, so as many steps as the text has characters are enough. -/
def readAll? : Nat → List Token → List Char → Option (List Token)
  | 0, done, cs => if cs.isEmpty then some done.reverse else none
  | steps + 1, done, cs =>
    match cs with
    | [] => some done.reverse
    | c :: rest =>
      if isSpace c then readAll? steps done rest
      else match read? (c :: rest) with
        | some (token, rest) => readAll? steps (token :: done) rest
        | none => none

/-- The tokens of a text, if it has the lexical form of JSON. -/
def ofText? (text : String) : Option (List Token) :=
  let cs := text.toList
  readAll? cs.length [] cs

end Token

end Schematic.Json
