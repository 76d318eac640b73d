import Schematic.Json.Written
import Schematic.Schema.Basic
import Schematic.Text.Blank
import Schematic.Text.Segments

/-!
# Form values

A form holds texts, and a mutation wants values of the types of its fields.
`FormValue.coerce` reads a text by the field it is meant for; what is no text
has its type already and is left alone, and so is what belongs to no declared
field.
-/

namespace Schematic

open Json (Number Value)

/-- Why values cannot be sent. -/
inductive AdminError where
  /-- A JSON field holds a text that is no JSON. -/
  | invalidJson (field : String)
  /-- A numeric field holds a text that is no number. -/
  | invalidNumber (field value : String)
  | unknownModel (model : String)
  /-- The records of a model cannot be told apart. -/
  | missingIdField (model : String)
  deriving DecidableEq, Repr

namespace AdminError

/-- The wording of an error. -/
def message : AdminError → String
  | invalidJson field => "Field `" ++ field ++ "` expects JSON"
  | invalidNumber field value =>
    "Field `" ++ field ++ "` expects a number, got `" ++ value ++ "`"
  | unknownModel model => "Model `" ++ model ++ "` does not exist in the schema"
  | missingIdField model =>
    "Model `" ++ model ++ "` has no field identifying its records"

end AdminError

/-! ## Numbers in texts -/

namespace Numeral

/-- A whole text as a signed integer of 64 bits. -/
def integer? (cs : List Char) : Option Int :=
  let (negative, cs) := readSign cs
  match readDigits? cs with
  | some (digits, []) =>
    let n : Int := if negative then -(value digits : Int) else value digits
    if Int64.minValue.toInt ≤ n ∧ n ≤ Int64.maxValue.toInt then some n else none
  | _ => none

/-- A whole text as a finite double: digits, of which those on one side of the
point may be missing, and perhaps an exponent. -/
def double? (cs : List Char) : Option Double := do
  let (negative, cs) := readSign cs
  let whole := cs.takeWhile Char.isDigit
  let (fraction, rest) := match cs.dropWhile Char.isDigit with
    | '.' :: rest => (rest.takeWhile Char.isDigit, rest.dropWhile Char.isDigit)
    | rest => ([], rest)
  if whole = [] ∧ fraction = [] then none
  else match ← readExponent? rest with
    | (exponent, []) =>
      Double.nearest? negative (value (whole ++ fraction)) (exponent.getD 0 - fraction.length)
    | _ => none

/-- A whole text as a number: an integer if it is one, and a double otherwise. -/
def number? (cs : List Char) : Option Number :=
  match integer? cs with
  | some n => some (.int n)
  | none => (double? cs).map .double

end Numeral

/-! ## Coercion -/

/-- What a value is sent with. -/
inductive Writing where
  | create
  /-- An update, in which values may be wrapped in a `set`. -/
  | update (useSet : Bool)
  deriving DecidableEq, Repr

namespace FormValue

/-- A value as it is sent: lists are never wrapped. -/
def wrap (field : Field) (writing : Writing) (v : Value) : Value :=
  if writing = .update true ∧ ¬ field.isList then .object [("set", v)] else v

/-- A text, or an item of a list, as a value of the type of its field. The items
of a list of booleans are true only if they say so. -/
def scalar (field : Field) (text : String) : Except AdminError Value :=
  if field.type = "Int" then
    match Numeral.integer? (Text.trim text.toList) with
    | some n => .ok (.int n)
    | none => .error (.invalidNumber field.name text)
  else if field.type = "Float" then
    match Numeral.number? (Text.trim text.toList) with
    | some n => .ok (.number n)
    | none => .error (.invalidNumber field.name text)
  else if field.type = "Boolean" ∧ field.isList then .ok (.bool (text = "true"))
  else .ok (.string text)

/-- A text as JSON. The empty text is an empty object, or an empty list in a
list field. -/
def json (field : Field) (text : String) : Except AdminError Value :=
  if text = "" then .ok (if field.isList then .array [] else .object [])
  else match Value.ofText? text with
    | some v => .ok v
    | none => .error (.invalidJson field.name)

/-- A text with commas as a list. The empty text is the empty list. -/
def list (field : Field) (text : String) : Except AdminError Value :=
  if text = "" then .ok (.array [])
  else ((Text.split ',' text).mapM (scalar field)).map .array

/-- A text by the field it is meant for. -/
def ofText (field : Field) (writing : Writing) (text : String) : Except AdminError Value :=
  if field.type = "Json" then (json field text).map (wrap field writing)
  else if field.isList then list field text
  else (scalar field text).map (wrap field writing)

/-- A form value by the field it is meant for, if that is declared. A null stands
for the empty text. -/
def coerce (field : Option Field) (writing : Writing) (v : Value) : Except AdminError Value :=
  match field with
  | none => .ok v
  | some field =>
    match v with
    | .string text => ofText field writing text
    | .null => ofText field writing ""
    | typed => .ok (wrap field writing typed)

end FormValue

end Schematic
