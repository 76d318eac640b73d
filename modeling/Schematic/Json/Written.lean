import Schematic.Json.Token

/-!
# JSON as written

A `Written` is a JSON text taken apart by the grammar alone: keys are as often
there as the text has them, numbers and strings may be without a meaning, and
any depth is fine. What is made of it is decided by whoever reads it:
`Written.value?` takes it as a value, with a limit on nesting and with the last
entry of a repeated key. `Value.written` is the way back.
-/

namespace Schematic.Json

/-- A JSON text taken apart. A number without value is beyond all doubles, a
string or key without text has an escape that names half a surrogate pair. -/
inductive Written where
  | null
  | bool (b : Bool)
  | number (n : Option Number)
  | string (s : Option String)
  | array (items : List Written)
  | object (entries : List (Option String × Written))

namespace Written

mutual
/-- Reads one value off the tokens. The first argument bounds the nesting of
calls, of which every token takes two at most. -/
def read? : Nat → List Token → Option (Written × List Token)
  | 0, _ => none
  | _ + 1, [] => none
  | fuel + 1, token :: rest =>
    match token with
    | .null => some (.null, rest)
    | .bool b => some (.bool b, rest)
    | .number n => some (.number n, rest)
    | .string s => some (.string s, rest)
    | .beginArray =>
      match rest with
      | .endArray :: rest => some (.array [], rest)
      | rest => readItems? fuel [] rest
    | .beginObject =>
      match rest with
      | .endObject :: rest => some (.object [], rest)
      | rest => readEntries? fuel [] rest
    | _ => none
termination_by structural fuel => fuel

/-- Reads the items of an array up to its end, put before `done` in reverse. -/
def readItems? : Nat → List Written → List Token → Option (Written × List Token)
  | 0, _, _ => none
  | fuel + 1, done, tokens =>
    match read? fuel tokens with
    | some (item, .comma :: rest) => readItems? fuel (item :: done) rest
    | some (item, .endArray :: rest) => some (.array (item :: done).reverse, rest)
    | _ => none
termination_by structural fuel => fuel

/-- Reads the entries of an object up to its end, put before `done` in reverse. -/
def readEntries? : Nat → List (Option String × Written) → List Token →
    Option (Written × List Token)
  | 0, _, _ => none
  | fuel + 1, done, tokens =>
    match tokens with
    | .string key :: .colon :: rest =>
      match read? fuel rest with
      | some (value, .comma :: rest) => readEntries? fuel ((key, value) :: done) rest
      | some (value, .endObject :: rest) =>
        some (.object ((key, value) :: done).reverse, rest)
      | _ => none
    | _ => none
termination_by structural fuel => fuel
end

/-- Takes a text apart. The whole text has to be one value. -/
def ofText? (text : String) : Option Written := do
  let tokens ← Token.ofText? text
  match read? (2 * tokens.length + 1) tokens with
  | some (written, []) => some written
  | _ => none

mutual
/-- The value that was written, if no string is without text, no number is
without value, and at most `depth` arrays and objects lie within each other. -/
def value? : Nat → Written → Option Value
  | _, .null => some .null
  | _, .bool b => some (.bool b)
  | _, .number n => n.map .number
  | _, .string s => s.map .string
  | 0, .array _ => none
  | depth + 1, .array items => (values? depth items).map .array
  | 0, .object _ => none
  | depth + 1, .object entries =>
    (entries? depth entries).map fun pairs => .object (Keyed.ofPairs pairs)
termination_by structural _ written => written

/-- The values of the items of an array. -/
def values? : Nat → List Written → Option (List Value)
  | _, [] => some []
  | depth, item :: rest =>
    match value? depth item, values? depth rest with
    | some v, some vs => some (v :: vs)
    | _, _ => none
termination_by structural _ items => items

/-- The entries of an object, with repeated keys. -/
def entries? : Nat → List (Option String × Written) → Option (List (String × Value))
  | _, [] => some []
  | depth, (key, item) :: rest =>
    match key, value? depth item, entries? depth rest with
    | some key, some v, some vs => some ((key, v) :: vs)
    | _, _, _ => none
termination_by structural _ entries => entries
end

/-- How deep arrays and objects may lie within each other where they are read. -/
def maxDepth : Nat := 127

end Written

mutual
/-- A value as it is written, each key once. -/
def Value.written : Value → Written
  | .null => .null
  | .bool b => .bool b
  | .number n => .number (some n)
  | .string s => .string (some s)
  | .array items => .array (Value.writtenItems items)
  | .object entries => .object (Value.writtenEntries entries)
termination_by structural v => v

/-- The items of an array as they are written. -/
def Value.writtenItems : List Value → List Written
  | [] => []
  | item :: rest => item.written :: Value.writtenItems rest
termination_by structural items => items

/-- The entries of an object as they are written. -/
def Value.writtenEntries : List (String × Value) → List (Option String × Written)
  | [] => []
  | (key, item) :: rest => (some key, item.written) :: Value.writtenEntries rest
termination_by structural entries => entries
end

/-- The value of a JSON text. -/
def Value.ofText? (text : String) : Option Value :=
  Written.ofText? text >>= Written.value? Written.maxDepth

end Schematic.Json
