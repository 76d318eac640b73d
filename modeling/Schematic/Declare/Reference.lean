import Schematic.Declare.Config
import Schematic.Schema.Basic

/-!
# References to types

Of the types an input field accepts, declarations show one. How a type is then
referred to depends on its role and on the position: inputs are declared in the
generated text itself, and outputs by the client.
-/

namespace Schematic

namespace InputField

/-- The end of the names of inputs that wrap a value in update operations. -/
def updateOperationsEnd : String := "FieldUpdateOperationsInput"

/-- Which of the types a field accepts it is declared with. The second one is
preferred to the first if it is an input object, a list or any JSON, unless it
wraps updates and plain values are wanted. -/
def shownIndex (config : Config) (field : InputField) : Nat :=
  match field.inputTypes[1]? with
  | none => 0
  | some second =>
    if config.plainUpdates && Text.hasEnd updateOperationsEnd second.name then 0
    else if second.isInputObject || second.isList || second.name = "Json" then 1
    else 0

/-- The type a field is declared with, if it accepts any. -/
def shownType? (config : Config) (field : InputField) : Option TypeRef :=
  field.inputTypes[field.shownIndex config]?

end InputField

/-- Where a type is referred to. -/
inductive Position where
  | input
  | output
  deriving DecidableEq, Repr

/-- How a type is referred to. -/
inductive Reference where
  /-- A scalar, as it is rendered. -/
  | scalar (rendered : String)
  /-- The aggregate result of a model, by the arguments it is asked for with. -/
  | aggregate (model typeName : String) (position : Position)
  | batchPayload (position : Position)
  /-- A type of the client library. -/
  | library (name : String)
  /-- A type the client has for a model. -/
  | client (name : String)
  /-- A type declared in the same text. -/
  | declared (name : String)
  deriving DecidableEq, Repr

namespace Reference

/-- How a type is referred to in a position. -/
def ofType (config : Config) (position : Position) (t : TypeRef) : Reference :=
  match t.role, position with
  | .scalar, _ => .scalar (config.scalar t.name)
  | .aggregate model, _ => .aggregate model t.name position
  | .affectedRows, _ => .batchPayload position
  | .library, .output => .library t.name
  | .model, .output => .client t.name
  | .library, .input => .declared t.name
  | .model, .input => .declared t.name

/-- The client's namespace, which outputs are looked up in. -/
def clientStart : Position → String
  | .input => ""
  | .output => "Client."

/-- The text of a reference. -/
def text : Reference → String
  | scalar rendered => rendered
  | aggregate model typeName position =>
    clientStart position ++ "Prisma.Get" ++ model ++ "AggregateType<" ++ typeName ++ "Args>"
  | batchPayload position => clientStart position ++ "Prisma.BatchPayload"
  | library name => "Client.Prisma." ++ name
  | client name => "Client." ++ name
  | declared name => name

end Reference

/-- A reference to a type or to lists of it. -/
structure ShownType where
  reference : Reference
  isList : Bool
  deriving DecidableEq, Repr

namespace ShownType

/-- A type as it is referred to in a position. -/
def ofType (config : Config) (position : Position) (t : TypeRef) : ShownType :=
  ⟨.ofType config position t, t.isList⟩

/-- The text of a type. -/
def text (t : ShownType) : String :=
  t.reference.text ++ if t.isList then "[]" else ""

end ShownType

end Schematic
