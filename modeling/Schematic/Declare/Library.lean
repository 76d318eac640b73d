import Schematic.Declare.Vacuous
import Schematic.Schema.Load
import Schematic.Text.Paragraphs

/-!
# Library declarations

What a server has to register beside its own model types, in the schema
definition language: custom scalars, the batch payload, enums, input types that
are not vacuous, and the output types of the library. They are put together as
a `LibraryFile` first; its text comes last.
-/

namespace Schematic

/-! ## Fields -/

/-- A type as it is referred to. -/
structure SdlType where
  name : String
  isList : Bool
  deriving DecidableEq, Repr

namespace SdlType

/-- The name of the result of operations on many records. -/
def batchPayload : String := "BatchPayload"

/-- A type as it is referred to. -/
def ofType (t : TypeRef) : SdlType :=
  ⟨if t.role = .affectedRows then batchPayload else t.name, t.isList⟩

/-- The text of a type; the items of a list are never null. -/
def text (t : SdlType) : String :=
  if t.isList then "[" ++ t.name ++ "!]" else t.name

end SdlType

/-- A field of an input type, or an argument. -/
structure SdlInput where
  name : String
  type : SdlType
  required : Bool
  deriving DecidableEq, Repr

namespace SdlInput

/-- The text of an input field. -/
def text (f : SdlInput) : String :=
  f.name ++ ": " ++ f.type.text ++ if f.required then "!" else ""

end SdlInput

/-- A field of an output type. -/
structure SdlOutput where
  name : String
  args : List SdlInput
  type : SdlType
  required : Bool
  deriving DecidableEq, Repr

namespace SdlOutput

/-- The text of an output field. -/
def text (f : SdlOutput) : String :=
  let args := if f.args.isEmpty then ""
    else "(" ++ ", ".intercalate (f.args.map SdlInput.text) ++ ")"
  f.name ++ args ++ ": " ++ f.type.text ++ if f.required then "!" else ""

end SdlOutput

/-- A name with fields. -/
structure SdlBlock (α : Type) where
  name : String
  fields : List α
  deriving DecidableEq, Repr

namespace SdlBlock

/-- The text of a block: its lines between braces. -/
def text {α : Type} (keyword : String) (line : α → String) (b : SdlBlock α) : String :=
  keyword ++ " " ++ b.name ++ " \x7b\n" ++
    "\n".intercalate (b.fields.map fun field => "  " ++ line field) ++ "\n\x7d"

end SdlBlock

/-- The declarations a server registers beside its own. -/
structure LibraryFile where
  scalars : List String
  enums : List (SdlBlock String)
  inputs : List (SdlBlock SdlInput)
  outputs : List (SdlBlock SdlOutput)

namespace LibraryFile

/-! ## The file of a schema -/

/-- The scalars that need no declaration. -/
def builtinScalars : List String :=
  ["Int", "Float", "String", "Boolean", "ID"]

/-- The scalar a type mentions, if it has to be declared. -/
def mentioned (t : TypeRef) : List String :=
  if t.location = .scalar ∧ t.name ∉ builtinScalars then [t.name] else []

/-- A field together with the scalars it mentions. -/
abbrev Mentioning (α : Type) := α × List String

/-- The field for an input field, unless there is no type or no value for it. -/
def inputField (schema : Schema) (config : Config) (field : InputField) :
    Check (Option (Mentioning SdlInput)) :=
  match field.shownType? config with
  | none => return none
  | some t => do
    if ← Check.isOmitted schema config t then return none
    return some (⟨field.name, .ofType t, field.isRequired⟩, mentioned t)

/-- The fields for several input fields. -/
def inputFields (schema : Schema) (config : Config) (fields : List InputField) :
    Check (Mentioning (List SdlInput)) := do
  let shown := (← fields.mapM (inputField schema config)).filterMap id
  return (shown.map Prod.fst, shown.flatMap Prod.snd)

/-- The field for an output field. It mentions its arguments' scalars first. -/
def outputField (schema : Schema) (config : Config) (field : OutputField) :
    Check (Mentioning SdlOutput) := do
  let (args, scalars) ← inputFields schema config field.args
  return (⟨field.name, args, .ofType field.outputType, !field.isNullable⟩,
    scalars ++ mentioned field.outputType)

/-- The block of an input type, unless it is vacuous. -/
def inputBlock (schema : Schema) (config : Config) (input : InputType) :
    Check (Option (Mentioning (SdlBlock SdlInput))) := do
  if ← Check.isVacuous schema config input.name then return none
  let (fields, scalars) ← inputFields schema config input.fields
  return some (⟨input.name, fields⟩, scalars)

/-- The block of an output type. -/
def outputBlock (schema : Schema) (config : Config) (output : OutputType) :
    Check (Mentioning (SdlBlock SdlOutput)) := do
  let fields ← output.fields.mapM (outputField schema config)
  return (⟨output.name, fields.map Prod.fst⟩, fields.flatMap Prod.snd)

/-- Whether an output type is declared here: aggregates, group-by results, and
what else the library brings along. -/
def isDeclared (output : OutputType) : Bool :=
  match output.role with
  | .aggregate _ => true
  | .groupBy _ => true
  | .library => true
  | _ => false

/-- The blocks of inputs and of outputs. -/
def blocks (schema : Schema) (config : Config) :
    Check (List (Mentioning (SdlBlock SdlInput)) × List (Mentioning (SdlBlock SdlOutput))) := do
  let inputs ← schema.inputTypes.mapM (inputBlock schema config)
  let outputs ← (schema.outputTypes.filter isDeclared).mapM (outputBlock schema config)
  return (inputs.filterMap id, outputs)

/-- The declarations a server registers beside its own. A scalar is declared
where it is first mentioned, inputs coming before outputs. -/
def ofSchema (schema : Schema) (config : Config) : LibraryFile :=
  let (inputs, outputs) := (blocks schema config).answer
  { scalars := firstOfName id (inputs.flatMap Prod.snd ++ outputs.flatMap Prod.snd)
    enums := schema.enumTypes.map fun e => ⟨e.name, e.values⟩
    inputs := inputs.map Prod.fst
    outputs := outputs.map Prod.fst }

/-! ## Its text -/

/-- The batch payload. -/
def payload : SdlBlock String :=
  ⟨SdlType.batchPayload, ["count: Int!"]⟩

/-- The text of the declarations. -/
def text (file : LibraryFile) : String :=
  Text.paragraphs [
    "\n".intercalate (file.scalars.map ("scalar " ++ ·)),
    payload.text "type" id,
    Text.paragraphs (file.enums.map (·.text "enum" id)),
    Text.paragraphs (file.inputs.map (·.text "input" SdlInput.text)),
    Text.paragraphs (file.outputs.map (·.text "type" SdlOutput.text))] ++ "\n"

end LibraryFile

end Schematic
