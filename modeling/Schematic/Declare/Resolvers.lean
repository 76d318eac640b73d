import Schematic.Declare.Vacuous
import Schematic.Text.Capital
import Schematic.Text.Paragraphs

/-!
# Resolver declarations

The types of the resolvers of a schema: an index of them, a map of members per
output type, an interface of arguments per field that takes any, an interface
per input type that is not vacuous, and the enums. They are put together as a
`ResolverFile` first; its text comes last.
-/

namespace Schematic

/-! ## Members -/

/-- The parent value that the resolvers of an output type receive. -/
inductive Parent where
  | none
  | batchPayload
  | client (name : String)
  | library (name : String)
  deriving DecidableEq, Repr

namespace Parent

/-- What the resolvers of an output type receive. -/
def ofOutput (output : OutputType) : Parent :=
  match output.role with
  | .operation _ => none
  | .affectedRows => batchPayload
  | .model => client output.name
  | _ => library output.name

/-- The text of a parent type. -/
def text : Parent → String
  | none => "\x7b\x7d"
  | batchPayload => "Client.Prisma.BatchPayload"
  | client name => "Client." ++ name
  | library name => "Client.Prisma." ++ name

end Parent

/-- What a resolver answers with. -/
inductive Answer where
  | value (type : ShownType) (nullable : Bool)
  | count
  deriving DecidableEq, Repr

namespace Answer

/-- The text of an answer's type. -/
def text : Answer → String
  | value type nullable => type.text ++ if nullable then " | null" else ""
  | count => "number"

end Answer

/-- The type of a member. -/
inductive MemberType where
  /-- A type referred to in an input. -/
  | shown (type : ShownType)
  /-- The input of an aggregate group of a model. -/
  | group (model name : String)
  /-- A resolver, with the interface of its arguments if it takes any. -/
  | resolver (parent : Parent) (args : Option String) (answer : Answer)
  /-- A resolver map of the same text. -/
  | resolvers (output : String)
  deriving DecidableEq, Repr

namespace MemberType

/-- The text of a member's type. -/
def text : MemberType → String
  | shown type => type.text
  | group model name => "Client.Prisma." ++ model ++ name ++ "AggregateInputType"
  | resolver parent args answer =>
    "Resolver<" ++ parent.text ++ ", " ++ args.getD "\x7b\x7d" ++ ", " ++ answer.text ++ ">"
  | resolvers output => output

end MemberType

/-- A member of an interface or object type. -/
structure Member where
  name : String
  optional : Bool
  nullable : Bool
  type : MemberType
  deriving DecidableEq, Repr

namespace Member

/-- The text of a member. -/
def text (m : Member) : String :=
  m.name ++ (if m.optional then "?" else "") ++ ": " ++ m.type.text ++
    if m.nullable then " | null" else ""

/-- The text of several members, each on its own line between braces. -/
def block (members : List Member) : String :=
  "\x7b\n" ++ String.join (members.map fun m => "  " ++ m.text ++ "\n") ++ "\x7d"

end Member

/-! ## Declarations -/

/-- A name with members: an interface, or the resolver map of an output type. -/
structure Members where
  name : String
  members : List Member
  deriving DecidableEq, Repr

/-- What any resolver is. -/
def anyResolver : String :=
  "\x7b [key: string]: Resolver<any, any, any> \x7d"

/-- The text of an interface. -/
def Members.interfaceText (m : Members) : String :=
  "export interface " ++ m.name ++ " " ++ Member.block m.members

/-- The text of a resolver map. -/
def Members.resolversText (m : Members) : String :=
  "export type " ++ m.name ++ " = " ++ anyResolver ++ " & " ++ Member.block m.members

/-- The text of an enum, every value of which stands for itself. -/
def EnumType.declaration (e : EnumType) : String :=
  "export enum " ++ e.name ++ " \x7b\n" ++
    String.join (e.values.map fun value => "  " ++ value ++ " = '" ++ value ++ "',\n") ++ "\x7d"

/-- The declarations for the resolvers of a schema. -/
structure ResolverFile where
  clientImport : String
  contextImport : String
  /-- The output types, in the order of their resolver maps. -/
  resolvers : List Members
  args : List Members
  inputs : List Members
  enums : List EnumType

namespace ResolverFile

/-! ## The file of a schema -/

/-- The name of the interface of a field's arguments, if it takes any. Those of
operations go without the name of their root. -/
def argsName? (output : OutputType) (field : OutputField) : Option String :=
  if field.args.isEmpty then none
  else
    let owner := if output.role.isOperation then "" else output.name
    some (owner ++ String.ofList (Text.capitalize field.name.toList) ++ "Args")

/-- The members of a resolver map for a field: its resolver, and its count for a
search for several records. -/
def resolverMembers (config : Config) (output : OutputType) (field : OutputField) :
    List Member :=
  let resolver (name : String) (answer : Answer) : Member :=
    ⟨name, true, false, .resolver (.ofOutput output) (argsName? output field) answer⟩
  let own := resolver field.name (.value (.ofType config .output field.outputType) field.isNullable)
  if field.role = .findMany then [own, resolver (field.name ++ "Count") .count] else [own]

/-- The resolver map of an output type. -/
def resolverMap (config : Config) (output : OutputType) : Members :=
  ⟨output.name, output.fields.flatMap (resolverMembers config output)⟩

/-- The member for an input field, unless there is no type or no value for it. -/
def inputMember (schema : Schema) (config : Config) (field : InputField) :
    Check (Option Member) :=
  match field.shownType? config with
  | none => return none
  | some t => do
    if ← Check.isOmitted schema config t then return none
    return some ⟨field.name, !field.isRequired, field.isNullable, .shown (.ofType config .input t)⟩

/-- The members for several input fields. -/
def inputMembers (schema : Schema) (config : Config) (fields : List InputField) :
    Check (List Member) := do
  let members ← fields.mapM (inputMember schema config)
  return members.filterMap id

/-- The member for a group of an aggregate result. -/
def groupMember (model : String) (group : OutputField) : Member :=
  let name := String.ofList (Text.capitalize (group.name.toList.erase '_'))
  ⟨group.name, true, false, .group model name⟩

/-- The members for the groups a field aggregates, if it does. -/
def groupMembers (schema : Schema) (field : OutputField) : List Member :=
  match field.role with
  | .aggregate model =>
    match schema.findOutput? field.outputType.name with
    | some output => output.fields.map (groupMember model)
    | none => []
  | _ => []

/-- The interface of a field's arguments, if it takes any. -/
def argsInterface (schema : Schema) (config : Config) (output : OutputType)
    (field : OutputField) : Check (Option Members) :=
  match argsName? output field with
  | none => return none
  | some name => do
    let members ← inputMembers schema config field.args
    return some ⟨name, members ++ groupMembers schema field⟩

/-- The interface of an input type, unless it is vacuous. -/
def inputInterface (schema : Schema) (config : Config) (input : InputType) :
    Check (Option Members) := do
  if ← Check.isVacuous schema config input.name then return none
  return some ⟨input.name, ← inputMembers schema config input.fields⟩

/-- The fields of all output types, each with its type. -/
def outputFields (schema : Schema) : List (OutputType × OutputField) :=
  schema.outputTypes.flatMap fun output => output.fields.map (output, ·)

/-- The interfaces of arguments and of inputs. -/
def interfaces (schema : Schema) (config : Config) : Check (List Members × List Members) := do
  let args ← (outputFields schema).mapM fun (output, field) =>
    argsInterface schema config output field
  let inputs ← schema.inputTypes.mapM (inputInterface schema config)
  return (args.filterMap id, inputs.filterMap id)

/-- The declarations for the resolvers of a schema. -/
def ofSchema (schema : Schema) (config : Config) : ResolverFile :=
  let (args, inputs) := (interfaces schema config).answer
  { clientImport := config.clientImport
    contextImport := config.contextImport
    resolvers := schema.outputTypes.map (resolverMap config)
    args := args
    inputs := inputs
    enums := schema.enumTypes }

/-! ## Its text -/

/-- The imports, and what a resolver is. -/
def header (file : ResolverFile) : String :=
  "import * as Client from '" ++ file.clientImport ++ "'\n" ++
  "import \x7b Context \x7d from '" ++ file.contextImport ++ "'\n" ++
  "import \x7b GraphQLResolveInfo \x7d from 'graphql'\n" ++
  "\n" ++
  "type Resolver<T extends \x7b\x7d, A extends \x7b\x7d, R extends any> = (\n" ++
  "  parent: T,\n" ++
  "  args: A,\n" ++
  "  context: Context,\n" ++
  "  info: GraphQLResolveInfo,\n" ++
  ") => Promise<R>"

/-- The member of the index for a resolver map. -/
def indexMember (resolvers : Members) : Member :=
  ⟨resolvers.name, true, false, .resolvers resolvers.name⟩

/-- The index of the resolver maps. -/
def index (file : ResolverFile) : String :=
  "export type Resolvers = \x7b\n" ++
  "  [key: string]: " ++ anyResolver ++ "\n" ++
  "\x7d & " ++ Member.block (file.resolvers.map indexMember)

/-- The text of the declarations. -/
def text (file : ResolverFile) : String :=
  Text.paragraphs [
    file.header,
    file.index,
    Text.paragraphs (file.resolvers.map Members.resolversText),
    Text.paragraphs (file.args.map Members.interfaceText),
    Text.paragraphs (file.inputs.map Members.interfaceText),
    Text.paragraphs (file.enums.map EnumType.declaration)] ++ "\n"

end ResolverFile

end Schematic
