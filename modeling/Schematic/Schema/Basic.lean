import Schematic.Schema.Naming

/-!
# Schemas

A schema is what several documents declare together. Models and types refer to
each other by name, and names are looked up in the schema; of each collection a
name belongs to one declaration only.
-/

namespace Schematic

/-! ## Models -/

/-- A field of a model. -/
structure Field where
  name : String
  /-- The name of a scalar, or of the model or enum referred to. -/
  type : String
  kind : FieldKind
  isList : Bool
  isRequired : Bool
  /-- Whether update operations may write the field. -/
  updatable : Bool
  /-- The heading the field is shown under. -/
  title : String
  isId : Bool
  isUnique : Bool
  relationName : Option String

namespace Field

/-- Whether the field refers to another model. -/
def isRelation (f : Field) : Bool :=
  f.kind == .object

/-- Whether the field refers to several records of another model. -/
def isListRelation (f : Field) : Bool :=
  f.isRelation && f.isList

end Field

/-- A model. Composite types, which lie inside the records of others, are models
too. -/
structure Model where
  name : String
  /-- The name of the field that tells records apart, if there is one. -/
  idName : Option String
  fields : List Field
  composite : Bool
  documentation : Option String
  /-- Other names the documentation gives. -/
  aliases : List String

namespace Model

/-- The field of a name. -/
def field? (m : Model) (name : String) : Option Field :=
  m.fields.find? (·.name = name)

/-- The field that tells records apart. -/
def idField? (m : Model) : Option Field :=
  m.idName.bind m.field?

/-- The fields that refer to other models. -/
def relationFields (m : Model) : List Field :=
  m.fields.filter (·.isRelation)

end Model

/-! ## Types of the query interface -/

/-- Who declares a type: the client library, or the data model. -/
inductive Origin where
  | library
  | model
  deriving DecidableEq, Repr

/-- A reference to a type. -/
structure TypeRef where
  name : String
  location : Location
  isList : Bool
  role : TypeRole

namespace TypeRef

/-- Whether the type is an input object. -/
def isInputObject (t : TypeRef) : Bool :=
  t.location == .inputObject

end TypeRef

/-- A field of an input type, or an argument of an output field. -/
structure InputField where
  name : String
  isRequired : Bool
  isNullable : Bool
  /-- The types accepted, in order of preference. -/
  inputTypes : List TypeRef

/-- An input object type. -/
structure InputType where
  name : String
  origin : Origin
  fields : List InputField

/-- A field of an output type. -/
structure OutputField where
  name : String
  args : List InputField
  isNullable : Bool
  outputType : TypeRef
  role : FieldRole

/-- An output object type. -/
structure OutputType where
  name : String
  origin : Origin
  role : OutputRole
  fields : List OutputField

namespace OutputType

/-- The field of a name. -/
def field? (t : OutputType) (name : String) : Option OutputField :=
  t.fields.find? (·.name = name)

end OutputType

/-- An enum type. -/
structure EnumType where
  name : String
  origin : Origin
  values : List String

/-! ## Schemas -/

/-- What several documents declare together, in the order of loading. -/
structure Schema where
  models : List Model
  /-- The names of the enums made from the data model. They count as models
  where types are named. -/
  modelEnums : List String
  loadedInputs : List InputType
  loadedOutputs : List OutputType
  loadedEnums : List EnumType

namespace Schema

/-- The model of a name. -/
def findModel? (s : Schema) (name : String) : Option Model :=
  s.models.find? (·.name = name)

/-- The model of a name, or else the first that has it as an alias. -/
def resolveModel? (s : Schema) (name : String) : Option Model :=
  (s.findModel? name).or (s.models.find? (name ∈ ·.aliases))

/-- Whether a name is one of a model or of an enum made from the data model. -/
def isModel (s : Schema) (name : String) : Bool :=
  s.models.any (·.name = name) || name ∈ s.modelEnums

/-- The field of a name on the model of a name. -/
def findField? (s : Schema) (model name : String) : Option Field :=
  (s.findModel? model).bind (·.field? name)

/-- The input type of a name. -/
def findInput? (s : Schema) (name : String) : Option InputType :=
  s.loadedInputs.find? (·.name = name)

/-- The output type of a name. -/
def findOutput? (s : Schema) (name : String) : Option OutputType :=
  s.loadedOutputs.find? (·.name = name)

/-- The enum type of a name. -/
def findEnum? (s : Schema) (name : String) : Option EnumType :=
  s.loadedEnums.find? (·.name = name)

/-- Items of one origin before those of the other, each in order of loading. -/
def byOrigin {α : Type} (origin : α → Origin) (first second : Origin) (items : List α) :
    List α :=
  items.filter (origin · = first) ++ items.filter (origin · = second)

/-- The input types, those of the library first. -/
def inputTypes (s : Schema) : List InputType :=
  byOrigin (·.origin) .library .model s.loadedInputs

/-- The output types, those of the data model first. -/
def outputTypes (s : Schema) : List OutputType :=
  byOrigin (·.origin) .model .library s.loadedOutputs

/-- The enum types, those of the library first. -/
def enumTypes (s : Schema) : List EnumType :=
  byOrigin (·.origin) .library .model s.loadedEnums

/-- The role of a type name in a place of this schema. -/
def roleOf (s : Schema) (name : String) (location : Location) : TypeRole :=
  .ofName name location (s.isModel name)

end Schema

end Schematic
