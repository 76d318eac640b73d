import Schematic.Json.Value

/-!
# Schema documents

A document describes a data model and the types of the query interface made
from it. Its data model half lists models, composite types and enums; its
interface half lists input types, output types and enums, each split into those
the client library brings along and those made from the models.

These are the declarations as they stand in one document. Names are only names
here: which of them are known is settled when documents are loaded together.
-/

namespace Schematic

/-- What a model's field holds. -/
inductive FieldKind where
  | scalar
  | object
  | enumeration
  | unsupported
  deriving DecidableEq, Repr

/-- Where a referenced type is declared. -/
inductive Location where
  | scalar
  | inputObject
  | outputObject
  | enumeration
  | fieldReference
  deriving DecidableEq, Repr

namespace Document

/-! ## The data model -/

/-- A field of a model, as declared. -/
structure Field where
  name : String
  dbName : Option String
  kind : FieldKind
  isList : Bool
  isRequired : Bool
  isUnique : Bool
  isId : Bool
  isReadOnly : Bool
  hasDefaultValue : Bool
  /-- The name of a scalar, or of the model or enum referred to. -/
  type : String
  relationName : Option String
  relationFromFields : Option (List String)
  relationToFields : Option (List String)
  isGenerated : Option Bool
  isUpdatedAt : Option Bool
  documentation : Option String

/-- The key of a model that is made of several fields. -/
structure PrimaryKey where
  name : Option String
  fields : List String

/-- A model or composite type, as declared. -/
structure Model where
  name : String
  dbName : Option String
  fields : List Field
  primaryKey : Option PrimaryKey
  uniqueFields : List (List String)
  isGenerated : Option Bool
  documentation : Option String

/-- One value of a data model enum. -/
structure EnumValue where
  name : String
  dbName : Option String

/-- An enum of the data model. -/
structure Enum where
  name : String
  values : List EnumValue
  dbName : Option String
  documentation : Option String

/-- The data model half of a document. -/
structure Datamodel where
  enums : List Enum
  models : List Model
  /-- Composite types: documents embedded in the records of a model. -/
  composites : List Model

/-! ## The query interface -/

/-- A reference to a type by name. -/
structure TypeRef where
  type : String
  location : Location
  isList : Bool

/-- A field of an input type, or an argument of an output field. -/
structure InputField where
  name : String
  isRequired : Bool
  isNullable : Bool
  /-- The types accepted, in order of preference. -/
  inputTypes : List TypeRef

/-- An input object type. -/
structure InputType where
  name : String
  fields : List InputField

/-- A field of an output type. -/
structure OutputField where
  name : String
  args : List InputField
  isNullable : Bool
  outputType : TypeRef

/-- An output object type. -/
structure OutputType where
  name : String
  fields : List OutputField

/-- An enum of the query interface. -/
structure EnumType where
  name : String
  values : List String

/-- Declarations of one sort: those the client library brings along, and those
made from the data model. -/
structure Namespaced (α : Type) where
  library : List α
  model : List α

/-- The query interface half of a document. -/
structure Interface where
  inputTypes : Namespaced InputType
  outputTypes : Namespaced OutputType
  enumTypes : Namespaced EnumType

end Document

/-- A schema document. -/
structure Document where
  datamodel : Document.Datamodel
  interface : Document.Interface
  /-- How models map to operations: free-form, and not looked into. -/
  mappings : Option Json.Value

end Schematic
