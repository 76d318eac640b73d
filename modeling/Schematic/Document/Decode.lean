import Schematic.Document.Basic
import Schematic.Json.Decode

/-!
# Reading schema documents

Which fields a declaration has to have, and what stands for those it may leave
out. A declaration that is not of its form makes the whole document unreadable.
-/

namespace Schematic

open Json (Decoder Fields)

/-- The written names of the kinds of fields. -/
def FieldKind.names : Keyed FieldKind :=
  [("scalar", .scalar), ("object", .object), ("enum", .enumeration),
   ("unsupported", .unsupported)]

/-- The written names of the locations. -/
def Location.names : Keyed Location :=
  [("scalar", .scalar), ("inputObjectTypes", .inputObject),
   ("outputObjectTypes", .outputObject), ("enumTypes", .enumeration),
   ("fieldRefTypes", .fieldReference)]

namespace Document

/-- A field is an optional flag that is off if it is missing, but never null. -/
def flag (fields : Fields) (name : String) : Option Bool :=
  fields.optional name false .bool

/-! ## The data model -/

/-- Reads a field of a model. -/
def Field.decode : Decoder Field := fun depth w => do
  let fields ← Fields.ofWritten?
    ["name", "dbName", "kind", "isList", "isRequired", "isUnique", "isId", "isReadOnly",
     "hasDefaultValue", "type", "relationName", "relationFromFields", "relationToFields",
     "isGenerated", "isUpdatedAt", "documentation"] depth w
  return {
    name := ← fields.required "name" .string
    dbName := ← fields.nullable "dbName" .string
    kind := ← fields.required "kind" (.oneOf FieldKind.names)
    isList := ← fields.required "isList" .bool
    isRequired := ← fields.required "isRequired" .bool
    isUnique := ← flag fields "isUnique"
    isId := ← flag fields "isId"
    isReadOnly := ← flag fields "isReadOnly"
    hasDefaultValue := ← flag fields "hasDefaultValue"
    type := ← fields.required "type" .string
    relationName := ← fields.nullable "relationName" .string
    relationFromFields := ← fields.nullable "relationFromFields" (.list .string)
    relationToFields := ← fields.nullable "relationToFields" (.list .string)
    isGenerated := ← fields.nullable "isGenerated" .bool
    isUpdatedAt := ← fields.nullable "isUpdatedAt" .bool
    documentation := ← fields.nullable "documentation" .string }

/-- Reads a primary key. -/
def PrimaryKey.decode : Decoder PrimaryKey := fun depth w => do
  let fields ← Fields.ofWritten? ["name", "fields"] depth w
  return {
    name := ← fields.nullable "name" .string
    fields := ← fields.required "fields" (.list .string) }

/-- Reads a model or composite type. -/
def Model.decode : Decoder Model := fun depth w => do
  let fields ← Fields.ofWritten?
    ["name", "dbName", "fields", "primaryKey", "uniqueFields", "isGenerated",
     "documentation"] depth w
  return {
    name := ← fields.required "name" .string
    dbName := ← fields.nullable "dbName" .string
    fields := ← fields.required "fields" (.list Field.decode)
    primaryKey := ← fields.nullable "primaryKey" PrimaryKey.decode
    uniqueFields := ← fields.optional "uniqueFields" [] (.list (.list .string))
    isGenerated := ← fields.nullable "isGenerated" .bool
    documentation := ← fields.nullable "documentation" .string }

/-- Reads a value of a data model enum. -/
def EnumValue.decode : Decoder EnumValue := fun depth w => do
  let fields ← Fields.ofWritten? ["name", "dbName"] depth w
  return {
    name := ← fields.required "name" .string
    dbName := ← fields.nullable "dbName" .string }

/-- Reads an enum of the data model. -/
def Enum.decode : Decoder Enum := fun depth w => do
  let fields ← Fields.ofWritten? ["name", "values", "dbName", "documentation"] depth w
  return {
    name := ← fields.required "name" .string
    values := ← fields.required "values" (.list EnumValue.decode)
    dbName := ← fields.nullable "dbName" .string
    documentation := ← fields.nullable "documentation" .string }

/-- Reads the data model half. -/
def Datamodel.decode : Decoder Datamodel := fun depth w => do
  let fields ← Fields.ofWritten? ["enums", "models", "types"] depth w
  return {
    enums := ← fields.optional "enums" [] (.list Enum.decode)
    models := ← fields.required "models" (.list Model.decode)
    composites := ← fields.optional "types" [] (.list Model.decode) }

/-! ## The query interface -/

/-- Reads a type reference. Its namespace is checked, and not kept. -/
def TypeRef.decode : Decoder TypeRef := fun depth w => do
  let fields ← Fields.ofWritten? ["type", "namespace", "location", "isList"] depth w
  let _ ← fields.nullable "namespace" .string
  return {
    type := ← fields.required "type" .string
    location := ← fields.required "location" (.oneOf Location.names)
    isList := ← flag fields "isList" }

/-- Reads an input field. -/
def InputField.decode : Decoder InputField := fun depth w => do
  let fields ← Fields.ofWritten? ["name", "isRequired", "isNullable", "inputTypes"] depth w
  return {
    name := ← fields.required "name" .string
    isRequired := ← flag fields "isRequired"
    isNullable := ← flag fields "isNullable"
    inputTypes := ← fields.required "inputTypes" (.list TypeRef.decode) }

/-- Reads an input type. -/
def InputType.decode : Decoder InputType := fun depth w => do
  let fields ← Fields.ofWritten? ["name", "fields"] depth w
  return {
    name := ← fields.required "name" .string
    fields := ← fields.required "fields" (.list InputField.decode) }

/-- Reads an output field. -/
def OutputField.decode : Decoder OutputField := fun depth w => do
  let fields ← Fields.ofWritten? ["name", "args", "isNullable", "outputType"] depth w
  return {
    name := ← fields.required "name" .string
    args := ← fields.optional "args" [] (.list InputField.decode)
    isNullable := ← fields.required "isNullable" .bool
    outputType := ← fields.required "outputType" TypeRef.decode }

/-- Reads an output type. -/
def OutputType.decode : Decoder OutputType := fun depth w => do
  let fields ← Fields.ofWritten? ["name", "fields"] depth w
  return {
    name := ← fields.required "name" .string
    fields := ← fields.required "fields" (.list OutputField.decode) }

/-- Reads an enum of the query interface. -/
def EnumType.decode : Decoder EnumType := fun depth w => do
  let fields ← Fields.ofWritten? ["name", "values"] depth w
  return {
    name := ← fields.required "name" .string
    values := ← fields.required "values" (.list .string) }

/-- Reads declarations of one sort; those made from the data model may be missing. -/
def Namespaced.decode {α : Type} (d : Decoder α) : Decoder (Namespaced α) := fun depth w => do
  let fields ← Fields.ofWritten? ["prisma", "model"] depth w
  return {
    library := ← fields.required "prisma" (.list d)
    model := ← fields.optional "model" [] (.list d) }

/-- Reads the query interface half. -/
def Interface.decode : Decoder Interface := fun depth w => do
  let fields ← Fields.ofWritten?
    ["inputObjectTypes", "outputObjectTypes", "enumTypes"] depth w
  return {
    inputTypes := ← fields.required "inputObjectTypes" (Namespaced.decode InputType.decode)
    outputTypes := ← fields.required "outputObjectTypes" (Namespaced.decode OutputType.decode)
    enumTypes := ← fields.required "enumTypes" (Namespaced.decode EnumType.decode) }

/-- Reads a document. -/
def decode : Decoder Document := fun depth w => do
  let fields ← Fields.ofWritten? ["datamodel", "schema", "mappings"] depth w
  return {
    datamodel := ← fields.required "datamodel" Datamodel.decode
    interface := ← fields.required "schema" Interface.decode
    mappings := ← fields.nullable "mappings" .value }

/-- The document of a JSON text. -/
def ofText? (text : String) : Option Document :=
  decode.ofText? text

end Document

end Schematic
