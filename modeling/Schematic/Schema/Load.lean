import Schematic.Document.Decode
import Schematic.Schema.Alias
import Schematic.Schema.Basic
import Schematic.Text.Title

/-!
# Loading

Documents are loaded together into one schema: all of them are read before
anything is checked, models come before the types whose roles depend on them,
and of several declarations of one name the first one stays
(`Schema.nodup_names_of_ofDocuments`). A document may leave a name empty or refer
to a model that none declares; then there is no schema, but a `LoadError`.
-/

namespace Schematic

/-- What a document may leave without a name. -/
inductive Nameless where
  | model
  | field
  deriving DecidableEq, Repr

/-- Why documents do not make a schema. -/
inductive LoadError where
  /-- A text is no schema document. -/
  | malformed
  /-- A declaration has an empty name. -/
  | emptyName (what : Nameless)
  /-- A field refers to a model that is not declared. -/
  | danglingRelation (model field target : String)
  deriving DecidableEq, Repr

namespace LoadError

/-- The wording of an error. -/
def message : LoadError → String
  | malformed => "Invalid DMMF document"
  | emptyName .model => "The DMMF document contains a model without a name"
  | emptyName .field => "The DMMF document contains a field without a name"
  | danglingRelation model field target =>
    "Relation field `" ++ model ++ "." ++ field ++ "` points to `" ++ target ++
      "`, which is neither a model nor a composite type"

end LoadError

/-! ## Models -/

/-- Takes over a declared field. Keys, read-only fields, and those the database
fills in by itself are not updated. -/
def Field.ofDocument (f : Document.Field) : Except LoadError Field :=
  if f.name = "" then .error (.emptyName .field)
  else .ok {
    name := f.name
    type := f.type
    kind := f.kind
    isList := f.isList
    isRequired := f.isRequired
    updatable := !f.isId && !f.isReadOnly && !f.isUpdatedAt.getD false && !f.isGenerated.getD false
    title := Text.title f.name
    isId := f.isId
    isUnique := f.isUnique
    relationName := f.relationName }

/-- The name of the field that tells records apart: the one marked as the id,
else the first of the primary key, else the first unique one. -/
def Document.Model.idName (m : Document.Model) : Option String :=
  ((m.fields.find? (·.isId)).map (·.name)).or
    ((m.primaryKey.bind (·.fields.head?)).or
      ((m.fields.find? (·.isUnique)).map (·.name)))

/-- Takes over a declared model. -/
def Model.ofDocument (composite : Bool) (m : Document.Model) : Except LoadError Model :=
  if m.name = "" then .error (.emptyName .model)
  else do
    let fields ← m.fields.mapM Field.ofDocument
    return {
      name := m.name
      idName := m.idName
      fields := fields
      composite := composite
      documentation := m.documentation
      aliases := (m.documentation.map Alias.ofDocumentation).getD [] }

/-- The models and composite types a document declares, in order. -/
def Document.declaredModels (d : Document) : List (Bool × Document.Model) :=
  d.datamodel.models.map (false, ·) ++ d.datamodel.composites.map (true, ·)

/-- Of the items with one name the first. -/
def firstOfName {α : Type} (name : α → String) : List α → List α
  | [] => []
  | a :: rest => a :: (firstOfName name rest).filter (name · ≠ name a)

/-- Only one item of a name is left. -/
theorem nodup_firstOfName {α : Type} (name : α → String) (items : List α) :
    ((firstOfName name items).map name).Nodup := by
  induction items with
  | nil => exact List.nodup_nil
  | cons a rest ih =>
    rw [firstOfName, List.map_cons, List.nodup_cons]
    refine ⟨fun hmem => ?_, ih.sublist (List.filter_sublist.map name)⟩
    obtain ⟨b, hb, hname⟩ := List.mem_map.1 hmem
    exact of_decide_eq_true (List.mem_filter.1 hb).2 hname

/-- The relation fields of models that refer to no model among them. -/
def danglingRelations (models : List Model) : List LoadError :=
  models.flatMap fun m =>
    (m.relationFields.filter fun f => !models.any (·.name = f.type)).map fun f =>
      .danglingRelation m.name f.name f.type

/-- The models of all documents. -/
def loadModels (documents : List Document) : Except LoadError (List Model) := do
  let declared ← (documents.flatMap Document.declaredModels).mapM fun declaration =>
    Model.ofDocument declaration.1 declaration.2
  let models := firstOfName (·.name) declared
  match danglingRelations models with
  | [] => return models
  | error :: _ => throw error

/-! ## Types of the query interface -/

/-- Takes over a type reference, with the role of its name. -/
def TypeRef.ofDocument (isModel : String → Bool) (t : Document.TypeRef) : TypeRef where
  name := t.type
  location := t.location
  isList := t.isList
  role := .ofName t.type t.location (isModel t.type)

/-- Takes over an input field. -/
def InputField.ofDocument (isModel : String → Bool) (f : Document.InputField) : InputField where
  name := f.name
  isRequired := f.isRequired
  isNullable := f.isNullable
  inputTypes := f.inputTypes.map (TypeRef.ofDocument isModel)

/-- Takes over an input type. -/
def InputType.ofDocument (isModel : String → Bool) (origin : Origin) (t : Document.InputType) :
    InputType where
  name := t.name
  origin := origin
  fields := t.fields.map (InputField.ofDocument isModel)

/-- Takes over an output field, with its role on the type it belongs to. -/
def OutputField.ofDocument (isModel : String → Bool) (parent : OutputRole)
    (f : Document.OutputField) : OutputField :=
  let outputType := TypeRef.ofDocument isModel f.outputType
  { name := f.name
    args := f.args.map (InputField.ofDocument isModel)
    isNullable := f.isNullable
    outputType := outputType
    role := .ofField f.name outputType.role parent }

/-- Takes over an output type, with its role. -/
def OutputType.ofDocument (isModel : String → Bool) (origin : Origin) (t : Document.OutputType) :
    OutputType :=
  let role := OutputRole.ofName t.name (isModel t.name)
  { name := t.name
    origin := origin
    role := role
    fields := t.fields.map (OutputField.ofDocument isModel role) }

/-- Takes over an enum type. -/
def EnumType.ofDocument (origin : Origin) (t : Document.EnumType) : EnumType where
  name := t.name
  origin := origin
  values := t.values

/-- The declarations of one sort in a document, in a given order of origins. -/
def Document.Namespaced.inOrder {α β : Type} (f : Origin → α → β) (first second : Origin)
    (types : Document.Namespaced α) : List β :=
  let part (origin : Origin) := match origin with
    | .library => types.library.map (f .library)
    | .model => types.model.map (f .model)
  part first ++ part second

/-! ## Schemas -/

namespace Schema

/-- The schema of several documents. -/
def ofDocuments (documents : List Document) : Except LoadError Schema := do
  let models ← loadModels documents
  let modelEnums := documents.flatMap fun d => d.interface.enumTypes.model.map (·.name)
  let isModel (name : String) : Bool := models.any (·.name = name) || name ∈ modelEnums
  return {
    models := models
    modelEnums := modelEnums
    loadedInputs := firstOfName (·.name) (documents.flatMap fun d =>
      d.interface.inputTypes.inOrder (InputType.ofDocument isModel) .library .model)
    loadedOutputs := firstOfName (·.name) (documents.flatMap fun d =>
      d.interface.outputTypes.inOrder (OutputType.ofDocument isModel) .model .library)
    loadedEnums := firstOfName (·.name) (documents.flatMap fun d =>
      d.interface.enumTypes.inOrder EnumType.ofDocument .library .model) }

/-- A loaded schema has one model of a name. -/
theorem nodup_names_of_ofDocuments {documents : List Document} {schema : Schema}
    (h : ofDocuments documents = .ok schema) : (schema.models.map (·.name)).Nodup := by
  rw [ofDocuments] at h
  rcases hmodels : loadModels documents with error | models
  · rw [hmodels] at h
    cases h
  · rw [hmodels] at h
    cases h
    rw [loadModels] at hmodels
    rcases hdeclared : (documents.flatMap Document.declaredModels).mapM fun declaration =>
        Model.ofDocument declaration.1 declaration.2 with error | declared
    · rw [hdeclared] at hmodels
      cases hmodels
    · simp only [hdeclared, bind, Except.bind] at hmodels
      split at hmodels <;> cases hmodels
      exact nodup_firstOfName _ declared

/-- The schema of several document texts. -/
def load (texts : List String) : Except LoadError Schema :=
  match texts.mapM Document.ofText? with
  | some documents => ofDocuments documents
  | none => .error .malformed

end Schema

end Schematic
