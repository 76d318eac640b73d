import Mathlib.Data.List.Infix
import Schematic.Declare.Reference
import Schematic.Proofs.Blog
import Schematic.Proofs.Kept

/-!
# Types by their names alone

How a type is referred to depends on the role it got when its schema was loaded, while the
schema was not complete. The same text comes of the name itself (`directText`), when it is
put to the tests one after the other and the documents are asked last, all of them
(`ShownType.text_ofType_eq_directText`).
-/

namespace Schematic

/-! ## The rest behind a start -/

/-- Cutting off a start is a test for it, and then dropping as many characters. -/
theorem Text.afterStart?_eq (start text : String) :
    afterStart? start text =
      if hasStart start text then some (String.ofList (text.toList.drop start.toList.length))
      else none := by
  have hsome := List.isSome_isPrefixOf?_eq_isPrefixOf start.toList text.toList
  rw [afterStart?, hasStart, ← hsome]
  cases h : start.toList.isPrefixOf? text.toList with
  | none => rfl
  | some rest =>
    rw [← List.isPrefixOf?_eq_some_iff_append_eq.1 h, List.drop_left]
    rfl

/-! ## The tests of a name -/

/-- Some document declares a model or composite type of the name, or makes an enum of it
from its data model. -/
def IsDeclared (documents : List Document) (name : String) : Prop :=
  ∃ d ∈ documents, d.DeclaresModel name ∨ d.DeclaresModelEnum name

instance (documents : List Document) : DecidablePred (IsDeclared documents) :=
  fun _ => inferInstanceAs (Decidable (∃ _ ∈ _, _))

/-- A scalar is rendered as configured, else as usual, else as anything. -/
def directScalar (config : Config) (name : String) : String :=
  match Keyed.get? name config.scalars with
  | some configured => configured
  | none =>
    match Keyed.get? name Config.usualScalars with
    | some usual => usual
    | none => "any"

/-- The text for a name in a place, by the name alone. -/
def directName (documents : List Document) (config : Config) (position : Position)
    (name : String) (location : Location) : String :=
  let client := if position = .output then "Client." else ""
  if location = .scalar then directScalar config name
  else if Text.hasStart "Aggregate" name then
    let model := String.ofList (name.toList.drop "Aggregate".length)
    client ++ "Prisma.Get" ++ model ++ "AggregateType<" ++ name ++ "Args>"
  else if name = "AffectedRowsOutput" then client ++ "Prisma.BatchPayload"
  else if position = .input then name
  else if IsDeclared documents name then "Client." ++ name
  else "Client.Prisma." ++ name

/-- The text for a reference to a type, by the name alone. -/
def directText (documents : List Document) (config : Config) (position : Position)
    (name : String) (location : Location) (isList : Bool) : String :=
  directName documents config position name location ++ if isList then "[]" else ""

/-- The role of a name, test by test. -/
theorem TypeRole.ofName_eq (name : String) (location : Location) (isModel : Bool) :
    ofName name location isModel =
      if location = .scalar then .scalar
      else if Text.hasStart "Aggregate" name then
        .aggregate (String.ofList (name.toList.drop "Aggregate".length))
      else if name = "AffectedRowsOutput" then .affectedRows
      else if isModel then .model
      else .library := by
  rw [ofName, Text.afterStart?_eq]
  congr 1
  cases hstart : Text.hasStart aggregateStart name with
  | true => exact (if_pos hstart).symm
  | false => exact (if_neg (ne_true_of_eq_false hstart)).symm

/-- The settings come first, then what is usual. -/
theorem Config.scalar_eq_directScalar (config : Config) (name : String) :
    config.scalar name = directScalar config name := by
  rw [scalar, directScalar]
  cases Keyed.get? name config.scalars with
  | some configured => rfl
  | none => cases Keyed.get? name usualScalars <;> rfl

/-! ## Stored references -/

/-- The reference is stored in the schema: with a field of an input type, as the type of an
output field, or with one of its arguments. -/
inductive Schema.Stores (schema : Schema) : TypeRef → Prop
  | input {input : InputType} {field : InputField} {t : TypeRef}
      (hinput : input ∈ schema.inputTypes) (hfield : field ∈ input.fields)
      (ht : t ∈ field.inputTypes) : Stores schema t
  | output {output : OutputType} {field : OutputField} (houtput : output ∈ schema.outputTypes)
      (hfield : field ∈ output.fields) : Stores schema field.outputType
  | arg {output : OutputType} {field : OutputField} {arg : InputField} {t : TypeRef}
      (houtput : output ∈ schema.outputTypes) (hfield : field ∈ output.fields)
      (harg : arg ∈ field.args) (ht : t ∈ arg.inputTypes) : Stores schema t

/-- Wherever a reference is stored, it was classified as it was taken over. -/
theorem Schema.LoadedFrom.classified_of_stores {documents : List Document} {schema : Schema}
    (h : LoadedFrom documents schema) {t : TypeRef} (ht : schema.Stores t) :
    t.Classified schema := by
  cases ht with
  | input hinput hfield ht => exact h.classified_input hinput _ hfield t ht
  | output houtput hfield => exact (h.classified_output houtput _ hfield).1
  | arg houtput hfield harg ht => exact (h.classified_output houtput _ hfield).2 _ harg t ht

/-! ## References -/

section References

variable {documents : List Document} {schema : Schema} {t : TypeRef}

theorem Reference.text_ofType_eq_directName (h : t.Classified schema)
    (hmodel : schema.isModel t.name ↔ IsDeclared documents t.name) (config : Config)
    (position : Position) :
    (ofType config position t).text = directName documents config position t.name t.location := by
  have hrole : t.role = .ofName t.name t.location (schema.isModel t.name) := h
  rw [TypeRole.ofName_eq] at hrole
  rw [directName]
  by_cases hplace : t.location = .scalar
  · rw [if_pos hplace] at hrole ⊢
    rw [← Config.scalar_eq_directScalar]
    simp only [ofType, hrole, text]
  rw [if_neg hplace] at hrole ⊢
  by_cases haggregate : Text.hasStart "Aggregate" t.name
  · rw [if_pos haggregate] at hrole ⊢
    simp only [ofType, hrole, text]
    cases position <;> rfl
  rw [if_neg haggregate] at hrole ⊢
  by_cases hrows : t.name = "AffectedRowsOutput"
  · rw [if_pos hrows] at hrole ⊢
    simp only [ofType, hrole, text]
    cases position <;> rfl
  rw [if_neg hrows] at hrole ⊢
  cases position with
  | input =>
    -- In inputs it does not matter whose type it is.
    by_cases hdeclared : schema.isModel t.name
    · rw [if_pos hdeclared] at hrole
      simp only [ofType, hrole, text, if_true]
    · rw [if_neg hdeclared] at hrole
      simp only [ofType, hrole, text, if_true]
  | output =>
    rw [if_neg (by decide)]
    by_cases hdeclared : schema.isModel t.name
    · rw [if_pos hdeclared] at hrole
      rw [if_pos (hmodel.1 hdeclared)]
      simp only [ofType, hrole, text]
    · rw [if_neg hdeclared] at hrole
      rw [if_neg (mt hmodel.2 hdeclared)]
      simp only [ofType, hrole, text]

/-- **Roles refine the tests of a name.** In any position, the text for a reference that a
loaded schema stores is what its name, its place and whether it is a list give away when
they are looked at directly, with all loaded documents at hand. -/
theorem ShownType.text_ofType_eq_directText (hload : Schema.ofDocuments documents = .ok schema)
    (ht : schema.Stores t) (config : Config) (position : Position) :
    (ofType config position t).text =
      directText documents config position t.name t.location t.isList := by
  have h := Schema.loadedFrom_of_ofDocuments hload
  have hname := Reference.text_ofType_eq_directName (h.classified_of_stores ht)
    (h.isModel_iff t.name) config position
  rw [text, directText, ← hname]
  rfl

end References

/-! ## Roles of users -/

namespace Blog

/-- The number of users, and the roles they had at some time. -/
def roleOutputs : List Document.OutputType :=
  [⟨"Query", [given "aggregateUser" "AggregateUser" [],
    { given "roles" "Role" [taken "at" "DateTime" .scalar] with
      outputType := ⟨"Role", .enumeration, true⟩ }]⟩]

/-- A document that makes an enum of the roles, and nothing else. -/
def rolesDocument : Document where
  datamodel := ⟨[], [], []⟩
  interface := ⟨⟨[], []⟩, ⟨[], []⟩, ⟨[], [⟨"Role", ["ADMIN"]⟩]⟩⟩
  mappings := none

/-- The type of a moment in time, as an argument takes it. -/
def moment : TypeRef :=
  ⟨"DateTime", .scalar, false, .scalar⟩

/-- The number of users as it is loaded. -/
def userNumber : OutputField where
  name := "aggregateUser"
  args := []
  isNullable := false
  outputType := ⟨"AggregateUser", .outputObject, false, .aggregate "User"⟩
  role := .aggregate "User"

/-- The roles as they are loaded, whose type is a model's. -/
def userRoles : OutputField where
  name := "roles"
  args := [⟨"at", false, false, [moment]⟩]
  isNullable := false
  outputType := ⟨"Role", .enumeration, true, .model⟩
  role := .plain

/-- The root of queries for both. -/
def roleQuery : OutputType :=
  ⟨"Query", .library, .operation .query, [userNumber, userRoles]⟩

/-- The schema of the blog with roles. -/
def roleSchema : Schema :=
  { schema with
    modelEnums := ["Role"]
    loadedOutputs := [roleQuery]
    loadedEnums := [⟨"Role", .model, ["ADMIN"]⟩] }

end Blog

namespace ShownType

open Blog

/-- The roles go by the name that the document after theirs makes an enum of, the number of
users by the start of its name, and the moment by the settings. -/
theorem text_ofType_roles :
    Schema.ofDocuments [withInterface [] roleOutputs [], rolesDocument] = .ok roleSchema ∧
    (ofType {} .output userRoles.outputType).text = "Client.Role[]" ∧
    (ofType {} .output userNumber.outputType).text =
      "Client.Prisma.GetUserAggregateType<AggregateUserArgs>" ∧
    (ofType {} .input userNumber.outputType).text =
      "Prisma.GetUserAggregateType<AggregateUserArgs>" ∧
    (ofType { scalars := [("DateTime", "string")] } .input moment).text = "string" := by
  have hload : Schema.ofDocuments [withInterface [] roleOutputs [], rolesDocument] =
      .ok roleSchema := rfl
  have hquery : roleQuery ∈ roleSchema.outputTypes := Schema.mem_outputTypes_iff.2 (.head _)
  have hnumber : roleSchema.Stores userNumber.outputType := .output hquery (.head _)
  have hroles : roleSchema.Stores userRoles.outputType := .output hquery (.tail _ (.head _))
  have hmoment : roleSchema.Stores moment :=
    .arg hquery (.tail _ (.head _)) (.head _) (.head _)
  refine ⟨hload, ?_, ?_, ?_, ?_⟩
  · exact (text_ofType_eq_directText hload hroles {} .output).trans (by decide)
  · exact (text_ofType_eq_directText hload hnumber {} .output).trans (by decide)
  · exact (text_ofType_eq_directText hload hnumber {} .input).trans (by decide)
  · exact (text_ofType_eq_directText hload hmoment _ .input).trans (by decide)

end ShownType

end Schematic
