import Schematic.Proofs.BlankRecords

/-!
# Cleared fields

A form clears a field with a null, and a null stands for the empty text, whether the field
is required or not (`FormValue.coerce_null`). So a cleared text is sent as the empty text,
and a cleared number, as the empty text is none, is an error. `Mutation.null_is_blank` says
this of whole forms, for creations and for updates.
-/

namespace Schematic

open Json (Value)

namespace Blog

/-- A field that is no relation and may be left out. -/
def optional (name type : String) : Document.Field :=
  { column name type with isRequired := false }

/-- Users who may tell their age and a nickname. -/
def profileDocument : Document :=
  { document with
    datamodel :=
      { enums := []
        models := [table "User" [optional "age" "Int", optional "nickname" "String"]]
        composites := [] } }

/-- The age as it is loaded, a number that may be left out. -/
def age : Field :=
  { loaded (optional "age" "Int") "Age" with isRequired := false }

/-- The nickname as it is loaded, a text that may be left out. -/
def nickname : Field :=
  { loaded (optional "nickname" "String") "Nickname" with isRequired := false }

/-- The model of these users as it is loaded. -/
def profile : Model :=
  model "User" [age, nickname]

/-- The schema the document loads as. -/
def profileSchema : Schema :=
  { schema with models := [profile] }

end Blog

/-! ## Values -/

namespace FormValue

/-- What a null stands for in a field of one value: the empty text, which is no number. -/
def cleared (field : Field) : Except AdminError Value :=
  if field.type = "Int" ∨ field.type = "Float" then .error (.invalidNumber field.name "")
  else .ok (.string "")

/-- What a null stands for in a field: nothing, as far as its values can hold nothing. -/
def blank (field : Field) : Except AdminError Value :=
  if field.isList then .ok (.array [])
  else if field.type = "Json" then .ok (.object [])
  else cleared field

theorem scalar_empty {field : Field} (hlist : field.isList = false) :
    scalar field "" = cleared field := by
  have hinteger : Numeral.integer? (Text.trim "".toList) = none := by decide
  have hnumber : Numeral.number? (Text.trim "".toList) = none := by decide
  rw [scalar, cleared, hinteger, hnumber]
  by_cases hint : field.type = "Int" <;> by_cases hfloat : field.type = "Float" <;>
    simp [hint, hfloat, hlist]

theorem coerce_create_null (field : Field) : coerce (some field) .create .null = blank field := by
  change ofText field .create "" = blank field
  rw [ofText, blank, wrap_create, Except.map_id]
  by_cases hjson : field.type = "Json" <;> cases hlist : field.isList <;>
    simp [hjson, json, list, hlist, scalar_empty]

/-- A null is read as what it stands for, and sent as any value. -/
theorem coerce_null (field : Field) (writing : Writing) :
    coerce (some field) writing .null = (blank field).map (wrap field writing) := by
  rw [coerce_eq_map_wrap, coerce_create_null]

end FormValue

/-! ## Entries -/

namespace Mutation

variable {schema : Schema} {name key : String} {m : Model} {field : Field} {old : Record}

/-- The step of a creation: a null is sent as what it stands for. -/
theorem createEntry_null (hfield : m.field? key = some field)
    (hrelation : field.isRelation = false) :
    createEntry schema m (key, .null) = (FormValue.blank field).map fun v => some (key, v) := by
  simp only [createEntry, hfield, hrelation, Bool.false_eq_true, if_false,
    FormValue.coerce_create_null]

/-- The step of an update: a null is sent as what it stands for, if there was something. -/
theorem updateEntry_null (hfield : m.field? key = some field)
    (hrelation : field.isRelation = false) (writing : Writing) :
    updateEntry schema m writing old (key, .null) =
      if field.updatable ∧ (entry old key).isNull = false then
        (FormValue.blank field).map fun v => some (key, FormValue.wrap field writing v)
      else .ok none := by
  cases hupdatable : field.updatable with
  | false => simp [updateEntry, hfield, hupdatable, Option.filter_some]
  | true =>
    simp only [updateEntry, hfield, Option.filter_some, hupdatable, if_true, hrelation,
      Bool.false_eq_true, if_false, Value.null_same, FormValue.coerce_null, true_and]
    cases (entry old key).isNull with
    | true => rfl
    | false => cases FormValue.blank field <;> rfl

/-! ## Forms -/

/-- The entries that an update sends. -/
def updates (schema : Schema) (name : String) (old new : Record) (settings : Settings) :
    Except AdminError Record :=
  (updateData schema name old new settings).map (·.getD [])

theorem updates_eq (hmodel : schema.findModel? name = some m) (old new : Record)
    (settings : Settings) :
    updates schema name old new settings =
      (new.mapM (updateEntry schema m (.update settings.useSet) old)).map (·.filterMap id) := by
  rw [updates, updateData_eq hmodel]
  cases new.mapM (updateEntry schema m (.update settings.useSet) old) with
  | error => rfl
  | ok entries =>
    simp only [Except.map]
    cases entries.filterMap id <;> rfl

/-- **A null stands for the empty text.** In a field of one value that is neither a relation
nor JSON a null is an error if the field holds numbers, and otherwise it is sent as the
empty text: in every creation, and in updates if the field may be updated and was not null
before, in a `set` if there is to be one. What else the form sends stays the same. -/
theorem null_is_blank (hmodel : schema.findModel? name = some m)
    (hfield : m.field? key = some field) (hrelation : field.isRelation = false)
    (hlist : field.isList = false) (hjson : field.type ≠ "Json") (old before after : Record)
    (settings : Settings) :
    (createData schema name (before ++ (key, .null) :: after) = do
      let earlier ← createData schema name before
      let v ← FormValue.cleared field
      let later ← createData schema name after
      return earlier ++ (key, v) :: later) ∧
    (updates schema name old (before ++ (key, .null) :: after) settings = do
      let earlier ← updates schema name old before settings
      let sent ← if field.updatable ∧ (entry old key).isNull = false then
          (FormValue.cleared field).map fun v =>
            [(key, if settings.useSet then .object [("set", v)] else v)]
        else .ok []
      let later ← updates schema name old after settings
      return earlier ++ sent ++ later) := by
  have hblank : FormValue.blank field = FormValue.cleared field := by
    simp [FormValue.blank, hlist, hjson]
  have hwrap : ∀ v, FormValue.wrap field (.update settings.useSet) v =
      if settings.useSet then .object [("set", v)] else v := by
    simp [FormValue.wrap, hlist]
  constructor
  · simp only [createData_eq hmodel, mapM_filterMap_append_cons,
      createEntry_null hfield hrelation, hblank]
    cases FormValue.cleared field <;> simp [Except.map, bind, Except.bind]
  · simp only [updates_eq hmodel, mapM_filterMap_append_cons,
      updateEntry_null hfield hrelation, hblank, hwrap]
    split
    · cases FormValue.cleared field <;> simp [Except.map, bind, Except.bind]
    · rfl

/-- Neither an age nor a nickname is required. Yet an age that is cleared is an error, and
a nickname that is cleared is sent as the empty text. -/
theorem not_null_profile :
    Schema.ofDocuments [Blog.profileDocument] = .ok Blog.profileSchema ∧
      (∀ field ∈ [Blog.age, Blog.nickname],
        Blog.profileSchema.findField? "User" field.name = some field ∧
          field.isRequired = false ∧ field.isList = false ∧ field.isRelation = false ∧
          field.type ≠ "Json") ∧
      updateData Blog.profileSchema "User" [("age", .int 30)] [("age", .null)] {} =
        .error (.invalidNumber "age" "") ∧
      updateData Blog.profileSchema "User" [("nickname", .string "Ann")] [("nickname", .null)] {} =
        .ok (some [("nickname", .object [("set", .string "")])]) := by
  refine ⟨rfl, ?_, rfl, rfl⟩
  refine List.forall_mem_cons.2 ⟨⟨rfl, rfl, rfl, rfl, by decide⟩, ?_⟩
  exact List.forall_mem_singleton.2 ⟨rfl, rfl, rfl, rfl, by decide⟩

/-- A new user without a nickname gets an empty one, and one without an age is not created.
A nickname that was set is updated to the empty one, without a `set` as none is asked for. -/
theorem null_is_blank_profile :
    createData Blog.profileSchema "User" [("age", .int 30), ("nickname", .null)] =
        .ok [("age", .int 30), ("nickname", .string "")] ∧
      createData Blog.profileSchema "User" [("age", .null), ("nickname", .string "Ann")] =
        .error (.invalidNumber "age" "") ∧
      updates Blog.profileSchema "User" [("nickname", .string "Ann")] [("nickname", .null)]
        { useSet := false } = .ok [("nickname", .string "")] := by
  have hmodel : Blog.profileSchema.findModel? "User" = some Blog.profile := rfl
  have hage : Blog.profile.field? "age" = some Blog.age := rfl
  have hnickname : Blog.profile.field? "nickname" = some Blog.nickname := rfl
  obtain ⟨hcreated, -⟩ :=
    null_is_blank hmodel hnickname rfl rfl (by decide) [] [("age", .int 30)] [] {}
  obtain ⟨hfailed, -⟩ :=
    null_is_blank hmodel hage rfl rfl (by decide) [] [] [("nickname", .string "Ann")] {}
  obtain ⟨-, hupdated⟩ := null_is_blank hmodel hnickname rfl rfl (by decide)
    [("nickname", .string "Ann")] [] [] { useSet := false }
  exact ⟨hcreated, hfailed, hupdated⟩

end Mutation

end Schematic
