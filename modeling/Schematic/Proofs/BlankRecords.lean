import Schematic.Admin.Mutation
import Schematic.Proofs.Blog
import Schematic.Proofs.Results

/-!
# Updates of blank records

Whatever a form sets is new to a record in which nothing is set. So to update a blank
record is to create one, but that the values of an update may be wrapped in a `set`: the
two builders of data agree on every entry (`Mutation.updateEntry_nil`), errors included,
and then on the whole form (`Mutation.updateData_nil`).
-/

namespace Schematic

open Json (Value)

/-! ## Values -/

namespace FormValue

variable {field : Field} {writing : Writing}

/-- There is a `set` only in updates, and never around a list. -/
theorem wrap_eq_id (h : writing = .update true → field.isList) : wrap field writing = id :=
  funext fun _ => if_neg fun hwrap => hwrap.2 (h hwrap.1)

theorem wrap_create (field : Field) : wrap field .create = id :=
  wrap_eq_id fun h => nomatch h

/-- The writing has no say in what a value is read as, only in whether it is wrapped. -/
theorem coerce_eq_map_wrap (field : Field) (writing : Writing) (v : Value) :
    coerce (some field) writing v = (coerce (some field) .create v).map (wrap field writing) := by
  have htext : ∀ text, ofText field writing text =
      (ofText field .create text).map (wrap field writing) := by
    intro text
    rw [ofText, ofText, wrap_create, Except.map_id]
    split
    · rfl
    · split
      · rename_i hlist
        rw [wrap_eq_id fun _ => hlist, Except.map_id]
        rfl
      · rfl
  cases v with
  | null => exact htext ""
  | string text => exact htext text
  | bool | number | array | object =>
    simp only [coerce, wrap_create, id]
    rfl

end FormValue

/-! ## Entries -/

theorem Schema.findField?_of_findModel? {schema : Schema} {name : String} {model : Model}
    (h : schema.findModel? name = some model) (key : String) :
    schema.findField? name key = model.field? key := by
  rw [findField?, h, Option.bind_some]

namespace Mutation

variable {schema : Schema} {model : Model} {field : Field} {name key : String}
  {v : Value}

/-- Connections are the same in all writings: ids are never wrapped. -/
theorem connect_eq_create (field : Field) (writing : Writing) (v : Value) :
    connect schema field writing v = connect schema field .create v := by
  have hkey : ∀ (key : Field) (v : Value),
      FormValue.coerce (some key) (.update false) v = FormValue.coerce (some key) .create v := by
    intro key v
    have hwrap : FormValue.wrap key (.update false) = id :=
      FormValue.wrap_eq_id fun h => nomatch h
    rw [FormValue.coerce_eq_map_wrap, hwrap, Except.map_id]
    rfl
  cases writing with
  | create => rfl
  | update => simp only [connect, hkey]

/-- What a field of a new record is sent as, given a value that is not null. -/
def newValue (schema : Schema) (field : Field) (v : Value) : Except AdminError Value :=
  if field.isRelation then connect schema field .create v
  else FormValue.coerce (some field) .create v

/-- What is set is created as its value, or as a connection, under its key. -/
theorem createEntry_eq (hfield : model.field? key = some field) (hset : v.isNull = false) :
    createEntry schema model (key, v) = (newValue schema field v).map fun v => some (key, v) := by
  simp only [createEntry, hfield, newValue, hset]
  split <;> rfl

/-- An entry of new data as an update has it: in a `set`, if there is to be one and its
field is neither a list nor a relation. -/
def inSet (schema : Schema) (modelName : String) (useSet : Bool) (entry : String × Value) :
    String × Value :=
  if useSet ∧ ∃ field ∈ schema.findField? modelName entry.1,
      ¬ field.isList ∧ ¬ field.isRelation then
    (entry.1, .object [("set", entry.2)])
  else entry

/-- A value is wrapped as an update wraps it, and a connection is left as it is. -/
theorem inSet_eq (hfield : schema.findField? name key = some field) (useSet : Bool) (v : Value) :
    inSet schema name useSet (key, v) =
      (key, if field.isRelation then v else FormValue.wrap field (.update useSet) v) := by
  by_cases hrelation : field.isRelation <;>
    simp [inSet, hfield, hrelation, FormValue.wrap, apply_ite (Prod.mk key)]

/-- The step: an entry that may be updated, and sets a value where there was none, is
sent in an update of a record as it is in the data of a new one. -/
theorem updateEntry_nil (hmodel : schema.findModel? name = some model)
    (hfield : model.field? key = some field) (hupdatable : field.updatable)
    (hset : v.isNull = false) (useSet : Bool) :
    updateEntry schema model (.update useSet) [] (key, v) =
      (createEntry schema model (key, v)).map (Option.map (inSet schema name useSet)) := by
  have hsame : v.same .null = false := v.same_null.trans hset
  have hprevious : entry [] key = .null := rfl
  have hnull : Value.null.isNull = true := rfl
  have hupdate : updateEntry schema model (.update useSet) [] (key, v) =
      (newValue schema field v).map fun v => some (inSet schema name useSet (key, v)) := by
    simp only [updateEntry, hfield, Option.filter_some, hupdatable, if_true, hprevious, newValue,
      inSet_eq ((Schema.findField?_of_findModel? hmodel key).trans hfield)]
    by_cases hrelation : field.isRelation
    · simp only [hrelation, if_true, updateRelation, hset, hnull, connect_eq_create]
      cases connect schema field .create v <;> rfl
    · simp only [hrelation, Bool.false_eq_true, if_false, hsame,
        FormValue.coerce_eq_map_wrap field (.update useSet)]
      cases FormValue.coerce (some field) .create v <;> rfl
  rw [hupdate, createEntry_eq hfield hset]
  cases newValue schema field v <;> rfl

/-! ## Forms -/

theorem createData_eq (hmodel : schema.findModel? name = some model) (form : Record) :
    createData schema name form =
      (form.mapM (createEntry schema model)).map (·.filterMap id) := by
  rw [createData, model_of_findModel? hmodel]
  rfl

theorem updateData_eq (hmodel : schema.findModel? name = some model) (old new : Record)
    (settings : Settings) :
    updateData schema name old new settings =
      (new.mapM (updateEntry schema model (.update settings.useSet) old)).map fun entries =>
        if (entries.filterMap id).isEmpty then none else some (entries.filterMap id) := by
  rw [updateData, model_of_findModel? hmodel]
  refine congrArg (Except.map · _) (funext fun entries => ?_)
  cases entries.filterMap id <;> rfl

variable {form : Record}

/-- New data has an entry for every one of the form. -/
theorem keys_of_createData {data : Record}
    (hform : ∀ e ∈ form, e.2.isNull = false ∧ ∃ field, schema.findField? name e.1 = some field)
    (h : createData schema name form = .ok data) : data.map Prod.fst = form.map Prod.fst := by
  cases hmodel : schema.findModel? name with
  | none =>
    rw [createData, Mutation.model, hmodel] at h
    cases h
  | some m =>
    rw [createData_eq hmodel] at h
    obtain ⟨hall, rfl⟩ := mapM_filterMap_eq_ok_iff.1 h
    rw [List.map_filterMap, ← List.filterMap_eq_map]
    refine List.filterMap_congr fun e he => ?_
    obtain ⟨hset, field, hfield⟩ := hform e he
    rw [Schema.findField?_of_findModel? hmodel] at hfield
    obtain ⟨entry, hentry⟩ := hall e he
    rw [createEntry_eq hfield hset] at hentry
    obtain ⟨sent, hsent, rfl⟩ := map_eq_ok_iff.1 hentry
    rw [createEntry_eq hfield hset, hsent]
    rfl

/-- **To update a blank record is to create one.** If a form sets fields that may be
updated, then an update of a record in which nothing is set fails as a creation does, and
otherwise sends the same, but for the values that are put in a `set`; there is nothing to
send just when the form is empty. -/
theorem updateData_nil
    (hform : ∀ e ∈ form, e.2.isNull = false ∧
      ∃ field, schema.findField? name e.1 = some field ∧ field.updatable)
    (settings : Settings) :
    (updateData schema name [] form settings = (createData schema name form).map fun data =>
      if form.isEmpty then none else some (data.map (inSet schema name settings.useSet))) ∧
    ∀ data, createData schema name form = .ok data → data.map Prod.fst = form.map Prod.fst := by
  have hkeys : ∀ data, createData schema name form = .ok data →
      data.map Prod.fst = form.map Prod.fst := by
    refine fun data => keys_of_createData fun e he => ?_
    obtain ⟨hset, field, hfield, -⟩ := hform e he
    exact ⟨hset, field, hfield⟩
  refine ⟨?_, hkeys⟩
  cases hmodel : schema.findModel? name with
  | none =>
    rw [updateData, createData, Mutation.model, hmodel]
    rfl
  | some m =>
    have hentries : form.mapM (updateEntry schema m (.update settings.useSet) []) =
        (form.mapM (createEntry schema m)).map
          (List.map (Option.map (inSet schema name settings.useSet))) := by
      rw [← mapM_map_eq]
      refine mapM_congr fun e he => ?_
      obtain ⟨hset, field, hfield, hupdatable⟩ := hform e he
      rw [Schema.findField?_of_findModel? hmodel] at hfield
      exact updateEntry_nil hmodel hfield hupdatable hset _
    have hcreate := createData_eq hmodel form
    rw [updateData_eq hmodel, hentries, hcreate]
    cases hrun : form.mapM (createEntry schema m) with
    | error => rfl
    | ok entries =>
      have hdata : (entries.map (Option.map (inSet schema name settings.useSet))).filterMap id =
          (entries.filterMap id).map (inSet schema name settings.useSet) := by
        rw [List.filterMap_map, List.map_filterMap]
        rfl
      -- Something is sent just when something is set, as the keys are the same.
      have hempty : (entries.filterMap id).isEmpty = form.isEmpty := by
        rw [← List.isEmpty_map, hkeys _ (by rw [hcreate, hrun]; rfl), List.isEmpty_map]
      simp only [Except.map, hdata, List.isEmpty_map, hempty]

/-- A post that is titled, and whose author is chosen, is sent as a new one, but with
the title in a `set`. -/
theorem updateData_nil_post :
    createData Blog.schema "Post"
        [("title", .string "Hello"), ("author", .object [("id", .int 3)])] =
      .ok [("title", .string "Hello"),
        ("author", .object [("connect", .object [("id", .int 3)])])] ∧
    updateData Blog.schema "Post" []
        [("title", .string "Hello"), ("author", .object [("id", .int 3)])] {} =
      .ok (some [("title", .object [("set", .string "Hello")]),
        ("author", .object [("connect", .object [("id", .int 3)])])]) := by
  have hcreate : createData Blog.schema "Post"
        [("title", .string "Hello"), ("author", .object [("id", .int 3)])] =
      .ok [("title", .string "Hello"),
        ("author", .object [("connect", .object [("id", .int 3)])])] := rfl
  have hform : ∀ e ∈ [("title", Value.string "Hello"), ("author", .object [("id", .int 3)])],
      e.2.isNull = false ∧
        ∃ field, Blog.schema.findField? "Post" e.1 = some field ∧ field.updatable := by
    refine List.forall_mem_cons.2 ⟨⟨rfl, ?_⟩, List.forall_mem_singleton.2 ⟨rfl, ?_⟩⟩
    · exact ⟨_, rfl, rfl⟩
    · exact ⟨_, rfl, rfl⟩
  refine ⟨hcreate, (updateData_nil hform {}).1.trans ?_⟩
  rw [hcreate]
  rfl

end Mutation

end Schematic
