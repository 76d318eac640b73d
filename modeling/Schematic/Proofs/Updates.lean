import Schematic.Proofs.BlankRecords
import Schematic.Proofs.Kept

/-!
# What updates send

An update sends what has changed, as far as it may be updated (`Mutation.IsUpdate`), and
each value as its field takes it (`Mutation.SentAs`). What one entry of a record adds to
the data is said once (`Mutation.rel_of_updateEntry`), and the data of whole records
follow entry by entry (`Mutation.updateData_sends`). Relations are told apart, and
connected, by the key of the model they lead to (`Mutation.keyOf?`).
-/

namespace Schematic

open Json (Value)

namespace Blog

/-- A post. -/
def draft : Record :=
  [("id", .int 1), ("title", .string "Draft"), ("author", .object [("id", .int 1)])]

/-- The same post after a change. -/
def published : Record :=
  [("id", .int 2), ("comments", .null), ("title", .string "Final"),
    ("author", .object [("id", .int 3)])]

/-- What is sent of the change. -/
def publication : Record :=
  [("title", .object [("set", .string "Final")]),
    ("author", .object [("connect", .object [("id", .int 3)])])]

end Blog

namespace Mutation

variable {schema : Schema} {m : Model} {field : Field} {writing : Writing} {useSet : Bool}
  {old : Record} {v previous sent : Value}

/-! ## Connections -/

/-- The key a relation connects by: the field that tells the records of its model apart. -/
def keyOf? (schema : Schema) (field : Field) : Option Field :=
  (schema.findModel? field.type).bind (·.idField?)

/-- The connection to the record of an id. -/
def connection (key : Field) (id : Value) : Value :=
  .object [("connect", .object [(key.name, id)])]

theorem lookup_eq_ok_iff {key : Field} :
    (model schema field.type >>= idField) = .ok key ↔ keyOf? schema field = some key := by
  rw [model, keyOf?]
  cases schema.findModel? field.type with
  | none => simp [bind, Except.bind]
  | some target =>
    change idField target = .ok key ↔ target.idField? = some key
    rw [idField]
    cases target.idField? <;> simp

/-- A relation connects by its key, to the id that is read off the value. -/
theorem connect_eq_ok_iff :
    connect schema field writing v = .ok sent ↔ ∃ key, keyOf? schema field = some key ∧
      ∃ id, FormValue.coerce (some key) .create ((v.member? key.name).getD .null) = .ok id ∧
        connection key id = sent := by
  have hconnect : connect schema field .create v =
      (model schema field.type >>= idField) >>= fun key =>
        (FormValue.coerce (some key) .create ((v.member? key.name).getD .null)).map
          (connection key) := by
    rw [connect]
    cases model schema field.type with
    | error => rfl
    | ok target => cases hkey : idField target <;> simp [hkey, bind, Except.bind]; rfl
  rw [connect_eq_create, hconnect]
  cases hkey : model schema field.type >>= idField with
  | error error =>
    have hnone : ∀ key, keyOf? schema field ≠ some key := fun key h => by
      rw [← lookup_eq_ok_iff, hkey] at h
      cases h
    simp [hnone, bind, Except.bind]
  | ok key =>
    have hsome : keyOf? schema field = some key := lookup_eq_ok_iff.1 hkey
    simp [hsome, bind, Except.bind, map_eq_ok_iff]

/-! ## Changes -/

/-- Two values have equal entries under a key, or both have none. -/
def SameAt (key : String) (a b : Value) : Prop :=
  Option.Rel (fun x y => x.same y) (a.member? key) (b.member? key)

theorem not_differAt_iff {key : String} {a b : Value} :
    ¬ differAt key a b ↔ SameAt key a b := by
  rw [differAt, SameAt]
  cases a.member? key <;> cases b.member? key <;> simp

instance (key : String) (a b : Value) : Decidable (SameAt key a b) :=
  decidable_of_iff _ not_differAt_iff

/-- A relation leads elsewhere than before: it is set, or cleared, or leads to a record of
another id. -/
def LeadsElsewhere (schema : Schema) (field : Field) (previous v : Value) : Prop :=
  v.isNull ≠ previous.isNull ∨
    (v.isNull = false ∧ previous.isNull = false ∧
      ∃ key ∈ keyOf? schema field, ¬ SameAt key.name v previous)

instance (schema : Schema) (field : Field) (previous v : Value) :
    Decidable (LeadsElsewhere schema field previous v) :=
  inferInstanceAs (Decidable (_ ∨ _))

/-- A field has another value than before. -/
def Changes (schema : Schema) (field : Field) (previous v : Value) : Prop :=
  if field.isRelation then LeadsElsewhere schema field previous v else v.same previous = false

instance (schema : Schema) (field : Field) (previous v : Value) :
    Decidable (Changes schema field previous v) :=
  inferInstanceAs (Decidable (if field.isRelation then LeadsElsewhere schema field previous v
    else v.same previous = false))

/-- An entry of a record is part of its update: its field is declared, may be updated, and
has another value than in the record before, where a missing one is null. -/
def IsUpdate (schema : Schema) (m : Model) (old : Record) (e : String × Value) : Prop :=
  ∃ field ∈ m.field? e.1, field.updatable ∧ Changes schema field (entry old e.1) e.2

instance (schema : Schema) (m : Model) (old : Record) : DecidablePred (IsUpdate schema m old) :=
  fun _ => inferInstanceAs (Decidable (∃ _ ∈ _, _))

/-- What a new value of a field is sent as in an update. -/
inductive SentAs (schema : Schema) (useSet : Bool) (field : Field) (v : Value) : Value → Prop
  | cleared (hrelation : field.isRelation) (hnull : v.isNull) :
      SentAs schema useSet field v (.object [("disconnect", .bool true)])
  | connected (hrelation : field.isRelation) (hset : v.isNull = false) {key : Field} {id : Value}
      (hkey : keyOf? schema field = some key)
      (hid : FormValue.coerce (some key) .create ((v.member? key.name).getD .null) = .ok id) :
      SentAs schema useSet field v (connection key id)
  | plain (hrelation : field.isRelation = false) {sent : Value}
      (hsent : FormValue.coerce (some field) (.update useSet) v = .ok sent) :
      SentAs schema useSet field v sent

/-- A value is sent in one way only. -/
theorem SentAs.unique {sent sent' : Value} (h : SentAs schema useSet field v sent)
    (h' : SentAs schema useSet field v sent') : sent = sent' := by
  cases h <;> cases h' <;> simp_all

/-- An entry of an update is what an entry of the record is sent as. -/
def Sends (schema : Schema) (m : Model) (useSet : Bool) (e sent : String × Value) : Prop :=
  sent.1 = e.1 ∧ ∃ field ∈ m.field? e.1, SentAs schema useSet field e.2 sent.2

/-! ## Entries -/

/-- What becomes of a relation is sent if it leads elsewhere. -/
theorem rel_of_updateRelation {sent : Option Value} (hrelation : field.isRelation)
    (h : updateRelation schema field (.update useSet) previous v = .ok sent) :
    Option.Rel (SentAs schema useSet field)
      (if LeadsElsewhere schema field previous v then some v else none) sent := by
  have hconnected : ∀ {sent}, v.isNull = false →
      connect schema field (.update useSet) v = .ok sent →
      SentAs schema useSet field v sent := by
    intro sent hset hsent
    obtain ⟨key, hkey, id, hid, rfl⟩ := connect_eq_ok_iff.1 hsent
    exact .connected hrelation hset hkey hid
  rw [updateRelation] at h
  -- Both records have to be asked: a relation may be set, cleared, led elsewhere, or left.
  cases hset : v.isNull <;> cases hprevious : previous.isNull <;>
    simp only [hset, hprevious] at h
  case false.false =>
    obtain ⟨target, htarget, h⟩ := bind_eq_ok_iff.1 h
    obtain ⟨key, hkey, h⟩ := bind_eq_ok_iff.1 h
    have hkey : keyOf? schema field = some key :=
      lookup_eq_ok_iff.1 (bind_eq_ok_iff.2 ⟨target, htarget, hkey⟩)
    have hchange : LeadsElsewhere schema field previous v ↔ differAt key.name v previous := by
      simp [LeadsElsewhere, hset, hprevious, hkey, ← not_differAt_iff]
    by_cases hdiffer : differAt key.name v previous
    · rw [if_pos hdiffer] at h
      obtain ⟨connection, hconnection, h⟩ := bind_eq_ok_iff.1 h
      cases h
      rw [if_pos (hchange.2 hdiffer)]
      exact .some (hconnected hset hconnection)
    · rw [if_neg hdiffer] at h
      cases h
      rw [if_neg (mt hchange.1 hdiffer)]
      exact .none
  case false.true =>
    have hchange : LeadsElsewhere schema field previous v := .inl (by simp [hset, hprevious])
    obtain ⟨connection, hconnection, rfl⟩ := map_eq_ok_iff.1 h
    rw [if_pos hchange]
    exact .some (hconnected hset hconnection)
  case true.false =>
    have hchange : LeadsElsewhere schema field previous v := .inl (by simp [hset, hprevious])
    cases h
    rw [if_pos hchange]
    exact .some (.cleared hrelation hset)
  case true.true =>
    have hsame : ¬ LeadsElsewhere schema field previous v := by
      simp [LeadsElsewhere, hset, hprevious]
    cases h
    rw [if_neg hsame]
    exact .none

/-- What becomes of a field is sent if it has another value. -/
theorem rel_of_change {sent : Option Value}
    (h : (if field.isRelation then updateRelation schema field (.update useSet) previous v
      else if v.same previous then .ok none
      else (FormValue.coerce (some field) (.update useSet) v).map some) = .ok sent) :
    Option.Rel (SentAs schema useSet field)
      (if Changes schema field previous v then some v else none) sent := by
  by_cases hrelation : field.isRelation
  · rw [if_pos hrelation] at h
    simpa only [Changes, hrelation, if_true] using rel_of_updateRelation hrelation h
  · rw [if_neg hrelation] at h
    simp only [Changes, hrelation, Bool.false_eq_true, if_false]
    cases hsame : v.same previous with
    | true =>
      rw [if_pos hsame] at h
      cases h
      exact .none
    | false =>
      rw [hsame, if_neg Bool.false_ne_true] at h
      obtain ⟨sent, hsent, rfl⟩ := map_eq_ok_iff.1 h
      exact .some (.plain (Bool.eq_false_iff.2 hrelation) hsent)

/-- The step: an entry of a record is sent if it is part of the update. -/
theorem rel_of_updateEntry {e : String × Value} {sent : Option (String × Value)}
    (h : updateEntry schema m (.update useSet) old e = .ok sent) :
    Option.Rel (Sends schema m useSet) (if IsUpdate schema m old e then some e else none) sent := by
  rw [updateEntry] at h
  split at h
  case h_1 hnone =>
    have hout : ¬ IsUpdate schema m old e := by
      rintro ⟨field, hfield, hupdatable, -⟩
      exact Option.filter_eq_none_iff.1 hnone field hfield hupdatable
    cases h
    rw [if_neg hout]
    exact .none
  case h_2 field hfield =>
    obtain ⟨hfield, hupdatable⟩ := Option.filter_eq_some_iff.1 hfield
    have hupdate : IsUpdate schema m old e ↔ Changes schema field (entry old e.1) e.2 := by
      simp [IsUpdate, hfield, hupdatable]
    obtain ⟨change, hchange, rfl⟩ := map_eq_ok_iff.1 h
    have hrel := rel_of_change hchange
    simp only [hupdate]
    split at hrel
    case isTrue hchanges =>
      cases hrel with
      | some hsent =>
        rw [if_pos hchanges]
        exact .some ⟨rfl, field, hfield, hsent⟩
    case isFalse hchanges =>
      cases hrel
      rw [if_neg hchanges]
      exact .none

/-! ## Records -/

/-- The run: the data of an update are what is part of it, in order. -/
theorem forall₂_of_mapM_updateEntry {new : Record} {entries : List (Option (String × Value))}
    (h : new.mapM (updateEntry schema m (.update useSet) old) = .ok entries) :
    List.Forall₂ (Sends schema m useSet) (new.filter (IsUpdate schema m old))
      (entries.filterMap id) := by
  have hfilter : new.filter (IsUpdate schema m old) =
      new.filterMap fun e => if IsUpdate schema m old e then some e else none := by
    rw [← List.filterMap_eq_filter]
    refine List.filterMap_congr fun e _ => ?_
    simp [Option.guard]
  rw [hfilter]
  exact List.rel_filterMap (fun _ _ hentry => rel_of_updateEntry hentry)
    (mapM_eq_ok_iff_forall₂.1 h)

/-- What is sent are the changes, in order, and if there are none then there are no data. -/
theorem forall₂_of_updateData {name : String} {new : Record} {settings : Settings}
    {sent : Option Record} (hmodel : schema.findModel? name = some m)
    (h : updateData schema name old new settings = .ok sent) :
    List.Forall₂ (Sends schema m settings.useSet) (new.filter (IsUpdate schema m old))
        (sent.getD []) ∧
      (sent = none ↔ ∀ e ∈ new, ¬ IsUpdate schema m old e) := by
  rw [updateData_eq hmodel] at h
  obtain ⟨entries, hentries, rfl⟩ := map_eq_ok_iff.1 h
  have hsent := forall₂_of_mapM_updateEntry hentries
  cases hdata : entries.filterMap id with
  | nil =>
    rw [hdata, List.forall₂_nil_right_iff] at hsent
    rw [hsent]
    simpa using List.filter_eq_nil_iff.1 hsent
  | cons entry rest =>
    rw [hdata] at hsent
    refine ⟨hsent, iff_of_false (Option.some_ne_none _) fun hnone => ?_⟩
    rw [List.filter_eq_nil_iff.2 (by simpa using hnone)] at hsent
    cases hsent

/-- An entry is sent just when it is what a change of the record is sent as. -/
theorem mem_updateData_iff {name : String} {new : Record} {settings : Settings}
    {sent : Option Record} (hmodel : schema.findModel? name = some m)
    (h : updateData schema name old new settings = .ok sent) {entry : String × Value} :
    entry ∈ sent.getD [] ↔
      ∃ e ∈ new, IsUpdate schema m old e ∧ Sends schema m settings.useSet e entry := by
  rw [mem_iff_of_forall₂ ?_ (forall₂_of_updateData hmodel h).1]
  · simp [List.mem_filter, and_assoc]
  · rintro e ⟨_, b⟩ ⟨_, b'⟩ ⟨rfl, field, hfield, hb⟩ ⟨rfl, field', hfield', hb'⟩
    obtain rfl := Option.mem_unique hfield hfield'
    exact congrArg (Prod.mk e.1) (hb.unique hb')

end Mutation

/-! ## Declarations -/

/-- Updates may write a field: it is no key, it is not read-only, and the database does not
fill it in. -/
def Document.Field.MayBeUpdated (f : Document.Field) : Prop :=
  f.isId = false ∧ f.isReadOnly = false ∧ f.isUpdatedAt ≠ some true ∧ f.isGenerated ≠ some true

theorem Field.updatable_iff {f : Document.Field} {field : Field}
    (h : Field.ofDocument f = .ok field) : field.updatable ↔ f.MayBeUpdated := by
  rw [Field.ofDocument] at h
  split at h
  · cases h
  · cases h
    rw [Document.Field.MayBeUpdated]
    cases f.isUpdatedAt <;> cases f.isGenerated <;> simp [and_assoc]

namespace Mutation

/-- **An update sends the changes, and nothing else.** The data are, in the order of the
new record, its entries whose declared field may be updated and has another value than in
the old record: a relation that is cleared as a disconnection, one that leads to another
record as a connection by the key of its model, and anything else as the value its field
takes. There are no data just when there are no such entries. All that is sent is declared
by the documents, and neither as a key nor as read-only nor as filled in by the database. -/
theorem updateData_sends {documents : List Document} {schema : Schema} {name : String}
    {m : Model} {old new : Record} {settings : Settings} {sent : Option Record}
    (hload : Schema.ofDocuments documents = .ok schema)
    (hmodel : schema.findModel? name = some m)
    (h : updateData schema name old new settings = .ok sent) :
    List.Forall₂ (Sends schema m settings.useSet) (new.filter (IsUpdate schema m old))
        (sent.getD []) ∧
      (sent = none ↔ ∀ e ∈ new, ¬ IsUpdate schema m old e) ∧
      ∀ entry ∈ sent.getD [],
        ∃ declared ∈ firsts (·.2.name) (documents.flatMap Document.declaredModels),
          declared.2.name = name ∧
            ∃ f ∈ firsts (·.name) declared.2.fields, f.name = entry.1 ∧ f.MayBeUpdated := by
  obtain ⟨hsent, hnone⟩ := forall₂_of_updateData hmodel h
  refine ⟨hsent, hnone, fun entry hentry => ?_⟩
  obtain ⟨e, he, hkey, -⟩ := exists_of_mem_of_forall₂ hsent hentry
  obtain ⟨field, hfield, hupdatable, -⟩ := of_decide_eq_true (List.mem_filter.1 he).2
  obtain ⟨declared, hdeclared, hname, f, hf, hnamed, htaken⟩ :=
    Schema.exists_declared_of_field? hload hmodel hfield
  exact ⟨declared, hdeclared, hname, f, hf, hnamed.trans hkey.symm,
    (Field.updatable_iff htaken).1 hupdatable⟩

/-- A post gets another title and another author, and is said to have another id: the title
and the author are sent, and neither the id nor the comments, of which there are still none. -/
theorem updateData_sends_post :
    Schema.ofDocuments [Blog.document] = .ok Blog.schema ∧
      updateData Blog.schema "Post" Blog.draft Blog.published {} = .ok (some Blog.publication) ∧
      List.Forall₂ (Sends Blog.schema Blog.post true)
        (Blog.published.filter (IsUpdate Blog.schema Blog.post Blog.draft)) Blog.publication ∧
      ∀ entry ∈ Blog.publication,
        ∃ declared ∈ firsts (·.2.name) ([Blog.document].flatMap Document.declaredModels),
          declared.2.name = "Post" ∧
            ∃ f ∈ firsts (·.name) declared.2.fields, f.name = entry.1 ∧ f.MayBeUpdated := by
  have hload : Schema.ofDocuments [Blog.document] = .ok Blog.schema := rfl
  have hupdate : updateData Blog.schema "Post" Blog.draft Blog.published {} =
      .ok (some Blog.publication) := rfl
  obtain ⟨hsent, -, hdeclared⟩ := updateData_sends hload rfl hupdate
  exact ⟨hload, hupdate, hsent, hdeclared⟩

end Mutation

end Schematic
