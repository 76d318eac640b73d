import Schematic.Proofs.Cleared
import Schematic.Proofs.Updates

/-!
# Connections

A relation is connected by the id in its value. A value that has none, as it is a record
without the entry, or no record at all, is not refused for it: its id is then what a null
stands for, if the key takes that (`Mutation.idOf`). The main statement says
which connections are sent, for creations and for updates, and which of them have an id
that no form has submitted (`Mutation.mem_connection_iff`).
-/

namespace Schematic

open Json (Value)

namespace Blog

/-- The key of users who choose their ids. -/
def login : Document.Field :=
  { column "login" "String" with isId := true }

/-- Users with logins, who write posts. -/
def memberDocument : Document :=
  { document with
    datamodel :=
      { enums := []
        models := [
          { table "User" [] with fields := [login, column "firstName" "String"] },
          table "Post" [column "title" "String", toOne "author" "User"]]
        composites := [] } }

/-- The key of users as it is loaded. -/
def memberLogin : Field :=
  loaded login "Login"

/-- The model of users as it is loaded, told apart by their logins. -/
def member : Model :=
  { model "User" [] with
    idName := some "login"
    fields := [memberLogin, loaded (column "firstName" "String") "First Name"] }

/-- The relation of a post to the user who wrote it. -/
def author : Field :=
  loaded (toOne "author" "User") "Author"

/-- The model of posts as it is loaded. -/
def memberPost : Model :=
  model "Post" [loaded (column "title" "String") "Title", author]

/-- The schema the document loads as. -/
def memberSchema : Schema :=
  { schema with models := [member, memberPost] }

/-- A record of a user that lacks the login. -/
def nameless : Value :=
  .object [("firstName", .string "Ann")]

end Blog

namespace Mutation

variable {schema : Schema} {name relation i : String} {m : Model} {field key : Field}
  {useSet : Bool} {v : Value}

/-! ## Ids -/

/-- The id that a value submits: its entry under the key, if that is set. -/
def submittedId? (key : Field) (v : Value) : Option Value :=
  (v.member? key.name).filter (!·.isNull)

/-- The id that a value is connected by: the one it submits, as the key takes it, or else
what a null stands for. -/
def idOf (key : Field) (v : Value) : Except AdminError Value :=
  match submittedId? key v with
  | some id => FormValue.coerce (some key) .create id
  | none => FormValue.blank key

theorem coerce_member (key : Field) (v : Value) :
    FormValue.coerce (some key) .create ((v.member? key.name).getD .null) = idOf key v := by
  rw [idOf, submittedId?]
  cases v.member? key.name with
  | none => exact FormValue.coerce_create_null key
  | some id =>
    cases id with
    | null => exact FormValue.coerce_create_null key
    | bool | number | string | array | object => rfl

/-- A value of a relation is sent as a connection by `i` to `id`. -/
def Connects (schema : Schema) (field : Field) (v : Value) (i : String) (id : Value) : Prop :=
  v.isNull = false ∧ ∃ key ∈ keyOf? schema field, key.name = i ∧ idOf key v = .ok id

/-- The connections that are made are those of the id that a value stands for. -/
theorem connect_eq_ok_connection_iff {writing : Writing} {id : Value} (hset : v.isNull = false) :
    connect schema field writing v = .ok (.object [("connect", .object [(i, id)])]) ↔
      Connects schema field v i id := by
  simp only [connect_eq_ok_iff, coerce_member, connection, Connects]
  constructor
  · rintro ⟨key, hkey, _, hid, h⟩
    cases h
    exact ⟨hset, key, hkey, rfl, hid⟩
  · rintro ⟨-, key, hkey, rfl, hid⟩
    exact ⟨key, hkey, id, hid, rfl⟩

/-- Without an id in the value, what a null stands for is connected. -/
theorem connects_iff_blank {id : Value} (hkey : keyOf? schema field = some key)
    (hset : v.isNull = false) (hnone : submittedId? key v = none) :
    Connects schema field v i id ↔ key.name = i ∧ FormValue.blank key = .ok id := by
  simp [Connects, hset, hkey, idOf, hnone]

/-! ## Entries -/

theorem fst_of_createEntry {e entry : String × Value}
    (h : createEntry schema m e = .ok (some entry)) : entry.1 = e.1 := by
  have hmapped : ∀ x : Except AdminError Value,
      (x.map fun v => some (e.1, v)) = .ok (some entry) → entry.1 = e.1 := by
    intro x hx
    obtain ⟨_, -, hentry⟩ := map_eq_ok_iff.1 hx
    cases hentry
    rfl
  rw [createEntry] at h
  split at h
  · split at h
    · split at h
      · cases h
      · exact hmapped _ h
    · exact hmapped _ h
  · exact hmapped _ h

/-- The step of a creation. -/
theorem createEntry_connects_iff {id : Value} (hfield : m.field? relation = some field)
    (hrelation : field.isRelation) :
    createEntry schema m (relation, v) =
        .ok (some (relation, .object [("connect", .object [(i, id)])])) ↔
      Connects schema field v i id := by
  cases hset : v.isNull with
  | true => simp [createEntry, hfield, hrelation, hset, Connects]
  | false =>
    rw [createEntry_eq hfield hset, newValue, if_pos hrelation, map_eq_ok_iff]
    simpa using connect_eq_ok_connection_iff hset

/-- The step of an update. -/
theorem sentAs_connects_iff {id : Value} (hrelation : field.isRelation) :
    SentAs schema useSet field v (.object [("connect", .object [(i, id)])]) ↔
      Connects schema field v i id := by
  constructor
  · generalize hsent : Value.object [("connect", .object [(i, id)])] = sent
    rintro (⟨-, -⟩ | ⟨-, hset, hkey, hid⟩ | ⟨hplain, -⟩)
    · simp at hsent
    · cases hsent
      rw [coerce_member] at hid
      exact ⟨hset, _, hkey, rfl, hid⟩
    · rw [hrelation] at hplain
      cases hplain
  · rintro ⟨hset, key, hkey, rfl, hid⟩
    rw [← coerce_member] at hid
    exact .connected hrelation hset hkey hid

/-- Only the entry of a relation is sent as a connection of it. -/
theorem sends_connects_iff {e : String × Value} {id : Value} (hfield : m.field? e.1 = some field)
    (hrelation : field.isRelation) :
    Sends schema m useSet e (relation, .object [("connect", .object [(i, id)])]) ↔
      relation = e.1 ∧ Connects schema field e.2 i id := by
  simp [Sends, hfield, sentAs_connects_iff hrelation]

theorem isUpdate_relation_iff {old : Record} (hfield : m.field? relation = some field)
    (hrelation : field.isRelation) :
    IsUpdate schema m old (relation, v) ↔
      field.updatable ∧ LeadsElsewhere schema field (entry old relation) v := by
  simp [IsUpdate, hfield, Changes, hrelation]

/-! ## Forms -/

/-- The run of a creation. -/
theorem mem_createData_iff {form data : Record} (hmodel : schema.findModel? name = some m)
    (h : createData schema name form = .ok data) {entry : String × Value} :
    entry ∈ data ↔ ∃ e ∈ form, createEntry schema m e = .ok (some entry) := by
  rw [createData_eq hmodel] at h
  obtain ⟨entries, hentries, rfl⟩ := map_eq_ok_iff.1 h
  -- Nothing is lost but entries that add nothing.
  have hmem : entry ∈ entries.filterMap id ↔ some entry ∈ entries := by
    simp [List.mem_filterMap]
  rw [hmem]
  refine mem_iff_of_forall₂ (fun e b b' hb hb' => ?_) (mapM_eq_ok_iff_forall₂.1 hentries)
  rw [hb] at hb'
  exact Except.ok.inj hb'

/-- **Connections are to the ids that are submitted, or else to what a null stands for.**
What connects a relation in the data of a creation is the id of the value that the form has
for it, and in the data of an update it is the id of a value that leads elsewhere than
before. If such a value has an entry for the id which is not null, then this entry is what
is connected, as the key takes it. But if it has none, and whatever it is then, there is a
connection all the same, to what a null stands for, as far as the key takes that. -/
theorem mem_connection_iff (hmodel : schema.findModel? name = some m)
    (hfield : m.field? relation = some field) (hrelation : field.isRelation) (i : String)
    (id : Value) :
    (∀ form data, createData schema name form = .ok data →
      ((relation, .object [("connect", .object [(i, id)])]) ∈ data ↔
        ∃ v, (relation, v) ∈ form ∧ Connects schema field v i id)) ∧
    (∀ old new settings sent, updateData schema name old new settings = .ok sent →
      ((relation, .object [("connect", .object [(i, id)])]) ∈ sent.getD [] ↔
        ∃ v, (relation, v) ∈ new ∧ field.updatable ∧
          LeadsElsewhere schema field (entry old relation) v ∧ Connects schema field v i id)) ∧
    ∀ key ∈ keyOf? schema field, ∀ v, v.isNull = false → submittedId? key v = none →
      (Connects schema field v i id ↔ key.name = i ∧ FormValue.blank key = .ok id) := by
  refine ⟨fun form data h => ?_, fun old new settings sent h => ?_,
    fun key hkey v => connects_iff_blank hkey⟩
  · rw [mem_createData_iff hmodel h]
    constructor
    · rintro ⟨⟨k, v⟩, he, hentry⟩
      obtain rfl : relation = k := fst_of_createEntry hentry
      exact ⟨v, he, (createEntry_connects_iff hfield hrelation).1 hentry⟩
    · rintro ⟨v, he, hconnects⟩
      exact ⟨_, he, (createEntry_connects_iff hfield hrelation).2 hconnects⟩
  · rw [mem_updateData_iff hmodel h]
    constructor
    · rintro ⟨⟨k, v⟩, he, hupdate, hsends⟩
      obtain rfl : relation = k := hsends.1
      obtain ⟨hupdatable, helsewhere⟩ := (isUpdate_relation_iff hfield hrelation).1 hupdate
      exact ⟨v, he, hupdatable, helsewhere, ((sends_connects_iff hfield hrelation).1 hsends).2⟩
    · rintro ⟨v, he, hupdatable, helsewhere, hconnects⟩
      exact ⟨_, he, (isUpdate_relation_iff hfield hrelation).2 ⟨hupdatable, helsewhere⟩,
        (sends_connects_iff hfield hrelation).2 ⟨rfl, hconnects⟩⟩

/-- A record of a user without a login is connected to the empty login, and so is, in an
update, a name that is no record. -/
theorem mem_connection_iff_author :
    Schema.ofDocuments [Blog.memberDocument] = .ok Blog.memberSchema ∧
      (∀ v ∈ [Blog.nameless, .string "Ann"], submittedId? Blog.memberLogin v = none) ∧
      createData Blog.memberSchema "Post" [("author", Blog.nameless)] =
        .ok [("author", connection Blog.memberLogin (.string ""))] ∧
      Connects Blog.memberSchema Blog.author Blog.nameless "login" (.string "") ∧
      updateData Blog.memberSchema "Post" [] [("author", .string "Ann")] {} =
        .ok (some [("author", connection Blog.memberLogin (.string ""))]) ∧
      Connects Blog.memberSchema Blog.author (.string "Ann") "login" (.string "") := by
  have hcreate : createData Blog.memberSchema "Post" [("author", Blog.nameless)] =
      .ok [("author", connection Blog.memberLogin (.string ""))] := rfl
  have hupdate : updateData Blog.memberSchema "Post" [] [("author", .string "Ann")] {} =
      .ok (some [("author", connection Blog.memberLogin (.string ""))]) := rfl
  have hmodel : Blog.memberSchema.findModel? "Post" = some Blog.memberPost := rfl
  have hauthor : Blog.memberPost.field? "author" = some Blog.author := rfl
  obtain ⟨hcreated, hupdated, -⟩ :=
    mem_connection_iff hmodel hauthor rfl "login" (.string "")
  obtain ⟨v, hv, hconnects⟩ := (hcreated _ _ hcreate).1 List.mem_cons_self
  obtain ⟨w, hw, -, -, hconnects'⟩ := (hupdated _ _ _ _ hupdate).1 List.mem_cons_self
  obtain rfl : v = Blog.nameless := congrArg Prod.snd (List.mem_singleton.1 hv)
  obtain rfl : w = .string "Ann" := congrArg Prod.snd (List.mem_singleton.1 hw)
  refine ⟨rfl, ?_, hcreate, hconnects, hupdate, hconnects'⟩
  exact List.forall_mem_cons.2 ⟨rfl, List.forall_mem_singleton.2 rfl⟩

end Mutation

end Schematic
