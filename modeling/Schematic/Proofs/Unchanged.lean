import Schematic.Proofs.DistinctKeys
import Schematic.Proofs.LoadErrors
import Schematic.Proofs.Updates

/-!
# Updates of unchanged records

Of a record that stays as it is nothing is sent. But relations that are set are compared
by the keys of the models they lead to, and composite types, like all models without an
id, have none: such a relation is an error, even if it has not changed. The main statement
says which of the two comes of a record (`Mutation.updateData_self`).
-/

namespace Schematic

open Json (Value)

namespace Blog

/-- Users with addresses. These are composite, so they have no key. -/
def addressDocument : Document :=
  { document with
    datamodel :=
      { enums := []
        models := [table "User" [column "firstName" "String", toOne "address" "Address"]]
        composites := [{ table "Address" [] with fields := [column "city" "String"] }] } }

/-- The model of users as it is loaded. -/
def addressee : Model :=
  model "User" [loaded (column "firstName" "String") "First Name",
    loaded (toOne "address" "Address") "Address"]

/-- The composite type of addresses as it is loaded, without a key. -/
def address : Model where
  name := "Address"
  idName := none
  fields := [loaded (column "city" "String") "City"]
  composite := true
  documentation := none
  aliases := []

/-- The schema the document loads as. -/
def addressSchema : Schema :=
  { schema with models := [addressee, address] }

/-- A user of some address. -/
def userAt (address : Value) : Record :=
  [("firstName", .string "Ann"), ("address", address)]

end Blog

namespace Mutation

variable {schema : Schema} {name key : String} {m : Model} {field : Field} {writing : Writing}
  {r : Record} {v : Value}

/-! ## Nothing changes -/

theorem SameAt.self (h : v.DistinctKeys) (key : String) : SameAt key v v := by
  rw [SameAt]
  cases hmember : v.member? key with
  | none => exact .none
  | some a => exact .some (Value.same_self (h.member? hmember))

theorem not_changes_self (h : v.DistinctKeys) : ¬ Changes schema field v v := by
  rw [Changes]
  split
  · rintro (hne | ⟨-, -, key, -, hdiffer⟩)
    · exact hne rfl
    · exact hdiffer (.self h key.name)
  · rw [Value.same_self h]
    exact Bool.noConfusion

/-- No entry of a record is part of its update by itself. -/
theorem not_isUpdate_self (h : (Value.object r).DistinctKeys) {e : String × Value} (he : e ∈ r) :
    ¬ IsUpdate schema m r e := by
  cases h with
  | object hkeys hentries =>
    rintro ⟨field, -, -, hchanges⟩
    rw [entry, Keyed.get?_of_mem hkeys he] at hchanges
    exact not_changes_self (hentries e he) hchanges

/-! ## What fails -/

/-- The model that an entry of a record leads to, if it has no key. The entry has to be a
relation that may be updated, and to be set. -/
def keyless? (schema : Schema) (m : Model) (e : String × Value) : Option Model := do
  let field ← (m.field? e.1).filter (·.updatable)
  if field.isRelation ∧ e.2.isNull = false then
    (schema.findModel? field.type).filter (·.idField?.isNone)
  else none

/-- A relation that leads where it did fails if its model has no key. -/
theorem failure?_updateRelation_self {target : Model} (h : v.DistinctKeys)
    (htarget : schema.findModel? field.type = some target) :
    failure? (updateRelation schema field writing v v) =
      if v.isNull = false ∧ target.idField?.isNone then some (.missingIdField target.name)
      else none := by
  rw [updateRelation]
  cases hset : v.isNull with
  | true => rfl
  | false =>
    rw [model_of_findModel? htarget]
    cases hkey : target.idField? with
    | none =>
      have hmissing : idField target = .error (.missingIdField target.name) := by
        rw [idField, hkey]
      simp [hmissing, failure?, bind, Except.bind]
    | some key =>
      have hfound : idField target = .ok key := by rw [idField, hkey]
      have hsame : differAt key.name v v = false :=
        Bool.eq_false_iff.2 (not_differAt_iff.2 (.self h key.name))
      simp [hfound, hsame, failure?, bind, Except.bind, pure, Except.pure]

/-- The step: an entry that stays as it is fails if it leads to a model without a key. -/
theorem failure?_updateEntry_self (hresolve : schema.RelationsResolve) (hm : m ∈ schema.models)
    (h : (Value.object r).DistinctKeys) {e : String × Value} (he : e ∈ r) :
    failure? (updateEntry schema m writing r e) =
      (keyless? schema m e).map fun target => .missingIdField target.name := by
  obtain ⟨hkeys, hentries⟩ := h.of_object
  have hprevious : entry r e.1 = e.2 := by
    rw [entry, Keyed.get?_of_mem hkeys he, Option.getD_some]
  have hdistinct : e.2.DistinctKeys := hentries e he
  rw [updateEntry, keyless?]
  cases hfield : (m.field? e.1).filter (·.updatable) with
  | none => rfl
  | some field =>
    simp only [failure?_map, hprevious, Option.bind_eq_bind, Option.bind_some]
    by_cases hrelation : field.isRelation
    · have hdeclared := List.mem_of_find?_eq_some (Option.filter_eq_some_iff.1 hfield).1
      obtain ⟨target, htarget⟩ := hresolve m hm field hdeclared hrelation
      rw [if_pos hrelation, failure?_updateRelation_self hdistinct htarget, htarget]
      cases e.2.isNull <;> cases hkey : target.idField? <;>
        simp [hrelation, hkey, Option.filter_some]
    · -- Other values are compared themselves, which never fails.
      rw [if_neg hrelation, if_pos (Value.same_self hdistinct), if_neg (mt And.left hrelation)]
      rfl

/-! ## Records -/

/-- The run: of the relations to models without a key the first one is the error. -/
theorem failure?_updateData_self (hresolve : schema.RelationsResolve)
    (hmodel : schema.findModel? name = some m) (h : (Value.object r).DistinctKeys)
    (settings : Settings) :
    failure? (updateData schema name r r settings) =
      (r.findSome? (keyless? schema m)).map fun target => .missingIdField target.name := by
  have hm := List.mem_of_find?_eq_some hmodel
  rw [updateData_eq hmodel, failure?_map, failure?_mapM, List.map_findSome?,
    ← List.head?_filterMap, ← List.head?_filterMap]
  exact congrArg List.head? (List.filterMap_congr fun e he =>
    failure?_updateEntry_self hresolve hm h he)

/-- **A record that stays as it is has nothing to update,** unless a relation that is set
leads to a model without a key: then the first such relation is the error. -/
theorem updateData_self {documents : List Document} {schema : Schema} {name : String} {m : Model}
    {r : Record} (hload : Schema.ofDocuments documents = .ok schema)
    (hmodel : schema.findModel? name = some m) (h : (Value.object r).DistinctKeys)
    (settings : Settings) :
    updateData schema name r r settings =
      match r.findSome? (keyless? schema m) with
      | some target => .error (.missingIdField target.name)
      | none => .ok none := by
  have hfailure := failure?_updateData_self
    (Schema.relationsResolve_of_ofDocuments hload) hmodel h settings
  cases hkeyless : r.findSome? (keyless? schema m) with
  | some target =>
    rw [hkeyless] at hfailure
    exact failure?_eq_some_iff.1 hfailure
  | none =>
    rw [hkeyless] at hfailure
    obtain ⟨sent, hsent⟩ := failure?_eq_none_iff.1 hfailure
    rw [hsent, (forall₂_of_updateData hmodel hsent).2.2 fun e he => not_isUpdate_self h he]

/-- A user who has stayed the same has nothing to update, but one with an address has an
error instead. -/
theorem updateData_self_address :
    Schema.ofDocuments [Blog.addressDocument] = .ok Blog.addressSchema ∧
      updateData Blog.addressSchema "User" (Blog.userAt .null) (Blog.userAt .null) {} = .ok none ∧
      updateData Blog.addressSchema "User" (Blog.userAt (.object [("city", .string "Oslo")]))
        (Blog.userAt (.object [("city", .string "Oslo")])) {} =
          .error (.missingIdField "Address") := by
  have hload : Schema.ofDocuments [Blog.addressDocument] = .ok Blog.addressSchema := rfl
  have hmodel : Blog.addressSchema.findModel? "User" = some Blog.addressee := rfl
  have hkeys : (["firstName", "address"] : List String).Nodup := by decide
  have hdistinct : ∀ {address : Value}, address.DistinctKeys →
      (Value.object (Blog.userAt address)).DistinctKeys := fun haddress =>
    .object hkeys (List.forall_mem_cons.2 ⟨.string _, List.forall_mem_singleton.2 haddress⟩)
  have hcity : (Value.object [("city", .string "Oslo")]).DistinctKeys :=
    .object (by decide) (List.forall_mem_singleton.2 (.string _))
  exact ⟨hload, updateData_self hload hmodel (hdistinct .null) {},
    updateData_self hload hmodel (hdistinct hcity) {}⟩

end Mutation

end Schematic
