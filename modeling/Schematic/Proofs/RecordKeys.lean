import Mathlib.Tactic.TFAE
import Schematic.Admin.Table
import Schematic.Proofs.Blog
import Schematic.Proofs.Entries
import Schematic.Proofs.Kept

/-!
# The fields that tell records apart

A model has the name of the field that tells its records apart, but no document has to
declare a field of that name: the names of a primary key are not looked up
(`Document.Model.Dangles`). What selections, mutations and tables make of it agrees with each
other just when the name is declared (`Schema.keyDeclared_tfae`). Otherwise selections that
end up empty and tables go by the name as it stands (`prune_bare`, `Table.goesBy_iff`), while
mutations fail (`Mutation.goesBy_iff`).
-/

namespace Schematic

open Json (Value)

namespace Blog

/-- Tags are told apart by a slug that they do not have. -/
def tagDocument : Document :=
  { document with
    datamodel :=
      { enums := []
        models := [{ table "Tag" [] with
          fields := [column "label" "String"], primaryKey := some ⟨none, ["slug"]⟩ }]
        composites := [] } }

/-- The model of tags as it is loaded, with the name of a field it lacks. -/
def tag : Model :=
  { model "Tag" [] with
    idName := some "slug"
    fields := [loaded (column "label" "String") "Label"] }

/-- The schema of tags. -/
def tagSchema : Schema :=
  { schema with models := [tag] }

end Blog

/-! ## Declarations -/

/-- The primary key of a declared model starts with a name that no field has, and as no field is
marked as the id, records are told apart by it. -/
structure Document.Model.Dangles (d : Document.Model) (name : String) : Prop where
  noId : ∀ f ∈ d.fields, f.isId = false
  key : d.primaryKey.bind (·.fields.head?) = some name
  undeclared : ∀ f ∈ d.fields, f.name ≠ name

section Declared

variable {composite : Bool} {d : Document.Model} {m : Model} {name : String}

/-- Only the name of a primary key may be of no field. -/
theorem Document.Model.declared_or_dangles (h : d.idName = some name) :
    (∃ f ∈ d.fields, f.name = name) ∨ d.Dangles name := by
  have hfound : ∀ p : Document.Field → Bool, (d.fields.find? p).map (·.name) = some name →
      ∃ f ∈ d.fields, f.name = name := by
    intro p hfind
    obtain ⟨f, hf, hname⟩ := Option.map_eq_some_iff.1 hfind
    exact ⟨f, List.mem_of_find?_eq_some hf, hname⟩
  rw [idName, Option.or_eq_some_iff, Option.or_eq_some_iff] at h
  rcases h with hid | ⟨hnone, hkey | ⟨-, hunique⟩⟩
  · exact .inl (hfound _ hid)
  · by_cases hdeclared : ∃ f ∈ d.fields, f.name = name
    · exact .inl hdeclared
    · refine .inr ⟨fun f hf => ?_, hkey, fun f hf hname => hdeclared ⟨f, hf, hname⟩⟩
      simpa using List.find?_eq_none.1 (Option.map_eq_none_iff.1 hnone) f hf
  · exact .inl (hfound _ hunique)

theorem Document.Model.Dangles.idName_eq (h : d.Dangles name) : d.idName = some name := by
  have hnone : d.fields.find? (·.isId) = none :=
    List.find?_eq_none.2 fun f hf => by simp [h.noId f hf]
  rw [idName, hnone, h.key]
  rfl

/-- A model has the fields that were declared, and no others. -/
theorem Model.isSome_field?_iff (h : Model.ofDocument composite d = .ok m) :
    (m.field? name).isSome ↔ ∃ f ∈ d.fields, f.name = name := by
  have hfields : List.Forall₂ (fun f field => Field.ofDocument f = .ok field) d.fields m.fields :=
    mapM_eq_ok_iff_forall₂.1 (Model.eq_of_ofDocument h).2
  rw [field?, List.find?_isSome]
  simp only [decide_eq_true_eq]
  constructor
  · rintro ⟨field, hfield, rfl⟩
    obtain ⟨f, hf, hload⟩ := exists_of_mem_of_forall₂ hfields hfield
    exact ⟨f, hf, (Field.eq_of_ofDocument hload).1⟩
  · rintro ⟨f, hf, rfl⟩
    obtain ⟨field, hfield, hload⟩ := exists_of_mem_of_forall₂ hfields.flip hf
    exact ⟨field, hfield, (Field.eq_of_ofDocument hload).1.symm⟩

theorem Model.idName_eq_of_ofDocument (h : Model.ofDocument composite d = .ok m) :
    m.idName = d.idName := by
  rw [Model.ofDocument] at h
  split at h
  · cases h
  · obtain ⟨fields, -, rfl⟩ := map_eq_ok_iff.1 h
    rfl

/-- The name that tells the records of a model apart is declared unless it dangles. -/
theorem Model.forall_not_dangles_iff (h : Model.ofDocument composite d = .ok m) :
    (∀ name, ¬ d.Dangles name) ↔ ∀ name, m.idName = some name → (m.field? name).isSome := by
  simp only [isSome_field?_iff h, idName_eq_of_ofDocument h]
  constructor
  · intro hnone name hname
    exact (Document.Model.declared_or_dangles hname).resolve_right (hnone name)
  · intro hdeclared name hdangles
    obtain ⟨f, hf, hname⟩ := hdeclared name hdangles.idName_eq
    exact hdangles.undeclared f hf hname

end Declared

/-! ## Lookups -/

section Lookups

variable {m : Model} {name : String}

/-- The key of records is the name they go by, if the model has a field of it. -/
theorem Model.map_name_idField?_eq_some_iff :
    m.idField?.map (·.name) = some name ↔ m.idName = some name ∧ (m.field? name).isSome := by
  have hname : ∀ {key : String} {field : Field}, m.field? key = some field → field.name = key :=
    fun h => of_decide_eq_true (List.find?_some h :)
  rw [idField?]
  constructor
  · intro h
    obtain ⟨field, hfield, rfl⟩ := Option.map_eq_some_iff.1 h
    obtain ⟨key, hkey, hfield⟩ := Option.bind_eq_some_iff.1 hfield
    rw [hname hfield, hfield]
    exact ⟨hkey, rfl⟩
  · rintro ⟨hkey, hdeclared⟩
    obtain ⟨field, hfield⟩ := Option.isSome_iff_exists.1 hdeclared
    rw [hkey, Option.bind_some, hfield, Option.map_some, hname hfield]

theorem Model.isSome_idField?_iff :
    (m.idField?.isSome ↔ m.idName.isSome) ↔
      ∀ name, m.idName = some name → (m.field? name).isSome := by
  rw [idField?]
  cases m.idName <;> simp

end Lookups

/-! ## Selections -/

section Selections

variable {schema : Schema} {options : Options} {m : Model} {request : Request} {node : Selection}

/-- A selected entry is of a declared field, or it is a count of relations. -/
def Model.Declares (m : Model) (name : String) (selected : Selected) : Prop :=
  (m.field? name).isSome ∨ name = countName ∧ selected.isNested

/-- If records are told apart by a declared field, nothing but declared fields and counts is
selected. -/
theorem declares_of_prune (hkey : ∀ name, m.idName = some name → (m.field? name).isSome)
    (h : prune schema options m request = .ok node) :
    ∀ e ∈ node.select, m.Declares e.1 e.2 := by
  obtain ⟨-, rfl⟩ := Prune.prune_eq_ok_iff.1 h
  refine Selected.forall_mergeEntries (P := m.Declares) (List.forall_mem_nil _) ?_ ?_
  · rintro ⟨name, selected⟩ he
    rcases Prune.of_mem_entries he with ⟨field, -, hcontributes⟩ | ⟨-, -, hdeclared | hid⟩
    · cases hcontributes with
      | plain _ _ hdeclared => exact .inl (Option.isSome_of_eq_some hdeclared)
      | relation _ _ hdeclared => exact .inl (Option.isSome_of_eq_some hdeclared)
      | count => exact .inr ⟨rfl, rfl⟩
    · exact .inl hdeclared
    · exact .inl (hkey name hid)
  · intro e he s hs
    refine hs.imp_right fun ⟨hcount, hnested⟩ => ⟨hcount, ?_⟩
    rw [Selected.isNested_merge (Prune.merge_field_of_mem_entries e he), hnested, Bool.true_or]

/-- A request for nothing selects the name that tells records apart, whether it is declared or
not. -/
theorem prune_bare {name : String} (hname : m.idName = some name) :
    prune schema {} m (.ofName "") = .ok ⟨[(name, .field)], []⟩ := by
  have hid : Prune.addId m [] .empty = ⟨[(name, .field)], []⟩ := by
    rw [Prune.addId, hname]
    rfl
  exact congrArg Except.ok hid

end Selections

/-! ## Mutations and tables -/

section Keys

variable {schema : Schema} {m : Model} {name : String}

/-- Mutations find the record of an id, and a record to be updated, under a name. -/
def Mutation.GoesBy (schema : Schema) (m : Model) (name : String) : Prop :=
  (∀ id, deleteVariables schema m.name id = .ok [("where", .object [(name, id)])]) ∧
    ∀ record data, recordVariables schema m.name record data =
      .ok [("where", .object [(name, entry record name)]), ("data", .object data)]

/-- A table finds the record that is connected now among its rows under a name. -/
def Table.GoesBy (m : Model) (name : String) : Prop :=
  ∀ connected rows, connected ≠ [] → connectedRows m (some connected) rows =
    connected :: rows.filter fun row => !hasId name (Mutation.entry connected name) row

theorem Mutation.idField_eq_ok_iff {field : Field} :
    idField m = .ok field ↔ m.idField? = some field := by
  rw [idField]
  cases m.idField? <;> simp

/-- Records are deleted by their key, and not at all without one. -/
theorem Mutation.deleteVariables_eq (hm : schema.findModel? m.name = some m) (id : Value) :
    deleteVariables schema m.name id =
      (idField m).map fun field => [("where", .object [(field.name, id)])] := by
  rw [deleteVariables, model_of_findModel? hm]
  rfl

/-- Mutations go by a name if there is a field of it. -/
theorem Mutation.goesBy_iff (hm : schema.findModel? m.name = some m) :
    GoesBy schema m name ↔ m.idName = some name ∧ (m.field? name).isSome := by
  rw [← Model.map_name_idField?_eq_some_iff]
  constructor
  · rintro ⟨hdelete, -⟩
    have hnull := hdelete .null
    rw [deleteVariables_eq hm, map_eq_ok_iff] at hnull
    obtain ⟨field, hfield, hvariables⟩ := hnull
    cases hvariables
    rw [idField_eq_ok_iff.1 hfield]
    rfl
  · intro h
    obtain ⟨field, hfield, rfl⟩ := Option.map_eq_some_iff.1 h
    have hid : idField m = .ok field := idField_eq_ok_iff.2 hfield
    refine ⟨fun id => ?_, fun record data => ?_⟩
    · rw [deleteVariables_eq hm, hid]
      rfl
    · rw [recordVariables, model_of_findModel? hm]
      refine bind_eq_ok_iff.2 ⟨m, rfl, bind_eq_ok_iff.2 ⟨field, hid, ?_⟩⟩
      rw [deleteVariables_eq hm, hid]
      rfl

/-- Tables go by a name whether there is a field of it or not. -/
theorem Table.goesBy_iff : GoesBy m name ↔ m.idName = some name := by
  constructor
  · intro h
    -- A record without an id counts as one whose id is null.
    have hnull : ∀ key, Mutation.entry [("", .null)] key = .null := by
      intro key
      rw [Mutation.entry, Keyed.get?_cons]
      split <;> rfl
    rcases hid : m.idName with _ | id
    · have hnone := h [("", .null)] [] (List.cons_ne_nil _ _)
      simp [connectedRows, hid] at hnone
    · by_contra hne
      have hname : id ≠ name := fun hname => hne (congrArg some hname)
      -- The row has this id, but another value under the name.
      have hdropped : hasId id .null [(id, .null), (name, .bool true)] := by
        rw [hasId, Keyed.get?_cons, if_pos rfl]
        rfl
      have hkept : hasId name .null [(id, .null), (name, .bool true)] = false := by
        rw [hasId, Keyed.get?_cons, if_neg hname, Keyed.get?_cons, if_pos rfl]
        rfl
      have hrow := h [("", .null)] [[(id, .null), (name, .bool true)]] (List.cons_ne_nil _ _)
      simp [connectedRows, hid, hnull, hdropped, hkept] at hrow
  · intro hid connected rows hne
    obtain ⟨entry, rest, rfl⟩ := List.exists_cons_of_ne_nil hne
    simp only [connectedRows, hid]

end Keys

/-! ## Loaded models -/

namespace Schema

/-- **When records are told apart by a declared field.** The name that tells the records of a
loaded model apart is that of a field, unless it comes from a primary key that dangles. Then, and
only then, it is the name of no field; no field is found though there is a name; selections may
have entries that are not declared; and mutations and tables do not find records under the same
name. -/
theorem keyDeclared_tfae {documents : List Document} {schema : Schema} {m : Model}
    (h : ofDocuments documents = .ok schema) (hm : m ∈ schema.models) :
    ∃ declared ∈ firsts (·.2.name) (documents.flatMap Document.declaredModels),
      declared.2.name = m.name ∧ List.TFAE [
        ∀ name, ¬ declared.2.Dangles name,
        ∀ name, m.idName = some name → (m.field? name).isSome,
        (m.idField?.isSome ↔ m.idName.isSome),
        ∀ options request node, prune schema options m request = .ok node →
          ∀ e ∈ node.select, m.Declares e.1 e.2,
        ∀ name, Mutation.GoesBy schema m name ↔ Table.GoesBy m name] := by
  have hmodels := mapM_firsts_of_loadModels (loadedFrom_of_ofDocuments h).models
  obtain ⟨declared, hdeclared, hload⟩ :=
    exists_of_mem_of_forall₂ (mapM_eq_ok_iff_forall₂.1 hmodels) hm
  have hfind : schema.findModel? m.name = some m :=
    find?_of_nodup (nodup_names_of_ofDocuments h) hm
  refine ⟨declared, hdeclared, (Model.eq_of_ofDocument hload).1, ?_⟩
  tfae_have 1 ↔ 2 := Model.forall_not_dangles_iff hload
  tfae_have 3 ↔ 2 := Model.isSome_idField?_iff
  tfae_have 2 → 4 := fun hkey options request node => declares_of_prune hkey
  -- A request for nothing selects the name as it stands.
  tfae_have 4 → 2 := by
    intro hselect name hname
    rcases hselect {} _ _ (prune_bare hname) _ (List.mem_singleton_self _) with hdeclared | ⟨-, hn⟩
    · exact hdeclared
    · cases hn
  tfae_have 2 ↔ 5 := by
    simp only [Mutation.goesBy_iff hfind, Table.goesBy_iff, and_iff_left_iff_imp]
  tfae_finish

/-- Tags are selected by the slug that they do not have, and tables find them under it, but
mutations do not. -/
theorem keyDeclared_tfae_tag :
    ofDocuments [Blog.tagDocument] = .ok Blog.tagSchema ∧
      prune Blog.tagSchema {} Blog.tag (.ofName "") = .ok ⟨[("slug", .field)], []⟩ ∧
      Blog.tag.field? "slug" = none ∧ Table.GoesBy Blog.tag "slug" ∧
      ¬ ∀ name, Mutation.GoesBy Blog.tagSchema Blog.tag name ↔ Table.GoesBy Blog.tag name := by
  have hload : ofDocuments [Blog.tagDocument] = .ok Blog.tagSchema := rfl
  obtain ⟨declared, -, -, htfae⟩ := keyDeclared_tfae hload (List.mem_singleton_self Blog.tag)
  have hundeclared : ¬ ∀ name, Blog.tag.idName = some name → (Blog.tag.field? name).isSome :=
    fun h => absurd (h "slug" rfl) (by decide)
  exact ⟨hload, prune_bare rfl, rfl, Table.goesBy_iff.2 rfl, mt (htfae.out 1 4).2 hundeclared⟩

end Schema

end Schematic
