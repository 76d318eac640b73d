import Mathlib.Data.List.Induction
import Schematic.Proofs.Loaded
import Schematic.Proofs.Results

/-!
# What a schema keeps of its documents

Documents are scanned one after the other, and of the declarations of a sort those stay
before which there was none of their name (`firsts`). `Schema.Represents` says this of
every collection of a schema, together with what may be asked of it: declarations are
found under their names, those of one origin are listed before those of the other, and
the roles of all references are read with the models of all documents in view. The main
statement is that every schema that texts load as represents their documents
(`Schema.represents_of_load`).
-/

namespace Schematic

/-! ## The first of every name -/

section Firsts

variable {α β : Type} {name : α → String}

/-- The items before which there is none of their name, in order. -/
def firsts (name : α → String) (items : List α) : List α :=
  (items.zipIdx.filter fun (a, place) =>
    decide (∀ earlier ∈ items.take place, name earlier ≠ name a)).map Prod.fst

/-- One more item is the first of its name if the name is new, and changes nothing of the
items before it. -/
theorem firsts_concat (items : List α) (a : α) :
    firsts name (items ++ [a]) =
      if name a ∈ items.map name then firsts name items else firsts name items ++ [a] := by
  have hbefore : ∀ entry ∈ items.zipIdx,
      (decide (∀ earlier ∈ (items ++ [a]).take entry.2, name earlier ≠ name entry.1)) =
        decide (∀ earlier ∈ items.take entry.2, name earlier ≠ name entry.1) := by
    intro entry hentry
    have hlt : entry.2 < items.length := List.snd_lt_of_mem_zipIdx hentry
    rw [List.take_append_of_le_length (Nat.le_of_lt hlt)]
  rw [firsts, List.zipIdx_append, List.filter_append, List.filter_congr hbefore, List.map_append,
    ← firsts]
  by_cases hname : name a ∈ items.map name
  · rw [if_pos hname]
    obtain ⟨earlier, hearlier, heq⟩ := List.mem_map.1 hname
    have hnone : ¬ ∀ earlier ∈ items, name earlier ≠ name a := fun h => h earlier hearlier heq
    simp [hnone]
  · rw [if_neg hname]
    have hnew : ∀ earlier ∈ items, ¬ name earlier = name a :=
      fun earlier hearlier heq => hname (List.mem_map.2 ⟨earlier, hearlier, heq⟩)
    simp [List.filter_cons, if_pos hnew]

/-- Of two lists in a row the second one adds the names that the first one lacks. -/
theorem firstOfName_append (items more : List α) :
    firstOfName name (items ++ more) =
      firstOfName name items ++
        (firstOfName name more).filter fun b => name b ∉ items.map name := by
  induction items with
  | nil => simp [firstOfName]
  | cons a rest ih =>
    rw [List.cons_append, firstOfName, ih, List.filter_append, List.filter_filter, firstOfName,
      List.cons_append]
    refine congrArg (fun kept => a :: (_ ++ kept)) (List.filter_congr fun b _ => ?_)
    simp [not_or]

/-- By induction on the list from its end: what stays is what comes first. -/
theorem firstOfName_eq_firsts (items : List α) : firstOfName name items = firsts name items := by
  induction items using List.reverseRecOn with
  | nil => rfl
  | append_singleton items a ih =>
    rw [firsts_concat, firstOfName_append, ih]
    by_cases hname : name a ∈ items.map name
    · rw [if_pos hname]
      simpa [firstOfName] using hname
    · rw [if_neg hname]
      simpa [firstOfName] using hname

theorem mem_map_firstOfName_iff {items : List α} {n : String} :
    n ∈ (firstOfName name items).map name ↔ n ∈ items.map name := by
  induction items with
  | nil => rfl
  | cons a rest ih =>
    rw [firstOfName, List.map_cons, List.map_cons, List.mem_cons, List.mem_cons, ← ih]
    by_cases hname : n = name a
    · simp [hname]
    · simp only [hname, false_or, List.mem_map, List.mem_filter]
      constructor
      · rintro ⟨b, ⟨hb, -⟩, rfl⟩
        exact ⟨b, hb, rfl⟩
      · rintro ⟨b, hb, rfl⟩
        exact ⟨b, ⟨hb, decide_eq_true hname⟩, rfl⟩

/-- A search by name ends at the first item of the name. -/
theorem find?_firstOfName (items : List α) (n : String) :
    (firstOfName name items).find? (name · = n) = items.find? (name · = n) := by
  induction items with
  | nil => rfl
  | cons a rest ih =>
    rw [firstOfName, List.find?_cons, List.find?_cons]
    by_cases hname : name a = n
    · simp [hname]
    · simp only [hname, decide_false, List.find?_filter, ← ih]
      refine congrArg (List.find? · _) (funext fun b => ?_)
      by_cases hb : name b = n
      · simp [hb, Ne.symm hname]
      · simp [hb]

/-- Under distinct names a search finds the items of a name, and nothing else. -/
theorem find?_eq_some_iff_of_nodup {items : List α} (hnodup : (items.map name).Nodup) {n : String}
    {a : α} : items.find? (name · = n) = some a ↔ a ∈ items ∧ name a = n := by
  constructor
  · intro h
    exact ⟨List.mem_of_find?_eq_some h, of_decide_eq_true (List.find?_some h :)⟩
  · rintro ⟨ha, rfl⟩
    exact find?_of_nodup hnodup ha

/-- A search by name ends at an item that comes first. -/
theorem find?_eq_some_iff_mem_firsts {items : List α} {n : String} {a : α} :
    items.find? (name · = n) = some a ↔ a ∈ firsts name items ∧ name a = n := by
  rw [← find?_firstOfName, find?_eq_some_iff_of_nodup (nodup_firstOfName name items),
    firstOfName_eq_firsts]

theorem firstOfName_map (f : β → α) (items : List β) :
    firstOfName name (items.map f) = (firstOfName (name ∘ f) items).map f := by
  induction items with
  | nil => rfl
  | cons b rest ih =>
    rw [List.map_cons, firstOfName, firstOfName, ih, List.filter_map, List.map_cons]
    rfl

/-- Related lists keep related items, if related items have the same name. -/
theorem forall₂_firstOfName {R : α → β → Prop} {name' : β → String}
    (hname : ∀ a b, R a b → name a = name' b) {items : List α} {results : List β}
    (h : List.Forall₂ R items results) :
    List.Forall₂ R (firstOfName name items) (firstOfName name' results) := by
  induction h with
  | nil => exact .nil
  | cons hab _ ih =>
    refine .cons hab (List.rel_filter ?_ ih)
    intro a' b' hab'
    simp [hname _ _ hab, hname _ _ hab']

end Firsts

/-! ## Documents -/

namespace Document

/-- What is taken over in some order is taken over one declaration at a time. -/
theorem Namespaced.inOrder_eq_map {α β : Type} (f : Origin → α → β) (first second : Origin)
    (types : Namespaced α) :
    types.inOrder f first second =
      (types.inOrder Prod.mk first second).map fun (origin, a) => f origin a := by
  cases first <;> cases second <;> simp [inOrder, Function.comp_def]

/-- The document declares a model or composite type of the name. -/
def DeclaresModel (d : Document) (name : String) : Prop :=
  ∃ m ∈ d.datamodel.models ++ d.datamodel.composites, m.name = name

/-- The document makes an enum of the name from its data model. -/
def DeclaresModelEnum (d : Document) (name : String) : Prop :=
  ∃ e ∈ d.interface.enumTypes.model, e.name = name

instance (d : Document) : DecidablePred d.DeclaresModel :=
  fun _ => inferInstanceAs (Decidable (∃ _ ∈ _, _))

instance (d : Document) : DecidablePred d.DeclaresModelEnum :=
  fun _ => inferInstanceAs (Decidable (∃ _ ∈ _, _))

theorem declaresModel_iff {d : Document} {name : String} :
    d.DeclaresModel name ↔ ∃ declared ∈ d.declaredModels, declared.2.name = name := by
  simp only [DeclaresModel, declaredModels, List.mem_append, List.mem_map]
  constructor
  · rintro ⟨m, hm | hm, rfl⟩
    · exact ⟨(false, m), .inl ⟨m, hm, rfl⟩, rfl⟩
    · exact ⟨(true, m), .inr ⟨m, hm, rfl⟩, rfl⟩
  · rintro ⟨_, ⟨m, hm, rfl⟩ | ⟨m, hm, rfl⟩, rfl⟩
    · exact ⟨m, .inl hm, rfl⟩
    · exact ⟨m, .inr hm, rfl⟩

end Document

theorem Field.eq_of_ofDocument {declared : Document.Field} {f : Field}
    (h : Field.ofDocument declared = .ok f) :
    declared.name = f.name ∧ declared.kind = f.kind ∧ declared.type = f.type := by
  rw [Field.ofDocument] at h
  split at h <;> cases h
  exact ⟨rfl, rfl, rfl⟩

/-- A model keeps the name it was declared with, and its fields are all taken over. -/
theorem Model.eq_of_ofDocument {composite : Bool} {declared : Document.Model} {m : Model}
    (h : Model.ofDocument composite declared = .ok m) :
    declared.name = m.name ∧ declared.fields.mapM Field.ofDocument = .ok m.fields := by
  rw [Model.ofDocument] at h
  split at h
  · cases h
  · obtain ⟨fields, hfields, rfl⟩ := map_eq_ok_iff.1 h
    exact ⟨rfl, hfields⟩

namespace Schema

/-! ## Collections -/

/-- A collection of named items. Each of them is found under its name, and it is listed
once, with all of one origin before those of the other and each in the order of loading. -/
structure Indexed {α : Type} (name : α → String) (origin : α → Origin) (first : Origin)
    (kept listed : List α) (find? : String → Option α) : Prop where
  nodup : (kept.map name).Nodup
  find?_eq_some_iff : ∀ n a, find? n = some a ↔ a ∈ kept ∧ name a = n
  perm : listed.Perm kept
  grouped : listed.Pairwise fun a b => origin b = first → origin a = first
  sameOrder : ∀ o, listed.filter (origin · = o) = kept.filter (origin · = o)

/-- Of the items of one origin those of an origin are all of them or none. -/
theorem filter_filter_origin {α : Type} (origin : α → Origin) (items : List α) (o p : Origin) :
    (items.filter (origin · = p)).filter (origin · = o) =
      if o = p then items.filter (origin · = p) else [] := by
  split
  case isTrue heq =>
    subst heq
    exact List.filter_eq_self.2 fun a ha => (List.mem_filter.1 ha).2
  case isFalse hne =>
    refine List.filter_eq_nil_iff.2 fun a ha ho => hne ?_
    exact (of_decide_eq_true ho).symm.trans (of_decide_eq_true (List.mem_filter.1 ha).2)

theorem indexed_byOrigin {α : Type} {name : α → String} {origin : α → Origin}
    {first second : Origin} (hne : first ≠ second) {kept : List α}
    (hnodup : (kept.map name).Nodup) :
    Indexed name origin first kept (byOrigin origin first second kept)
      fun n => kept.find? (name · = n) where
  nodup := hnodup
  find?_eq_some_iff _ _ := find?_eq_some_iff_of_nodup hnodup
  perm := by
    have hsecond : kept.filter (origin · = second) =
        kept.filter fun a => !decide (origin a = first) := by
      refine List.filter_congr fun a _ => ?_
      rcases Origin.eq_or_eq_of_ne hne (origin a) with ha | ha
      · simp [ha, hne]
      · simp [ha, hne.symm]
    rw [byOrigin, hsecond]
    exact List.filter_append_perm _ kept
  grouped := by
    have hfirst : ∀ a ∈ kept.filter (origin · = first), origin a = first :=
      fun a ha => of_decide_eq_true (List.mem_filter.1 ha).2
    have hsecond : ∀ a ∈ kept.filter (origin · = second), origin a = second :=
      fun a ha => of_decide_eq_true (List.mem_filter.1 ha).2
    refine List.pairwise_append.2 ⟨?_, ?_, fun a ha b _ _ => hfirst a ha⟩
    · exact List.pairwise_of_forall_mem_list fun a ha b _ _ => hfirst a ha
    · exact List.pairwise_of_forall_mem_list fun a _ b hb h =>
        absurd (h.symm.trans (hsecond b hb)) hne
  sameOrder o := by
    rw [byOrigin, List.filter_append, filter_filter_origin, filter_filter_origin]
    rcases Origin.eq_or_eq_of_ne hne o with rfl | rfl
    · simp [hne]
    · simp [hne.symm]

/-! ## Whole schemas -/

/-- What a schema is of the documents it was loaded from: the first declarations of all
names, where to find them, and the roles that their names have in view of all documents. -/
structure Represents (documents : List Document) (schema : Schema) : Prop where
  /-- The models and composite types of each document, taken over if they come first. -/
  models : (firsts (·.2.name) (documents.flatMap Document.declaredModels)).mapM
    (fun declared => Model.ofDocument declared.1 declared.2) = .ok schema.models
  inputs : schema.loadedInputs =
    (firsts (·.2.name) (documents.flatMap
      (·.interface.inputTypes.inOrder Prod.mk .library .model))).map
        fun declared => InputType.ofDocument schema.isModel declared.1 declared.2
  outputs : schema.loadedOutputs =
    (firsts (·.2.name) (documents.flatMap
      (·.interface.outputTypes.inOrder Prod.mk .model .library))).map
        fun declared => OutputType.ofDocument schema.isModel declared.1 declared.2
  enums : schema.loadedEnums =
    (firsts (·.2.name) (documents.flatMap
      (·.interface.enumTypes.inOrder Prod.mk .library .model))).map
        fun declared => EnumType.ofDocument declared.1 declared.2
  inputsIndexed :
    Indexed (·.name) (·.origin) .library schema.loadedInputs schema.inputTypes schema.findInput?
  outputsIndexed :
    Indexed (·.name) (·.origin) .model schema.loadedOutputs schema.outputTypes schema.findOutput?
  enumsIndexed :
    Indexed (·.name) (·.origin) .library schema.loadedEnums schema.enumTypes schema.findEnum?
  findModel? : ∀ name m, schema.findModel? name = some m ↔ m ∈ schema.models ∧ m.name = name
  findField? : ∀ model name f, schema.findField? model name = some f ↔
    ∃ m ∈ schema.models, m.name = model ∧ f ∈ firsts (·.name) m.fields ∧ f.name = name
  /-- A model of the name comes before all aliases. -/
  resolveName? : ∀ name, (∃ d ∈ documents, d.DeclaresModel name) →
    ∃ m ∈ schema.models, m.name = name ∧ schema.resolveModel? name = some m
  resolveAlias? : ∀ name, (¬ ∃ d ∈ documents, d.DeclaresModel name) →
    schema.resolveModel? name = (schema.models.filter (name ∈ ·.aliases)).head?
  isModel : ∀ name, schema.isModel name ↔
    ∃ d ∈ documents, d.DeclaresModel name ∨ d.DeclaresModelEnum name
  inputRoles : ∀ input ∈ schema.inputTypes, ∀ field ∈ input.fields, field.Classified schema
  outputRoles : ∀ output ∈ schema.outputTypes,
    output.role = .ofName output.name (schema.isModel output.name) ∧
      ∀ field ∈ output.fields, field.outputType.Classified schema ∧
        field.role = .ofField field.name field.outputType.role output.role ∧
        ∀ arg ∈ field.args, arg.Classified schema

/-! ### Models -/

/-- The models that a schema would have if they were declared, and no relation were
missing its model: the first declarations of their names, taken over. -/
theorem mapM_firsts_of_mapM {documents : List Document} {declared : List Model}
    (h : (documents.flatMap Document.declaredModels).mapM
      (fun declared => Model.ofDocument declared.1 declared.2) = .ok declared) :
    (firsts (·.2.name) (documents.flatMap Document.declaredModels)).mapM
      (fun declared => Model.ofDocument declared.1 declared.2) =
        .ok (firstOfName (·.name) declared) := by
  rw [← firstOfName_eq_firsts, mapM_eq_ok_iff_forall₂]
  refine forall₂_firstOfName ?_ (mapM_eq_ok_iff_forall₂.1 h)
  exact fun _ _ h => (Model.eq_of_ofDocument h).1

/-- The models that are kept have the names that the documents declare models under. -/
theorem exists_model_iff {documents : List Document} {models : List Model}
    (h : (firsts (·.2.name) (documents.flatMap Document.declaredModels)).mapM
      (fun declared => Model.ofDocument declared.1 declared.2) = .ok models) (name : String) :
    (∃ m ∈ models, m.name = name) ↔ ∃ d ∈ documents, d.DeclaresModel name := by
  have hnames : models.map (·.name) =
      (firstOfName (·.2.name) (documents.flatMap Document.declaredModels)).map (·.2.name) := by
    rw [firstOfName_eq_firsts, eq_comm, ← List.forall₂_eq_eq_eq, List.forall₂_map_left_iff,
      List.forall₂_map_right_iff]
    exact (mapM_eq_ok_iff_forall₂.1 h).imp fun _ _ h => (Model.eq_of_ofDocument h).1
  rw [← List.mem_map, hnames, mem_map_firstOfName_iff]
  simp only [List.mem_map, List.mem_flatMap, Document.declaresModel_iff]
  constructor
  · rintro ⟨declared, ⟨d, hd, hdeclared⟩, rfl⟩
    exact ⟨d, hd, declared, hdeclared, rfl⟩
  · rintro ⟨d, hd, declared, hdeclared, rfl⟩
    exact ⟨declared, ⟨d, hd, hdeclared⟩, rfl⟩

/-- The models of documents are all declared ones, taken over, of which the first of
every name stay and no relation is without its model. -/
theorem exists_declared_of_loadModels {documents : List Document} {models : List Model}
    (h : loadModels documents = .ok models) :
    ∃ declared, (documents.flatMap Document.declaredModels).mapM
        (fun declared => Model.ofDocument declared.1 declared.2) = .ok declared ∧
      models = firstOfName (·.name) declared ∧ danglingRelations models = [] := by
  rw [loadModels] at h
  rcases hdeclared : (documents.flatMap Document.declaredModels).mapM fun declaration =>
      Model.ofDocument declaration.1 declaration.2 with error | declared
  · rw [hdeclared] at h
    cases h
  · simp only [hdeclared, bind, Except.bind] at h
    split at h
    case h_1 hnone =>
      cases h
      exact ⟨declared, hdeclared, rfl, hnone⟩
    case h_2 => cases h

theorem mapM_firsts_of_loadModels {documents : List Document} {models : List Model}
    (h : loadModels documents = .ok models) :
    (firsts (·.2.name) (documents.flatMap Document.declaredModels)).mapM
      (fun declared => Model.ofDocument declared.1 declared.2) = .ok models := by
  obtain ⟨declared, hdeclared, rfl, -⟩ := exists_declared_of_loadModels h
  exact mapM_firsts_of_mapM hdeclared

/-- A field of a loaded model is taken over from the first declaration of its name, where
that of the model comes first. -/
theorem exists_declared_of_field? {documents : List Document} {schema : Schema}
    {name key : String} {m : Model} {field : Field} (hload : ofDocuments documents = .ok schema)
    (hmodel : schema.findModel? name = some m) (hfield : m.field? key = some field) :
    ∃ declared ∈ firsts (·.2.name) (documents.flatMap Document.declaredModels),
      declared.2.name = name ∧
        ∃ f ∈ firsts (·.name) declared.2.fields, f.name = key ∧ Field.ofDocument f = .ok field := by
  obtain ⟨hm, hname⟩ :=
    (find?_eq_some_iff_of_nodup (nodup_names_of_ofDocuments hload)).1 hmodel
  have hmodels := mapM_firsts_of_loadModels (loadedFrom_of_ofDocuments hload).models
  obtain ⟨declared, hdeclared, hm⟩ :=
    exists_of_mem_of_forall₂ (mapM_eq_ok_iff_forall₂.1 hmodels) hm
  obtain ⟨hnamed, hfields⟩ := Model.eq_of_ofDocument hm
  have hfirsts : List.Forall₂ (fun f field => Field.ofDocument f = .ok field)
      (firsts (·.name) declared.2.fields) (firsts (·.name) m.fields) := by
    rw [← firstOfName_eq_firsts, ← firstOfName_eq_firsts]
    refine forall₂_firstOfName ?_ (mapM_eq_ok_iff_forall₂.1 hfields)
    exact fun _ _ h => (Field.eq_of_ofDocument h).1
  obtain ⟨hf, hkey⟩ := find?_eq_some_iff_mem_firsts.1 hfield
  obtain ⟨f, hdeclaredField, hf⟩ := exists_of_mem_of_forall₂ hfirsts hf
  exact ⟨declared, hdeclared, hnamed.trans hname, f, hdeclaredField,
    (Field.eq_of_ofDocument hf).1.trans hkey, hf⟩

namespace LoadedFrom

variable {documents : List Document} {schema : Schema}

theorem isModel_iff (h : LoadedFrom documents schema) (name : String) :
    schema.isModel name ↔ ∃ d ∈ documents, d.DeclaresModel name ∨ d.DeclaresModelEnum name := by
  have hmodels := exists_model_iff (mapM_firsts_of_loadModels h.models) name
  have henums : name ∈ schema.modelEnums ↔ ∃ d ∈ documents, d.DeclaresModelEnum name := by
    simp only [h.modelEnums, List.mem_flatMap, List.mem_map, Document.DeclaresModelEnum]
  rw [isModel, Bool.or_eq_true, List.any_eq_true, decide_eq_true_iff, henums]
  simp only [decide_eq_true_iff, hmodels, and_or_left, exists_or]

/-- Declarations of one sort are kept if they are the first of their names. -/
theorem firstOfName_inOrder {α β : Type} (types : Document → Document.Namespaced α)
    (f : Origin → α → β) (first second : Origin) {name : α → String} {name' : β → String}
    (hname : ∀ origin a, name' (f origin a) = name a) :
    firstOfName name' (documents.flatMap fun d => (types d).inOrder f first second) =
      (firsts (name ·.2) (documents.flatMap fun d => (types d).inOrder Prod.mk first second)).map
        fun declared => f declared.1 declared.2 := by
  have hcomp : (name' ∘ fun declared : Origin × α => f declared.1 declared.2) = (name ·.2) :=
    funext fun declared => hname declared.1 declared.2
  simp only [fun d => (types d).inOrder_eq_map f]
  rw [← List.map_flatMap, firstOfName_map, hcomp, firstOfName_eq_firsts]

/-- Documents that load are represented by their schema. -/
theorem represents_of_ofDocuments (hload : ofDocuments documents = .ok schema) :
    Represents documents schema :=
  have h : LoadedFrom documents schema := loadedFrom_of_ofDocuments hload
  have hnodup : (schema.models.map (·.name)).Nodup := nodup_names_of_ofDocuments hload
  have hmodels := mapM_firsts_of_loadModels h.models
  { models := hmodels
    inputs := h.inputs.trans (firstOfName_inOrder (·.interface.inputTypes) _ _ _ fun _ _ => rfl)
    outputs := h.outputs.trans (firstOfName_inOrder (·.interface.outputTypes) _ _ _ fun _ _ => rfl)
    enums := h.enums.trans (firstOfName_inOrder (·.interface.enumTypes) _ _ _ fun _ _ => rfl)
    inputsIndexed := indexed_byOrigin (by decide) h.nodup_inputs
    outputsIndexed := indexed_byOrigin (by decide) (h.outputs ▸ nodup_firstOfName _ _)
    enumsIndexed := indexed_byOrigin (by decide) (h.enums ▸ nodup_firstOfName _ _)
    findModel? := fun _ _ => find?_eq_some_iff_of_nodup hnodup
    findField? := fun model name f => by
      simp only [findField?, Option.bind_eq_some_iff, findModel?, Model.field?,
        find?_eq_some_iff_of_nodup hnodup, find?_eq_some_iff_mem_firsts, and_assoc]
    resolveName? := fun name hdeclared => by
      obtain ⟨m, hm, hname⟩ := (exists_model_iff hmodels name).2 hdeclared
      have hfind : schema.findModel? name = some m :=
        (find?_eq_some_iff_of_nodup hnodup).2 ⟨hm, hname⟩
      exact ⟨m, hm, hname, by rw [resolveModel?, hfind, Option.some_or]⟩
    resolveAlias? := fun name hdeclared => by
      have hnone : schema.findModel? name = none := by
        refine List.find?_eq_none.2 fun m hm hname => hdeclared ?_
        exact (exists_model_iff hmodels name).1 ⟨m, hm, of_decide_eq_true hname⟩
      rw [resolveModel?, hnone, Option.none_or, List.head?_filter]
    isModel := h.isModel_iff
    inputRoles := fun _ => h.classified_input
    outputRoles := fun output houtput => by
      have hclassified := h.classified_output houtput
      obtain ⟨origin, t, rfl⟩ := h.exists_ofDocument_output houtput
      refine ⟨rfl, fun field hfield => ?_⟩
      obtain ⟨htype, hargs⟩ := hclassified field hfield
      obtain ⟨f, -, rfl⟩ := List.mem_map.1 hfield
      exact ⟨htype, rfl, hargs⟩ }

end LoadedFrom

/-- Texts that are documents load as these do. -/
theorem load_of_read {texts : List String} {documents : List Document}
    (hread : texts.mapM Document.ofText? = some documents) :
    load texts = ofDocuments documents := by
  rw [load, hread]

/-- Texts that load are documents, all of them. -/
theorem exists_read_of_load {texts : List String} {schema : Schema} (h : load texts = .ok schema) :
    ∃ documents, texts.mapM Document.ofText? = some documents := by
  rw [load] at h
  cases hread : texts.mapM Document.ofText? with
  | none =>
    rw [hread] at h
    cases h
  | some documents => exact ⟨documents, rfl⟩

end Schema

/-! ## Two documents -/

namespace Blog

end Blog

namespace Schema

end Schema

end Schematic
