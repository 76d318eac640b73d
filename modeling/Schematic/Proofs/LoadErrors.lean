import Schematic.Admin.Mutation
import Schematic.Proofs.Kept
import Schematic.Proofs.Strictness
import Schematic.Proofs.Typing

/-!
# Why documents do not load

Texts that are no documents are found first, then names that are empty, wherever they
are, and last the relations of models that are kept to models that no document declares
(`Document.faults`). The first fault is the error, and without one there is a schema.

All that is done with a schema may then rely on its relations: each leads to a model
(`Schema.RelationsResolve`). So pruning is never left without a target, and mutations
only ever miss the model they are asked for. `Schema.load_faults` says all of this.
-/

namespace Schematic

/-! ## Faults -/

namespace Document

/-- The names a model leaves empty, its own before those of its fields. -/
def Model.nameless (m : Document.Model) : List Nameless :=
  (if m.name = "" then [.model] else []) ++ (m.fields.filter (·.name = "")).map fun _ => .field

/-- The names a document leaves empty, those of models before those of composite types. -/
def nameless (d : Document) : List Nameless :=
  (d.datamodel.models ++ d.datamodel.composites).flatMap Model.nameless

/-- The field refers to a model that no document declares. -/
def Field.IsDangling (documents : List Document) (f : Document.Field) : Prop :=
  f.kind = .object ∧ ¬ ∃ d ∈ documents, d.DeclaresModel f.type

instance (documents : List Document) : DecidablePred (Field.IsDangling documents) :=
  fun _ => inferInstanceAs (Decidable (_ ∧ _))

/-- The relations that lead to no model, of the models that come first under their names. -/
def dangling (documents : List Document) : List LoadError :=
  (firsts (·.2.name) (documents.flatMap declaredModels)).flatMap fun declared =>
    (declared.2.fields.filter (·.IsDangling documents)).map fun f =>
      .danglingRelation declared.2.name f.name f.type

/-- What keeps documents from loading, in the order in which it is found. -/
def faults (documents : List Document) : List LoadError :=
  (documents.flatMap nameless).map .emptyName ++ dangling documents

end Document

/-! ### Empty names -/

/-- Of the fields of a model the first one without a name is the error. -/
theorem failure?_fields (fields : List Document.Field) :
    failure? (fields.mapM Field.ofDocument) =
      ((fields.filter (·.name = "")).map fun _ => LoadError.emptyName .field).head? := by
  have hfield : ∀ f : Document.Field, failure? (Field.ofDocument f) =
      (Option.guard (fun f : Document.Field => decide (f.name = "")) f).map fun _ =>
        LoadError.emptyName .field := by
    intro f
    by_cases hname : f.name = "" <;> simp [Field.ofDocument, Option.guard, hname, failure?]
  rw [failure?_mapM, funext hfield, List.head?_map, List.head?_filter, ← List.findSome?_guard,
    List.map_findSome?]
  rfl

/-- A model fails by its own name before those of its fields. -/
theorem failure?_model (composite : Bool) (m : Document.Model) :
    failure? (Model.ofDocument composite m) = (m.nameless.map LoadError.emptyName).head? := by
  rw [Model.ofDocument, Document.Model.nameless]
  by_cases hname : m.name = ""
  · simp [hname, failure?]
  · rw [if_neg hname, if_neg hname, List.nil_append, List.map_map]
    exact (failure?_map _ _).trans (failure?_fields m.fields)

/-- Models are taken over unless there is an empty name, and then the first one is the error. -/
theorem failure?_declaredModels (documents : List Document) :
    failure? ((documents.flatMap Document.declaredModels).mapM fun declared =>
        Model.ofDocument declared.1 declared.2) =
      ((documents.flatMap Document.nameless).map LoadError.emptyName).head? := by
  have hnameless : ∀ d : Document,
      d.declaredModels.flatMap (·.2.nameless) = d.nameless := by
    intro d
    rw [Document.declaredModels, Document.nameless, List.flatMap_append, List.flatMap_append,
      List.flatMap_map, List.flatMap_map]
  rw [failure?_mapM, ← funext hnameless, ← List.flatMap_assoc, List.map_flatMap, List.head?_flatMap]
  simp only [failure?_model]

/-! ### Relations without a model -/

/-- Relations that miss their models do so as they were declared. -/
theorem danglingRelations_eq {documents : List Document} {models : List Model}
    (h : (firsts (·.2.name) (documents.flatMap Document.declaredModels)).mapM
      (fun declared => Model.ofDocument declared.1 declared.2) = .ok models) :
    danglingRelations models = Document.dangling documents := by
  have hmissing : ∀ (declared : Document.Field) (f : Field), Field.ofDocument declared = .ok f →
      decide (declared.IsDangling documents) =
        (!models.any (·.name = f.type) && f.isRelation) := by
    intro declared f hf
    obtain ⟨-, hkind, htype⟩ := Field.eq_of_ofDocument hf
    rw [Bool.eq_iff_iff, decide_eq_true_iff, Document.Field.IsDangling, hkind, htype,
      ← Schema.exists_model_iff h f.type, Field.isRelation, Bool.and_comm]
    simp
  refine (flatMap_eq_of_forall₂ (fun declared m hm => ?_) (mapM_eq_ok_iff_forall₂.1 h)).symm
  obtain ⟨hnamed, hfields⟩ := Model.eq_of_ofDocument hm
  rw [Model.relationFields, List.filter_filter]
  refine map_filter_eq_of_forall₂ hmissing (fun declared' f hf => ?_)
    (mapM_eq_ok_iff_forall₂.1 hfields)
  obtain ⟨hname, -, htype⟩ := Field.eq_of_ofDocument hf
  rw [hnamed, hname, htype]

/-! ### The first fault -/

/-- Documents load unless they have a fault, and then the first one is the error. -/
theorem failure?_ofDocuments (documents : List Document) :
    failure? (Schema.ofDocuments documents) = (Document.faults documents).head? := by
  have hmodels : failure? (Schema.ofDocuments documents) = failure? (loadModels documents) := by
    rw [Schema.ofDocuments]
    exact failure?_map _ _
  have hnameless := failure?_declaredModels documents
  rw [hmodels, loadModels, Document.faults, List.head?_append, ← hnameless]
  cases hdeclared : (documents.flatMap Document.declaredModels).mapM fun declared =>
      Model.ofDocument declared.1 declared.2 with
  | error error => rfl
  | ok declared =>
    rw [← danglingRelations_eq (Schema.mapM_firsts_of_mapM hdeclared)]
    simp only [bind, Except.bind]
    cases danglingRelations (firstOfName (·.name) declared) <;> rfl

/-- There is a schema just when the documents have no fault. -/
theorem exists_ofDocuments_iff {documents : List Document} :
    (∃ schema, Schema.ofDocuments documents = .ok schema) ↔ Document.faults documents = [] := by
  rw [← failure?_eq_none_iff, failure?_ofDocuments, List.head?_eq_none_iff]

/-! ## Relations of a schema -/

namespace Schema

/-- Every relation leads to a model. -/
def RelationsResolve (schema : Schema) : Prop :=
  ∀ m ∈ schema.models, ∀ f ∈ m.fields, f.isRelation →
    ∃ target, schema.findModel? f.type = some target

/-- A relation that leads to no model would have kept the documents from loading. -/
theorem relationsResolve_of_ofDocuments {documents : List Document} {schema : Schema}
    (h : ofDocuments documents = .ok schema) : schema.RelationsResolve := by
  obtain ⟨declared, -, -, hnone⟩ :=
    exists_declared_of_loadModels (loadedFrom_of_ofDocuments h).models
  intro m hm f hf hrelation
  -- A relation without a model would be an error.
  have herrors := List.flatMap_eq_nil_iff.1 hnone m hm
  have hfound := List.filter_eq_nil_iff.1 (List.map_eq_nil_iff.1 herrors) f
    (List.mem_filter.2 ⟨hf, hrelation⟩)
  have hany : schema.models.any (·.name = f.type) = true := by simpa using hfound
  obtain ⟨target, htarget, hname⟩ := List.any_eq_true.1 hany
  exact Option.isSome_iff_exists.1 (List.find?_isSome.2 ⟨target, htarget, hname⟩)

end Schema

/-! ### Pruning -/

namespace Prune

variable {schema : Schema} {options : Options}

/-- Whatever pruning looks at is requested of a model of the schema. -/
theorem mem_models_of_mem_visits (request : Request) : ∀ model ∈ schema.models,
    ∀ visit ∈ visits schema options model request, visit.model ∈ schema.models := by
  induction request using Request.induction with
  | h request ih =>
    intro model hmodel visit hvisit
    rw [visits_eq] at hvisit
    obtain ⟨field, hfield, hvisit⟩ := List.mem_flatMap.1 hvisit
    rw [visitsOf] at hvisit
    split at hvisit
    case isTrue => cases hvisit
    case isFalse =>
      rcases List.mem_cons.1 hvisit with rfl | hvisit
      · exact hmodel
      · cases hname : Requested.ofName model field.name with
        | count =>
          rw [hname] at hvisit
          obtain ⟨counted, -, hcounted⟩ := List.mem_flatMap.1 hvisit
          split at hcounted
          · cases hcounted
          · exact List.mem_singleton.1 hcounted ▸ hmodel
        | unknown =>
          rw [hname] at hvisit
          cases hvisit
        | declared declared =>
          simp only [hname] at hvisit
          split at hvisit
          case isFalse => cases hvisit
          case isTrue =>
            split at hvisit
            case h_1 target htarget =>
              exact ih field hfield target (List.mem_of_find?_eq_some htarget) visit hvisit
            case h_2 => cases hvisit

/-- A model that is found is found with more models behind it. -/
theorem findModel?_append {name : String} {m : Model} (h : schema.findModel? name = some m)
    (more : List Model) :
    { schema with models := schema.models ++ more }.findModel? name = some m := by
  rw [Schema.findModel?] at h
  rw [Schema.findModel?, List.find?_append, h, Option.some_or]

/-- The step: what a sub-request contributes does not depend on models that the schema
lacks, if what it is pruned to does not. -/
theorem entry_append (hresolve : schema.RelationsResolve) {model : Model}
    (hmodel : model ∈ schema.models) (excluded : List String) (more : List Model)
    {field : Request}
    (hprune : ∀ target ∈ schema.models,
      prune { schema with models := schema.models ++ more } options target field =
        prune schema options target field) :
    entry { schema with models := schema.models ++ more } options model excluded field =
      entry schema options model excluded field := by
  rw [entry, entry]
  cases hname : Requested.ofName model field.name with
  | count => rfl
  | unknown => rfl
  | declared declared =>
    simp only
    by_cases hrelation : declared.isRelation
    · have hdeclared := List.mem_of_find?_eq_some (declared_of_ofName hname)
      obtain ⟨target, htarget⟩ := hresolve model hmodel declared hdeclared hrelation
      rw [findModel?_append htarget more, htarget]
      simp only [hprune target (List.mem_of_find?_eq_some htarget)]
    · simp only [hrelation, Bool.false_eq_true, false_and, if_false]

/-- The run: pruning is the same whatever models are declared besides. -/
theorem prune_append (hresolve : schema.RelationsResolve) (more : List Model)
    (request : Request) : ∀ model ∈ schema.models,
      prune { schema with models := schema.models ++ more } options model request =
        prune schema options model request := by
  induction request using Request.induction with
  | h request ih =>
    intro model hmodel
    rw [prune_eq, prune_eq, mapM_congr fun field hfield =>
      entry_append hresolve hmodel _ more (ih field hfield)]

end Prune

/-! ### Mutations -/

/-- The run does not fail for want of a model. -/
def MissesNoModel {α : Type} (x : Except AdminError α) : Prop :=
  ∀ name, failure? x ≠ some (.unknownModel name)

namespace MissesNoModel

variable {α β : Type}

theorem of_ok (a : α) : MissesNoModel (.ok a) :=
  fun _ h => nomatch h

theorem map {x : Except AdminError α} (h : MissesNoModel x) (f : α → β) :
    MissesNoModel (x.map f) := by
  intro name
  rw [failure?_map]
  exact h name

theorem bind {x : Except AdminError α} {f : α → Except AdminError β} (h : MissesNoModel x)
    (hf : ∀ a, MissesNoModel (f a)) : MissesNoModel (x >>= f) := by
  cases x with
  | error error => exact fun name hname => h name hname
  | ok a => exact hf a

theorem mapM {f : α → Except AdminError β} {items : List α} (h : ∀ a ∈ items, MissesNoModel (f a)) :
    MissesNoModel (items.mapM f) := by
  intro name hname
  rw [failure?_mapM] at hname
  obtain ⟨a, ha, hfailure⟩ := List.exists_of_findSome?_eq_some hname
  exact h a ha name hfailure

end MissesNoModel

namespace FormValue

theorem missesNoModel_scalar (field : Field) (text : String) :
    MissesNoModel (scalar field text) := by
  have hnumber : MissesNoModel (.error (.invalidNumber field.name text) : Except _ Json.Value) :=
    fun _ h => nomatch h
  rw [scalar]
  split
  · split
    · exact .of_ok _
    · exact hnumber
  · split
    · split
      · exact .of_ok _
      · exact hnumber
    · split <;> exact .of_ok _

theorem missesNoModel_json (field : Field) (text : String) : MissesNoModel (json field text) := by
  rw [json]
  split
  · exact .of_ok _
  · split
    · exact .of_ok _
    · exact fun _ h => nomatch h

/-- A text is read by the kind of its field, and no model is looked up for that. -/
theorem missesNoModel_ofText (field : Field) (writing : Writing) (text : String) :
    MissesNoModel (ofText field writing text) := by
  rw [ofText, list]
  split
  · exact (missesNoModel_json field text).map _
  · split
    · split
      · exact .of_ok _
      · exact (MissesNoModel.mapM fun item _ => missesNoModel_scalar field item).map _
    · exact (missesNoModel_scalar field text).map _

/-- Form values are not looked up. -/
theorem missesNoModel_coerce (field : Option Field) (writing : Writing) (v : Json.Value) :
    MissesNoModel (coerce field writing v) := by
  unfold coerce
  split
  · exact .of_ok _
  · split
    · exact missesNoModel_ofText _ _ _
    · exact missesNoModel_ofText _ _ _
    · exact .of_ok _

end FormValue

namespace Mutation

variable {schema : Schema}

theorem missesNoModel_idField (m : Model) : MissesNoModel (idField m) := by
  rw [idField]
  split
  · exact .of_ok _
  · exact fun _ h => nomatch h

/-- A connection to a model that is there can only miss its id. -/
theorem missesNoModel_connect {field : Field} {target : Model}
    (htarget : schema.findModel? field.type = some target) (writing : Writing) (v : Json.Value) :
    MissesNoModel (connect schema field writing v) := by
  unfold connect
  rw [model_of_findModel? htarget]
  refine (missesNoModel_idField target).bind fun id => ?_
  exact (FormValue.missesNoModel_coerce _ _ _).bind fun key => .of_ok _

variable {m : Model}

/-- The step: an entry of a form looks up the model its relation leads to. -/
theorem missesNoModel_createEntry (hresolve : schema.RelationsResolve) (hm : m ∈ schema.models)
    (e : String × Json.Value) : MissesNoModel (createEntry schema m e) := by
  have hplain := (FormValue.missesNoModel_coerce (m.field? e.1) .create e.2).map fun v =>
    some (e.1, v)
  rw [createEntry]
  cases hfield : m.field? e.1 with
  | none =>
    rw [hfield] at hplain
    exact hplain
  | some field =>
    rw [hfield] at hplain
    simp only
    by_cases hrelation : field.isRelation
    · obtain ⟨target, htarget⟩ :=
        hresolve m hm field (List.mem_of_find?_eq_some hfield) hrelation
      rw [if_pos hrelation]
      split
      · exact .of_ok _
      · exact (missesNoModel_connect htarget .create e.2).map _
    · rw [if_neg hrelation]
      exact hplain

/-- A relation that stays set is compared by the id of its target, which is there. -/
theorem missesNoModel_updateRelation {field : Field} {target : Model}
    (htarget : schema.findModel? field.type = some target) (writing : Writing)
    (previous v : Json.Value) : MissesNoModel (updateRelation schema field writing previous v) := by
  have hconnect := missesNoModel_connect htarget writing v
  rw [updateRelation]
  split
  · exact .of_ok _
  · exact .of_ok _
  · exact hconnect.map _
  · rw [model_of_findModel? htarget]
    refine (missesNoModel_idField target).bind fun id => ?_
    split
    · exact hconnect.bind fun connection => .of_ok _
    · exact .of_ok _

/-- The step: an entry of a record looks up the model its relation leads to. -/
theorem missesNoModel_updateEntry (hresolve : schema.RelationsResolve) (hm : m ∈ schema.models)
    (writing : Writing) (old : Record) (e : String × Json.Value) :
    MissesNoModel (updateEntry schema m writing old e) := by
  rw [updateEntry]
  split
  · exact .of_ok _
  · rename_i field hfield
    obtain ⟨hfield, -⟩ := Option.filter_eq_some_iff.1 hfield
    refine MissesNoModel.map ?_ _
    by_cases hrelation : field.isRelation
    · obtain ⟨target, htarget⟩ :=
        hresolve m hm field (List.mem_of_find?_eq_some hfield) hrelation
      rw [if_pos hrelation]
      exact missesNoModel_updateRelation htarget writing _ e.2
    · rw [if_neg hrelation]
      split
      · exact .of_ok _
      · exact (FormValue.missesNoModel_coerce _ _ _).map _

/-- The run: a mutation misses a model just when it is asked for one that is not there. -/
theorem error_unknownModel_iff {α : Type} {name missing : String} {f : Model → Except AdminError α}
    (h : ∀ m ∈ schema.models, MissesNoModel (f m)) :
    model schema name >>= f = .error (.unknownModel missing) ↔
      missing = name ∧ schema.findModel? name = none := by
  cases hmodel : schema.findModel? name with
  | none =>
    rw [model, hmodel]
    simp [bind, Except.bind, eq_comm]
  | some m =>
    rw [model_of_findModel? hmodel]
    have hmisses := h m (List.mem_of_find?_eq_some hmodel) missing
    rw [Ne, failure?_eq_some_iff] at hmisses
    exact iff_of_false hmisses fun hmissing => Option.some_ne_none m hmissing.2

/-- What is created misses no model but the one it is created of. -/
theorem createData_error_unknownModel_iff (hresolve : schema.RelationsResolve) {name : String}
    {form : Record} {missing : String} :
    createData schema name form = .error (.unknownModel missing) ↔
      missing = name ∧ schema.findModel? name = none :=
  error_unknownModel_iff fun _ hm =>
    (MissesNoModel.mapM fun e _ => missesNoModel_createEntry hresolve hm e).bind fun _ => .of_ok _

/-- What is updated misses no model but its own. -/
theorem updateData_error_unknownModel_iff (hresolve : schema.RelationsResolve) {name : String}
    {old new : Record} {settings : Settings} {missing : String} :
    updateData schema name old new settings = .error (.unknownModel missing) ↔
      missing = name ∧ schema.findModel? name = none :=
  error_unknownModel_iff fun _ hm =>
    (MissesNoModel.mapM fun e _ => missesNoModel_updateEntry hresolve hm _ old e).bind
      fun _ => .of_ok _

end Mutation

/-! ## Loading -/

namespace Schema

/-- A text that is no document is no fault of the documents. -/
theorem malformed_not_mem_faults (documents : List Document) :
    LoadError.malformed ∉ Document.faults documents := by
  intro h
  rcases List.mem_append.1 h with h | h
  · obtain ⟨_, -, h⟩ := List.mem_map.1 h
    cases h
  · obtain ⟨_, -, h⟩ := List.mem_flatMap.1 h
    obtain ⟨_, -, h⟩ := List.mem_map.1 h
    cases h

/-- A text that is no document is the error, whatever the other texts are. -/
theorem load_eq_malformed_iff (texts : List String) :
    load texts = .error .malformed ↔ ∃ text ∈ texts, Document.ofText? text = none := by
  rw [← mapM_eq_none_iff]
  cases hread : texts.mapM Document.ofText? with
  | none =>
    rw [load, hread]
    exact iff_of_true rfl rfl
  | some documents =>
    rw [load_of_read hread, ← failure?_eq_some_iff, failure?_ofDocuments]
    exact iff_of_false (fun h => malformed_not_mem_faults documents (List.mem_of_head? h))
      (Option.some_ne_none documents)

open Mutation in
/-- **The first fault is the error.** Texts that are no documents come first, then the
faults of documents in their order, and without any there is a schema. In a schema every
relation that pruning looks at leads to a model, so that more models would change
nothing, and mutations miss no model but the one they are called with. -/
theorem load_faults (texts : List String) :
    (load texts = .error .malformed ↔ ∃ text ∈ texts, Document.ofText? text = none) ∧
    (∀ documents, texts.mapM Document.ofText? = some documents →
      (∀ error, load texts = .error error ↔ (Document.faults documents).head? = some error) ∧
      ((∃ schema, load texts = .ok schema) ↔ Document.faults documents = [])) ∧
    ∀ schema, load texts = .ok schema →
      (∀ (options : Options) (name : String) (model : Model) (request : Request),
        schema.resolveModel? name = some model →
        (∀ visit ∈ Prune.visits schema options model request,
          ∀ declared ∈ visit.model.field? visit.field.name, declared.isRelation →
            ∃ target, schema.findModel? declared.type = some target) ∧
        ∀ more, prune { schema with models := schema.models ++ more } options model request =
          prune schema options model request) ∧
      (∀ (name : String) (form : Record) (missing : String),
        createData schema name form = .error (.unknownModel missing) ↔
          missing = name ∧ schema.findModel? name = none) ∧
      ∀ (name : String) (old new : Record) (settings : Settings) (missing : String),
        updateData schema name old new settings = .error (.unknownModel missing) ↔
          missing = name ∧ schema.findModel? name = none := by
  refine ⟨load_eq_malformed_iff texts, fun documents hread => ?_, fun schema hload => ?_⟩
  · rw [load_of_read hread]
    refine ⟨fun error => ?_, exists_ofDocuments_iff⟩
    rw [← failure?_eq_some_iff, failure?_ofDocuments]
  · obtain ⟨documents, hread⟩ := exists_read_of_load hload
    have hresolve : schema.RelationsResolve :=
      relationsResolve_of_ofDocuments ((load_of_read hread).symm.trans hload)
    refine ⟨fun options name model request hname => ⟨?_, ?_⟩,
      fun _ _ _ => createData_error_unknownModel_iff hresolve,
      fun _ _ _ _ _ => updateData_error_unknownModel_iff hresolve⟩
    · intro visit hvisit declared hdeclared
      have hmodel := mem_models_of_resolveModel? hname
      exact hresolve _ (Prune.mem_models_of_mem_visits request model hmodel visit hvisit) declared
        (List.mem_of_find?_eq_some hdeclared)
    · exact fun more => Prune.prune_append hresolve more request model
        (mem_models_of_resolveModel? hname)

end Schema

/-! ## Three texts -/

namespace Blog

/-- Users with posts, which are not declared. -/
def authorsText : String :=
  "[[[],[[\"User\",null,[" ++
    "[\"posts\",null,\"object\",true,true,false,false,false,false,\"Post\"]" ++
    "]]]],[[[]],[[]],[[]]]]"

/-- Users once more, with a field that has no name. -/
def draftText : String :=
  "[[[],[[\"User\",null,[" ++
    "[\"\",null,\"scalar\",true,true,false,false,false,false,\"Int\"]" ++
    "]]]],[[[]],[[]],[[]]]]"

/-- Posts. -/
def postsText : String :=
  "[[[],[[\"Post\",null,[]]]],[[[]],[[]],[[]]]]"

end Blog

namespace Schema

/-- Posts may be declared later than what refers to them, but not at all is an error. The
empty name in a declaration that would be dropped is one that comes before it. -/
theorem load_faults_posts :
    load [Blog.authorsText] = .error (.danglingRelation "User" "posts" "Post") ∧
      load [Blog.authorsText, Blog.draftText] = .error (.emptyName .field) ∧
      ∃ schema, load [Blog.authorsText, Blog.postsText] = .ok schema ∧
        Mutation.createData schema "Tag" [] = .error (.unknownModel "Tag") := by
  have hfacts : (do
      let authors ← Document.ofText? Blog.authorsText
      let draft ← Document.ofText? Blog.draftText
      let posts ← Document.ofText? Blog.postsText
      return ((Document.faults [authors]).head?, (Document.faults [authors, draft]).head?,
        (ofDocuments [authors, posts]).map fun schema => (schema.findModel? "Tag").isNone)) =
      some (some (.danglingRelation "User" "posts" "Post"), some (.emptyName .field),
        .ok true) := by
    decide +kernel
  simp only [Option.bind_eq_bind, Option.bind_eq_some_iff, Option.pure_def, Option.some_inj,
    Prod.mk.injEq, map_eq_ok_iff, Option.isNone_iff_eq_none] at hfacts
  obtain ⟨authors, hauthors, draft, hdraft, posts, hposts, hmissing, hempty, schema, hschema,
    htag⟩ := hfacts
  have hread : [Blog.authorsText].mapM Document.ofText? = some [authors] := by simp [hauthors]
  have hread' : [Blog.authorsText, Blog.draftText].mapM Document.ofText? =
      some [authors, draft] := by simp [hauthors, hdraft]
  have hread'' : [Blog.authorsText, Blog.postsText].mapM Document.ofText? =
      some [authors, posts] := by simp [hauthors, hposts]
  have hload : load [Blog.authorsText, Blog.postsText] = .ok schema :=
    (load_of_read hread'').trans hschema
  obtain ⟨-, hfaults, -⟩ := load_faults [Blog.authorsText]
  obtain ⟨-, hfaults', -⟩ := load_faults [Blog.authorsText, Blog.draftText]
  obtain ⟨-, -, hloaded⟩ := load_faults [Blog.authorsText, Blog.postsText]
  obtain ⟨-, hcreate, -⟩ := hloaded schema hload
  exact ⟨((hfaults _ hread).1 _).2 hmissing, ((hfaults' _ hread').1 _).2 hempty, schema, hload,
    (hcreate "Tag" [] "Tag").2 ⟨rfl, htag⟩⟩

end Schema

end Schematic
