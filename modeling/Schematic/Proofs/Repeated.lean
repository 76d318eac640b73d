import Schematic.Proofs.Blog
import Schematic.Proofs.LoadErrors

/-!
# Documents that repeat others

A document that is loaded last, and whose names are all taken, adds no declaration. What
it may still change is which names count as models: an enum that it makes from its data
model counts as one even though another enum of that name stays
(`Schema.not_sameAnswers_roles`). Answers are the same as without the document just when
such enums count as models anyway (`Schema.sameAnswers_iff`).
-/

namespace Schematic

/-- Names that are taken come first nowhere. -/
theorem firsts_append_of_taken {α : Type} {name : α → String} {items more : List α}
    (h : ∀ b ∈ more, name b ∈ items.map name) :
    firsts name (items ++ more) = firsts name items := by
  have hnone : (firstOfName name more).filter (fun b => name b ∉ items.map name) = [] := by
    refine List.filter_eq_nil_iff.2 fun b hb hnew => ?_
    exact of_decide_eq_true hnew (h b ((firstOfName_sublist name more).subset hb))
  rw [← firstOfName_eq_firsts, firstOfName_append, hnone, List.append_nil, firstOfName_eq_firsts]

/-! ## Repetitions -/

namespace Document

/-- The names of all declarations of one sort. -/
def Namespaced.names {α : Type} (name : α → String) (types : Namespaced α) : List String :=
  (types.library ++ types.model).map name

theorem Namespaced.mem_names_iff {α : Type} {name : α → String} {types : Namespaced α}
    {n : String} {first second : Origin} (hne : first ≠ second) :
    n ∈ types.names name ↔ n ∈ (types.inOrder Prod.mk first second).map (name ·.2) := by
  cases first <;> cases second <;>
    simp_all [names, inOrder, or_comm]

/-- The names that a document declares are all taken by others, each in its collection. -/
structure Repeats (later : Document) (documents : List Document) : Prop where
  models : ∀ m ∈ later.datamodel.models ++ later.datamodel.composites,
    ∃ d ∈ documents, d.DeclaresModel m.name
  inputs : ∀ name ∈ later.interface.inputTypes.names (·.name),
    ∃ d ∈ documents, name ∈ d.interface.inputTypes.names (·.name)
  outputs : ∀ name ∈ later.interface.outputTypes.names (·.name),
    ∃ d ∈ documents, name ∈ d.interface.outputTypes.names (·.name)
  enums : ∀ name ∈ later.interface.enumTypes.names (·.name),
    ∃ d ∈ documents, name ∈ d.interface.enumTypes.names (·.name)

instance (later : Document) (documents : List Document) : Decidable (later.Repeats documents) :=
  decidable_of_iff (_ ∧ _ ∧ _ ∧ _)
    ⟨fun ⟨models, inputs, outputs, enums⟩ => ⟨models, inputs, outputs, enums⟩,
      fun h => ⟨h.models, h.inputs, h.outputs, h.enums⟩⟩

variable {later : Document} {documents : List Document}

/-- Of the declarations of one sort, those of the last document do not come first. -/
theorem firsts_inOrder {α : Type} (types : Document → Namespaced α) {name : α → String}
    {first second : Origin} (hne : first ≠ second)
    (h : ∀ n ∈ (types later).names name, ∃ d ∈ documents, n ∈ (types d).names name) :
    firsts (name ·.2) ((documents ++ [later]).flatMap fun d =>
        (types d).inOrder Prod.mk first second) =
      firsts (name ·.2) (documents.flatMap fun d => (types d).inOrder Prod.mk first second) := by
  rw [List.flatMap_append, List.flatMap_singleton]
  refine firsts_append_of_taken fun b hb => ?_
  obtain ⟨d, hd, hname⟩ := h (name b.2)
    ((Namespaced.mem_names_iff hne).2 (List.mem_map_of_mem hb))
  rw [List.map_flatMap, List.mem_flatMap]
  exact ⟨d, hd, (Namespaced.mem_names_iff hne).1 hname⟩

namespace Repeats

theorem exists_declaresModel_iff (h : later.Repeats documents) (name : String) :
    (∃ d ∈ documents ++ [later], d.DeclaresModel name) ↔ ∃ d ∈ documents, d.DeclaresModel name := by
  simp only [List.mem_append, List.mem_singleton, or_and_right, exists_or, exists_eq_left]
  refine or_iff_left_of_imp ?_
  rintro ⟨m, hm, rfl⟩
  exact h.models m hm

theorem firsts_declaredModels (h : later.Repeats documents) :
    firsts (·.2.name) ((documents ++ [later]).flatMap declaredModels) =
      firsts (·.2.name) (documents.flatMap declaredModels) := by
  rw [List.flatMap_append, List.flatMap_singleton]
  refine firsts_append_of_taken fun b hb => ?_
  obtain ⟨d, hd, hdeclares⟩ := (h.exists_declaresModel_iff b.2.name).1
    ⟨later, List.mem_append_right _ (List.mem_singleton_self _), declaresModel_iff.2 ⟨b, hb, rfl⟩⟩
  obtain ⟨declared, hdeclared, hname⟩ := declaresModel_iff.1 hdeclares
  exact List.mem_map.2 ⟨declared, List.mem_flatMap.2 ⟨d, hd, hdeclared⟩, hname⟩

theorem dangling_eq (h : later.Repeats documents) :
    dangling (documents ++ [later]) = dangling documents := by
  have hsame : ∀ f : Field, f.IsDangling (documents ++ [later]) ↔ f.IsDangling documents :=
    fun f => and_congr_right fun _ => not_congr (h.exists_declaresModel_iff f.type)
  rw [dangling, dangling, h.firsts_declaredModels]
  simp only [hsame]

/-- The document has no faults of its own among the others. -/
theorem faults_eq_nil (h : later.Repeats documents) (hnone : faults documents = [])
    (hlater : later.nameless = []) : faults (documents ++ [later]) = [] := by
  obtain ⟨hnames, hrelations⟩ := List.append_eq_nil_iff.1 hnone
  refine List.append_eq_nil_iff.2 ⟨?_, h.dangling_eq.trans hrelations⟩
  rw [List.flatMap_append, List.flatMap_singleton, hlater, List.append_nil, hnames]

end Repeats

end Document

/-! ## Answers -/

namespace Schema

/-- Two schemas list the same, find the same under every name, and take the same names
for models. Roles are part of what is listed and found. -/
structure SameAnswers (s t : Schema) : Prop where
  models : s.models = t.models
  inputTypes : s.inputTypes = t.inputTypes
  outputTypes : s.outputTypes = t.outputTypes
  enumTypes : s.enumTypes = t.enumTypes
  findModel? : ∀ name, s.findModel? name = t.findModel? name
  resolveModel? : ∀ name, s.resolveModel? name = t.resolveModel? name
  findField? : ∀ model name, s.findField? model name = t.findField? model name
  findInput? : ∀ name, s.findInput? name = t.findInput? name
  findOutput? : ∀ name, s.findOutput? name = t.findOutput? name
  findEnum? : ∀ name, s.findEnum? name = t.findEnum? name
  isModel : ∀ name, s.isModel name = t.isModel name
  roleOf : ∀ name location, s.roleOf name location = t.roleOf name location

variable {documents : List Document} {later : Document} {schema extended : Schema}

namespace Represents

/-- Models that are declared once more are kept as they are. -/
theorem models_eq (h : Represents documents schema)
    (h' : Represents (documents ++ [later]) extended) (hrepeats : later.Repeats documents) :
    extended.models = schema.models := by
  have hkept := h'.models
  rw [hrepeats.firsts_declaredModels, h.models] at hkept
  exact (Except.ok.inj hkept).symm

theorem loadedEnums_eq (h : Represents documents schema)
    (h' : Represents (documents ++ [later]) extended) (hrepeats : later.Repeats documents) :
    extended.loadedEnums = schema.loadedEnums := by
  rw [h'.enums, h.enums,
    Document.firsts_inOrder (·.interface.enumTypes) (by decide) hrepeats.enums]

/-- The last document adds its enums to what counts as a model, though it adds no model. -/
theorem isModel_extended_iff (h : Represents documents schema)
    (h' : Represents (documents ++ [later]) extended) (hrepeats : later.Repeats documents)
    (name : String) :
    extended.isModel name ↔ schema.isModel name ∨ later.DeclaresModelEnum name := by
  have hmodels := hrepeats.exists_declaresModel_iff name
  rw [h'.isModel, h.isModel]
  simp only [and_or_left, exists_or, hmodels, or_assoc]
  simp only [List.mem_append, List.mem_singleton, or_and_right, exists_or, exists_eq_left]

/-- If the same names count as models, all answers are the same. -/
theorem sameAnswers_of_isModel_eq (h : Represents documents schema)
    (h' : Represents (documents ++ [later]) extended) (hrepeats : later.Repeats documents)
    (hisModel : extended.isModel = schema.isModel) : SameAnswers extended schema := by
  have hmodels := h.models_eq h' hrepeats
  have henums := h.loadedEnums_eq h' hrepeats
  have hinputs : extended.loadedInputs = schema.loadedInputs := by
    rw [h'.inputs, h.inputs, hisModel,
      Document.firsts_inOrder (·.interface.inputTypes) (by decide) hrepeats.inputs]
  have houtputs : extended.loadedOutputs = schema.loadedOutputs := by
    rw [h'.outputs, h.outputs, hisModel,
      Document.firsts_inOrder (·.interface.outputTypes) (by decide) hrepeats.outputs]
  have hfind : extended.findModel? = schema.findModel? := by
    funext name
    rw [Schema.findModel?, Schema.findModel?, hmodels]
  exact {
    models := hmodels
    inputTypes := by rw [inputTypes, inputTypes, hinputs]
    outputTypes := by rw [outputTypes, outputTypes, houtputs]
    enumTypes := by rw [enumTypes, enumTypes, henums]
    findModel? := congrFun hfind
    resolveModel? := fun name => by rw [resolveModel?, resolveModel?, hfind, hmodels]
    findField? := fun model name => by rw [Schema.findField?, Schema.findField?, hfind]
    findInput? := fun name => by rw [findInput?, findInput?, hinputs]
    findOutput? := fun name => by rw [findOutput?, findOutput?, houtputs]
    findEnum? := fun name => by rw [findEnum?, findEnum?, henums]
    isModel := congrFun hisModel
    roleOf := fun name location => by rw [roleOf, roleOf, hisModel] }

end Represents

/-- **A document of known names only adds to what counts as a model.** It loads with the
others, and answers are as without it just when the enums that it makes from its data
model count as models without it. -/
theorem sameAnswers_iff {texts : List String} {text : String} {own : Schema}
    (hread : texts.mapM Document.ofText? = some documents)
    (hlater : Document.ofText? text = some later) (hload : load texts = .ok schema)
    (hown : load [text] = .ok own) (hrepeats : later.Repeats documents) :
    ∃ extended, load (texts ++ [text]) = .ok extended ∧
      extended.models = schema.models ∧ extended.loadedEnums = schema.loadedEnums ∧
      (∀ name, extended.isModel name ↔ schema.isModel name ∨ later.DeclaresModelEnum name) ∧
      (SameAnswers extended schema ↔
        ∀ name, later.DeclaresModelEnum name → schema.isModel name) := by
  have hread' : [text].mapM Document.ofText? = some [later] := by simp [hlater]
  have hreadAll : (texts ++ [text]).mapM Document.ofText? = some (documents ++ [later]) := by
    rw [List.mapM_append, hread, hread']
    rfl
  rw [load_of_read hread] at hload
  rw [load_of_read hread'] at hown
  have hnone := exists_ofDocuments_iff.1 ⟨schema, hload⟩
  have hnameless : later.nameless = [] := by
    have hown := (List.append_eq_nil_iff.1 (exists_ofDocuments_iff.1 ⟨own, hown⟩)).1
    simpa using hown
  obtain ⟨extended, hextended⟩ :=
    exists_ofDocuments_iff.2 (hrepeats.faults_eq_nil hnone hnameless)
  have h : Represents documents schema := LoadedFrom.represents_of_ofDocuments hload
  have h' : Represents (documents ++ [later]) extended :=
    LoadedFrom.represents_of_ofDocuments hextended
  have hisModel := h.isModel_extended_iff h' hrepeats
  refine ⟨extended, (load_of_read hreadAll).trans hextended, h.models_eq h' hrepeats,
    h.loadedEnums_eq h' hrepeats, hisModel, fun hsame name hname => ?_, fun hknown => ?_⟩
  · rw [← hsame.isModel name]
    exact (hisModel name).2 (.inr hname)
  · refine h.sameAnswers_of_isModel_eq h' hrepeats (funext fun name => ?_)
    rw [Bool.eq_iff_iff, hisModel name]
    exact or_iff_left_of_imp (hknown name)

end Schema

/-! ## Roles of two origins -/

namespace Blog

/-- Roles, an enum that the client library brings along. -/
def libraryRolesText : String :=
  "[[[],[]],[[[]],[[]],[[[\"Role\",[\"ADMIN\"]]]]]]"

/-- Roles, an enum that is made from the data model. -/
def modelRolesText : String :=
  "[[[],[]],[[[]],[[]],[[],[[\"Role\",[\"USER\"]]]]]]"

end Blog

namespace Schema

/-- The roles of the library stay, and yet they count as a model from then on. -/
theorem not_sameAnswers_roles :
    ∃ schema extended, load [Blog.libraryRolesText] = .ok schema ∧
      load [Blog.libraryRolesText, Blog.modelRolesText] = .ok extended ∧
      extended.enumTypes = schema.enumTypes ∧
      schema.roleOf "Role" .enumeration = .library ∧
      extended.roleOf "Role" .enumeration = .model ∧ ¬ SameAnswers extended schema := by
  have hfacts : (do
      let library ← Document.ofText? Blog.libraryRolesText
      let model ← Document.ofText? Blog.modelRolesText
      return ((ofDocuments [library]).map (·.isModel "Role"),
        (ofDocuments [model]).map (·.isModel "Role"),
        decide (model.Repeats [library] ∧ model.DeclaresModelEnum "Role"))) =
      some (.ok false, .ok true, true) := by
    decide +kernel
  simp only [Option.bind_eq_bind, Option.bind_eq_some_iff, Option.pure_def, Option.some_inj,
    Prod.mk.injEq, map_eq_ok_iff, decide_eq_true_iff] at hfacts
  obtain ⟨library, hlibrary, model, hmodel, ⟨schema, hschema, hnot⟩, ⟨own, hown, -⟩, hrepeats,
    hrole⟩ := hfacts
  have hread : [Blog.libraryRolesText].mapM Document.ofText? = some [library] := by
    simp [hlibrary]
  have hread' : [Blog.modelRolesText].mapM Document.ofText? = some [model] := by simp [hmodel]
  have hload := (load_of_read hread).trans hschema
  obtain ⟨extended, hextended, -, henums, hisModel, hsame⟩ :=
    sameAnswers_iff hread hmodel hload ((load_of_read hread').trans hown) hrepeats
  have hmodelRole := (hisModel "Role").2 (.inr hrole)
  refine ⟨schema, extended, hload, hextended, by rw [enumTypes, enumTypes, henums], ?_, ?_,
    fun h => ?_⟩
  · rw [roleOf, hnot]
    decide +kernel
  · rw [roleOf, hmodelRole]
    decide +kernel
  · exact Bool.false_ne_true (hnot.symm.trans (hsame.1 h "Role" hrole))

end Schema

end Schematic
