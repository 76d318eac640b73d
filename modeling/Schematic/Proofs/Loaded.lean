import Mathlib.Data.List.Nodup
import Schematic.Schema.Load

/-!
# Loaded schemas

What holds of every schema that documents load as (`Schema.LoadedFrom`): a name
belongs to one declaration of its collection, a declaration is found under its
name, and every reference to a type has the role its name implies
(`TypeRef.Classified`).
-/

namespace Schematic

/-! ## Naming rules -/

namespace TypeRole

variable {name : String} {location : Location} {isModel : Bool}

/-- Scalars are told by their place. -/
theorem ofName_eq_scalar_iff : ofName name location isModel = .scalar ↔ location = .scalar := by
  rw [ofName]
  by_cases hplace : location = .scalar
  · simp [hplace]
  · rw [if_neg hplace]
    cases Text.afterStart? aggregateStart name with
    | some subject => simp [hplace]
    | none => by_cases hname : name = affectedRowsName <;> cases isModel <;> simp [hplace, hname]

/-- Outside of scalars a name alone tells an aggregate. -/
theorem exists_ofName_eq_aggregate_iff :
    (∃ subject, ofName name location isModel = .aggregate subject) ↔
      location ≠ .scalar ∧ (Text.afterStart? aggregateStart name).isSome := by
  rw [ofName]
  by_cases hplace : location = .scalar
  · simp [hplace]
  · rw [if_neg hplace]
    cases Text.afterStart? aggregateStart name with
    | some subject => simp [hplace]
    | none => by_cases hname : name = affectedRowsName <;> cases isModel <;> simp [hname]

/-- Outside of scalars a name alone tells the result of operations on many records. -/
theorem ofName_eq_affectedRows_iff :
    ofName name location isModel = .affectedRows ↔ location ≠ .scalar ∧ name = affectedRowsName := by
  have hstart : Text.afterStart? aggregateStart affectedRowsName = none := by decide
  rw [ofName]
  by_cases hplace : location = .scalar
  · simp [hplace]
  · rw [if_neg hplace]
    by_cases hname : name = affectedRowsName
    · simp [hname, hstart, hplace]
    · cases Text.afterStart? aggregateStart name with
      | some subject => simp [hname]
      | none => cases isModel <;> simp [hname]

end TypeRole

/-! ## First declarations -/

/-- The first of every name are among the items, in their order. -/
theorem firstOfName_sublist {α : Type} (name : α → String) (items : List α) :
    (firstOfName name items).Sublist items := by
  induction items with
  | nil => exact .slnil
  | cons a rest ih => exact (List.filter_sublist.trans ih).cons_cons a

/-- Which names come first is decided before or after some are left out. -/
theorem eraseDups_filter (p : String → Bool) (names : List String) :
    (names.filter p).eraseDups = names.eraseDups.filter p := by
  cases names with
  | nil => rfl
  | cons name rest =>
    rw [List.eraseDups_cons, List.filter_cons, List.filter_cons,
      ← eraseDups_filter p (rest.filter _), List.filter_filter]
    split
    · rw [List.eraseDups_cons, List.filter_filter]
      simp only [Bool.and_comm]
    · rename_i hname
      -- The name itself is left out anyway.
      refine congrArg List.eraseDups (List.filter_congr fun other _ => ?_)
      by_cases h : other = name <;> simp [h, hname]
termination_by names.length
decreasing_by exact Nat.lt_succ_of_le (List.length_filter_le _ _)

/-- The first name comes first, and does not come again. -/
theorem eraseDups_cons_eq (name : String) (names : List String) :
    (name :: names).eraseDups = name :: names.eraseDups.filter fun other => !other == name := by
  rw [List.eraseDups_cons, eraseDups_filter]

/-- The first of every name among names are the names without repetitions. -/
theorem firstOfName_id (names : List String) : firstOfName id names = names.eraseDups := by
  induction names with
  | nil => rfl
  | cons name rest ih =>
    rw [firstOfName, eraseDups_cons_eq, ih]
    refine congrArg (name :: ·) (List.filter_congr fun other _ => ?_)
    by_cases h : other = name <;> simp [h]

/-- Under distinct names no other item has the name of one. -/
theorem filter_of_nodup {α β : Type} [DecidableEq β] {name : α → β} {items : List α}
    (hnodup : (items.map name).Nodup) {a : α} (h : a ∈ items) :
    items.filter (name · = name a) = [a] := by
  induction items with
  | nil => cases h
  | cons b rest ih =>
    obtain ⟨hb, hrest⟩ := List.nodup_cons.1 hnodup
    rcases List.mem_cons.1 h with rfl | h
    · have hnone : rest.filter (name · = name a) = [] := by
        rw [List.filter_eq_nil_iff]
        intro c hc hname
        exact hb (of_decide_eq_true hname ▸ List.mem_map_of_mem hc)
      rw [List.filter_cons, if_pos (decide_eq_true rfl), hnone]
    · have hne : name b ≠ name a := fun hname => hb (hname ▸ List.mem_map_of_mem h)
      rw [List.filter_cons, if_neg (by simpa using hne), ih hrest h]

/-- Under distinct names an item is the first of its name. -/
theorem find?_of_nodup {α : Type} {name : α → String} {items : List α}
    (hnodup : (items.map name).Nodup) {a : α} (h : a ∈ items) :
    items.find? (name · = name a) = some a := by
  rw [← List.head?_filter, filter_of_nodup hnodup h]
  rfl

namespace Document.Namespaced

/-- What is taken over in some order comes from a declaration. -/
theorem of_mem_inOrder {α β : Type} {f : Origin → α → β} {first second : Origin}
    {types : Namespaced α} {b : β} (h : b ∈ types.inOrder f first second) :
    ∃ origin a, b = f origin a := by
  rcases List.mem_append.1 h with h | h
  · cases first <;> obtain ⟨a, -, rfl⟩ := List.mem_map.1 h <;> exact ⟨_, a, rfl⟩
  · cases second <;> obtain ⟨a, -, rfl⟩ := List.mem_map.1 h <;> exact ⟨_, a, rfl⟩

end Document.Namespaced

/-! ## Items of both origins -/

/-- There are only two origins. -/
theorem Origin.eq_or_eq_of_ne {first second : Origin} (hne : first ≠ second) (o : Origin) :
    o = first ∨ o = second := by
  cases first <;> cases second <;> cases o <;> simp_all

namespace Schema

/-- Sorting items by origin loses none and adds none. -/
theorem mem_byOrigin_iff {α : Type} {origin : α → Origin} {first second : Origin}
    (hne : first ≠ second) {items : List α} {a : α} :
    a ∈ byOrigin origin first second items ↔ a ∈ items := by
  have horigin : origin a = first ∨ origin a = second := Origin.eq_or_eq_of_ne hne (origin a)
  rw [byOrigin, List.mem_append, List.mem_filter, List.mem_filter, ← and_or_left]
  simpa using fun _ => horigin

theorem mem_inputTypes_iff {schema : Schema} {input : InputType} :
    input ∈ schema.inputTypes ↔ input ∈ schema.loadedInputs :=
  mem_byOrigin_iff (by decide)

theorem mem_outputTypes_iff {schema : Schema} {output : OutputType} :
    output ∈ schema.outputTypes ↔ output ∈ schema.loadedOutputs :=
  mem_byOrigin_iff (by decide)

theorem mem_enumTypes_iff {schema : Schema} {enum : EnumType} :
    enum ∈ schema.enumTypes ↔ enum ∈ schema.loadedEnums :=
  mem_byOrigin_iff (by decide)

/-- What is found under a name is among the input types and has the name. -/
theorem mem_of_findInput? {schema : Schema} {name : String} {input : InputType}
    (h : schema.findInput? name = some input) : input ∈ schema.inputTypes ∧ input.name = name :=
  ⟨mem_inputTypes_iff.2 (List.mem_of_find?_eq_some h), of_decide_eq_true (List.find?_some h :)⟩

/-- What is found under a name is among the enum types and has the name. -/
theorem mem_of_findEnum? {schema : Schema} {name : String} {enum : EnumType}
    (h : schema.findEnum? name = some enum) : enum ∈ schema.enumTypes ∧ enum.name = name :=
  ⟨mem_enumTypes_iff.2 (List.mem_of_find?_eq_some h), of_decide_eq_true (List.find?_some h :)⟩

/-! ## The schema of several documents -/

/-- The schema of several documents, collection by collection. -/
structure LoadedFrom (documents : List Document) (schema : Schema) : Prop where
  models : loadModels documents = .ok schema.models
  modelEnums : schema.modelEnums =
    documents.flatMap fun d => d.interface.enumTypes.model.map (·.name)
  inputs : schema.loadedInputs = firstOfName (·.name) (documents.flatMap fun d =>
    d.interface.inputTypes.inOrder (InputType.ofDocument schema.isModel) .library .model)
  outputs : schema.loadedOutputs = firstOfName (·.name) (documents.flatMap fun d =>
    d.interface.outputTypes.inOrder (OutputType.ofDocument schema.isModel) .model .library)
  enums : schema.loadedEnums = firstOfName (·.name) (documents.flatMap fun d =>
    d.interface.enumTypes.inOrder EnumType.ofDocument .library .model)

/-- Collection by collection, what documents load as comes from all of them. -/
theorem loadedFrom_of_ofDocuments {documents : List Document} {schema : Schema}
    (h : ofDocuments documents = .ok schema) : LoadedFrom documents schema := by
  rw [ofDocuments] at h
  rcases hmodels : loadModels documents with error | models
  · rw [hmodels] at h
    cases h
  · rw [hmodels] at h
    cases h
    exact ⟨hmodels, rfl, rfl, rfl, rfl⟩

end Schema

/-- The reference has the role its name implies in a schema. -/
def TypeRef.Classified (schema : Schema) (t : TypeRef) : Prop :=
  t.role = schema.roleOf t.name t.location

namespace TypeRef.Classified

variable {schema : Schema} {t : TypeRef}

theorem role_eq_scalar_iff (h : t.Classified schema) : t.role = .scalar ↔ t.location = .scalar := by
  rw [h]
  exact TypeRole.ofName_eq_scalar_iff

theorem role_eq_aggregate_iff (h : t.Classified schema) :
    (∃ subject, t.role = .aggregate subject) ↔
      t.location ≠ .scalar ∧ (Text.afterStart? aggregateStart t.name).isSome := by
  rw [h]
  exact TypeRole.exists_ofName_eq_aggregate_iff

theorem role_eq_affectedRows_iff (h : t.Classified schema) :
    t.role = .affectedRows ↔ t.location ≠ .scalar ∧ t.name = affectedRowsName := by
  rw [h]
  exact TypeRole.ofName_eq_affectedRows_iff

end TypeRef.Classified

/-- All types an input field accepts are classified. -/
def InputField.Classified (schema : Schema) (field : InputField) : Prop :=
  ∀ t ∈ field.inputTypes, t.Classified schema

/-- The types of a field are classified as it is taken over. -/
theorem InputField.classified_ofDocument {schema : Schema} (f : Document.InputField) :
    (InputField.ofDocument schema.isModel f).Classified schema := by
  intro t ht
  obtain ⟨_, -, rfl⟩ := List.mem_map.1 ht
  rfl

namespace Schema.LoadedFrom

variable {documents : List Document} {schema : Schema}

/-- No two input types of a schema share a name. -/
theorem nodup_inputs (h : LoadedFrom documents schema) :
    (schema.loadedInputs.map (·.name)).Nodup := by
  rw [h.inputs]
  exact nodup_firstOfName _ _

/-- An input type is found under its name. -/
theorem findInput?_name (h : LoadedFrom documents schema) {input : InputType}
    (hinput : input ∈ schema.inputTypes) : schema.findInput? input.name = some input :=
  find?_of_nodup h.nodup_inputs (mem_inputTypes_iff.1 hinput)

/-- Whatever an input type takes is classified. -/
theorem classified_input (h : LoadedFrom documents schema) {input : InputType}
    (hinput : input ∈ schema.inputTypes) :
    ∀ field ∈ input.fields, field.Classified schema := by
  rw [mem_inputTypes_iff, h.inputs] at hinput
  obtain ⟨d, -, hd⟩ := List.mem_flatMap.1 ((firstOfName_sublist _ _).subset hinput)
  obtain ⟨origin, t, rfl⟩ := Document.Namespaced.of_mem_inOrder hd
  exact List.forall_mem_map.2 fun f _ => InputField.classified_ofDocument f

/-- An output type is taken over from a declaration. -/
theorem exists_ofDocument_output (h : LoadedFrom documents schema) {output : OutputType}
    (houtput : output ∈ schema.outputTypes) :
    ∃ origin t, output = OutputType.ofDocument schema.isModel origin t := by
  rw [mem_outputTypes_iff, h.outputs] at houtput
  obtain ⟨d, -, hd⟩ := List.mem_flatMap.1 ((firstOfName_sublist _ _).subset houtput)
  exact Document.Namespaced.of_mem_inOrder hd

/-- Whatever an output type gives or takes is classified. -/
theorem classified_output (h : LoadedFrom documents schema) {output : OutputType}
    (houtput : output ∈ schema.outputTypes) :
    ∀ field ∈ output.fields,
      field.outputType.Classified schema ∧ ∀ arg ∈ field.args, arg.Classified schema := by
  obtain ⟨origin, t, rfl⟩ := h.exists_ofDocument_output houtput
  exact List.forall_mem_map.2 fun f _ =>
    ⟨rfl, List.forall_mem_map.2 fun arg _ => InputField.classified_ofDocument arg⟩

end Schema.LoadedFrom

end Schematic
