import Schematic.Declare.Library
import Schematic.Declare.Resolvers
import Schematic.Proofs.Loaded
import Schematic.Proofs.Vacuity

/-!
# What is written for input types

Both generated texts ask on their way which input types are vacuous, in an order
of their own, and keep what they have found. The answers do not depend on it
(`Check.gives_isVacuous`), and so a text can be told without its questions: of an
input type the fields are written that a value can be written for
(`writtenFields`), and an input type is declared if it is usable itself
(`declaredInputs`).

The main statements are the equations for the interfaces (`ResolverFile.args_ofSchema`,
`ResolverFile.inputs_ofSchema`) and for the blocks (`LibraryFile.ofSchema_eq`).
-/

namespace Schematic

variable (schema : Schema) (config : Config)

instance Usable.decidable (name : String) : Decidable (Usable schema config name) :=
  decidable_of_iff _ (Vacuous.usable_nil_iff (List.forall_mem_nil _))

/-! ## Computations with one answer -/

namespace Check

open Vacuous

variable {α β : Type}

/-- Whatever is rightly known before it, the computation has the one answer, and
what is known after it is right as well. -/
def Gives (check : Check α) (a : α) : Prop :=
  ∀ known, Sound schema config known →
    (check.run known).1 = a ∧ Sound schema config (check.run known).2

variable {schema config}

theorem gives_pure (a : α) : Gives schema config (pure a) a :=
  fun _ hknown => ⟨rfl, hknown⟩

/-- Two computations one after the other, of which the second goes by the answer of the first. -/
theorem Gives.bind {check : Check α} {next : α → Check β} {a : α} {b : β}
    (h : Gives schema config check a) (hnext : Gives schema config (next a) b) :
    Gives schema config (check >>= next) b := by
  intro known hknown
  obtain ⟨ha, hafter⟩ := h known hknown
  have hrun : (check >>= next).run known = (next a).run (check.run known).2 := by
    rw [← ha]
    rfl
  rw [hrun]
  exact hnext _ hafter

/-- One computation for every item of a list: what is found for an item is right for the next. -/
theorem gives_mapM {f : α → Check β} {g : α → β} (h : ∀ a, Gives schema config (f a) (g a))
    (items : List α) : Gives schema config (items.mapM f) (items.map g) := by
  induction items with
  | nil => exact gives_pure []
  | cons a rest ih =>
    rw [List.mapM_cons]
    exact (h a).bind (ih.bind (gives_pure _))

/-- A text is begun with nothing known, and so with nothing that is wrong. -/
theorem Gives.answer_eq {check : Check α} {a : α} (h : Gives schema config check a) :
    check.answer = a :=
  (h [] (List.forall_mem_nil _)).1

/-- What is made only where a condition holds, which the first computation denies. -/
theorem Gives.unless {P : Prop} [Decidable P] {check : Check Bool}
    (h : Gives schema config check !decide P) {rest : Check (Option α)} {a : α}
    (hrest : Gives schema config rest (some a)) :
    Gives schema config (check >>= fun skip => if skip then pure none else rest)
      (if P then some a else none) := by
  refine h.bind ?_
  by_cases hP : P
  · simpa [hP] using hrest
  · have hnone : Gives schema config (pure (none : Option α)) none := gives_pure none
    simpa [hP] using hnone

/-- Asked at any time, an input type is found vacuous if it is not usable. -/
theorem gives_isVacuous (name : String) :
    Gives schema config (isVacuous schema config name) (!decide (Usable schema config name)) := by
  intro known hknown
  have husable : (usable schema config [] known name).1 = decide (Usable schema config name) :=
    Bool.eq_iff_iff.2 ((usable_nil_iff hknown).trans (decide_eq_true_iff).symm)
  exact ⟨congrArg not husable, (usable_sound.1 [] known name hknown).1⟩

/-- A type is left out if it is an input type that is not usable. -/
theorem gives_isOmitted (t : TypeRef) :
    Gives schema config (isOmitted schema config t)
      (!decide (t.isInputObject → Usable schema config t.name)) := by
  rw [isOmitted]
  by_cases hobject : t.isInputObject
  · have hvacuous : Gives schema config _ _ := gives_isVacuous t.name
    simpa [hobject] using hvacuous
  · have hfalse : Gives schema config (pure false) false := gives_pure false
    simpa [hobject] using hfalse

end Check

/-! ## Fields -/

/-- The type an input field is written with: the one it is declared with, unless
no value can be written for that. -/
def InputField.writtenType? (field : InputField) : Option TypeRef :=
  (field.shownType? config).filter fun t => t.isInputObject → Usable schema config t.name

/-- The fields that are written of several input fields, each with its type. -/
def writtenFields (fields : List InputField) : List (InputField × TypeRef) :=
  fields.filterMap fun field => (field.writtenType? schema config).map (field, ·)

/-- The input types that are declared. -/
def declaredInputs : List InputType :=
  schema.inputTypes.filter (Usable schema config ·.name)

variable {schema config}

theorem InputField.writtenType?_eq_some_iff {field : InputField} {t : TypeRef} :
    field.writtenType? schema config = some t ↔
      field.shownType? config = some t ∧ (t.isInputObject → Usable schema config t.name) := by
  rw [writtenType?, Option.filter_eq_some_iff, decide_eq_true_iff]

/-- A field is written with the type it shows, unless that is an input type without values. -/
theorem mem_writtenFields_iff {fields : List InputField} {field : InputField} {t : TypeRef} :
    (field, t) ∈ writtenFields schema config fields ↔
      field ∈ fields ∧ field.shownType? config = some t ∧
        (t.isInputObject → Usable schema config t.name) := by
  rw [writtenFields, List.mem_filterMap, ← InputField.writtenType?_eq_some_iff]
  constructor
  · rintro ⟨field', hfield', h⟩
    obtain ⟨t', ht', heq⟩ := Option.map_eq_some_iff.1 h
    cases heq
    exact ⟨hfield', ht'⟩
  · rintro ⟨hfield, ht⟩
    exact ⟨field, hfield, by rw [ht]; rfl⟩

/-- A type that is written is one the field accepts. -/
theorem classified_of_mem_writtenFields {fields : List InputField}
    (hfields : ∀ field ∈ fields, field.Classified schema) {taken : InputField × TypeRef}
    (h : taken ∈ writtenFields schema config fields) : taken.2.Classified schema := by
  obtain ⟨hfield, hshown, -⟩ := mem_writtenFields_iff.1 h
  exact hfields taken.1 hfield taken.2 (List.mem_of_getElem? hshown)

theorem mem_declaredInputs_iff {input : InputType} :
    input ∈ declaredInputs schema config ↔
      input ∈ schema.inputTypes ∧ Usable schema config input.name := by
  rw [declaredInputs, List.mem_filter, decide_eq_true_iff]

/-! ## What is made of what is written -/

/-- What is made of the fields that are written, by a question for each that is declared. -/
theorem map_writtenFields {α : Type} (f : InputField × TypeRef → α) (fields : List InputField) :
    (writtenFields schema config fields).map f =
      (fields.map fun field =>
        (field.writtenType? schema config).map fun t => f (field, t)).filterMap id := by
  rw [writtenFields, List.map_filterMap, List.filterMap_map]
  simp only [Option.map_map, Function.comp_def, id]

/-- What is made of the input types that are declared, by a question for each of the schema. -/
theorem map_declaredInputs {α : Type} (f : InputType → α) :
    (declaredInputs schema config).map f =
      (schema.inputTypes.map fun input =>
        if Usable schema config input.name then some (f input) else none).filterMap id := by
  rw [declaredInputs, ← List.filterMap_eq_map, List.filterMap_filter, List.filterMap_map]
  simp only [decide_eq_true_iff, Function.comp_def, id]

/-- Of a type that is shown it only has to be asked whether it is usable. -/
theorem InputField.map_writtenType? {α : Type} {field : InputField} {t : TypeRef}
    (hshown : field.shownType? config = some t) (f : TypeRef → α) :
    (field.writtenType? schema config).map f =
      if t.isInputObject → Usable schema config t.name then some (f t) else none := by
  rw [writtenType?, hshown, Option.filter_some]
  by_cases h : t.isInputObject → Usable schema config t.name
  · rw [if_pos (decide_eq_true h), if_pos h]
    rfl
  · rw [if_neg (mt of_decide_eq_true h), if_neg h]
    rfl

/-- What is made of the type of a field, if it is written: just this type is asked about. -/
theorem Check.gives_writtenType? {α : Type} (field : InputField) (f : TypeRef → α) :
    Gives schema config
      (match field.shownType? config with
        | none => pure none
        | some t => do
          if ← isOmitted schema config t then return none
          return some (f t))
      ((field.writtenType? schema config).map f) := by
  split
  · rename_i hshown
    rw [InputField.writtenType?, hshown]
    exact gives_pure none
  · rename_i t hshown
    rw [InputField.map_writtenType? hshown]
    exact (gives_isOmitted t).unless (gives_pure _)

/-! ## The interfaces -/

namespace ResolverFile

open Check

/-- The member for a field that is written. -/
def memberOf (config : Config) (written : InputField × TypeRef) : Member :=
  ⟨written.1.name, !written.1.isRequired, written.1.isNullable,
    .shown (.ofType config .input written.2)⟩

/-- The interface of an input type. -/
def interfaceOf (schema : Schema) (config : Config) (input : InputType) : Members :=
  ⟨input.name, (writtenFields schema config input.fields).map (memberOf config)⟩

/-- The interface of a field's arguments, if it takes any. -/
def argsInterface? (schema : Schema) (config : Config) (output : OutputType)
    (field : OutputField) : Option Members :=
  (argsName? output field).map fun name =>
    ⟨name, (writtenFields schema config field.args).map (memberOf config) ++
      groupMembers schema field⟩

/-- A field has a member if it is written. -/
theorem gives_inputMember (field : InputField) :
    Gives schema config (inputMember schema config field)
      ((field.writtenType? schema config).map fun t => memberOf config (field, t)) := by
  rw [inputMember]
  exact gives_writtenType? field _

theorem gives_inputMembers (fields : List InputField) :
    Gives schema config (inputMembers schema config fields)
      ((writtenFields schema config fields).map (memberOf config)) := by
  rw [map_writtenFields]
  exact (gives_mapM gives_inputMember fields).bind (gives_pure _)

/-- Whether a field has an interface of arguments is not asked; which members it has is. -/
theorem gives_argsInterface (output : OutputType) (field : OutputField) :
    Gives schema config (argsInterface schema config output field)
      (argsInterface? schema config output field) := by
  rw [argsInterface, argsInterface?]
  cases argsName? output field with
  | none => exact gives_pure none
  | some name => exact (gives_inputMembers field.args).bind (gives_pure _)

/-- An input type has an interface if it is usable. -/
theorem gives_inputInterface (input : InputType) :
    Gives schema config (inputInterface schema config input)
      (if Usable schema config input.name then some (interfaceOf schema config input) else none) :=
  (gives_isVacuous input.name).unless ((gives_inputMembers input.fields).bind (gives_pure _))

/-- The arguments go first, and what is found for them is known to the input types. -/
theorem gives_interfaces :
    Gives schema config (interfaces schema config)
      ((outputFields schema).filterMap fun p => argsInterface? schema config p.1 p.2,
        (declaredInputs schema config).map (interfaceOf schema config)) := by
  refine (gives_mapM (fun p : OutputType × OutputField => gives_argsInterface p.1 p.2) _).bind
    ((gives_mapM gives_inputInterface _).bind ?_)
  rw [map_declaredInputs, List.filterMap_map]
  exact gives_pure _

variable (schema config)

/-- There is an interface of arguments for every field that takes any. -/
theorem args_ofSchema : (ofSchema schema config).args =
    (outputFields schema).filterMap fun p => argsInterface? schema config p.1 p.2 :=
  congrArg Prod.fst gives_interfaces.answer_eq

/-- There is an interface for every usable input type. -/
theorem inputs_ofSchema : (ofSchema schema config).inputs =
    (declaredInputs schema config).map (interfaceOf schema config) :=
  congrArg Prod.snd gives_interfaces.answer_eq

end ResolverFile

/-! ## The blocks -/

namespace LibraryFile

open Check

/-- The line for a field that is written. -/
def lineOf (written : InputField × TypeRef) : SdlInput :=
  ⟨written.1.name, .ofType written.2, written.1.isRequired⟩

/-- The block of an input type. -/
def inputBlockOf (schema : Schema) (config : Config) (input : InputType) : SdlBlock SdlInput :=
  ⟨input.name, (writtenFields schema config input.fields).map lineOf⟩

/-- The line for an output field. -/
def outputLineOf (schema : Schema) (config : Config) (field : OutputField) : SdlOutput :=
  ⟨field.name, (writtenFields schema config field.args).map lineOf, .ofType field.outputType,
    !field.isNullable⟩

/-- The block of an output type. -/
def outputBlockOf (schema : Schema) (config : Config) (output : OutputType) :
    SdlBlock SdlOutput :=
  ⟨output.name, output.fields.map (outputLineOf schema config)⟩

/-- The types written in the block of an input type, in order. -/
def inputMentions (schema : Schema) (config : Config) (input : InputType) : List TypeRef :=
  (writtenFields schema config input.fields).map Prod.snd

/-- The types written in the line of an output field, those of its arguments first. -/
def outputMentions (schema : Schema) (config : Config) (field : OutputField) : List TypeRef :=
  (writtenFields schema config field.args).map Prod.snd ++ [field.outputType]

/-- A field brings its line and the scalars this mentions if it is written. -/
theorem gives_inputField (field : InputField) :
    Gives schema config (inputField schema config field)
      ((field.writtenType? schema config).map fun t => (lineOf (field, t), mentioned t)) := by
  rw [inputField]
  exact gives_writtenType? field _

theorem gives_inputFields (fields : List InputField) :
    Gives schema config (inputFields schema config fields)
      ((writtenFields schema config fields).map lineOf,
        ((writtenFields schema config fields).map Prod.snd).flatMap mentioned) := by
  have hlines : (writtenFields schema config fields).map
      (fun written => (lineOf written, mentioned written.2)) = _ := map_writtenFields _ fields
  refine (gives_mapM gives_inputField fields).bind ?_
  simp only [← hlines, List.map_map, List.flatMap_map]
  exact gives_pure _

/-- The line of an output field mentions what its arguments do, and then its result. -/
theorem gives_outputField (field : OutputField) :
    Gives schema config (outputField schema config field)
      (outputLineOf schema config field,
        (outputMentions schema config field).flatMap mentioned) := by
  rw [outputMentions, List.flatMap_append, List.flatMap_singleton]
  exact (gives_inputFields field.args).bind (gives_pure _)

/-- An input type that is not usable has no block, and mentions no scalars either. -/
theorem gives_inputBlock (input : InputType) :
    Gives schema config (inputBlock schema config input)
      (if Usable schema config input.name then
        some (inputBlockOf schema config input,
          (inputMentions schema config input).flatMap mentioned) else none) :=
  (gives_isVacuous input.name).unless ((gives_inputFields input.fields).bind (gives_pure _))

theorem gives_outputBlock (output : OutputType) :
    Gives schema config (outputBlock schema config output)
      (outputBlockOf schema config output,
        (output.fields.flatMap (outputMentions schema config)).flatMap mentioned) := by
  refine (gives_mapM gives_outputField output.fields).bind ?_
  rw [List.map_map, List.flatMap_map, ← List.flatMap_assoc]
  exact gives_pure _

/-- The input types go first, and what is found for them is known to the output types. -/
theorem gives_blocks :
    Gives schema config (blocks schema config)
      ((declaredInputs schema config).map fun input =>
          (inputBlockOf schema config input,
            (inputMentions schema config input).flatMap mentioned),
        (schema.outputTypes.filter isDeclared).map fun output =>
          (outputBlockOf schema config output,
            (output.fields.flatMap (outputMentions schema config)).flatMap mentioned)) := by
  refine (gives_mapM gives_inputBlock _).bind ((gives_mapM gives_outputBlock _).bind ?_)
  rw [map_declaredInputs]
  exact gives_pure _

/-- The types written in the text, in order: those in the blocks of inputs, and then
those in the blocks of outputs. -/
def mentions (schema : Schema) (config : Config) : List TypeRef :=
  (declaredInputs schema config).flatMap (inputMentions schema config) ++
    (schema.outputTypes.filter isDeclared).flatMap fun output =>
      output.fields.flatMap (outputMentions schema config)

variable (schema config)

/-- There is a block for every usable input type, and for every output type that is
declared here. -/
theorem ofSchema_eq : ofSchema schema config =
    { scalars := firstOfName id ((mentions schema config).flatMap mentioned)
      enums := schema.enumTypes.map fun e => ⟨e.name, e.values⟩
      inputs := (declaredInputs schema config).map (inputBlockOf schema config)
      outputs := (schema.outputTypes.filter isDeclared).map (outputBlockOf schema config) } := by
  rw [ofSchema, gives_blocks.answer_eq, mentions, List.flatMap_append, List.flatMap_assoc,
    List.flatMap_assoc]
  simp only [List.flatMap_map, List.map_map, Function.comp_def]

end LibraryFile

end Schematic
