import Schematic.Proofs.Blog
import Schematic.Proofs.Written

/-!
# Library declarations are closed

What a server registers has to stand on its own. No block of inputs is empty, the
input types that the lines take are declared by a block or are none of the
schema's, and the scalars that are declared are those that are written somewhere
(`LibraryFile.ofSchema_closed`).

One name is an exception. `AffectedRowsOutput` stands for the result of operations
on many records wherever it is met, and is written `BatchPayload`, even for an input
type (`LibraryFile.not_declaresInput_audit`).
-/

namespace Schematic

namespace LibraryFile

variable {schema : Schema} {config : Config}

/-! ## What stands in the text -/

/-- The lines of inputs in the text, in order: the fields of input types, and then
the arguments of output fields. -/
def inputLines (file : LibraryFile) : List SdlInput :=
  file.inputs.flatMap (·.fields) ++ file.outputs.flatMap fun block => block.fields.flatMap (·.args)

/-- The types in the text, in order. An output field comes after its arguments. -/
def types (file : LibraryFile) : List SdlType :=
  file.inputs.flatMap (fun block => block.fields.map (·.type)) ++
    file.outputs.flatMap fun block =>
      block.fields.flatMap fun field => field.args.map (·.type) ++ [field.type]

variable (schema config) in
/-- The input fields and arguments that are written, in order, each with its type. -/
def written : List (InputField × TypeRef) :=
  (declaredInputs schema config).flatMap (fun input => writtenFields schema config input.fields) ++
    (schema.outputTypes.filter isDeclared).flatMap fun output =>
      output.fields.flatMap fun field => writtenFields schema config field.args

/-- There is a line for everything that is written, and no other. -/
theorem inputLines_ofSchema :
    (ofSchema schema config).inputLines = (written schema config).map lineOf := by
  rw [ofSchema_eq, inputLines, written, List.map_append, List.map_flatMap, List.map_flatMap]
  simp only [List.flatMap_map, List.map_flatMap, inputBlockOf, outputBlockOf, outputLineOf]

/-- The types in the text are those that are mentioned, as they are written. -/
theorem types_ofSchema :
    (ofSchema schema config).types = (mentions schema config).map SdlType.ofType := by
  rw [ofSchema_eq, types, mentions, List.map_append, List.map_flatMap, List.map_flatMap]
  simp only [List.flatMap_map, List.map_flatMap, inputBlockOf, outputBlockOf, outputLineOf,
    inputMentions, outputMentions, List.map_map, List.map_append]
  rfl

/-! ## Roles -/

/-- Every type that is mentioned has the role its name implies. -/
theorem classified_of_mem_mentions {documents : List Document}
    (hload : Schema.LoadedFrom documents schema) {t : TypeRef} (h : t ∈ mentions schema config) :
    t.Classified schema := by
  rcases List.mem_append.1 h with h | h
  · obtain ⟨input, hinput, h⟩ := List.mem_flatMap.1 h
    obtain ⟨taken, htaken, rfl⟩ := List.mem_map.1 h
    exact classified_of_mem_writtenFields
      (hload.classified_input (mem_declaredInputs_iff.1 hinput).1) htaken
  · obtain ⟨output, houtput, h⟩ := List.mem_flatMap.1 h
    obtain ⟨field, hfield, h⟩ := List.mem_flatMap.1 h
    obtain ⟨hresult, hargs⟩ := hload.classified_output (List.mem_filter.1 houtput).1 field hfield
    rcases List.mem_append.1 h with h | h
    · obtain ⟨taken, htaken, rfl⟩ := List.mem_map.1 h
      exact classified_of_mem_writtenFields hargs htaken
    · rw [List.mem_singleton.1 h]
      exact hresult

/-- What is written for an input mentions its type. -/
theorem mem_mentions_of_mem_written {taken : InputField × TypeRef}
    (h : taken ∈ written schema config) : taken.2 ∈ mentions schema config := by
  rcases List.mem_append.1 h with h | h
  · obtain ⟨input, hinput, h⟩ := List.mem_flatMap.1 h
    exact List.mem_append_left _ (List.mem_flatMap.2 ⟨input, hinput, List.mem_map_of_mem h⟩)
  · obtain ⟨output, houtput, h⟩ := List.mem_flatMap.1 h
    obtain ⟨field, hfield, h⟩ := List.mem_flatMap.1 h
    exact List.mem_append_right _ (List.mem_flatMap.2 ⟨output, houtput,
      List.mem_flatMap.2 ⟨field, hfield, List.mem_append_left _ (List.mem_map_of_mem h)⟩⟩)

/-- What is written was not left out. -/
theorem shown_of_mem_written {taken : InputField × TypeRef} (h : taken ∈ written schema config) :
    taken.1.shownType? config = some taken.2 ∧
      (taken.2.isInputObject → Usable schema config taken.2.name) := by
  rcases List.mem_append.1 h with h | h
  · obtain ⟨input, -, h⟩ := List.mem_flatMap.1 h
    exact (mem_writtenFields_iff.1 h).2
  · obtain ⟨output, -, h⟩ := List.mem_flatMap.1 h
    obtain ⟨field, -, h⟩ := List.mem_flatMap.1 h
    exact (mem_writtenFields_iff.1 h).2

/-- How an input type is written: by its name, but for the one that stands for the
result of operations on many records. -/
theorem name_ofType_of_isInputObject {t : TypeRef} (h : t.Classified schema)
    (hobject : t.isInputObject) :
    (SdlType.ofType t).name =
      if t.name = affectedRowsName then SdlType.batchPayload else t.name := by
  have hplace : t.location ≠ .scalar := by
    rw [beq_iff_eq.1 hobject]
    decide
  simp only [SdlType.ofType, h.role_eq_affectedRows_iff, hplace, ne_eq, not_false_iff, true_and]

/-- A scalar is written by its name, even by that of a result. -/
theorem name_ofType_of_scalar {t : TypeRef} (h : t.Classified schema)
    (hscalar : t.location = .scalar) : (SdlType.ofType t).name = t.name := by
  have hrole : t.role ≠ .affectedRows := fun hrole => (h.role_eq_affectedRows_iff.1 hrole).1 hscalar
  simp only [SdlType.ofType, if_neg hrole]

/-- The scalars that have to be declared, as they are written. -/
theorem flatMap_mentioned {types : List TypeRef} (h : ∀ t ∈ types, t.Classified schema) :
    types.flatMap mentioned =
      ((types.filter (·.location = .scalar)).map fun t => (SdlType.ofType t).name).filter
        (· ∉ builtinScalars) := by
  induction types with
  | nil => rfl
  | cons t rest ih =>
    obtain ⟨ht, hrest⟩ := List.forall_mem_cons.1 h
    rw [List.flatMap_cons, ih hrest, mentioned]
    by_cases hscalar : t.location = .scalar
    · have hname := name_ofType_of_scalar ht hscalar
      by_cases hbuiltin : t.name ∈ builtinScalars <;> simp [hscalar, hname, hbuiltin]
    · simp [hscalar]

/-! ## Blocks -/

variable (schema) in
/-- An input type of the name is declared by a block, or the schema knows none. -/
def DeclaresInput (file : LibraryFile) (name : String) : Prop :=
  name ∈ file.inputs.map (·.name) ∨ schema.findInput? name = none

/-- A usable type that the schema knows has a block. -/
theorem declaresInput_of_usable {name : String} (h : Usable schema config name) :
    DeclaresInput schema (ofSchema schema config) name := by
  rcases hfound : schema.findInput? name with _ | input
  · exact .inr hfound
  · obtain ⟨hinput, rfl⟩ := Schema.mem_of_findInput? hfound
    rw [DeclaresInput, ofSchema_eq]
    exact .inl (List.mem_map.2 ⟨inputBlockOf schema config input,
      List.mem_map_of_mem (mem_declaredInputs_iff.2 ⟨hinput, h⟩), rfl⟩)

/-- An input type that is usable has a field to be written. -/
theorem writtenFields_ne_nil {documents : List Document}
    (hload : Schema.LoadedFrom documents schema) {input : InputType}
    (hinput : input ∈ declaredInputs schema config) :
    writtenFields schema config input.fields ≠ [] := by
  obtain ⟨hmem, husable⟩ := mem_declaredInputs_iff.1 hinput
  have hfound := hload.findInput?_name hmem
  cases husable with
  | unknown hunknown =>
    rw [hfound] at hunknown
    cases hunknown
  | field hinput hfield hshown husable =>
    obtain rfl := Option.some.inj (hfound.symm.trans hinput)
    exact List.ne_nil_of_mem (mem_writtenFields_iff.2 ⟨hfield, hshown, husable⟩)

/-- **The declarations are closed.** No block of inputs is empty. The lines of inputs
are written for fields with the types these show, and an input type among them is
declared or unknown; it is written by its name, or as the batch payload if it has the
name of what stands for that. The scalars are those that are written, without the
ones that need no declaration, each of them once and in the order of the text. -/
theorem ofSchema_closed {documents : List Document}
    (hload : Schema.ofDocuments documents = .ok schema) (config : Config) :
    (∀ block ∈ (ofSchema schema config).inputs, block.fields ≠ []) ∧
    ((ofSchema schema config).inputLines = (written schema config).map lineOf ∧
      ∀ taken ∈ written schema config, taken.1.shownType? config = some taken.2 ∧
        (taken.2.isInputObject →
          DeclaresInput schema (ofSchema schema config) taken.2.name ∧
          (lineOf taken).type.name =
            if taken.2.name = affectedRowsName then SdlType.batchPayload else taken.2.name)) ∧
    (ofSchema schema config).types = (mentions schema config).map SdlType.ofType ∧
    (ofSchema schema config).scalars =
      ((((mentions schema config).filter (·.location = .scalar)).map fun t =>
        (SdlType.ofType t).name).filter (· ∉ builtinScalars)).eraseDups ∧
    (ofSchema schema config).scalars.Nodup := by
  have hloaded := Schema.loadedFrom_of_ofDocuments hload
  have hclassified : ∀ t ∈ mentions schema config, t.Classified schema :=
    fun _ => classified_of_mem_mentions hloaded
  have hscalars : (ofSchema schema config).scalars =
      firstOfName id ((mentions schema config).flatMap mentioned) := by
    rw [ofSchema_eq]
  refine ⟨?nonempty, ⟨inputLines_ofSchema, fun taken htaken => ?lines⟩, types_ofSchema, ?scalars,
    ?once⟩
  case nonempty =>
    rw [ofSchema_eq]
    refine List.forall_mem_map.2 fun input hinput hnil => ?_
    exact writtenFields_ne_nil hloaded hinput (List.map_eq_nil_iff.1 hnil)
  case lines =>
    obtain ⟨hshown, husable⟩ := shown_of_mem_written htaken
    exact ⟨hshown, fun hobject => ⟨declaresInput_of_usable (husable hobject),
      name_ofType_of_isInputObject (hclassified _ (mem_mentions_of_mem_written htaken)) hobject⟩⟩
  case scalars => rw [hscalars, flatMap_mentioned hclassified, firstOfName_id]
  case once =>
    rw [hscalars]
    simpa using nodup_firstOfName id ((mentions schema config).flatMap mentioned)

end LibraryFile

/-! ## An input type with the name of a result -/

namespace Blog

/-- An input type that takes one with the name of a result. -/
def auditInput : Document.InputType :=
  ⟨"AuditInput", [taken "result" "AffectedRowsOutput" .inputObject,
    taken "since" "DateTime" .scalar, taken "until" "DateTime" .scalar]⟩

/-- Input types of which one has the name of the result of operations on many records,
and one, which is vacuous, the name this is written with. -/
def auditInputs : List Document.InputType :=
  [⟨"AffectedRowsOutput", [taken "count" "Int" .scalar]⟩, ⟨"BatchPayload", []⟩, auditInput]

/-- The schema with these input types. -/
def auditSchema : Schema :=
  schemaWith auditInputs [] []

/-- The input type with the name of a result has a number to be written. -/
theorem usable_affectedRows : Usable auditSchema {} "AffectedRowsOutput" :=
  .field rfl (.head _) rfl (fun h => nomatch h)

/-- The input type with the name that this is written by has no field. -/
theorem not_usable_batchPayload : ¬ Usable auditSchema {} "BatchPayload" := by
  intro h
  cases h with
  | unknown hunknown => cases hunknown
  | field hinput hfield =>
    obtain rfl := Option.some.inj hinput
    cases hfield

/-- The fields of the audit input are written. -/
theorem mem_written_audit {field : InputField × TypeRef}
    (h : field ∈ writtenFields auditSchema {}
      (InputType.ofDocument schema.isModel .library auditInput).fields) :
    field ∈ LibraryFile.written auditSchema {} := by
  have husable : Usable auditSchema {} "AuditInput" :=
    .field rfl (.tail _ (.head _)) rfl (fun h => nomatch h)
  have hdeclared : InputType.ofDocument schema.isModel .library auditInput ∈
      declaredInputs auditSchema {} :=
    mem_declaredInputs_iff.2 ⟨.tail _ (.tail _ (.head _)), husable⟩
  exact List.mem_append_left _ (List.mem_flatMap.2 ⟨_, hdeclared, h⟩)

theorem mem_written_result :
    loadedField "result" "AffectedRowsOutput" .inputObject ∈ LibraryFile.written auditSchema {} :=
  mem_written_audit (mem_writtenFields_iff.2 ⟨.head _, rfl, fun _ => usable_affectedRows⟩)

theorem mem_written_since :
    loadedField "since" "DateTime" .scalar ∈ LibraryFile.written auditSchema {} :=
  mem_written_audit (mem_writtenFields_iff.2 ⟨.tail _ (.head _), rfl, fun h => nomatch h⟩)

end Blog

namespace LibraryFile

/-- The result that the audit input takes is declared, but what is written for it is
the name of an input type that is known and not declared. -/
theorem not_declaresInput_audit :
    Schema.ofDocuments [Blog.withInterface Blog.auditInputs [] []] = .ok Blog.auditSchema ∧
      ∃ taken ∈ written Blog.auditSchema {}, taken.2.isInputObject ∧
        lineOf taken ∈ (ofSchema Blog.auditSchema {}).inputLines ∧
        ¬ DeclaresInput Blog.auditSchema (ofSchema Blog.auditSchema {}) (lineOf taken).type.name := by
  refine ⟨rfl, _, Blog.mem_written_result, rfl, ?_, ?_⟩
  · rw [inputLines_ofSchema]
    exact List.mem_map_of_mem Blog.mem_written_result
  · rintro (hdeclared | hunknown)
    · rw [ofSchema_eq] at hdeclared
      obtain ⟨block, hblock, hname⟩ := List.mem_map.1 hdeclared
      obtain ⟨input, hinput, rfl⟩ := List.mem_map.1 hblock
      have hname : input.name = "BatchPayload" := hname
      exact Blog.not_usable_batchPayload (hname ▸ (mem_declaredInputs_iff.1 hinput).2)
    · cases hunknown

/-- The audit input takes a result that is declared, under another name, and its two
points in time make one scalar to be declared. -/
theorem ofSchema_closed_audit :
    DeclaresInput Blog.auditSchema (ofSchema Blog.auditSchema {}) "AffectedRowsOutput" ∧
      (lineOf (Blog.loadedField "result" "AffectedRowsOutput" .inputObject)).type.name =
        "BatchPayload" ∧
      "DateTime" ∈ (ofSchema Blog.auditSchema {}).scalars ∧
      (ofSchema Blog.auditSchema {}).scalars.Nodup := by
  have hload : Schema.ofDocuments [Blog.withInterface Blog.auditInputs [] []] =
      .ok Blog.auditSchema := rfl
  obtain ⟨-, ⟨-, hlines⟩, -, hscalars, hnodup⟩ := ofSchema_closed hload {}
  obtain ⟨hdeclared, hname⟩ := (hlines _ Blog.mem_written_result).2 rfl
  refine ⟨hdeclared, hname, ?_, hnodup⟩
  rw [hscalars, List.mem_eraseDups, List.mem_filter]
  refine ⟨List.mem_map.2 ⟨_, List.mem_filter.2
    ⟨mem_mentions_of_mem_written Blog.mem_written_since, rfl⟩, rfl⟩, by decide⟩

end LibraryFile

end Schematic
