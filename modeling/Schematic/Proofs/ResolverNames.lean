import Schematic.Proofs.ArgsNames
import Schematic.Proofs.Written

/-!
# Names in resolver declarations

The types of members are made of parts: names that the text declares itself, names of
the client, and what brings no name (`Part`, `MemberType.join_parts`). A name of the
text is declared in it, and the namespace `Prisma` is reached through the client
(`ResolverFile.ofSchema_reached`).

Inputs are the exception. They are declared in the text, so nothing stands before
their names, and that goes for types that the client declares nevertheless because
they are named as results (`TypeRef.NamesResult`). Where an input takes one of these,
`Prisma` stands alone (`ResolverFile.bare_overview`).
-/

namespace Schematic

/-! ## Parts -/

/-- A part of the text of a type. -/
inductive Part where
  /-- What brings no name: a scalar as it is rendered, or what stands between names. -/
  | plain (text : String)
  /-- A name the text has to declare itself. -/
  | own (name : String)
  /-- A name the client declares. -/
  | client (name : String)
  /-- A name in the client's namespace `Prisma`, which outputs reach through the
  client and inputs do not. -/
  | library (position : Position) (name : String)
  deriving DecidableEq, Repr

namespace Part

/-- The text of a part. -/
def text : Part → String
  | plain text => text
  | own name => name
  | client name => "Client." ++ name
  | library position name => Reference.clientStart position ++ "Prisma." ++ name

/-- The text of several parts. -/
def join (parts : List Part) : String :=
  String.join (parts.map text)

@[simp]
theorem join_nil : join [] = "" :=
  rfl

@[simp]
theorem join_cons (part : Part) (rest : List Part) : join (part :: rest) = part.text ++ join rest :=
  String.join_cons

@[simp]
theorem join_append (parts rest : List Part) : join (parts ++ rest) = join parts ++ join rest := by
  rw [join, List.map_append, String.join_append]
  rfl

theorem join_singleton (part : Part) : join [part] = part.text := by
  rw [join_cons, join_nil, String.append_empty]

theorem text_plain (text : String) : (plain text).text = text :=
  rfl

theorem text_own (name : String) : (own name).text = name :=
  rfl

theorem text_library (position : Position) (name : String) :
    (library position name).text = Reference.clientStart position ++ "Prisma." ++ name :=
  rfl

/-- What outputs reach in the namespace goes through the client. -/
theorem join_output (name : String) : join [library .output name] = "Client.Prisma." ++ name := by
  have hstart : Reference.clientStart .output ++ "Prisma." = "Client.Prisma." := by decide
  rw [join_singleton, text_library, hstart]

end Part

/-- A text in which the namespace `Prisma` is looked into. -/
def MentionsPrisma (text : String) : Prop :=
  "Prisma.".toList <:+: text.toList

instance : DecidablePred MentionsPrisma :=
  fun text => inferInstanceAs (Decidable ("Prisma.".toList <:+: text.toList))

/-- The part is no name of the text, and if it is in the namespace `Prisma`, it goes
through the client. -/
def Part.Reached : Part → Prop
  | plain text => ¬ MentionsPrisma text
  | own _ => False
  | client _ => True
  | library position _ => position = .output

/-- What stands between names. -/
def Part.marks : List String :=
  ["\x7b\x7d", "[]", "<", ">", ", ", "Resolver<", " | null", "number"]

/-- No mark between names mentions the namespace. -/
theorem Part.reached_of_mem_marks : ∀ text ∈ marks, (plain text).Reached :=
  (by decide +kernel : ∀ text ∈ marks, ¬ MentionsPrisma text)

/-- The parts of a reference. -/
def Reference.parts : Reference → List Part
  | scalar rendered => [.plain rendered]
  | aggregate model typeName position =>
    [.library position ("Get" ++ model ++ "AggregateType"), .plain "<", .own (typeName ++ "Args"),
      .plain ">"]
  | batchPayload position => [.library position "BatchPayload"]
  | library name => [.library .output name]
  | client name => [.client name]
  | declared name => [.own name]

theorem Reference.join_parts (reference : Reference) :
    Part.join reference.parts = reference.text := by
  cases reference with
  | aggregate model typeName position =>
    have hget : "Prisma.Get" = "Prisma." ++ "Get" := by decide
    have htype : "AggregateType<" = "AggregateType" ++ "<" := by decide
    have hargs : "Args>" = "Args" ++ ">" := by decide
    unfold parts text
    rw [hget, htype, hargs]
    simp only [Part.join_cons, Part.join_nil, Part.text_plain, Part.text_own, Part.text_library,
      String.append_assoc, String.append_empty]
  | library name => exact Part.join_output name
  | scalar rendered => exact Part.join_singleton _
  | batchPayload position => cases position <;> rfl
  | client name => exact Part.join_singleton _
  | declared name => exact Part.join_singleton _

/-- The parts of a type. -/
def ShownType.parts (t : ShownType) : List Part :=
  t.reference.parts ++ if t.isList then [.plain "[]"] else []

theorem ShownType.join_parts (t : ShownType) : Part.join t.parts = t.text := by
  unfold parts text
  rw [Part.join_append, Reference.join_parts]
  cases t.isList <;> rfl

theorem ShownType.mem_parts {t : ShownType} {part : Part} (h : part ∈ t.parts) :
    part ∈ t.reference.parts ∨ part = .plain "[]" := by
  rcases List.mem_append.1 h with h | h
  · exact .inl h
  · split at h
    · exact .inr (List.mem_singleton.1 h)
    · cases h

/-- The parts of a parent type. -/
def Parent.parts : Parent → List Part
  | none => [.plain "\x7b\x7d"]
  | batchPayload => [.library .output "BatchPayload"]
  | client name => [.client name]
  | library name => [.library .output name]

theorem Parent.join_parts (parent : Parent) : Part.join parent.parts = parent.text := by
  cases parent with
  | none => rfl
  | batchPayload => rfl
  | client name => exact Part.join_singleton _
  | library name => exact Part.join_output name

/-- A parent type is the client's or in its namespace, or there is none. -/
theorem Parent.reached_of_mem_parts {parent : Parent} {part : Part} (h : part ∈ parent.parts) :
    part.Reached := by
  cases parent <;> obtain rfl := List.mem_singleton.1 h
  case none => exact Part.reached_of_mem_marks _ (by decide)
  case batchPayload => rfl
  case client => trivial
  case library => rfl

/-- The parts of an answer's type. -/
def Answer.parts : Answer → List Part
  | value type nullable => type.parts ++ if nullable then [.plain " | null"] else []
  | count => [.plain "number"]

theorem Answer.join_parts (answer : Answer) : Part.join answer.parts = answer.text := by
  cases answer with
  | value type nullable =>
    unfold parts text
    rw [Part.join_append, ShownType.join_parts]
    cases nullable <;> rfl
  | count => rfl

/-- A part of an answer belongs to the type it refers to, or is reached anyway. -/
theorem Answer.of_mem_parts {answer : Answer} {part : Part} (h : part ∈ answer.parts) :
    (∃ type nullable, answer = .value type nullable ∧ part ∈ type.reference.parts) ∨
      part.Reached := by
  cases answer with
  | value type nullable =>
    rcases List.mem_append.1 h with h | h
    · rcases ShownType.mem_parts h with h | rfl
      · exact .inl ⟨_, _, rfl, h⟩
      · exact .inr (Part.reached_of_mem_marks _ (by decide))
    · split at h
      · obtain rfl := List.mem_singleton.1 h
        exact .inr (Part.reached_of_mem_marks _ (by decide))
      · cases h
  | count =>
    obtain rfl := List.mem_singleton.1 h
    exact .inr (Part.reached_of_mem_marks _ (by decide))

namespace MemberType

/-- The part for the interface of a resolver's arguments. -/
def argsPart : Option String → Part
  | some name => .own name
  | none => .plain "\x7b\x7d"

/-- The parts of a member's type. -/
def parts : MemberType → List Part
  | shown type => type.parts
  | group model name => [.library .output (model ++ name ++ "AggregateInputType")]
  | resolver parent args answer =>
    [.plain "Resolver<"] ++ parent.parts ++ [.plain ", ", argsPart args, .plain ", "] ++
      answer.parts ++ [.plain ">"]
  | resolvers output => [.own output]

/-- The parts make up the text. -/
theorem join_parts (type : MemberType) : Part.join type.parts = type.text := by
  cases type with
  | shown type => exact type.join_parts
  | group model name =>
    unfold parts text
    rw [Part.join_output]
    simp only [String.append_assoc]
  | resolver parent args answer =>
    have hargs : (argsPart args).text = args.getD "\x7b\x7d" := by cases args <;> rfl
    unfold parts text
    dsimp only
    rw [← hargs, ← parent.join_parts, ← answer.join_parts]
    simp only [Part.join_append, Part.join_cons, Part.join_nil, Part.text_plain,
      String.append_assoc, String.append_empty]
  | resolvers output => exact Part.join_singleton _

/-- What the type refers to, as what is taken in an interface or answered by a
resolver. -/
def reference? : MemberType → Option Reference
  | shown type => some type.reference
  | resolver _ _ (.value type _) => some type.reference
  | _ => none

/-- A part of a type is reached anyway, or belongs to what the type refers to, or is a
name before that. -/
theorem of_mem_parts {type : MemberType} {part : Part} (h : part ∈ type.parts) :
    part.Reached ∨ (∃ reference, type.reference? = some reference ∧ part ∈ reference.parts) ∨
    (∃ parent name answer, type = .resolver parent (some name) answer ∧ part = .own name) ∨
    ∃ output, type = .resolvers output ∧ part = .own output := by
  have hmark : ∀ text ∈ Part.marks, part = .plain text → part.Reached := by
    rintro text htext rfl
    exact Part.reached_of_mem_marks text htext
  cases type with
  | shown type =>
    rcases ShownType.mem_parts h with h | h
    · exact .inr (.inl ⟨_, rfl, h⟩)
    · exact .inl (hmark _ (by decide) h)
  | group model name =>
    obtain rfl := List.mem_singleton.1 h
    exact .inl rfl
  | resolver parent args answer =>
    simp only [parts, List.mem_append, List.mem_cons, List.not_mem_nil, or_false] at h
    rcases h with (((h | h) | h | h | h) | h) | h
    · exact .inl (hmark _ (by decide) h)
    · exact .inl (Parent.reached_of_mem_parts h)
    · exact .inl (hmark _ (by decide) h)
    · cases args with
      | none => exact .inl (hmark _ (by decide) h)
      | some name => exact .inr (.inr (.inl ⟨_, _, _, rfl, h⟩))
    · exact .inl (hmark _ (by decide) h)
    · rcases Answer.of_mem_parts h with ⟨type, nullable, rfl, hpart⟩ | h
      · exact .inr (.inl ⟨_, rfl, hpart⟩)
      · exact .inl h
    · exact .inl (hmark _ (by decide) h)
  | resolvers output =>
    exact .inr (.inr (.inr ⟨output, rfl, List.mem_singleton.1 h⟩))

end MemberType

/-! ## References by name -/

/-- Outside of scalars, the type has the name of a result: of an aggregation, or of
operations on many records. -/
def TypeRef.NamesResult (t : TypeRef) : Prop :=
  t.location ≠ .scalar ∧
    ((Text.afterStart? aggregateStart t.name).isSome ∨ t.name = affectedRowsName)

/-- The type is an input object or an enum of the schema. -/
def Schema.Knows (schema : Schema) (t : TypeRef) : Prop :=
  (t.location = .inputObject ∧ (schema.findInput? t.name).isSome) ∨
    (t.location = .enumeration ∧ (schema.findEnum? t.name).isSome)

/-- What the schema knows is no scalar. -/
theorem Schema.Knows.location_ne_scalar {schema : Schema} {t : TypeRef} (h : schema.Knows t) :
    t.location ≠ .scalar := by
  rcases h with ⟨h, -⟩ | ⟨h, -⟩ <;> rw [h] <;> decide

/-- Of the usual renderings one is in the namespace `Prisma`, and it goes through the
client. -/
theorem Config.scalar_of_mentionsPrisma {config : Config} {name : String}
    (h : MentionsPrisma (config.scalar name)) :
    config.scalar name = "Client.Prisma.Decimal" ∨
      Keyed.get? name config.scalars = some (config.scalar name) := by
  have husual : ∀ entry ∈ usualScalars, MentionsPrisma entry.2 →
      entry.2 = "Client.Prisma.Decimal" := by decide +kernel
  cases hconfigured : Keyed.get? name config.scalars with
  | some configured => exact .inr (by rw [scalar, hconfigured]; rfl)
  | none =>
    have hscalar : config.scalar name = (Keyed.get? name usualScalars).getD "any" := by
      rw [scalar, hconfigured]
      rfl
    rw [hscalar] at h ⊢
    cases hfound : Keyed.get? name usualScalars with
    | none =>
      rw [hfound] at h
      exact absurd h (by decide)
    | some rendered =>
      rw [hfound] at h
      exact .inl (husual _ (Keyed.mem_of_get? hfound) h)

namespace Reference

variable {schema : Schema} {config : Config} {t : TypeRef}

/-- In inputs, a type that has not the name of a result goes by its own name. -/
theorem ofType_input (h : t.Classified schema) (hplace : t.location ≠ .scalar)
    (hresult : ¬ t.NamesResult) : ofType config .input t = .declared t.name := by
  cases hrole : t.role with
  | scalar => exact absurd (h.role_eq_scalar_iff.1 hrole) hplace
  | aggregate model =>
    exact absurd ⟨hplace, .inl (h.role_eq_aggregate_iff.1 ⟨model, hrole⟩).2⟩ hresult
  | affectedRows =>
    exact absurd ⟨hplace, .inr (h.role_eq_affectedRows_iff.1 hrole).2⟩ hresult
  | model => simp only [ofType, hrole]
  | library => simp only [ofType, hrole]

/-- A name of the text itself is one of a declaration, or of the arguments of an aggregate. -/
theorem own_mem_parts {reference : Reference} {name : String} (h : .own name ∈ reference.parts) :
    reference = .declared name ∨
      ∃ model typeName position, reference = .aggregate model typeName position ∧
        name = typeName ++ "Args" := by
  cases reference <;> simp_all [parts]

/-- A type goes by a declared name in inputs only, and then by its own. -/
theorem of_ofType_eq_declared {position : Position} {name : String}
    (h : ofType config position t = .declared name) : position = .input ∧ t.name = name := by
  cases hrole : t.role <;> cases position <;> simp_all [ofType]

/-- In outputs the namespace is always reached through the client. -/
theorem library_mem_parts_output {position : Position} {name : String}
    (h : .library position name ∈ (ofType config .output t).parts) : position = .output := by
  cases hrole : t.role <;> simp_all [ofType, parts]

/-- In inputs just the types with the name of a result are in the namespace `Prisma`,
and nothing stands before it. -/
theorem exists_library_mem_parts_input_iff (h : t.Classified schema) {position : Position} :
    (∃ name, .library position name ∈ (ofType config .input t).parts) ↔
      position = .input ∧ t.NamesResult := by
  constructor
  · rintro ⟨name, hname⟩
    by_cases hplace : t.location = .scalar
    · have hrole : t.role = .scalar := h.role_eq_scalar_iff.2 hplace
      simp [ofType, hrole, parts] at hname
    · by_cases hresult : t.NamesResult
      · cases hrole : t.role <;> simp_all [ofType, parts]
      · rw [ofType_input h hplace hresult] at hname
        simp [parts] at hname
  · rintro ⟨rfl, hplace, haggregate | hrows⟩
    · obtain ⟨model, hrole⟩ := h.role_eq_aggregate_iff.2 ⟨hplace, haggregate⟩
      exact ⟨"Get" ++ model ++ "AggregateType", by simp [ofType, hrole, parts]⟩
    · have hrole : t.role = .affectedRows := h.role_eq_affectedRows_iff.2 ⟨hplace, hrows⟩
      exact ⟨"BatchPayload", by simp [ofType, hrole, parts]⟩

/-- Of what brings no name only a scalar can mention the namespace. -/
theorem plain_mem_parts {position : Position} {text : String}
    (h : .plain text ∈ (ofType config position t).parts) (hprisma : MentionsPrisma text) :
    text = config.scalar t.name := by
  have hopen : ¬ MentionsPrisma "<" := Part.reached_of_mem_marks _ (by decide)
  have hclose : ¬ MentionsPrisma ">" := Part.reached_of_mem_marks _ (by decide)
  cases hrole : t.role <;> cases position <;> simp_all [ofType, parts]
  all_goals rcases h with rfl | rfl <;> contradiction

end Reference

namespace ResolverFile

/-! ## Members -/

/-- The members of the interfaces, in order. -/
def interfaceMembers (file : ResolverFile) : List Member :=
  (file.args ++ file.inputs).flatMap (·.members)

/-- All members in the text, in order: those of the index, those of the resolver maps,
and those of the interfaces. -/
def members (file : ResolverFile) : List Member :=
  file.resolvers.map indexMember ++ file.resolvers.flatMap (·.members) ++ file.interfaceMembers

/-- The text has a declaration of the name. -/
def Declares (file : ResolverFile) (name : String) : Prop :=
  name ∈ (file.resolvers ++ file.args ++ file.inputs).map (·.name) ∨
    name ∈ file.enums.map (·.name)

variable (schema : Schema) (config : Config)

/-- The arguments and the input fields that are written, in order, each with its type. -/
def written : List (InputField × TypeRef) :=
  (outputFields schema).flatMap (fun p => writtenFields schema config p.2.args) ++
    (declaredInputs schema config).flatMap fun input => writtenFields schema config input.fields

variable {schema config}

theorem mem_written_iff {taken : InputField × TypeRef} :
    taken ∈ written schema config ↔
      (∃ p ∈ outputFields schema, taken ∈ writtenFields schema config p.2.args) ∨
        ∃ input ∈ declaredInputs schema config,
          taken ∈ writtenFields schema config input.fields := by
  rw [written, List.mem_append, List.mem_flatMap, List.mem_flatMap]

/-- What is written was not left out. -/
theorem shown_of_mem_written {taken : InputField × TypeRef} (h : taken ∈ written schema config) :
    taken.1.shownType? config = some taken.2 ∧
      (taken.2.isInputObject → Usable schema config taken.2.name) := by
  rcases mem_written_iff.1 h with ⟨_, -, h⟩ | ⟨_, -, h⟩ <;> exact (mem_writtenFields_iff.1 h).2

/-- A type that is written has the role its name implies. -/
theorem classified_of_mem_written {documents : List Document}
    (hload : Schema.LoadedFrom documents schema) {taken : InputField × TypeRef}
    (h : taken ∈ written schema config) : taken.2.Classified schema := by
  rcases mem_written_iff.1 h with ⟨p, hp, h⟩ | ⟨input, hinput, h⟩
  · obtain ⟨output, houtput, hmap⟩ := List.mem_flatMap.1 hp
    obtain ⟨field, hfield, rfl⟩ := List.mem_map.1 hmap
    exact classified_of_mem_writtenFields (hload.classified_output houtput field hfield).2 h
  · exact classified_of_mem_writtenFields
      (hload.classified_input (mem_declaredInputs_iff.1 hinput).1) h

/-- A field that takes arguments has an interface of them. -/
theorem mem_args_of_mem_outputFields {p : OutputType × OutputField} (hp : p ∈ outputFields schema)
    (hargs : p.2.args ≠ []) :
    (⟨argsOwner p.1 ++ argsField p.2 ++ "Args", (writtenFields schema config p.2.args).map
      (memberOf config) ++ groupMembers schema p.2⟩ : Members) ∈
        (ofSchema schema config).args := by
  rw [args_ofSchema, List.mem_filterMap]
  exact ⟨p, hp, by rw [argsInterface?, argsName?_of_args hargs]; rfl⟩

/-- What is written is a member of an interface: of the arguments of its field, or of its
input type. -/
theorem memberOf_mem_interfaceMembers {taken : InputField × TypeRef}
    (h : taken ∈ written schema config) :
    memberOf config taken ∈ (ofSchema schema config).interfaceMembers := by
  rw [interfaceMembers, List.flatMap_append, List.mem_append]
  rcases mem_written_iff.1 h with ⟨p, hp, h⟩ | ⟨input, hinput, h⟩
  · have hargs : p.2.args ≠ [] := List.ne_nil_of_mem (mem_writtenFields_iff.1 h).1
    exact .inl (List.mem_flatMap.2 ⟨_, mem_args_of_mem_outputFields hp hargs,
      List.mem_append_left _ (List.mem_map_of_mem h)⟩)
  · rw [inputs_ofSchema, List.flatMap_map]
    exact .inr (List.mem_flatMap.2 ⟨input, hinput, List.mem_map_of_mem h⟩)

theorem memberOf_mem_members {taken : InputField × TypeRef} (h : taken ∈ written schema config) :
    memberOf config taken ∈ (ofSchema schema config).members :=
  List.mem_append_right _ (memberOf_mem_interfaceMembers h)

/-- The members for groups refer to groups only. -/
theorem exists_group_of_mem_groupMembers {field : OutputField} {m : Member}
    (h : m ∈ groupMembers schema field) : ∃ model name, m.type = .group model name := by
  rw [groupMembers] at h
  split at h
  · split at h
    · obtain ⟨group, -, rfl⟩ := List.mem_map.1 h
      exact ⟨_, _, rfl⟩
    · cases h
  · cases h

/-- A member of an interface is made of what is written, or for a group. -/
theorem of_mem_interfaceMembers {m : Member}
    (h : m ∈ (ofSchema schema config).interfaceMembers) :
    (∃ taken ∈ written schema config, m = memberOf config taken) ∨
      ∃ model name, m.type = .group model name := by
  rw [interfaceMembers, List.flatMap_append, List.mem_append] at h
  rcases h with h | h
  · rw [args_ofSchema] at h
    obtain ⟨interface, hinterface, hm⟩ := List.mem_flatMap.1 h
    obtain ⟨p, hp, hp'⟩ := List.mem_filterMap.1 hinterface
    obtain ⟨name, -, rfl⟩ := Option.map_eq_some_iff.1 hp'
    rcases List.mem_append.1 hm with hm | hm
    · obtain ⟨taken, htaken, rfl⟩ := List.mem_map.1 hm
      exact .inl ⟨taken, mem_written_iff.2 (.inl ⟨p, hp, htaken⟩), rfl⟩
    · exact .inr (exists_group_of_mem_groupMembers hm)
  · rw [inputs_ofSchema, List.flatMap_map] at h
    obtain ⟨input, hinput, hm⟩ := List.mem_flatMap.1 h
    obtain ⟨taken, htaken, rfl⟩ := List.mem_map.1 hm
    exact .inl ⟨taken, mem_written_iff.2 (.inr ⟨input, hinput, htaken⟩), rfl⟩

/-- A member of a resolver map is the resolver of a field, or of its count. -/
theorem of_mem_resolvers {m : Member}
    (h : m ∈ (ofSchema schema config).resolvers.flatMap (·.members)) :
    ∃ p ∈ outputFields schema, ∃ answer,
      m.type = .resolver (.ofOutput p.1) (argsName? p.1 p.2) answer ∧
        (answer = .count ∨
          ∃ nullable, answer = .value (.ofType config .output p.2.outputType) nullable) := by
  have hresolvers : (ofSchema schema config).resolvers =
      schema.outputTypes.map (resolverMap config) := rfl
  rw [hresolvers, List.flatMap_map] at h
  obtain ⟨output, houtput, h⟩ := List.mem_flatMap.1 h
  obtain ⟨field, hfield, h⟩ := List.mem_flatMap.1 h
  refine ⟨(output, field), List.mem_flatMap.2 ⟨output, houtput, List.mem_map_of_mem hfield⟩, ?_⟩
  rw [resolverMembers] at h
  split at h
  · rcases List.mem_pair.1 h with rfl | rfl
    · exact ⟨_, rfl, .inr ⟨_, rfl⟩⟩
    · exact ⟨_, rfl, .inl rfl⟩
  · rw [List.mem_singleton.1 h]
    exact ⟨_, rfl, .inr ⟨_, rfl⟩⟩

/-! ## Declared names -/

variable (schema config) in
/-- An interface of arguments goes by the name that a field gives it. -/
theorem mem_map_name_args_iff {name : String} :
    name ∈ (ofSchema schema config).args.map (·.name) ↔
      ∃ p ∈ outputFields schema, argsName? p.1 p.2 = some name := by
  rw [map_name_args, List.mem_filterMap]

/-- The names that are declared, by what they are of. -/
theorem declares_iff {name : String} :
    (ofSchema schema config).Declares name ↔
      name ∈ schema.outputTypes.map (·.name) ∨
      (∃ p ∈ outputFields schema, argsName? p.1 p.2 = some name) ∨
      name ∈ (declaredInputs schema config).map (·.name) ∨
      name ∈ schema.enumTypes.map (·.name) := by
  have hresolvers : (ofSchema schema config).resolvers.map (·.name) =
      schema.outputTypes.map (·.name) := List.map_map
  have hinputs : (ofSchema schema config).inputs.map (·.name) =
      (declaredInputs schema config).map (·.name) := by
    rw [inputs_ofSchema]
    exact List.map_map
  rw [Declares, List.map_append, List.map_append, List.mem_append, List.mem_append, hresolvers,
    hinputs, mem_map_name_args_iff, or_assoc, or_assoc]
  rfl

/-- An input object or enum that is written and known is declared. -/
theorem declares_of_knows {taken : InputField × TypeRef} (h : taken ∈ written schema config)
    (hknown : schema.Knows taken.2) : (ofSchema schema config).Declares taken.2.name := by
  rw [declares_iff]
  rcases hknown with ⟨hplace, hfound⟩ | ⟨-, hfound⟩
  · obtain ⟨input, hfound⟩ := Option.isSome_iff_exists.1 hfound
    obtain ⟨hinput, hname⟩ := Schema.mem_of_findInput? hfound
    have husable : Usable schema config taken.2.name :=
      (shown_of_mem_written h).2 (by simp [TypeRef.isInputObject, hplace])
    have hdeclared : input ∈ declaredInputs schema config :=
      mem_declaredInputs_iff.2 ⟨hinput, hname ▸ husable⟩
    exact .inr (.inr (.inl (List.mem_map.2 ⟨input, hdeclared, hname⟩)))
  · obtain ⟨enum, hfound⟩ := Option.isSome_iff_exists.1 hfound
    obtain ⟨henum, hname⟩ := Schema.mem_of_findEnum? hfound
    exact .inr (.inr (.inr (List.mem_map.2 ⟨enum, henum, hname⟩)))

/-- What a part of a member's type is: it is reached, or it is declared, or it belongs to
what is answered or taken. -/
theorem of_mem_members {m : Member} (hm : m ∈ (ofSchema schema config).members) {part : Part}
    (hpart : part ∈ m.type.parts) :
    part.Reached ∨ (∃ name, part = .own name ∧ (ofSchema schema config).Declares name) ∨
    (∃ p ∈ outputFields schema,
      m.type.reference? = some (.ofType config .output p.2.outputType) ∧
        part ∈ (Reference.ofType config .output p.2.outputType).parts) ∨
    ∃ taken ∈ written schema config, m = memberOf config taken ∧
      part ∈ (Reference.ofType config .input taken.2).parts := by
  rw [members, List.mem_append, List.mem_append] at hm
  rcases hm with (hm | hm) | hm
  case inl.inl =>
    obtain ⟨map, hmap, rfl⟩ := List.mem_map.1 hm
    obtain rfl := List.mem_singleton.1 hpart
    exact .inr (.inl ⟨_, rfl, .inl (List.mem_map_of_mem
      (List.mem_append_left _ (List.mem_append_left _ hmap)))⟩)
  case inl.inr =>
    obtain ⟨p, hp, answer, htype, hanswer⟩ := of_mem_resolvers hm
    rw [htype] at hpart ⊢
    rcases MemberType.of_mem_parts hpart with
      hreached | ⟨reference, href, hpart⟩ | ⟨_, name, _, hargs, rfl⟩ | ⟨_, hindex, -⟩
    · exact .inl hreached
    · rcases hanswer with rfl | ⟨nullable, rfl⟩
      · cases href
      · obtain rfl := Option.some.inj href
        exact .inr (.inr (.inl ⟨p, hp, rfl, hpart⟩))
    · injection hargs with _ hname
      exact .inr (.inl ⟨name, rfl, declares_iff.2 (.inr (.inl ⟨p, hp, hname⟩))⟩)
    · cases hindex
  case inr =>
    rcases of_mem_interfaceMembers hm with ⟨taken, htaken, rfl⟩ | ⟨model, name, htype⟩
    · rcases ShownType.mem_parts hpart with hpart | rfl
      · exact .inr (.inr (.inr ⟨taken, htaken, rfl, hpart⟩))
      · exact .inl (Part.reached_of_mem_marks _ (by decide))
    · rw [htype] at hpart
      obtain rfl := List.mem_singleton.1 hpart
      exact .inl rfl

/-- A name is declared, or else no field has it for its arguments. -/
theorem declares_or_forall_argsName?_ne (name : String) :
    (ofSchema schema config).Declares name ∨
      ∀ p ∈ outputFields schema, argsName? p.1 p.2 ≠ some name := by
  by_cases h : ∃ p ∈ outputFields schema, argsName? p.1 p.2 = some name
  · exact .inl (declares_iff.2 (.inr (.inl h)))
  · exact .inr fun p hp hname => h ⟨p, hp, hname⟩

/-- A name of the text is declared in it, if it is not that of a type that the schema
does not know, or of arguments that no field has. -/
theorem own_of_mem_members {m : Member} (hm : m ∈ (ofSchema schema config).members)
    {name : String} (hname : .own name ∈ m.type.parts) :
    (ofSchema schema config).Declares name ∨
    (∃ taken ∈ written schema config, m = memberOf config taken ∧ taken.2.name = name ∧
      ¬ schema.Knows taken.2) ∨
    ∃ model typeName position,
      m.type.reference? = some (.aggregate model typeName position) ∧
        name = typeName ++ "Args" ∧
        ∀ p ∈ outputFields schema, argsName? p.1 p.2 ≠ some name := by
  rcases of_mem_members hm hname with
    hreached | ⟨_, hown, hdeclares⟩ | ⟨p, -, href, hpart⟩ | ⟨taken, htaken, rfl, hpart⟩
  · cases hreached
  · cases hown
    exact .inl hdeclares
  · rcases Reference.own_mem_parts hpart with hdeclared | ⟨model, typeName, position, hagg, rfl⟩
    · cases (Reference.of_ofType_eq_declared hdeclared).1
    · exact (declares_or_forall_argsName?_ne _).imp_right fun hnone =>
        .inr ⟨model, typeName, position, href.trans (congrArg some hagg), rfl, hnone⟩
  · rcases Reference.own_mem_parts hpart with hdeclared | ⟨model, typeName, position, hagg, rfl⟩
    · obtain rfl := (Reference.of_ofType_eq_declared hdeclared).2
      by_cases hknown : schema.Knows taken.2
      · exact .inl (declares_of_knows htaken hknown)
      · exact .inr (.inl ⟨taken, htaken, rfl, rfl, hknown⟩)
    · exact (declares_or_forall_argsName?_ne _).imp_right fun hnone =>
        .inr ⟨model, typeName, position, congrArg some hagg, rfl, hnone⟩

/-- The namespace `Prisma` is reached through the client, but for results in inputs. -/
theorem library_of_mem_members {documents : List Document}
    (hload : Schema.LoadedFrom documents schema) {m : Member}
    (hm : m ∈ (ofSchema schema config).members) {position : Position} {name : String}
    (hname : .library position name ∈ m.type.parts) :
    position = .output ∨
      ∃ taken ∈ written schema config, m = memberOf config taken ∧ taken.2.NamesResult := by
  rcases of_mem_members hm hname with
    hreached | ⟨_, hown, -⟩ | ⟨p, -, -, hpart⟩ | ⟨taken, htaken, rfl, hpart⟩
  · exact .inl hreached
  · cases hown
  · exact .inl (Reference.library_mem_parts_output hpart)
  · have hresult := (Reference.exists_library_mem_parts_input_iff
      (classified_of_mem_written hload htaken)).1 ⟨name, hpart⟩
    exact .inr ⟨taken, htaken, rfl, hresult.2⟩

/-- Of what brings no name only scalars as they are rendered mention the namespace. -/
theorem plain_of_mem_members {m : Member} (hm : m ∈ (ofSchema schema config).members)
    {text : String} (htext : .plain text ∈ m.type.parts) (hprisma : MentionsPrisma text) :
    text = "Client.Prisma.Decimal" ∨ ∃ name, Keyed.get? name config.scalars = some text := by
  have hscalar : ∀ position t, .plain text ∈ (Reference.ofType config position t).parts →
      text = "Client.Prisma.Decimal" ∨ ∃ name, Keyed.get? name config.scalars = some text := by
    intro position t hpart
    obtain rfl := Reference.plain_mem_parts hpart hprisma
    exact (Config.scalar_of_mentionsPrisma hprisma).imp_right fun h => ⟨_, h⟩
  rcases of_mem_members hm htext with
    hreached | ⟨_, hown, -⟩ | ⟨p, -, -, hpart⟩ | ⟨taken, -, -, hpart⟩
  · exact absurd hprisma hreached
  · cases hown
  · exact hscalar _ _ hpart
  · exact hscalar _ _ hpart

/-- The members of interfaces besides groups are those for what is written. -/
theorem mem_interfaceMembers_iff {m : Member} :
    (m ∈ (ofSchema schema config).interfaceMembers ∧ ∃ type, m.type = .shown type) ↔
      ∃ taken ∈ written schema config, m = memberOf config taken := by
  refine ⟨fun ⟨hm, type, htype⟩ => ?_, ?_⟩
  · rcases of_mem_interfaceMembers hm with h | ⟨model, name, hgroup⟩
    · exact h
    · rw [htype] at hgroup
      cases hgroup
  · rintro ⟨taken, htaken, rfl⟩
    exact ⟨memberOf_mem_interfaceMembers htaken, _, rfl⟩

/-- The client is imported first. -/
theorem exists_header_eq (file : ResolverFile) :
    ∃ rest, file.header =
      "import * as Client from '" ++ file.clientImport ++ "'\n" ++ rest := by
  unfold header
  simp only [String.append_assoc, String.append_right_inj, exists_eq']

theorem clientImport_ofSchema (schema : Schema) (config : Config) :
    (ofSchema schema config).clientImport = config.clientImport := by
  rw [ofSchema]

/-- **Every name is reached.** The arguments of a resolver are declared. The members of
interfaces besides groups are those for what is written, and an input object or enum
among that, if the schema knows it, is declared, and goes by its own name if that is
not the name of a result. All names of the text are declared in it, but for what the
schema does not know, and for arguments of aggregates that are those of no field. The
namespace `Prisma` is reached through the client, but where inputs take what has the
name of a result, and where scalars are rendered so by the settings. -/
theorem ofSchema_reached {documents : List Document}
    (hload : Schema.ofDocuments documents = .ok schema) (config : Config) :
    ((∃ rest, (ofSchema schema config).header =
        "import * as Client from '" ++ config.clientImport ++ "'\n" ++ rest) ∧
      ∀ m ∈ (ofSchema schema config).members, Part.join m.type.parts = m.type.text) ∧
    (∀ map ∈ (ofSchema schema config).resolvers, ∀ m ∈ map.members, ∃ parent args answer,
      m.type = .resolver parent args answer ∧
        ∀ name ∈ args, name ∈ (ofSchema schema config).args.map (·.name)) ∧
    (∀ m, (m ∈ (ofSchema schema config).interfaceMembers ∧ ∃ type, m.type = .shown type) ↔
      ∃ taken ∈ written schema config, m = memberOf config taken) ∧
    (∀ taken ∈ written schema config, taken.1.shownType? config = some taken.2 ∧
      (schema.Knows taken.2 → (ofSchema schema config).Declares taken.2.name ∧
        (¬ taken.2.NamesResult →
          (memberOf config taken).type = .shown ⟨.declared taken.2.name, taken.2.isList⟩))) ∧
    (∀ m ∈ (ofSchema schema config).members, ∀ name, .own name ∈ m.type.parts →
      (ofSchema schema config).Declares name ∨
      (∃ taken ∈ written schema config, m = memberOf config taken ∧ taken.2.name = name ∧
        ¬ schema.Knows taken.2) ∨
      ∃ model typeName position,
        m.type.reference? = some (.aggregate model typeName position) ∧
          name = typeName ++ "Args" ∧
          ∀ p ∈ outputFields schema, argsName? p.1 p.2 ≠ some name) ∧
    (∀ m ∈ (ofSchema schema config).members, ∀ position name,
      .library position name ∈ m.type.parts → position = .output ∨
        ∃ taken ∈ written schema config, m = memberOf config taken ∧ taken.2.NamesResult) ∧
    ∀ m ∈ (ofSchema schema config).members, ∀ text, .plain text ∈ m.type.parts →
      MentionsPrisma text → text = "Client.Prisma.Decimal" ∨
        ∃ name, Keyed.get? name config.scalars = some text := by
  have hloaded := Schema.loadedFrom_of_ofDocuments hload
  refine ⟨⟨?header, fun m _ => m.type.join_parts⟩, ?args, fun m => mem_interfaceMembers_iff,
    ?known, fun m hm _ => own_of_mem_members hm, fun m hm _ _ => library_of_mem_members hloaded hm,
    fun m hm _ => plain_of_mem_members hm⟩
  case header => exact clientImport_ofSchema schema config ▸ exists_header_eq _
  case args =>
    intro map hmap m hm
    obtain ⟨p, hp, answer, htype, -⟩ := of_mem_resolvers (List.mem_flatMap.2 ⟨map, hmap, hm⟩)
    exact ⟨_, _, _, htype, fun name hname => (mem_map_name_args_iff schema config).2 ⟨p, hp, hname⟩⟩
  case known =>
    refine fun taken htaken => ⟨(shown_of_mem_written htaken).1, fun hknown =>
      ⟨declares_of_knows htaken hknown, fun hresult => ?_⟩⟩
    have href : Reference.ofType config .input taken.2 = .declared taken.2.name :=
      Reference.ofType_input (classified_of_mem_written hloaded htaken) hknown.location_ne_scalar
        hresult
    rw [memberOf, ShownType.ofType, href]

end ResolverFile

/-! ## An overview that takes a result -/

namespace Blog

/-- An overview of users, from some user on. The place to begin at is an input type
with the name of a result. -/
def aggregateUser : Document.OutputField :=
  given "aggregateUser" "AggregateUser" [taken "where" "UserWhereInput" .inputObject,
    taken "order" "SortOrder" .enumeration, taken "after" "AggregateUser" .inputObject]

/-- Figures on comments, without a field that asks for them with arguments. -/
def stats : Document.OutputField :=
  given "stats" "AggregateComment" []

/-- The condition on users, and the place to begin at. -/
def overviewInputs : List Document.InputType :=
  [⟨"UserWhereInput", [taken "balance" "Decimal" .scalar]⟩,
    ⟨"AggregateUser", [taken "id" "Int" .scalar]⟩]

/-- The overview on the root of queries, and the figures with a post. -/
def overviewOutputs : List Document.OutputType :=
  [⟨"Query", [aggregateUser]⟩, ⟨"Post", [stats]⟩]

/-- The orders that users can be listed in. -/
def overviewEnums : List Document.EnumType :=
  [⟨"SortOrder", ["asc", "desc"]⟩]

/-- The schema of the overview. -/
def overviewSchema : Schema :=
  schemaWith overviewInputs overviewOutputs overviewEnums

/-- The place to begin at is written. -/
theorem mem_written_after :
    loadedField "after" "AggregateUser" .inputObject ∈ ResolverFile.written overviewSchema {} := by
  have husable : Usable overviewSchema {} "AggregateUser" :=
    .field rfl (.head _) rfl (fun h => nomatch h)
  exact ResolverFile.mem_written_iff.2 (.inl ⟨_, .head _,
    mem_writtenFields_iff.2 ⟨.tail _ (.tail _ (.head _)), rfl, fun _ => husable⟩⟩)

/-- The condition on users is written. -/
theorem mem_written_where :
    loadedField "where" "UserWhereInput" .inputObject ∈ ResolverFile.written overviewSchema {} := by
  have husable : Usable overviewSchema {} "UserWhereInput" :=
    .field rfl (.head _) rfl (fun h => nomatch h)
  exact ResolverFile.mem_written_iff.2 (.inl ⟨_, .head _,
    mem_writtenFields_iff.2 ⟨.head _, rfl, fun _ => husable⟩⟩)

/-- The order of the users is written. -/
theorem mem_written_order :
    loadedField "order" "SortOrder" .enumeration ∈ ResolverFile.written overviewSchema {} :=
  ResolverFile.mem_written_iff.2 (.inl ⟨_, .head _,
    mem_writtenFields_iff.2 ⟨.tail _ (.head _), rfl, fun h => nomatch h⟩⟩)

/-- The resolver of the overview. -/
def overviewResolver : Member :=
  ⟨"aggregateUser", true, false, .resolver .none (some "AggregateUserArgs")
    (.value ⟨.aggregate "User" "AggregateUser" .output, false⟩ false)⟩

/-- The resolver of the figures. -/
def statsResolver : Member :=
  ⟨"stats", true, false, .resolver (.client "Post") none
    (.value ⟨.aggregate "Comment" "AggregateComment" .output, false⟩ false)⟩

/-- A member of a resolver map is a member of the text. -/
theorem mem_members_of_mem_resolvers {m : Member}
    (h : m ∈ (overviewSchema.outputTypes.map (ResolverFile.resolverMap {})).flatMap (·.members)) :
    m ∈ (ResolverFile.ofSchema overviewSchema {}).members :=
  List.mem_append_left _ (List.mem_append_right _ h)

end Blog

namespace ResolverFile

open Blog

/-- Only the client is imported, but the place to begin at is in a namespace `Prisma`
without it, although an input type of its name is declared. The arguments of the figures
are not declared at all. -/
theorem bare_overview :
    Schema.ofDocuments [withInterface overviewInputs overviewOutputs overviewEnums] =
      .ok overviewSchema ∧
    (∃ taken ∈ written overviewSchema {}, overviewSchema.Knows taken.2 ∧
      memberOf {} taken ∈ (ofSchema overviewSchema {}).members ∧
      (memberOf {} taken).text = "after?: Prisma.GetUserAggregateType<AggregateUserArgs>" ∧
      .library .input "GetUserAggregateType" ∈ (memberOf {} taken).type.parts) ∧
    ∃ m ∈ (ofSchema overviewSchema {}).members,
      m.text = "stats?: Resolver<Client.Post, \x7b\x7d, " ++
        "Client.Prisma.GetCommentAggregateType<AggregateCommentArgs>>" ∧
      .own "AggregateCommentArgs" ∈ m.type.parts ∧
      ¬ (ofSchema overviewSchema {}).Declares "AggregateCommentArgs" := by
  refine ⟨rfl, ⟨_, mem_written_after, .inl ⟨rfl, rfl⟩, memberOf_mem_members mem_written_after,
    rfl, .head _⟩, statsResolver, mem_members_of_mem_resolvers (.tail _ (.head _)), rfl,
    by decide, fun hdeclares => ?_⟩
  rcases declares_iff.1 hdeclares with h | h | h | h
  · exact absurd h (by decide)
  · rw [← List.mem_filterMap] at h
    exact absurd h (by decide)
  · obtain ⟨input, hinput, hname⟩ := List.mem_map.1 h
    have hnames : "AggregateCommentArgs" ∈ overviewSchema.inputTypes.map (·.name) :=
      List.mem_map.2 ⟨input, (mem_declaredInputs_iff.1 hinput).1, hname⟩
    exact absurd hnames (by decide)
  · exact absurd h (by decide)

/-- The overview's arguments are declared, also as those of its result, and so are the
input types and the order that it takes. Where it begins is taken as a result. -/
theorem ofSchema_reached_overview :
    "AggregateUserArgs" ∈ (ofSchema overviewSchema {}).args.map (·.name) ∧
    ((ofSchema overviewSchema {}).Declares "UserWhereInput" ∧
      (memberOf {} (loadedField "where" "UserWhereInput" .inputObject)).type =
        .shown ⟨.declared "UserWhereInput", false⟩) ∧
    (ofSchema overviewSchema {}).Declares "SortOrder" ∧
    (ofSchema overviewSchema {}).Declares "AggregateUser" ∧
    (ofSchema overviewSchema {}).Declares "AggregateUserArgs" ∧
    ∃ taken ∈ written overviewSchema {},
      memberOf {} (loadedField "after" "AggregateUser" .inputObject) = memberOf {} taken ∧
        taken.2.NamesResult := by
  have hload : Schema.ofDocuments [withInterface overviewInputs overviewOutputs overviewEnums] =
      .ok overviewSchema := rfl
  obtain ⟨-, hargs, -, hknown, hown, hlibrary, -⟩ := ofSchema_reached hload {}
  have hwhere := (hknown _ mem_written_where).2 (.inl ⟨rfl, rfl⟩)
  have horder := (hknown _ mem_written_order).2 (.inr ⟨rfl, rfl⟩)
  have hafter := (hknown _ mem_written_after).2 (.inl ⟨rfl, rfl⟩)
  have hplain : ¬ (TypeRef.NamesResult
      (loadedField "where" "UserWhereInput" .inputObject).2) := by
    rintro ⟨-, h | h⟩
    · exact absurd h (by decide)
    · exact absurd h (by decide)
  refine ⟨?args, ⟨hwhere.1, hwhere.2 hplain⟩, horder.1, hafter.1, ?result, ?bare⟩
  case args =>
    obtain ⟨_, _, _, htype, hname⟩ := hargs _ (.head _) overviewResolver (.head _)
    cases htype
    exact hname _ rfl
  case result =>
    have hmem : overviewResolver ∈ (ofSchema overviewSchema {}).members :=
      mem_members_of_mem_resolvers (.head _)
    rcases hown _ hmem "AggregateUserArgs" (by decide) with
      h | ⟨taken, -, htaken, -⟩ | ⟨_, _, _, -, -, hnone⟩
    · exact h
    · have htype := congrArg Member.type htaken
      cases htype
    · exact absurd rfl (hnone _ (.head _))
  case bare =>
    have hmem := memberOf_mem_members mem_written_after
    rcases hlibrary _ hmem .input "GetUserAggregateType" (.head _) with h | h
    · cases h
    · exact h

end ResolverFile

end Schematic
