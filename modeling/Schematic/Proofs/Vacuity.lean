import Mathlib.Data.List.Forall2
import Schematic.Declare.Vacuous

/-!
# Vacuous input types, without a search

An input type is usable if a value can be written for it; the usable types are
the least set closed under the two rules of `Usable`. The search that decides
this keeps the path it came by, so that a negative answer may be due to the path,
and keeps its positive answers from one question to the next.

* `usable_sound` — positive answers are right, those that are kept included;
* `exists_stuck` — behind a negative answer there is a set of types whose fields
  all lead back into the set or onto the path (`Stuck`);
* `not_of_usable` — with nothing on the path no type of such a set is usable;
* `isVacuous_iff_not_usable` — so every question of a row is answered by `Usable`
  alone.
-/

namespace Schematic

variable (schema : Schema) (config : Config)

/-- A value can be written for the input type: the schema does not know it, or
one of its fields is declared with a type a value can be written for. -/
inductive Usable : String → Prop
  | unknown {name : String} (hunknown : schema.findInput? name = none) : Usable name
  | field {name : String} {input : InputType} {field : InputField} {t : TypeRef}
      (hinput : schema.findInput? name = some input) (hfield : field ∈ input.fields)
      (hshown : field.shownType? config = some t)
      (husable : t.isInputObject → Usable t.name) : Usable name

namespace Vacuous

/-- All types that are known to be usable are. -/
def Sound (known : Known) : Prop :=
  ∀ name ∈ known, Usable schema config name

/-- No value can be written for the field, as far as the types of a set and
those on the path have none. -/
def Blocked (path : List String) (S : String → Prop) (field : InputField) : Prop :=
  ∀ t, field.shownType? config = some t → t.isInputObject ∧ (S t.name ∨ t.name ∈ path)

/-- The types of a set have no fields but blocked ones. -/
def Stuck (path : List String) (S : String → Prop) : Prop :=
  ∀ name, S name → ∃ input, schema.findInput? name = some input ∧
    ∀ field ∈ input.fields, Blocked config path S field

variable {schema config} {path : List String} {known : Known} {name : String}

/-! ## Equations -/

/-- What is known needs no search. -/
theorem usable_of_mem_known (hknown : name ∈ known) :
    usable schema config path known name = (true, known) := by
  rw [usable, if_pos hknown]

/-- A type that is met within itself brings no value by this path. -/
theorem usable_of_mem_path (hknown : name ∉ known) (hpath : name ∈ path) :
    usable schema config path known name = (false, known) := by
  rw [usable, if_neg hknown, dif_pos hpath]

/-- A name without a declaration is no reason to leave anything out. -/
theorem usable_of_unknown (hknown : name ∉ known) (hpath : name ∉ path)
    (hunknown : schema.findInput? name = none) :
    usable schema config path known name = (true, known) := by
  rw [usable, if_neg hknown, dif_neg hpath]
  split
  · rfl
  · rename_i hfound
    rw [hunknown] at hfound
    cases hfound

/-- The fields of a type are searched with the type on the path, and it becomes known only
if one has a value. -/
theorem usable_of_input (hknown : name ∉ known) (hpath : name ∉ path) {input : InputType}
    (hinput : schema.findInput? name = some input) {found : Bool} {known' : Known}
    (hfields : usableField schema config (name :: path) known input.fields = (found, known')) :
    usable schema config path known name = (found, if found then name :: known' else known') := by
  rw [usable, if_neg hknown, dif_neg hpath]
  split
  · rename_i hfound
    rw [hinput] at hfound
    cases hfound
  · rename_i hfound
    obtain rfl := Option.some.inj (hinput.symm.trans hfound)
    rw [hfields]
    cases found <;> rfl

theorem usableField_of_none {field : InputField} {rest : List InputField}
    (hshown : field.shownType? config = none) :
    usableField schema config path known (field :: rest) =
      usableField schema config path known rest := by
  rw [usableField, hshown]

/-- A field of a scalar or an enum has a value. -/
theorem usableField_of_plain {field : InputField} {rest : List InputField} {t : TypeRef}
    (hshown : field.shownType? config = some t) (hplain : ¬ t.isInputObject) :
    usableField schema config path known (field :: rest) = (true, known) := by
  rw [usableField, hshown]
  exact if_neg hplain

/-- A field of an input type has a value if that has one; what was found for it is kept in
either case. -/
theorem usableField_of_object {field : InputField} {rest : List InputField} {t : TypeRef}
    (hshown : field.shownType? config = some t) (hobject : t.isInputObject) {found : Bool}
    {known' : Known} (hfound : usable schema config path known t.name = (found, known')) :
    usableField schema config path known (field :: rest) =
      if found then (true, known') else usableField schema config path known' rest := by
  rw [usableField, hshown]
  simp only [if_pos hobject, hfound]
  cases found <;> rfl

/-! ## Positive answers -/

/-- A positive answer is right, and so is all that is known after it. -/
theorem usable_sound :
    (∀ path known name, Sound schema config known →
      Sound schema config (usable schema config path known name).2 ∧
        ((usable schema config path known name).1 = true → Usable schema config name)) ∧
    ∀ path known fields, Sound schema config known →
      Sound schema config (usableField schema config path known fields).2 ∧
        ((usableField schema config path known fields).1 = true → ∃ field ∈ fields,
          ∃ t, field.shownType? config = some t ∧
            (t.isInputObject → Usable schema config t.name)) := by
  refine usable.mutual_induct schema config _ _ ?known ?onPath ?unknown ?found ?notFound
    ?noField ?notShown ?object ?notObject ?plain
  case known =>
    intro path known name hmem hknown
    rw [usable_of_mem_known hmem]
    exact ⟨hknown, fun _ => hknown name hmem⟩
  case onPath =>
    intro path known name hmem hpath hknown
    rw [usable_of_mem_path hmem hpath]
    exact ⟨hknown, fun h => nomatch h⟩
  case unknown =>
    intro path known name hmem hpath hunknown hknown
    rw [usable_of_unknown hmem hpath hunknown]
    exact ⟨hknown, fun _ => .unknown hunknown⟩
  case found =>
    intro path known name hmem hpath input hinput _ known' hfields ih hknown
    rw [usable_of_input hmem hpath hinput hfields]
    rw [hfields] at ih
    obtain ⟨hknown', hfound⟩ := ih hknown
    obtain ⟨field, hfield, t, hshown, ht⟩ := hfound rfl
    have husable : Usable schema config name := .field hinput hfield hshown ht
    exact ⟨List.forall_mem_cons.2 ⟨husable, hknown'⟩, fun _ => husable⟩
  case notFound =>
    intro path known name hmem hpath input hinput _ known' hfields ih hknown
    rw [usable_of_input hmem hpath hinput hfields]
    rw [hfields] at ih
    exact ⟨(ih hknown).1, fun h => nomatch h⟩
  case noField =>
    intro path known hknown
    rw [usableField]
    exact ⟨hknown, fun h => nomatch h⟩
  case notShown =>
    intro path known field rest hshown ih hknown
    rw [usableField_of_none hshown]
    obtain ⟨hknown', hrest⟩ := ih hknown
    exact ⟨hknown', fun h => (hrest h).imp fun _ => .imp_left (List.mem_cons_of_mem _)⟩
  case object =>
    intro path known field rest t hshown hobject known' hfound ih hknown
    rw [usableField_of_object hshown hobject hfound]
    rw [hfound] at ih
    obtain ⟨hknown', ht⟩ := ih hknown
    exact ⟨hknown', fun _ => ⟨field, List.mem_cons_self, t, hshown, fun _ => ht rfl⟩⟩
  case notObject =>
    intro path known field rest t hshown hobject known' hfound ih ihrest hknown
    rw [usableField_of_object hshown hobject hfound]
    rw [hfound] at ih
    obtain ⟨hknown', hrest⟩ := ihrest (ih hknown).1
    exact ⟨hknown', fun h => (hrest h).imp fun _ => .imp_left (List.mem_cons_of_mem _)⟩
  case plain =>
    intro path known field rest t hshown hplain hknown
    rw [usableField_of_plain hshown hplain]
    exact ⟨hknown, fun _ => ⟨field, List.mem_cons_self, t, hshown, fun h => absurd h hplain⟩⟩

/-! ## Negative answers -/

/-- What is blocked by some types is blocked by more. -/
theorem Blocked.mono {path path' : List String} {S S' : String → Prop} {field : InputField}
    (h : Blocked config path S field)
    (hsub : ∀ name, S name ∨ name ∈ path → S' name ∨ name ∈ path') :
    Blocked config path' S' field :=
  fun t hshown => (h t hshown).imp_right (hsub t.name)

/-- Two sets that lead nowhere under one path lead nowhere together. -/
theorem Stuck.union {S S' : String → Prop} (h : Stuck schema config path S)
    (h' : Stuck schema config path S') : Stuck schema config path fun name => S name ∨ S' name := by
  rintro name (hname | hname)
  · obtain ⟨input, hinput, hfields⟩ := h name hname
    exact ⟨input, hinput, fun field hfield => (hfields field hfield).mono fun _ => .imp_left .inl⟩
  · obtain ⟨input, hinput, hfields⟩ := h' name hname
    exact ⟨input, hinput, fun field hfield => (hfields field hfield).mono fun _ => .imp_left .inr⟩

/-- Behind a negative answer there is a set of types that is stuck. -/
theorem exists_stuck :
    (∀ path known name, (usable schema config path known name).1 = false →
      name ∈ path ∨ ∃ S, S name ∧ Stuck schema config path S) ∧
    ∀ path known fields, (usableField schema config path known fields).1 = false →
      ∃ S, Stuck schema config path S ∧ ∀ field ∈ fields, Blocked config path S field := by
  refine usable.mutual_induct schema config _ _ ?known ?onPath ?unknown ?found ?notFound
    ?noField ?notShown ?object ?notObject ?plain
  case known =>
    intro path known name hmem h
    rw [usable_of_mem_known hmem] at h
    cases h
  case onPath => exact fun path known name _ hpath _ => .inl hpath
  case unknown =>
    intro path known name hmem hpath hunknown h
    rw [usable_of_unknown hmem hpath hunknown] at h
    cases h
  case found =>
    intro path known name hmem hpath input hinput _ known' hfields _ h
    rw [usable_of_input hmem hpath hinput hfields] at h
    cases h
  case notFound =>
    intro path known name hmem hpath input hinput _ known' hfields ih _
    obtain ⟨S, hstuck, hblocked⟩ := ih (by rw [hfields])
    -- The type leaves the path and joins the set.
    have hsub : ∀ other, S other ∨ other ∈ name :: path →
        (other = name ∨ S other) ∨ other ∈ path := by
      intro other h
      rcases h with h | h
      · exact .inl (.inr h)
      · exact (List.mem_cons.1 h).imp_left .inl
    refine .inr ⟨fun other => other = name ∨ S other, .inl rfl, ?_⟩
    rintro other (rfl | hother)
    · exact ⟨input, hinput, fun field hfield => (hblocked field hfield).mono hsub⟩
    · obtain ⟨input', hinput', hfields'⟩ := hstuck other hother
      exact ⟨input', hinput', fun field hfield => (hfields' field hfield).mono hsub⟩
  case noField =>
    exact fun path known _ => ⟨fun _ => False, fun _ h => h.elim, List.forall_mem_nil _⟩
  case notShown =>
    intro path known field rest hshown ih h
    rw [usableField_of_none hshown] at h
    obtain ⟨S, hstuck, hblocked⟩ := ih h
    refine ⟨S, hstuck, List.forall_mem_cons.2 ⟨fun t ht => ?_, hblocked⟩⟩
    rw [hshown] at ht
    cases ht
  case object =>
    intro path known field rest t hshown hobject known' hfound _ h
    rw [usableField_of_object hshown hobject hfound] at h
    cases h
  case notObject =>
    intro path known field rest t hshown hobject known' hfound ih ihrest h
    rw [usableField_of_object hshown hobject hfound] at h
    obtain ⟨S, hstuck, hblocked⟩ := ihrest h
    have hshown' : ∀ {t'}, field.shownType? config = some t' → t' = t := fun ht =>
      Option.some.inj (ht.symm.trans hshown)
    -- The type was met on the path, or is stuck with a set of its own.
    rcases ih (by rw [hfound]) with hpath | ⟨S', hname, hstuck'⟩
    · refine ⟨S, hstuck, List.forall_mem_cons.2 ⟨fun t' ht => ?_, hblocked⟩⟩
      obtain rfl := hshown' ht
      exact ⟨hobject, .inr hpath⟩
    · refine ⟨fun name => S' name ∨ S name, hstuck'.union hstuck,
        List.forall_mem_cons.2 ⟨fun t' ht => ?_, fun field hfield => ?_⟩⟩
      · obtain rfl := hshown' ht
        exact ⟨hobject, .inl (.inl hname)⟩
      · exact (hblocked field hfield).mono fun _ => .imp_left .inr
  case plain =>
    intro path known field rest t hshown hplain h
    rw [usableField_of_plain hshown hplain] at h
    cases h

/-- With nothing on the path, no type of a stuck set is usable. -/
theorem not_of_usable {S : String → Prop} (hstuck : Stuck schema config [] S)
    (husable : Usable schema config name) : ¬ S name := by
  induction husable with
  | unknown hunknown =>
    intro hname
    obtain ⟨input, hinput, -⟩ := hstuck _ hname
    rw [hunknown] at hinput
    cases hinput
  | field hinput hfield hshown _ ih =>
    intro hname
    obtain ⟨input', hinput', hfields⟩ := hstuck _ hname
    obtain rfl := Option.some.inj (hinput.symm.trans hinput')
    obtain ⟨hobject, hnext⟩ := hfields _ hfield _ hshown
    exact ih hobject (hnext.resolve_right List.not_mem_nil)

/-- A search from nothing on the path decides whether a type is usable. -/
theorem usable_nil_iff (hknown : Sound schema config known) :
    (usable schema config [] known name).1 = true ↔ Usable schema config name := by
  constructor
  · exact (usable_sound.1 [] known name hknown).2
  · intro husable
    by_contra h
    rcases exists_stuck.1 [] known name (Bool.eq_false_iff.2 h) with hpath | ⟨S, hname, hstuck⟩
    · cases hpath
    · exact not_of_usable hstuck husable hname

end Vacuous

/-! ## Questions in a row -/

namespace Check

open Vacuous

variable {schema config}

/-- Started from what is known rightly, a row of questions is answered rightly. -/
theorem run_mapM_isVacuous (names : List String) {known : Known}
    (hknown : Sound schema config known) :
    List.Forall₂ (fun name vacuous => vacuous = true ↔ ¬ Usable schema config name) names
      ((names.mapM (isVacuous schema config)).run known).1 := by
  induction names generalizing known with
  | nil => exact .nil
  | cons name rest ih =>
    have hcons : ((name :: rest).mapM (isVacuous schema config)).run known =
        let found := usable schema config [] known name
        let answers := (rest.mapM (isVacuous schema config)).run found.2
        ((!found.1) :: answers.1, answers.2) := by
      rw [List.mapM_cons]
      rfl
    rw [hcons]
    refine .cons ?_ (ih (usable_sound.1 [] known name hknown).1)
    rw [← usable_nil_iff hknown, Bool.not_eq_true', Bool.eq_false_iff]

/-- **Vacuity is a matter of the type alone.** Whatever is asked before, in any
order and however often, an input type is found vacuous if it is not usable. -/
theorem isVacuous_iff_not_usable (names : List String) :
    List.Forall₂ (fun name vacuous => vacuous = true ↔ ¬ Usable schema config name) names
      (answer (names.mapM (isVacuous schema config))) :=
  run_mapM_isVacuous names (List.forall_mem_nil _)

end Check

end Schematic
