import Mathlib.Data.List.Forall2

/-!
# Results

What is computed may fail. When several items are computed one after the other there are
results just when each item has one (`mapM_eq_ok_iff_forall₂`), and otherwise the first
failure is the failure of all (`failure?_mapM`).
-/

namespace Schematic

/-! ## Results one by one -/

/-- A result that is changed is there if there was one. -/
theorem map_eq_ok_iff {ε α β : Type} {f : α → β} {x : Except ε α} {b : β} :
    x.map f = .ok b ↔ ∃ a, x = .ok a ∧ f a = b := by
  cases x <;> simp [Except.map]

theorem exists_ok_iff {ε α : Type} {x : Except ε α} :
    (∃ a, x = .ok a) ↔ x.toOption.isSome := by
  cases x <;> simp [Except.toOption]

theorem toOption_map {ε α β : Type} (f : α → β) (x : Except ε α) :
    (x.map f).toOption = x.toOption.map f := by
  cases x <;> rfl

theorem toOption_bind {ε α β : Type} (x : Except ε α) (f : α → Except ε β) :
    (x >>= f).toOption = x.toOption.bind fun a => (f a).toOption := by
  cases x <;> rfl

/-- What is computed from a result is there if both are. -/
theorem bind_eq_ok_iff {ε α β : Type} {x : Except ε α} {f : α → Except ε β} {b : β} :
    x >>= f = .ok b ↔ ∃ a, x = .ok a ∧ f a = .ok b := by
  cases x <;> simp [bind, Except.bind]

/-- What comes of the first item stands before what comes of the others. -/
theorem mapM_filterMap_cons {ε α β : Type} (f : α → Except ε (Option β)) (a : α) (rest : List α) :
    ((a :: rest).mapM f).map (·.filterMap id) = (do
      let b ← f a
      let later ← (rest.mapM f).map (·.filterMap id)
      return b.toList ++ later) := by
  rw [List.mapM_cons]
  cases f a with
  | error => rfl
  | ok b => cases rest.mapM f <;> cases b <;> rfl

/-- Several results are there if each is, and they are then found one by one. -/
theorem mapM_filterMap_eq_ok_iff {ε α β : Type} {f : α → Except ε (Option β)} {items : List α}
    {results : List β} :
    (items.mapM f).map (·.filterMap id) = .ok results ↔
      (∀ a ∈ items, ∃ b, f a = .ok b) ∧
        items.filterMap (fun a => (f a).toOption.join) = results := by
  induction items generalizing results with
  | nil => simp [map_eq_ok_iff, pure, Except.pure]
  | cons a rest ih =>
    rw [mapM_filterMap_cons, bind_eq_ok_iff, List.forall_mem_cons]
    constructor
    · rintro ⟨b, ha, hlater⟩
      obtain ⟨later, hlater, happend⟩ := bind_eq_ok_iff.1 hlater
      obtain ⟨hall, rfl⟩ := ih.1 hlater
      cases happend
      exact ⟨⟨⟨b, ha⟩, hall⟩, by rw [List.filterMap_cons, ha]; cases b <;> rfl⟩
    · rintro ⟨⟨⟨b, ha⟩, hall⟩, rfl⟩
      refine ⟨b, ha, bind_eq_ok_iff.2 ⟨_, ih.2 ⟨hall, rfl⟩, ?_⟩⟩
      rw [List.filterMap_cons, ha]
      cases b <;> rfl

/-- What comes of an item stands between what comes of those before it and those after it. -/
theorem mapM_filterMap_append_cons {ε α β : Type} (f : α → Except ε (Option β))
    (before : List α) (a : α) (after : List α) :
    ((before ++ a :: after).mapM f).map (·.filterMap id) = (do
      let earlier ← (before.mapM f).map (·.filterMap id)
      let b ← f a
      let later ← (after.mapM f).map (·.filterMap id)
      return earlier ++ b.toList ++ later) := by
  rw [List.mapM_append, List.mapM_cons]
  cases before.mapM f with
  | error => rfl
  | ok earlier =>
    cases f a with
    | error => rfl
    | ok b =>
      cases after.mapM f with
      | error => rfl
      | ok later => cases b <;> simp [bind, Except.bind, pure, Except.pure, Except.map]

/-- A run over several items succeeds with what its steps succeed with, in order. -/
theorem mapM_eq_ok_iff_forall₂ {ε α β : Type} {f : α → Except ε β} {items : List α}
    {results : List β} :
    items.mapM f = .ok results ↔ List.Forall₂ (fun a b => f a = .ok b) items results := by
  induction items generalizing results with
  | nil => cases results <;> simp [pure, Except.pure]
  | cons a rest ih =>
    rw [List.mapM_cons, List.forall₂_cons_left_iff]
    rcases ha : f a with error | b
    · simp [bind, Except.bind]
    · rcases hrest : rest.mapM f with error | bs
      · have hnone : ∀ more, ¬ List.Forall₂ (fun a b => f a = .ok b) rest more := fun more h => by
          rw [← ih, hrest] at h
          cases h
        simp [bind, Except.bind, hnone]
      · simp only [← ih, hrest, Except.ok.injEq]
        constructor
        · rintro ⟨⟩
          exact ⟨b, bs, rfl, rfl, rfl⟩
        · rintro ⟨_, _, rfl, rfl, rfl⟩
          rfl

/-- A run over a list succeeds if it does item by item, and with the results of the items. -/
theorem mapM_eq_some_iff_forall₂ {α β : Type} {f : α → Option β} {items : List α}
    {results : List β} :
    items.mapM f = some results ↔ List.Forall₂ (fun a b => f a = some b) items results := by
  induction items generalizing results with
  | nil => cases results <;> simp
  | cons a rest ih =>
    rw [List.mapM_cons, List.forall₂_cons_left_iff]
    simp only [Option.bind_eq_bind, Option.bind_eq_some_iff, Option.pure_def, Option.some.injEq,
      ih]
    constructor
    · rintro ⟨b, hb, bs, hbs, rfl⟩
      exact ⟨b, bs, hb, hbs, rfl⟩
    · rintro ⟨b, bs, hb, hbs, rfl⟩
      exact ⟨b, hb, bs, hbs, rfl⟩

/-- A run over a list stops just when an item has no result. -/
theorem mapM_eq_none_iff {α β : Type} {f : α → Option β} {items : List α} :
    items.mapM f = none ↔ ∃ a ∈ items, f a = none := by
  induction items with
  | nil => simp
  | cons a rest ih =>
    simp only [List.mapM_cons, List.mem_cons, exists_eq_or_imp, ← ih]
    cases f a with
    | none => simp
    | some b => cases rest.mapM f <;> simp

/-- Runs whose steps are the same are the same. -/
theorem mapM_congr {ε α β : Type} {f g : α → Except ε β} {items : List α}
    (h : ∀ a ∈ items, f a = g a) : items.mapM f = items.mapM g := by
  induction items with
  | nil => rfl
  | cons a rest ih =>
    obtain ⟨hhead, hrest⟩ := List.forall_mem_cons.1 h
    rw [List.mapM_cons, List.mapM_cons, hhead, ih hrest]

/-- Runs whose steps have the same results have the same results, whatever they fail with. -/
theorem toOption_mapM_of_forall₂ {ε α α' β : Type} {f : α → Except ε β} {g : α' → Except ε β}
    {items : List α} {items' : List α'}
    (h : List.Forall₂ (fun a a' => (f a).toOption = (g a').toOption) items items') :
    (items.mapM f).toOption = (items'.mapM g).toOption := by
  induction h with
  | nil => rfl
  | cons ha _ ih => simp only [List.mapM_cons, toOption_bind, ha, ih]

/-- Steps whose results are changed all alike have all results of the run changed. -/
theorem mapM_map_eq {ε α β γ : Type} (f : α → Except ε β) (g : β → γ) (items : List α) :
    (items.mapM fun a => (f a).map g) = (items.mapM f).map (List.map g) := by
  induction items with
  | nil => rfl
  | cons a rest ih =>
    rw [List.mapM_cons, List.mapM_cons, ih]
    cases f a with
    | error => rfl
    | ok b => cases rest.mapM f <;> rfl

section Related

variable {α β γ : Type} {R : α → β → Prop} {items : List α} {results : List β}

/-- A result comes of an item. -/
theorem exists_of_mem_of_forall₂ (h : List.Forall₂ R items results) {b : β} (hb : b ∈ results) :
    ∃ a ∈ items, R a b := by
  induction h with
  | nil => cases hb
  | @cons a b' items results hab _ ih =>
    rcases List.mem_cons.1 hb with rfl | hb
    · exact ⟨a, List.mem_cons_self, hab⟩
    · obtain ⟨a, ha, hab⟩ := ih hb
      exact ⟨a, List.mem_cons_of_mem _ ha, hab⟩

/-- If nothing comes of an item but one result, the results are what comes of the items. -/
theorem mem_iff_of_forall₂ (hunique : ∀ a b b', R a b → R a b' → b = b')
    (h : List.Forall₂ R items results) {b : β} : b ∈ results ↔ ∃ a ∈ items, R a b := by
  refine ⟨exists_of_mem_of_forall₂ h, ?_⟩
  rintro ⟨a, ha, hab⟩
  obtain ⟨b', hb', hab'⟩ := exists_of_mem_of_forall₂ h.flip ha
  rwa [hunique a b b' hab hab']

/-- What is made of the items is what is made of the results, if it is for each of them. -/
theorem flatMap_eq_of_forall₂ {f : α → List γ} {g : β → List γ} (hfg : ∀ a b, R a b → f a = g b)
    (h : List.Forall₂ R items results) : items.flatMap f = results.flatMap g := by
  induction h with
  | nil => rfl
  | cons hab _ ih => rw [List.flatMap_cons, List.flatMap_cons, hfg _ _ hab, ih]

theorem map_filter_eq_of_forall₂ {p : α → Bool} {q : β → Bool} {f : α → γ} {g : β → γ}
    (hpq : ∀ a b, R a b → p a = q b) (hfg : ∀ a b, R a b → f a = g b)
    (h : List.Forall₂ R items results) : (items.filter p).map f = (results.filter q).map g := by
  induction h with
  | nil => rfl
  | cons hab _ ih =>
    rw [List.filter_cons, List.filter_cons, hpq _ _ hab]
    split
    · rw [List.map_cons, List.map_cons, hfg _ _ hab, ih]
    · exact ih

end Related

/-! ## Failures -/

/-- The error of what has failed. -/
def failure? {ε α : Type} : Except ε α → Option ε
  | .error error => some error
  | .ok _ => none

theorem failure?_eq_some_iff {ε α : Type} {x : Except ε α} {error : ε} :
    failure? x = some error ↔ x = .error error := by
  cases x <;> simp [failure?]

theorem failure?_eq_none_iff {ε α : Type} {x : Except ε α} :
    failure? x = none ↔ ∃ a, x = .ok a := by
  cases x <;> simp [failure?]

theorem failure?_map {ε α β : Type} (f : α → β) (x : Except ε α) :
    failure? (x.map f) = failure? x := by
  cases x <;> rfl

/-- Of several failures the first one counts. -/
theorem failure?_mapM {ε α β : Type} (f : α → Except ε β) (items : List α) :
    failure? (items.mapM f) = items.findSome? fun a => failure? (f a) := by
  induction items with
  | nil => rfl
  | cons a rest ih =>
    rw [List.mapM_cons, List.findSome?_cons, ← ih]
    cases f a with
    | error => rfl
    | ok b => cases rest.mapM f <;> rfl

end Schematic
