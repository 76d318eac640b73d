import Schematic.Selection.Basic

/-!
# Merging entries

Everything that is selected is written into one ordered map, and what meets
there under one name is merged. This file says what comes of that:

* `keys_mergeEntries` — the names keep the order in which they first came;
* `forall_mergeEntries` — what holds of every entry and survives a merge holds
  of every merged entry;
* `nested_of_merge` — where a nested selection can come from.
-/

namespace Schematic

namespace Keyed

variable {α : Type}

/-- An alteration that leaves the first entry of its key as it is changes nothing. -/
theorem alter_of_get? {key : String} {a : α} {f : Option α → α} {entries : Keyed α}
    (h : get? key entries = some a) (hf : f (some a) = a) : alter key f entries = entries := by
  induction entries with
  | nil => cases h
  | cons entry rest ih =>
    obtain ⟨k, b⟩ := entry
    rw [get?_cons] at h
    by_cases hk : k = key
    · rw [if_pos hk] at h
      cases h
      rw [alter, if_pos hk, hf]
    · rw [if_neg hk] at h
      rw [alter, if_neg hk, ih h]

/-- What holds of the entries and of what the alteration makes of its own one
holds after the alteration. -/
theorem forall_alter {P : String → α → Prop} {key : String} {f : Option α → α}
    {entries : Keyed α} (hentries : ∀ entry ∈ entries, P entry.1 entry.2)
    (hnone : P key (f none)) (hsome : ∀ a, P key a → P key (f (some a))) :
    ∀ entry ∈ alter key f entries, P entry.1 entry.2 := by
  induction entries with
  | nil => exact fun entry h => List.mem_singleton.1 h ▸ hnone
  | cons entry rest ih =>
    obtain ⟨k, a⟩ := entry
    obtain ⟨ha, hrest⟩ := List.forall_mem_cons.1 hentries
    by_cases hk : k = key
    · subst hk
      rw [alter, if_pos rfl]
      exact List.forall_mem_cons.2 ⟨hsome a ha, hrest⟩
    · rw [alter, if_neg hk]
      exact List.forall_mem_cons.2 ⟨ha, ih hrest⟩

/-- What holds of the entries before and of those written holds of all. -/
theorem forall_putAll {P : String → α → Prop} {entries more : Keyed α}
    (hentries : ∀ entry ∈ entries, P entry.1 entry.2) (hmore : ∀ entry ∈ more, P entry.1 entry.2) :
    ∀ entry ∈ putAll entries more, P entry.1 entry.2 := by
  induction more generalizing entries with
  | nil => exact hentries
  | cons entry rest ih =>
    obtain ⟨hentry, hrest⟩ := List.forall_mem_cons.1 hmore
    exact ih (forall_alter hentries hentry fun _ _ => hentry) hrest

/-- Written entries have the keys that were there and those that are written. -/
theorem mem_keys_putAll {key : String} {entries more : Keyed α} :
    key ∈ keys (putAll entries more) ↔ key ∈ keys entries ∨ key ∈ keys more := by
  induction more generalizing entries with
  | nil => simp [putAll]
  | cons entry rest ih =>
    obtain ⟨k, a⟩ := entry
    have hput : key ∈ keys (entries.put k a) ↔ key ∈ keys entries ∨ key = k := by
      rw [put, keys_alter]
      split
      · rename_i hk
        exact (or_iff_left_of_imp fun hkey => hkey ▸ hk).symm
      · rw [List.mem_append, List.mem_singleton]
    rw [keys_cons, List.mem_cons, ← or_assoc, ← hput]
    exact ih

/-- An entry stays through an alteration, or is what is altered. -/
theorem mem_alter (key : String) (f : Option α → α) {k : String} {a : α} {entries : Keyed α}
    (h : (k, a) ∈ entries) :
    (k, a) ∈ alter key f entries ∨ k = key ∧ (key, f (some a)) ∈ alter key f entries := by
  induction entries with
  | nil => cases h
  | cons entry rest ih =>
    obtain ⟨k', a'⟩ := entry
    rw [alter]
    split
    · rename_i hk
      rcases List.mem_cons.1 h with h | h
      · cases h
        exact .inr ⟨hk, hk ▸ List.mem_cons_self⟩
      · exact .inl (List.mem_cons_of_mem _ h)
    · rcases List.mem_cons.1 h with h | h
      · exact .inl (h ▸ List.mem_cons_self)
      · rcases ih h with ih | ⟨hk, ih⟩
        · exact .inl (List.mem_cons_of_mem _ ih)
        · exact .inr ⟨hk, List.mem_cons_of_mem _ ih⟩

/-- After an alteration its key has what it made of nothing or of an entry that
was there. -/
theorem mem_alter_self (key : String) (f : Option α → α) (entries : Keyed α) :
    (key, f none) ∈ alter key f entries ∨
      ∃ a, (key, a) ∈ entries ∧ (key, f (some a)) ∈ alter key f entries := by
  have hself := mem_of_get? (get?_alter_self key f entries)
  rcases hget : get? key entries with _ | a
  · exact .inl (hget ▸ hself)
  · exact .inr ⟨a, mem_of_get? hget, hget ▸ hself⟩

end Keyed

/-- Names that take in others are followed by those of them that were missing, in their
order and each once. -/
theorem appendMissing_eq (names more : List String) :
    appendMissing names more = names ++ (more.removeAll names).eraseDups := by
  induction more generalizing names with
  | nil => simp [appendMissing]
  | cons name rest ih =>
    rw [appendMissing]
    by_cases h : name ∈ names
    · simp [h, ih, List.cons_removeAll]
    · have hfilter : rest.removeAll (names ++ [name]) =
          (rest.removeAll names).filter fun other => !other == name := by
        rw [List.removeAll, List.removeAll, List.filter_filter]
        refine List.filter_congr fun other _ => ?_
        by_cases hother : other = name <;> simp [hother]
      rw [if_neg h, ih, List.cons_removeAll, if_pos (by simpa using h), List.eraseDups_cons,
        hfilter, List.append_assoc, List.singleton_append]

theorem mem_appendMissing {names more : List String} {name : String} :
    name ∈ appendMissing names more ↔ name ∈ names ∨ name ∈ more := by
  rw [appendMissing_eq]
  by_cases h : name ∈ names <;> simp [h, List.removeAll]

theorem appendMissing_of_subset {names more : List String} (h : more ⊆ names) :
    appendMissing names more = names := by
  have hnone : more.removeAll names = [] :=
    List.filter_eq_nil_iff.2 fun name hname => by simpa using h hname
  rw [appendMissing_eq, hnone, List.eraseDups_nil, List.append_nil]

namespace Selected

/-- Whether a field has a selection of its own. -/
def isNested : Selected → Bool
  | nested _ _ => true
  | _ => false

/-- What a count takes in: a relation, with arguments or without. -/
def IsCounted (s : Selected) : Prop :=
  s = field ∨ ∃ arguments, s = counted arguments

/-- What a later selection makes of the one that is there, if there is one. -/
def mergeInto (later : Selected) : Option Selected → Selected
  | some present => present.merge later
  | none => later

variable {present later : List (String × Selected)}

/-! ## Equations -/

@[simp] theorem mergeEntries_nil (present : List (String × Selected)) :
    mergeEntries present [] = present := rfl

theorem mergeEntries_cons (present : List (String × Selected)) (name : String)
    (selected : Selected) (rest : List (String × Selected)) :
    mergeEntries present ((name, selected) :: rest) =
      mergeEntries (Keyed.alter name selected.mergeInto present) rest := by
  rw [mergeEntries]
  congr 2

theorem mergeEntries_append (present first second : List (String × Selected)) :
    mergeEntries present (first ++ second) = mergeEntries (mergeEntries present first) second := by
  induction first generalizing present with
  | nil => rfl
  | cons entry rest ih =>
    obtain ⟨name, selected⟩ := entry
    rw [List.cons_append, mergeEntries_cons, mergeEntries_cons, ih]

/-- A plain field adds nothing to a nested selection, and replaces all else. -/
theorem merge_field (s : Selected) : s.merge field = if s.isNested then s else field := by
  cases s <;> rfl

/-- What a plain field adds nothing to has nothing added after a merge either. -/
theorem merge_merge_field {s later : Selected} (h : later.merge field = later) :
    (s.merge later).merge field = s.merge later := by
  cases later with
  | field => cases s <;> rfl
  | nested _ _ => cases s <;> rfl
  | counted _ => cases h
  | group _ => cases h

theorem IsCounted.merge {a b : Selected} (ha : a.IsCounted) (hb : b.IsCounted) :
    (a.merge b).IsCounted := by
  rcases hb with rfl | ⟨arguments, rfl⟩
  · rcases ha with rfl | ⟨_, rfl⟩ <;> exact .inl rfl
  · exact .inr ⟨arguments, rfl⟩

/-- Where plain fields and nested selections meet, one nested selection makes the
merge nested. -/
theorem isNested_merge {s later : Selected} (h : later.merge field = later) :
    (s.merge later).isNested = (s.isNested || later.isNested) := by
  cases later with
  | field => cases s <;> rfl
  | nested _ _ => cases s <;> rfl
  | counted _ => cases h
  | group _ => cases h

/-- A merge is nested if the later selection is, or if that is plain and the one
that is there is nested. Only two nested selections are mixed. -/
theorem nested_of_merge {s later : Selected} {select arguments}
    (h : s.merge later = nested select arguments) :
    (later = field ∧ s = nested select arguments) ∨
    (later = nested select arguments ∧ s.isNested = false) ∨
    ∃ select₁ arguments₁ select₂ arguments₂,
      s = nested select₁ arguments₁ ∧ later = nested select₂ arguments₂ ∧
      select = mergeEntries select₁ select₂ ∧ arguments = Keyed.putAll arguments₁ arguments₂ := by
  cases later with
  | field =>
    cases s <;> cases h
    exact .inl ⟨rfl, rfl⟩
  | nested select₂ arguments₂ =>
    cases s with
    | nested select₁ arguments₁ =>
      cases h
      exact .inr (.inr ⟨select₁, arguments₁, select₂, arguments₂, rfl, rfl, rfl, rfl⟩)
    | field => exact .inr (.inl ⟨h, rfl⟩)
    | counted _ => exact .inr (.inl ⟨h, rfl⟩)
    | group _ => exact .inr (.inl ⟨h, rfl⟩)
  | counted _ => cases h
  | group _ => cases s <;> cases h

/-! ## Keys -/

/-- Merged entries have the keys that were there and then, in their order, those
that were not. -/
theorem keys_mergeEntries (present later : List (String × Selected)) :
    Keyed.keys (mergeEntries present later) =
      Keyed.keys present ++ ((Keyed.keys later).removeAll (Keyed.keys present)).eraseDups := by
  rw [← appendMissing_eq]
  induction later generalizing present with
  | nil => rfl
  | cons entry rest ih =>
    obtain ⟨name, selected⟩ := entry
    rw [mergeEntries_cons, ih, Keyed.keys_alter, Keyed.keys_cons, appendMissing]
    split <;> rfl

/-- Entries merged into an empty map have their keys in the order in which these
first came. -/
theorem keys_mergeEntries_nil (later : List (String × Selected)) :
    Keyed.keys (mergeEntries [] later) = (Keyed.keys later).eraseDups := by
  rw [keys_mergeEntries, Keyed.keys_nil, List.removeAll_nil, List.nil_append]

theorem mem_keys_mergeEntries {name : String} :
    name ∈ Keyed.keys (mergeEntries present later) ↔
      name ∈ Keyed.keys present ∨ name ∈ Keyed.keys later := by
  rw [keys_mergeEntries, ← appendMissing_eq]
  exact mem_appendMissing

/-- Merged entries have distinct keys if those that were there had. -/
theorem nodup_keys_mergeEntries (h : (Keyed.keys present).Nodup) :
    (Keyed.keys (mergeEntries present later)).Nodup := by
  induction later generalizing present with
  | nil => exact h
  | cons entry rest ih =>
    obtain ⟨name, selected⟩ := entry
    rw [mergeEntries_cons]
    exact ih (Keyed.nodup_keys_alter h)

/-- Nothing is merged into an empty map only if there is nothing to merge. -/
theorem mergeEntries_eq_nil_iff : mergeEntries present later = [] ↔ present = [] ∧ later = [] := by
  simp only [Keyed.eq_nil_iff_forall_not_mem_keys]
  rw [← forall_and]
  exact forall_congr' fun name => by rw [mem_keys_mergeEntries, not_or]

/-! ## Entries -/

/-- What holds of every entry, and of every merge of such entries under one
name, holds of the merged entries. -/
theorem forall_mergeEntries {P : String → Selected → Prop}
    (hpresent : ∀ entry ∈ present, P entry.1 entry.2)
    (hlater : ∀ entry ∈ later, P entry.1 entry.2)
    (hmerge : ∀ entry ∈ later, ∀ s, P entry.1 s → P entry.1 (s.merge entry.2)) :
    ∀ entry ∈ mergeEntries present later, P entry.1 entry.2 := by
  induction later generalizing present with
  | nil => exact hpresent
  | cons entry rest ih =>
    obtain ⟨name, selected⟩ := entry
    obtain ⟨hselected, hrest⟩ := List.forall_mem_cons.1 hlater
    obtain ⟨hself, hmerge⟩ := List.forall_mem_cons.1 hmerge
    rw [mergeEntries_cons]
    exact ih (Keyed.forall_alter hpresent hselected hself) hrest hmerge

/-- Where plain fields add nothing to any entry, they add nothing to a merged one. -/
theorem merge_field_of_mem_mergeEntries
    (hpresent : ∀ entry ∈ present, entry.2.merge field = entry.2)
    (hlater : ∀ entry ∈ later, entry.2.merge field = entry.2) :
    ∀ entry ∈ mergeEntries present later, entry.2.merge field = entry.2 :=
  forall_mergeEntries (P := fun _ (s : Selected) => s.merge field = s) hpresent hlater
    fun entry hentry _ _ => merge_merge_field (hlater entry hentry)

/-- What stands under a name comes of what was there and of the entries under this name, one
after the other. -/
theorem get?_mergeEntries (name : String) (present later : List (String × Selected)) :
    Keyed.get? name (mergeEntries present later) =
      (later.filter (·.1 = name)).foldl (fun s entry => some (entry.2.mergeInto s))
        (Keyed.get? name present) := by
  induction later generalizing present with
  | nil => rfl
  | cons entry rest ih =>
    obtain ⟨key, selected⟩ := entry
    rw [mergeEntries_cons, ih]
    by_cases hkey : key = name
    · subst hkey
      rw [Keyed.get?_alter_self, List.filter_cons_of_pos (by simp), List.foldl_cons]
    · rw [Keyed.get?_alter_of_ne (Ne.symm hkey), List.filter_cons_of_neg (by simpa using hkey)]

/-- What a merge has just when one of its two selections has it, a merged entry has just when
one that went into it does. -/
theorem get?_mergeEntries_iff {P : Selected → Prop} {name : String}
    (hmerge : ∀ entry ∈ later, entry.1 = name → ∀ s, P (s.merge entry.2) ↔ P s ∨ P entry.2) :
    (∃ s, Keyed.get? name (mergeEntries present later) = some s ∧ P s) ↔
      (∃ s, Keyed.get? name present = some s ∧ P s) ∨
        ∃ entry ∈ later, entry.1 = name ∧ P entry.2 := by
  induction later generalizing present with
  | nil => simp
  | cons entry rest ih =>
    obtain ⟨key, selected⟩ := entry
    obtain ⟨hselected, hrest⟩ := List.forall_mem_cons.1 hmerge
    -- One more entry counts under its own key, and leaves the others alone.
    have hself : (∃ s, Keyed.get? name (Keyed.alter key selected.mergeInto present) = some s ∧
        P s) ↔
        (∃ s, Keyed.get? name present = some s ∧ P s) ∨ key = name ∧ P selected := by
      by_cases hkey : key = name
      · subst hkey
        rw [Keyed.get?_alter_self]
        rcases Keyed.get? key present with _ | s <;> simp [mergeInto, hselected rfl]
      · rw [Keyed.get?_alter_of_ne (Ne.symm hkey)]
        simp [hkey]
    rw [mergeEntries_cons, ih hrest, hself, or_assoc]
    simp only [List.mem_cons, exists_eq_or_imp]

/-- A merged entry is nested if one that went into it is. -/
theorem get?_mergeEntries_isNested {name : String}
    (hlater : ∀ entry ∈ later, entry.2.merge field = entry.2) :
    (∃ s, Keyed.get? name (mergeEntries present later) = some s ∧ s.isNested) ↔
      (∃ s, Keyed.get? name present = some s ∧ s.isNested) ∨
        ∃ entry ∈ later, entry.1 = name ∧ entry.2.isNested := by
  refine get?_mergeEntries_iff (P := fun s => s.isNested) fun entry hentry _ s => ?_
  rw [isNested_merge (hlater entry hentry), Bool.or_eq_true]

end Selected

/-- Several insertions are one merge, and leave the arguments alone. -/
theorem Selection.insertAll_eq (s : Selection) (entries : List (String × Selected)) :
    s.insertAll entries = ⟨Selected.mergeEntries s.select entries, s.arguments⟩ := by
  rw [← insertAll_select]
  induction entries generalizing s with
  | nil => rfl
  | cons entry rest ih => exact ih (s.insert entry.1 entry.2)

end Schematic
