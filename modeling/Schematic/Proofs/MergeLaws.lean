import Schematic.Proofs.Merging
import Schematic.Selection.Prune

/-!
# Laws of merging

Merging is associative as long as what meets under one name is of one kind
(`Unmixed.merge_assoc`): a count that is merged into a relation, or the other way
round, replaces it, and then the order of merging would show. Both maps of a
selection, its fields and its arguments, are written by one operation,
`Keyed.mergeBy`, which is associative where the combination of values is
(`Keyed.mergeBy_assoc`).

Selections that differ only in the order of their fields are the `Same`, and
merging does not tell them apart (`Same.merge`).
-/

namespace Schematic

namespace Keyed

variable {α : Type}

/-! ## Alterations one after the other -/

/-- Only what becomes of the present entry matters. -/
theorem alter_congr {key : String} {f g : Option α → α} {entries : Keyed α}
    (h : f (get? key entries) = g (get? key entries)) :
    alter key f entries = alter key g entries := by
  induction entries with
  | nil => exact congrArg (fun a => [(key, a)]) h
  | cons entry rest ih =>
    obtain ⟨k, a⟩ := entry
    rw [get?_cons] at h
    by_cases hk : k = key
    · rw [if_pos hk] at h
      rw [alter, alter, if_pos hk, if_pos hk, h]
    · rw [if_neg hk] at h
      rw [alter, alter, if_neg hk, if_neg hk, ih h]

/-- Two alterations of one key are one. -/
theorem alter_alter_self (key : String) (f g : Option α → α) (entries : Keyed α) :
    alter key f (alter key g entries) =
      alter key (fun present => f (some (g present))) entries := by
  induction entries with
  | nil => simp [alter]
  | cons entry rest ih =>
    obtain ⟨k, a⟩ := entry
    by_cases hk : k = key
    · simp [alter, hk]
    · simp [alter, hk, ih]

/-- Alterations of two keys can be exchanged if one of them has an entry already:
which of two new keys comes first would show. -/
theorem alter_comm {key key' : String} (hne : key ≠ key') {f g : Option α → α}
    {entries : Keyed α} (hkey : key ∈ keys entries) :
    alter key f (alter key' g entries) = alter key' g (alter key f entries) := by
  induction entries with
  | nil => cases hkey
  | cons entry rest ih =>
    obtain ⟨k, a⟩ := entry
    by_cases hk : k = key
    · subst hk
      simp [alter, hne]
    · have hrest : key ∈ keys rest := (List.mem_cons.1 hkey).resolve_left (Ne.symm hk)
      by_cases hk' : k = key'
      · subst hk'
        simp [alter, hk]
      · simp [alter, hk, hk', ih hrest]

/-- A key without an entry is added at the end. -/
theorem alter_of_not_mem {key : String} (f : Option α → α) {entries : Keyed α}
    (h : key ∉ keys entries) : alter key f entries = entries ++ [(key, f none)] := by
  induction entries with
  | nil => rfl
  | cons entry rest ih =>
    obtain ⟨k, a⟩ := entry
    rw [keys_cons, List.mem_cons, not_or] at h
    rw [alter, if_neg (Ne.symm h.1), ih h.2, List.cons_append]

/-! ## Merging maps -/

/-- What a later value makes of the one that is there, if there is one. -/
def combineInto (combine : α → α → α) (later : α) : Option α → α
  | some present => combine present later
  | none => later

/-- Writes entries one after the other; an entry that is there takes in the new
value. -/
def mergeBy (combine : α → α → α) (present later : Keyed α) : Keyed α :=
  later.foldl (fun entries entry => alter entry.1 (combineInto combine entry.2) entries) present

variable {combine : α → α → α} {present first second later : Keyed α}

theorem mergeBy_cons (key : String) (a : α) :
    mergeBy combine present ((key, a) :: later) =
      mergeBy combine (alter key (combineInto combine a) present) later := rfl

/-- A key that is there and does not come again can be altered before or after. -/
theorem alter_mergeBy {key : String} {f : Option α → α} (hkey : key ∈ keys present)
    (hlater : key ∉ keys later) :
    alter key f (mergeBy combine present later) = mergeBy combine (alter key f present) later := by
  induction later generalizing present with
  | nil => rfl
  | cons entry rest ih =>
    obtain ⟨k, a⟩ := entry
    rw [keys_cons, List.mem_cons, not_or] at hlater
    have hkey' : key ∈ keys (alter k (combineInto combine a) present) := by
      rw [keys_alter]
      split
      · exact hkey
      · exact List.mem_append_left _ hkey
    rw [mergeBy_cons, mergeBy_cons, ih hkey' hlater.2, alter_comm hlater.1 hkey]

/-- One more entry can be merged before or after, where combining it is
associative. -/
theorem mergeBy_alter {P : String → α → Prop} {key : String} {a : α}
    (hclosed : ∀ key a b, P key a → P key b → P key (combine a b))
    (hassoc : ∀ p b, P key p → P key b → combine (combine p b) a = combine p (combine b a))
    (hpresent : ∀ entry ∈ present, P entry.1 entry.2) (hlater : ∀ entry ∈ later, P entry.1 entry.2)
    (hnodup : (keys later).Nodup) :
    mergeBy combine present (alter key (combineInto combine a) later) =
      alter key (combineInto combine a) (mergeBy combine present later) := by
  induction later generalizing present with
  | nil => rfl
  | cons entry rest ih =>
    obtain ⟨k, b⟩ := entry
    obtain ⟨hb, hrest⟩ := List.forall_mem_cons.1 hlater
    rw [keys_cons, List.nodup_cons] at hnodup
    by_cases hk : k = key
    · subst hk
      -- The two values that come under the key are combined first, or one after the other.
      have hself : k ∈ keys (alter k (combineInto combine b) present) := by
        rw [← isSome_get?, get?_alter_self]
        rfl
      rw [alter, if_pos rfl, mergeBy_cons, mergeBy_cons, alter_mergeBy hself hnodup.1,
        alter_alter_self]
      refine congrArg (mergeBy combine · rest) (alter_congr ?_)
      rcases hget : get? k present with _ | p
      · rfl
      · exact (hassoc p b (hpresent _ (mem_of_get? hget)) hb).symm
    · have hpresent' : ∀ entry ∈ alter k (combineInto combine b) present, P entry.1 entry.2 :=
        forall_alter hpresent hb fun p hp => hclosed k p b hp hb
      rw [alter, if_neg hk, mergeBy_cons, mergeBy_cons, ih hpresent' hrest hnodup.2]

/-- Merging maps is associative where combining their values is. -/
theorem mergeBy_assoc {P : String → α → Prop}
    (hclosed : ∀ key a b, P key a → P key b → P key (combine a b))
    (hassoc : ∀ entry ∈ second, ∀ p b, P entry.1 p → P entry.1 b →
      combine (combine p b) entry.2 = combine p (combine b entry.2))
    (hpresent : ∀ entry ∈ present, P entry.1 entry.2) (hfirst : ∀ entry ∈ first, P entry.1 entry.2)
    (hsecond : ∀ entry ∈ second, P entry.1 entry.2) (hnodup : (keys first).Nodup) :
    mergeBy combine (mergeBy combine present first) second =
      mergeBy combine present (mergeBy combine first second) := by
  induction second generalizing first with
  | nil => rfl
  | cons entry rest ih =>
    obtain ⟨key, a⟩ := entry
    obtain ⟨ha, hrest⟩ := List.forall_mem_cons.1 hsecond
    obtain ⟨hassoc, hassocRest⟩ := List.forall_mem_cons.1 hassoc
    have hfirst' : ∀ entry ∈ alter key (combineInto combine a) first, P entry.1 entry.2 :=
      forall_alter hfirst ha fun b hb => hclosed key b a hb ha
    rw [mergeBy_cons, mergeBy_cons, ← ih hassocRest hfirst' hrest (nodup_keys_alter hnodup),
      mergeBy_alter hclosed hassoc hpresent hfirst hnodup]

/-- What stands under a key after distinct keys are merged in. -/
theorem get?_mergeBy (hnodup : (keys later).Nodup) (key : String) :
    get? key (mergeBy combine present later) = match get? key later with
      | some a => some (combineInto combine a (get? key present))
      | none => get? key present := by
  induction later generalizing present with
  | nil => rfl
  | cons entry rest ih =>
    obtain ⟨k, a⟩ := entry
    rw [keys_cons, List.nodup_cons] at hnodup
    rw [mergeBy_cons, ih hnodup.2, get?_cons]
    by_cases hk : k = key
    · subst hk
      rw [(get?_eq_none_iff k rest).2 hnodup.1, if_pos rfl]
      exact get?_alter_self k _ present
    · rw [if_neg hk, get?_alter_of_ne (Ne.symm hk)]

/-- Distinct keys are merged into an empty map as they are. -/
theorem mergeBy_of_nodup (hnodup : (keys (present ++ later)).Nodup) :
    mergeBy combine present later = present ++ later := by
  induction later generalizing present with
  | nil => exact (List.append_nil present).symm
  | cons entry rest ih =>
    obtain ⟨k, a⟩ := entry
    have hk : k ∉ keys present := by
      rw [keys, List.map_append, List.nodup_append] at hnodup
      exact fun h => hnodup.2.2 k h k List.mem_cons_self rfl
    have happend : present ++ (k, a) :: rest = present ++ [(k, a)] ++ rest :=
      (List.append_assoc present [(k, a)] rest).symm
    rw [mergeBy_cons, alter_of_not_mem _ hk, happend]
    exact ih (happend ▸ hnodup)

/-- After distinct keys are merged in, those that are new follow the others. -/
theorem keys_mergeBy (hnodup : (keys later).Nodup) :
    keys (mergeBy combine present later) =
      keys present ++ (keys later).filter (· ∉ keys present) := by
  induction later generalizing present with
  | nil => simp [mergeBy]
  | cons entry rest ih =>
    obtain ⟨k, a⟩ := entry
    rw [keys_cons, List.nodup_cons] at hnodup
    rw [mergeBy_cons, ih hnodup.2, keys_alter, keys_cons]
    by_cases hk : k ∈ keys present
    · simp [hk]
    · have hrest : (keys rest).filter (· ∉ keys present ++ [k]) =
          (keys rest).filter (· ∉ keys present) := by
        apply List.filter_congr
        intro key hkey
        have hne : key ≠ k := fun h => hnodup.1 (h ▸ hkey)
        simp [hne]
      rw [if_neg hk, hrest, List.filter_cons_of_pos (by simpa using hk), List.append_assoc,
        List.singleton_append]

/-- Merging in what has been taken in already changes nothing. -/
theorem mergeBy_of_get?
    (h : ∀ entry ∈ later, ∃ p, get? entry.1 present = some p ∧ combine p entry.2 = p) :
    mergeBy combine present later = present := by
  induction later with
  | nil => rfl
  | cons entry rest ih =>
    obtain ⟨⟨p, hget, hcombine⟩, hrest⟩ := List.forall_mem_cons.1 h
    have halter : alter entry.1 (combineInto combine entry.2) present = present :=
      alter_of_get? hget hcombine
    rw [mergeBy_cons, halter, ih hrest]

theorem mergeBy_self (hnodup : (keys present).Nodup)
    (hself : ∀ entry ∈ present, combine entry.2 entry.2 = entry.2) :
    mergeBy combine present present = present :=
  mergeBy_of_get? fun entry hentry => ⟨entry.2, get?_of_mem hnodup hentry, hself entry hentry⟩

/-- Merging the same distinct keys in once more changes nothing, if no value takes in the
same one twice. -/
theorem mergeBy_mergeBy_self (hnodup : (keys later).Nodup)
    (hself : ∀ entry ∈ later, combine entry.2 entry.2 = entry.2)
    (htwice : ∀ entry ∈ later, ∀ p, combine (combine p entry.2) entry.2 = combine p entry.2) :
    mergeBy combine (mergeBy combine present later) later = mergeBy combine present later := by
  apply mergeBy_of_get?
  intro entry hentry
  refine ⟨combineInto combine entry.2 (get? entry.1 present), ?_, ?_⟩
  · rw [get?_mergeBy hnodup, get?_of_mem hnodup hentry]
  · cases get? entry.1 present with
    | none => exact hself entry hentry
    | some p => exact htwice entry hentry p

/-! ## Writing maps -/

/-- Writing is merging in which the later value counts. -/
theorem putAll_eq_mergeBy : putAll present later = mergeBy (fun _ a => a) present later := by
  have hstep : ∀ a : α, combineInto (fun _ a => a) a = fun _ => a := by
    intro a
    funext present
    cases present <;> rfl
  simp only [putAll, mergeBy, put, hstep]

/-- What is written counts, and elsewhere what was there. -/
theorem get?_putAll (hnodup : (keys later).Nodup) (key : String) :
    get? key (putAll present later) = (get? key later).or (get? key present) := by
  rw [putAll_eq_mergeBy, get?_mergeBy hnodup]
  rcases get? key later with _ | a
  · rfl
  · cases get? key present <;> rfl

theorem putAll_assoc (hnodup : (keys first).Nodup) :
    putAll (putAll present first) second = putAll present (putAll first second) := by
  simp only [putAll_eq_mergeBy]
  exact mergeBy_assoc (P := fun _ _ => True) (fun _ _ _ _ _ => trivial) (fun _ _ _ _ _ _ => rfl)
    (fun _ _ => trivial) (fun _ _ => trivial) (fun _ _ => trivial) hnodup

theorem putAll_self (hnodup : (keys present).Nodup) : putAll present present = present := by
  rw [putAll_eq_mergeBy]
  exact mergeBy_self hnodup fun _ _ => rfl

theorem putAll_putAll_self (hnodup : (keys later).Nodup) :
    putAll (putAll present later) later = putAll present later := by
  simp only [putAll_eq_mergeBy]
  exact mergeBy_mergeBy_self hnodup (fun _ _ => rfl) fun _ _ _ => rfl

end Keyed

namespace Selected

variable {present first second later : List (String × Selected)}

theorem mergeEntries_eq_mergeBy :
    mergeEntries present later = Keyed.mergeBy merge present later := by
  induction later generalizing present with
  | nil => rfl
  | cons entry rest ih =>
    obtain ⟨name, selected⟩ := entry
    have hinto : selected.mergeInto = Keyed.combineInto merge selected := by
      funext present
      cases present <;> rfl
    rw [mergeEntries_cons, ih, Keyed.mergeBy_cons, hinto]

/-! ## What meets under one name -/

/-- Under the name of the counts stand counts only, and under other names none, at
every depth. -/
inductive Unmixed : String → Selected → Prop
  | field {key : String} : Unmixed key .field
  | relation {key : String} {select : List (String × Selected)} {arguments : Keyed Json.Value}
      (hkey : key ≠ countName) (hnodup : (Keyed.keys select).Nodup)
      (hselect : ∀ entry ∈ select, Unmixed entry.1 entry.2)
      (harguments : (Keyed.keys arguments).Nodup) :
      Unmixed key (.nested select arguments)
  | count {select : List (String × Selected)} {arguments : Keyed Json.Value}
      (hnodup : (Keyed.keys select).Nodup) (hselect : ∀ entry ∈ select, entry.2.IsCounted)
      (harguments : (Keyed.keys arguments).Nodup) :
      Unmixed countName (.nested select arguments)

/-- A plain field gives way to anything. -/
theorem field_merge (s : Selected) : field.merge s = s := by
  cases s <;> rfl

/-- Of counted relations the last counts. -/
theorem IsCounted.merge_assoc {a b c : Selected} (ha : a.IsCounted) (hb : b.IsCounted)
    (hc : c.IsCounted) : (a.merge b).merge c = a.merge (b.merge c) := by
  rcases hc with rfl | ⟨_, rfl⟩
  · rcases hb with rfl | ⟨_, rfl⟩ <;> rcases ha with rfl | ⟨_, rfl⟩ <;> rfl
  · rfl

theorem Unmixed.merge_field {key : String} {s : Selected} (h : Unmixed key s) :
    s.merge .field = s := by
  cases h <;> rfl

theorem Unmixed.merge {key : String} {b : Selected} (hb : Unmixed key b) :
    ∀ {a}, Unmixed key a → Unmixed key (a.merge b) := by
  induction hb with
  | field =>
    intro a ha
    rw [ha.merge_field]
    exact ha
  | relation hkey hnodup hselect harguments ih =>
    intro a ha
    cases ha with
    | field => exact .relation hkey hnodup hselect harguments
    | relation _ hnodup' hselect' harguments' =>
      exact .relation hkey (nodup_keys_mergeEntries hnodup')
        (forall_mergeEntries (P := Unmixed) hselect' hselect fun entry hentry _ => ih entry hentry)
        (Keyed.nodup_keys_putAll harguments')
    | count => exact absurd rfl hkey
  | count hnodup hselect harguments =>
    intro a ha
    generalize hname : countName = name at ha
    cases ha with
    | field => exact hname ▸ .count hnodup hselect harguments
    | relation hkey => exact absurd hname.symm hkey
    | count hnodup' hselect' harguments' =>
      exact .count (nodup_keys_mergeEntries hnodup')
        (forall_mergeEntries (P := fun _ s => s.IsCounted) hselect' hselect
          fun entry hentry _ hs => hs.merge (hselect entry hentry))
        (Keyed.nodup_keys_putAll harguments')

/-- Nested selections merge associatively if their entries do. -/
theorem nested_merge_assoc {P : String → Selected → Prop}
    {first second third : List (String × Selected)} {args₁ args₂ args₃ : Keyed Json.Value}
    (hclosed : ∀ key a b, P key a → P key b → P key (a.merge b))
    (hassoc : ∀ entry ∈ third, ∀ a b, P entry.1 a → P entry.1 b →
      (a.merge b).merge entry.2 = a.merge (b.merge entry.2))
    (hfirst : ∀ entry ∈ first, P entry.1 entry.2) (hsecond : ∀ entry ∈ second, P entry.1 entry.2)
    (hthird : ∀ entry ∈ third, P entry.1 entry.2) (hnodup : (Keyed.keys second).Nodup)
    (hargs : (Keyed.keys args₂).Nodup) :
    ((nested first args₁).merge (nested second args₂)).merge (nested third args₃) =
      (nested first args₁).merge ((nested second args₂).merge (nested third args₃)) := by
  have hentries : mergeEntries (mergeEntries first second) third =
      mergeEntries first (mergeEntries second third) := by
    simp only [mergeEntries_eq_mergeBy]
    exact Keyed.mergeBy_assoc hclosed hassoc hfirst hsecond hthird hnodup
  show nested _ _ = nested _ _
  rw [hentries, Keyed.putAll_assoc hargs]

/-- **Merging is associative** where only relations meet relations and only counts
meet counts. -/
theorem Unmixed.merge_assoc {key : String} {c : Selected} (hc : Unmixed key c) :
    ∀ {a b}, Unmixed key a → Unmixed key b → (a.merge b).merge c = a.merge (b.merge c) := by
  induction hc with
  | field =>
    intro a b ha hb
    rw [(hb.merge ha).merge_field, hb.merge_field]
  | relation hkey _ hselect _ ih =>
    intro a b ha hb
    cases hb with
    | field => rw [ha.merge_field, field_merge]
    | relation _ hnodup hselect' harguments =>
      cases ha with
      | field => rw [field_merge, field_merge]
      | relation _ _ hselect'' _ =>
        exact nested_merge_assoc (P := Unmixed) (fun _ _ _ ha hb => hb.merge ha)
          (fun entry hentry _ _ => ih entry hentry) hselect'' hselect' hselect hnodup harguments
      | count => exact absurd rfl hkey
    | count => exact absurd rfl hkey
  | count _ hselect _ =>
    intro a b ha hb
    generalize hname : countName = name at ha hb
    cases hb with
    | field => rw [ha.merge_field, field_merge]
    | relation hkey => exact absurd hname.symm hkey
    | count hnodup hselect' harguments =>
      generalize hname' : countName = name at ha
      cases ha with
      | field => rw [field_merge, field_merge]
      | relation hkey => exact absurd hname'.symm hkey
      | count _ hselect'' _ =>
        exact nested_merge_assoc (P := fun _ s => s.IsCounted) (fun _ _ _ ha hb => ha.merge hb)
          (fun entry hentry _ _ ha hb => ha.merge_assoc hb (hselect entry hentry))
          hselect'' hselect' hselect hnodup harguments

/-- Where merging is associative, entries that are merged already are merged in as
they came. -/
theorem mergeEntries_mergeEntries {P : String → Selected → Prop}
    (hclosed : ∀ key a b, P key a → P key b → P key (a.merge b))
    (hassoc : ∀ key a b c, P key a → P key b → P key c →
      (a.merge b).merge c = a.merge (b.merge c))
    (hpresent : ∀ entry ∈ present, P entry.1 entry.2)
    (hlater : ∀ entry ∈ later, P entry.1 entry.2) :
    mergeEntries present (mergeEntries [] later) = mergeEntries present later := by
  have hmerge : Keyed.mergeBy merge (Keyed.mergeBy merge present []) later =
      Keyed.mergeBy merge present (Keyed.mergeBy merge [] later) :=
    Keyed.mergeBy_assoc hclosed
      (fun entry hentry a b ha hb => hassoc entry.1 a b entry.2 ha hb (hlater entry hentry))
      hpresent (List.forall_mem_nil _) hlater List.nodup_nil
  simp only [mergeEntries_eq_mergeBy]
  exact hmerge.symm

/-- Two selections that come under one name, one after the other, come as their
merge. -/
theorem alter_alter_merge {name : String} {a b : Selected}
    (hpresent : ∀ entry ∈ present, Unmixed entry.1 entry.2) (ha : Unmixed name a)
    (hb : Unmixed name b) :
    Keyed.alter name b.mergeInto (Keyed.alter name a.mergeInto present) =
      Keyed.alter name (a.merge b).mergeInto present := by
  rw [Keyed.alter_alter_self]
  refine Keyed.alter_congr ?_
  rcases hget : Keyed.get? name present with _ | s
  · rfl
  · exact hb.merge_assoc (hpresent _ (Keyed.mem_of_get? hget)) ha

/-- What adds nothing after it has been merged in adds nothing to itself. -/
theorem merge_self {s : Selected} (h : ∀ p : Selected, (p.merge s).merge s = p.merge s) :
    s.merge s = s := by
  have hfield := h field
  rwa [field_merge] at hfield

/-- What adds nothing after it has been merged in comes twice as it comes once. -/
theorem alter_alter_mergeInto_self {name : String} {s : Selected}
    (h : ∀ p : Selected, (p.merge s).merge s = p.merge s) :
    Keyed.alter name s.mergeInto (Keyed.alter name s.mergeInto present) =
      Keyed.alter name s.mergeInto present := by
  rw [Keyed.alter_alter_self]
  refine Keyed.alter_congr ?_
  rcases Keyed.get? name present with _ | p
  · exact merge_self h
  · exact h p

/-- What is counted twice is counted once. -/
theorem alter_alter_counted {name : String} {s : Selected} (hs : s.IsCounted) :
    Keyed.alter name s.mergeInto (Keyed.alter name s.mergeInto present) =
      Keyed.alter name s.mergeInto present := by
  refine alter_alter_mergeInto_self fun p => ?_
  rcases hs with rfl | ⟨_, rfl⟩
  · exact merge_merge_field rfl
  · rfl

/-- Merged entries are merged into an empty map as they are. -/
theorem mergeEntries_of_nodup (hnodup : (Keyed.keys later).Nodup) :
    mergeEntries [] later = later := by
  rw [mergeEntries_eq_mergeBy]
  exact Keyed.mergeBy_of_nodup hnodup

/-! ## Plain fields among other entries -/

/-- Under a name that comes again a plain field might as well be missing. -/
theorem get?_mergeEntries_of_field {key : String} {present' : List (String × Selected)}
    (h : Keyed.get? key present' = Keyed.get? key present ∨
      key ∈ Keyed.keys later ∧ Keyed.get? key present' = some field ∧
        Keyed.get? key present = none) :
    Keyed.get? key (mergeEntries present' later) = Keyed.get? key (mergeEntries present later) := by
  induction later generalizing present present' with
  | nil => exact h.resolve_right fun h => nomatch h.1
  | cons entry rest ih =>
    obtain ⟨name, selected⟩ := entry
    rw [mergeEntries_cons, mergeEntries_cons]
    by_cases hname : name = key
    · subst hname
      refine ih (.inl ?_)
      rw [Keyed.get?_alter_self, Keyed.get?_alter_self]
      rcases h with h | ⟨-, hfield, hnone⟩
      · rw [h]
      · rw [hfield, hnone]
        exact congrArg some (field_merge selected)
    · refine ih ?_
      rw [Keyed.get?_alter_of_ne (Ne.symm hname), Keyed.get?_alter_of_ne (Ne.symm hname)]
      refine h.imp_right fun ⟨hkey, h⟩ => ⟨?_, h⟩
      exact (List.mem_cons.1 hkey).resolve_left (Ne.symm hname)

/-- Plain fields are added where there is nothing, and add nothing elsewhere. -/
theorem get?_mergeEntries_fields {key : String}
    (hpresent : ∀ s ∈ Keyed.get? key present, s.merge field = s)
    (hlater : ∀ entry ∈ later, entry.1 = key → entry.2 = field) :
    Keyed.get? key (mergeEntries present later) =
      (Keyed.get? key present).or (if key ∈ Keyed.keys later then some field else none) := by
  induction later generalizing present with
  | nil => simp
  | cons entry rest ih =>
    obtain ⟨name, selected⟩ := entry
    obtain ⟨hselected, hrest⟩ := List.forall_mem_cons.1 hlater
    rw [mergeEntries_cons]
    by_cases hname : name = key
    · subst hname
      obtain rfl : selected = field := hselected rfl
      have hself : Keyed.get? name (Keyed.alter name field.mergeInto present) =
          (Keyed.get? name present).or (some field) := by
        rw [Keyed.get?_alter_self]
        rcases hget : Keyed.get? name present with _ | s
        · rfl
        · exact congrArg some (hpresent s hget)
      have hpresent' : ∀ s ∈ Keyed.get? name (Keyed.alter name field.mergeInto present),
          s.merge field = s := by
        intro s hs
        rw [hself, Option.mem_def, Option.or_eq_some_iff] at hs
        rcases hs with hs | ⟨-, hs⟩
        · exact hpresent s hs
        · cases hs
          rfl
      rw [ih hpresent' hrest, hself]
      rcases Keyed.get? name present with _ | s <;> simp
    · have hother := Keyed.get?_alter_of_ne (Ne.symm hname) selected.mergeInto present
      rw [ih (by rwa [hother]) hrest, hother]
      simp [Ne.symm hname]

/-- What comes once among plain fields is what is selected. -/
theorem get?_mergeEntries_once {key : String} {s : Selected} (hs : s.merge field = s)
    (hfirst : ∀ entry ∈ first, entry.1 = key → entry.2 = field)
    (hsecond : ∀ entry ∈ second, entry.1 = key → entry.2 = field) :
    Keyed.get? key (mergeEntries [] (first ++ (key, s) :: second)) = some s := by
  have hself : Keyed.get? key (Keyed.alter key s.mergeInto (mergeEntries [] first)) = some s := by
    rw [Keyed.get?_alter_self, get?_mergeEntries_fields (by simp) hfirst]
    split
    · exact congrArg some (field_merge s)
    · rfl
  have hpresent : ∀ t ∈ Keyed.get? key (Keyed.alter key s.mergeInto (mergeEntries [] first)),
      t.merge field = t := by
    intro t ht
    obtain rfl := Option.some.inj (hself.symm.trans ht)
    exact hs
  rw [mergeEntries_append, mergeEntries_cons, get?_mergeEntries_fields hpresent hsecond, hself]
  rfl

/-- Of plain fields that come twice, the first time does not matter. -/
theorem get?_mergeEntries_fields_twice {fields : List (String × Selected)} (key : String)
    (hfirst : ∀ entry ∈ first, entry.2.merge field = entry.2)
    (hfields : ∀ entry ∈ fields, entry.2 = field) :
    Keyed.get? key (mergeEntries [] (first ++ fields ++ (second ++ fields))) =
      Keyed.get? key (mergeEntries [] (first ++ (second ++ fields))) := by
  have hmerged : ∀ entry ∈ mergeEntries [] first, entry.2.merge field = entry.2 :=
    merge_field_of_mem_mergeEntries (List.forall_mem_nil _) hfirst
  rw [mergeEntries_append [] (first ++ fields), mergeEntries_append [] first fields,
    mergeEntries_append [] first (second ++ fields)]
  refine get?_mergeEntries_of_field ?_
  rw [get?_mergeEntries_fields (fun s hs => hmerged _ (Keyed.mem_of_get? hs))
    fun entry hentry _ => hfields entry hentry]
  rcases Keyed.get? key (mergeEntries [] first) with _ | s
  · by_cases hkey : key ∈ Keyed.keys fields
    · refine .inr ⟨?_, by simp [hkey], rfl⟩
      rw [Keyed.keys, List.map_append]
      exact List.mem_append_right _ hkey
    · exact .inl (by simp [hkey])
  · exact .inl rfl

/-! ## Selections up to the order of fields -/

/-- Two selections that differ only in the order of fields, at every depth. -/
inductive Same : Selected → Selected → Prop
  | field : Same .field .field
  | counted {arguments : Keyed Json.Value} : Same (.counted arguments) (.counted arguments)
  | group {names : List String} : Same (.group names) (.group names)
  | nested {select select' : List (String × Selected)} {arguments : Keyed Json.Value}
      (hnodup : (Keyed.keys select).Nodup) (hnodup' : (Keyed.keys select').Nodup)
      (hkeys : ∀ key, key ∈ Keyed.keys select ↔ key ∈ Keyed.keys select')
      (hselect : ∀ key s s', Keyed.get? key select = some s → Keyed.get? key select' = some s' →
        Same s s') :
      Same (.nested select arguments) (.nested select' arguments)

/-- Two maps of selected fields that differ only in their order. -/
structure SameEntries (select select' : List (String × Selected)) : Prop where
  nodup : (Keyed.keys select).Nodup
  nodup' : (Keyed.keys select').Nodup
  keys : ∀ key, key ∈ Keyed.keys select ↔ key ∈ Keyed.keys select'
  get? : ∀ key s s', Keyed.get? key select = some s → Keyed.get? key select' = some s' →
    Same s s'

theorem same_nested_iff {select select' : List (String × Selected)}
    {args args' : Keyed Json.Value} :
    Same (.nested select args) (.nested select' args') ↔
      args = args' ∧ SameEntries select select' := by
  constructor
  · intro h
    cases h with
    | nested hnodup hnodup' hkeys hselect => exact ⟨rfl, hnodup, hnodup', hkeys, hselect⟩
  · rintro ⟨rfl, hnodup, hnodup', hkeys, hselect⟩
    exact .nested hnodup hnodup' hkeys hselect

/-- A name has something selected in both maps or in neither. -/
theorem SameEntries.get?_cases {select select' : List (String × Selected)}
    (h : SameEntries select select') (key : String) :
    (Keyed.get? key select = none ∧ Keyed.get? key select' = none) ∨
      ∃ s s', Keyed.get? key select = some s ∧ Keyed.get? key select' = some s' ∧ Same s s' := by
  have hkeys := h.keys key
  rw [← Keyed.isSome_get?, ← Keyed.isSome_get?] at hkeys
  rcases hs : Keyed.get? key select with _ | s <;>
    rcases hs' : Keyed.get? key select' with _ | s' <;> rw [hs, hs'] at hkeys
  · exact .inl ⟨rfl, rfl⟩
  · simp at hkeys
  · simp at hkeys
  · exact .inr ⟨s, s', rfl, rfl, h.get? key s s' hs hs'⟩

/-- Two maps differ only in their order if what stands under each name does. -/
theorem sameEntries_of_get? {select select' : List (String × Selected)}
    (hnodup : (Keyed.keys select).Nodup) (hnodup' : (Keyed.keys select').Nodup)
    (h : ∀ key, (Keyed.get? key select = none ∧ Keyed.get? key select' = none) ∨
      ∃ s s', Keyed.get? key select = some s ∧ Keyed.get? key select' = some s' ∧ Same s s') :
    SameEntries select select' where
  nodup := hnodup
  nodup' := hnodup'
  keys := by
    intro key
    rw [← Keyed.isSome_get?, ← Keyed.isSome_get?]
    rcases h key with ⟨hs, hs'⟩ | ⟨s, s', hs, hs', -⟩ <;> simp [hs, hs']
  get? := by
    intro key s s' hs hs'
    rcases h key with ⟨hnone, -⟩ | ⟨t, t', ht, ht', hsame⟩
    · exact nomatch hs.symm.trans hnone
    · obtain rfl := Option.some.inj (hs.symm.trans ht)
      obtain rfl := Option.some.inj (hs'.symm.trans ht')
      exact hsame

theorem IsCounted.same_refl {s : Selected} (h : s.IsCounted) : Same s s := by
  rcases h with rfl | ⟨_, rfl⟩
  · exact .field
  · exact .counted

theorem Unmixed.same_refl {key : String} {s : Selected} (h : Unmixed key s) : Same s s := by
  induction h with
  | field => exact .field
  | relation _ hnodup _ _ ih =>
    refine .nested hnodup hnodup (fun _ => Iff.rfl) fun key s s' hs hs' => ?_
    obtain rfl := Option.some.inj (hs.symm.trans hs')
    exact ih _ (Keyed.mem_of_get? hs)
  | count hnodup hselect _ =>
    refine .nested hnodup hnodup (fun _ => Iff.rfl) fun key s s' hs hs' => ?_
    obtain rfl := Option.some.inj (hs.symm.trans hs')
    exact (hselect _ (Keyed.mem_of_get? hs)).same_refl

/-- Two maps differ only in their order if they have the same under each name. -/
theorem sameEntries_of_get?_eq {select select' : List (String × Selected)}
    (hnodup : (Keyed.keys select).Nodup) (hnodup' : (Keyed.keys select').Nodup)
    (hget : ∀ key, Keyed.get? key select = Keyed.get? key select')
    (hsame : ∀ entry ∈ select, Same entry.2 entry.2) : SameEntries select select' := by
  refine sameEntries_of_get? hnodup hnodup' fun key => ?_
  rw [← hget key]
  rcases hs : Keyed.get? key select with _ | s
  · exact .inl ⟨rfl, rfl⟩
  · exact .inr ⟨s, s, rfl, rfl, hsame _ (Keyed.mem_of_get? hs)⟩

theorem SameEntries.refl_of_unmixed {select : List (String × Selected)}
    (hnodup : (Keyed.keys select).Nodup) (h : ∀ entry ∈ select, Unmixed entry.1 entry.2) :
    SameEntries select select :=
  sameEntries_of_get?_eq hnodup hnodup (fun _ => rfl) fun entry hentry => (h entry hentry).same_refl

/-- **Merging does not look at the order of fields.** -/
theorem Same.merge {b b' : Selected} (hb : Same b b') :
    ∀ {a a'}, Same a a' → Same (a.merge b) (a'.merge b') := by
  induction hb with
  | field =>
    intro a a' ha
    cases ha with
    | nested hnodup hnodup' hkeys hselect => exact .nested hnodup hnodup' hkeys hselect
    | field | counted | group => exact .field
  | counted =>
    intro a a' ha
    exact .counted
  | group =>
    intro a a' ha
    cases ha <;> exact .group
  | nested hnodup hnodup' hkeys hselect ih =>
    intro a a' ha
    cases ha with
    | nested hnodupa hnodupa' hkeysa hselecta =>
      refine same_nested_iff.2 ⟨rfl, sameEntries_of_get? (nodup_keys_mergeEntries hnodupa)
        (nodup_keys_mergeEntries hnodupa') fun key => ?_⟩
      have hpresent := SameEntries.get?_cases ⟨hnodupa, hnodupa', hkeysa, hselecta⟩ key
      have hlater := SameEntries.get?_cases ⟨hnodup, hnodup', hkeys, hselect⟩ key
      simp only [mergeEntries_eq_mergeBy, Keyed.get?_mergeBy hnodup, Keyed.get?_mergeBy hnodup']
      rcases hlater with ⟨hs, hs'⟩ | ⟨s, s', hs, hs', hsame⟩ <;> rw [hs, hs']
      · exact hpresent
      · rcases hpresent with ⟨hp, hp'⟩ | ⟨p, p', hp, hp', hpsame⟩ <;> rw [hp, hp']
        · exact .inr ⟨s, s', rfl, rfl, hsame⟩
        · exact .inr ⟨_, _, rfl, rfl, ih key s s' hs hs' hpsame⟩
    | field | counted | group => exact .nested hnodup hnodup' hkeys hselect

/-- One more entry on both sides. -/
theorem SameEntries.alter {select select' : List (String × Selected)} {b b' : Selected}
    (h : SameEntries select select') (name : String) (hb : Same b b') :
    SameEntries (Keyed.alter name b.mergeInto select) (Keyed.alter name b'.mergeInto select') := by
  refine sameEntries_of_get? (Keyed.nodup_keys_alter h.nodup) (Keyed.nodup_keys_alter h.nodup')
    fun key => ?_
  by_cases hkey : key = name
  · subst hkey
    rw [Keyed.get?_alter_self, Keyed.get?_alter_self]
    rcases h.get?_cases key with ⟨hs, hs'⟩ | ⟨s, s', hs, hs', hsame⟩ <;> rw [hs, hs']
    · exact .inr ⟨b, b', rfl, rfl, hb⟩
    · exact .inr ⟨_, _, rfl, rfl, hb.merge hsame⟩
  · rw [Keyed.get?_alter_of_ne hkey, Keyed.get?_alter_of_ne hkey]
    exact h.get?_cases key

/-- The same further entries on both sides. -/
theorem SameEntries.mergeEntries {select select' : List (String × Selected)}
    (h : SameEntries select select') (hlater : ∀ entry ∈ later, Unmixed entry.1 entry.2) :
    SameEntries (mergeEntries select later) (mergeEntries select' later) := by
  induction later generalizing select select' with
  | nil => exact h
  | cons entry rest ih =>
    obtain ⟨name, selected⟩ := entry
    obtain ⟨hselected, hrest⟩ := List.forall_mem_cons.1 hlater
    rw [mergeEntries_cons, mergeEntries_cons]
    exact ih (h.alter name hselected.same_refl) hrest

end Selected

/-- Two selections that differ only in the order of fields, at every depth. -/
def Selection.Same (s s' : Selection) : Prop :=
  s.toSelected.Same s'.toSelected

end Schematic
