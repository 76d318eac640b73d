import Schematic.Proofs.Merging

/-!
# Names under a path

A name stands under a path if the names of the path lead through nested
selections to one that has it among its keys (`HasKeyAt`). Merging makes no such
name up (`HasKeyAt.of_mergeEntries`). It may lose one, as a count with arguments
replaces what was selected before it, but not where only plain fields and nested
selections meet (`Passable`).
-/

namespace Schematic.Selected

/-- A name stands under a path of nested selections. -/
def HasKeyAt (name : String) : List String → List (String × Selected) → Prop
  | [], entries => name ∈ Keyed.keys entries
  | step :: path, entries =>
    ∃ select arguments, (step, nested select arguments) ∈ entries ∧ HasKeyAt name path select

/-- The entries on a path are plain fields and nested selections only. -/
def Passable : List String → List (String × Selected) → Prop
  | [], _ => True
  | step :: path, entries => ∀ entry ∈ entries, entry.1 = step →
    entry.2 = field ∨ ∃ select arguments, entry.2 = nested select arguments ∧ Passable path select

variable {name : String} {path : List String} {present later : List (String × Selected)}

theorem not_hasKeyAt_nil : ¬ HasKeyAt name path [] := by
  cases path with
  | nil => exact List.not_mem_nil
  | cons => exact fun ⟨_, _, hmem, _⟩ => nomatch hmem

/-- Where there are no entries no path is blocked. -/
theorem passable_nil : Passable path [] := by
  cases path with
  | nil => trivial
  | cons => exact List.forall_mem_nil _

theorem not_isEmpty_of_hasKeyAt {s : Selection} (h : HasKeyAt name path s.select) :
    ¬ s.isEmpty := by
  intro hempty
  rw [List.isEmpty_iff.1 hempty] at h
  exact not_hasKeyAt_nil h

/-- A selection that is not empty has a key at its top. -/
theorem exists_hasKeyAt_of_not_isEmpty {s : Selection} (h : ¬ s.isEmpty) :
    ∃ name, HasKeyAt name [] s.select := by
  obtain ⟨⟨name, selected⟩, hmem⟩ := List.exists_mem_of_ne_nil _ (mt List.isEmpty_iff.2 h)
  exact ⟨name, List.mem_map.2 ⟨_, hmem, rfl⟩⟩

/-- A name under a path of merged entries stood there before the merge. -/
theorem HasKeyAt.of_mergeEntries (h : HasKeyAt name path (mergeEntries present later)) :
    HasKeyAt name path present ∨ HasKeyAt name path later := by
  induction path generalizing present later with
  | nil => exact mem_keys_mergeEntries.1 h
  | cons step path ih =>
    obtain ⟨select, arguments, hmem, hpath⟩ := h
    -- Carried along the merge: whatever is nested under a name and has the key
    -- got it from one side.
    have horigin : ∀ entry ∈ mergeEntries present later, ∀ select arguments,
        entry.2 = nested select arguments → HasKeyAt name path select →
          HasKeyAt name (entry.1 :: path) present ∨ HasKeyAt name (entry.1 :: path) later := by
      refine forall_mergeEntries (P := fun key s => ∀ select arguments,
        s = nested select arguments → HasKeyAt name path select →
          HasKeyAt name (key :: path) present ∨ HasKeyAt name (key :: path) later) ?_ ?_ ?_
      · exact fun entry hentry select arguments hs hpath =>
          .inl ⟨select, arguments, hs ▸ hentry, hpath⟩
      · exact fun entry hentry select arguments hs hpath =>
          .inr ⟨select, arguments, hs ▸ hentry, hpath⟩
      · intro entry hentry s hs select arguments hmerge hpath
        rcases nested_of_merge hmerge with
          ⟨-, rfl⟩ | ⟨hlater, -⟩ | ⟨select₁, arguments₁, select₂, arguments₂, rfl, hlater, rfl, -⟩
        · exact hs select arguments rfl hpath
        · exact .inr ⟨select, arguments, hlater ▸ hentry, hpath⟩
        · rcases ih hpath with hpath | hpath
          · exact hs select₁ arguments₁ rfl hpath
          · exact .inr ⟨select₂, arguments₂, hlater ▸ hentry, hpath⟩
    exact horigin (step, nested select arguments) hmem select arguments rfl hpath

/-- What is there stays, unless something on the path replaces it. -/
theorem HasKeyAt.mergeEntries_left (hlater : Passable path later)
    (h : HasKeyAt name path present) : HasKeyAt name path (mergeEntries present later) := by
  induction path generalizing present later with
  | nil => exact mem_keys_mergeEntries.2 (.inl h)
  | cons step path ih =>
    induction later generalizing present with
    | nil => exact h
    | cons entry rest ihrest =>
      obtain ⟨key, s⟩ := entry
      obtain ⟨hs, hrest⟩ := List.forall_mem_cons.1 hlater
      rw [mergeEntries_cons]
      refine ihrest hrest ?_
      obtain ⟨select, arguments, hmem, hpath⟩ := h
      rcases Keyed.mem_alter key s.mergeInto hmem with hmem | ⟨rfl, hmem⟩
      · exact ⟨select, arguments, hmem, hpath⟩
      · rcases hs rfl with hs | ⟨select', arguments', hs, hselect'⟩ <;> cases hs
        · exact ⟨select, arguments, hmem, hpath⟩
        · exact ⟨_, _, hmem, ih hselect' hpath⟩

/-- What is merged in gets there, unless something on the path replaces it. -/
theorem HasKeyAt.mergeEntries_right (hlater : Passable path later)
    (h : HasKeyAt name path later) : HasKeyAt name path (mergeEntries present later) := by
  induction path generalizing present later with
  | nil => exact mem_keys_mergeEntries.2 (.inr h)
  | cons step path ih =>
    induction later generalizing present with
    | nil => exact absurd h not_hasKeyAt_nil
    | cons entry rest ihrest =>
      obtain ⟨key, s⟩ := entry
      obtain ⟨hs, hrest⟩ := List.forall_mem_cons.1 hlater
      obtain ⟨select, arguments, hmem, hpath⟩ := h
      rw [mergeEntries_cons]
      rcases List.mem_cons.1 hmem with hmem | hmem
      · cases hmem
        refine HasKeyAt.mergeEntries_left hrest ?_
        rcases Keyed.mem_alter_self step (nested select arguments).mergeInto present with
          hself | ⟨s, -, hself⟩
        · exact ⟨select, arguments, hself, hpath⟩
        · cases s with
          | nested select' arguments' =>
            rcases hs rfl with hs | ⟨_, _, hs, hselect⟩ <;> cases hs
            exact ⟨_, _, hself, ih hselect hpath⟩
          | field => exact ⟨select, arguments, hself, hpath⟩
          | counted _ => exact ⟨select, arguments, hself, hpath⟩
          | group _ => exact ⟨select, arguments, hself, hpath⟩
      · exact ihrest hrest ⟨select, arguments, hmem, hpath⟩

/-- Merging leaves a path passable. -/
theorem Passable.mergeEntries (hpresent : Passable path present) (hlater : Passable path later) :
    Passable path (mergeEntries present later) := by
  induction path generalizing present later with
  | nil => trivial
  | cons step path ih =>
    refine forall_mergeEntries (P := fun key s => key = step → s = field ∨
      ∃ select arguments, s = nested select arguments ∧ Passable path select)
      hpresent hlater fun entry hentry s hs hkey => ?_
    rcases hlater entry hentry hkey with hentry | ⟨select, arguments, hentry, hselect⟩
    · rw [hentry, merge_field]
      split
      · exact hs hkey
      · exact .inl rfl
    · rw [hentry]
      rcases hs hkey with rfl | ⟨select', arguments', rfl, hselect'⟩
      · exact .inr ⟨select, arguments, rfl, hselect⟩
      · exact .inr ⟨_, _, rfl, ih hselect' hselect⟩

end Schematic.Selected
