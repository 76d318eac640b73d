import Mathlib.Data.List.Perm.Subperm
import Schematic.Proofs.RecordKeys
import Schematic.Proofs.Unchanged

/-!
# Rows below a connected record

A table that picks a related record shows the one that is connected now first, and the rows
below it in their order. The rows are told apart from it by their ids, but the two sides are
not read alike: where the record has no id it counts as one whose id is null, while a row
without an id has none that could be compared (`Table.hasId_iff`). So with an id the record
leads the rows as it should (`Table.Leads`), and without one rows like it stay below it, and
rows whose id is null go (`Table.connectedRows_leads_iff`).
-/

namespace Schematic

open Json (Value)
open Mutation (SameAt)

namespace Blog

/-- A user that has no id yet. -/
def newUser : Record :=
  [("firstName", .string "Bob")]

/-- A user with an id. -/
def savedUser : Record :=
  [("id", .int 1), ("firstName", .string "Ann")]

end Blog

/-! ## Equal records -/

section Equal

variable {a b : Record} {key : String}

/-- Equal records have the same keys. -/
theorem mem_keys_iff_of_same (ha : (Keyed.keys a).Nodup)
    (h : (Value.object a).same (.object b)) : key ∈ Keyed.keys a ↔ key ∈ Keyed.keys b := by
  rw [Value.same, Bool.and_eq_true, beq_iff_eq] at h
  obtain ⟨hlength, hentries⟩ := h
  have hsubset : Keyed.keys a ⊆ Keyed.keys b := by
    intro k hk
    obtain ⟨e, he, rfl⟩ := List.mem_map.1 hk
    obtain ⟨v, hv, -⟩ := Value.exists_of_sameEntries hentries e he
    exact (Keyed.isSome_get? _ _).1 (Option.isSome_of_eq_some hv)
  -- As many keys as in the other record, and each of them there: so there are no others.
  have hperm : (Keyed.keys a).Perm (Keyed.keys b) := by
    apply (List.subperm_of_subset ha hsubset).perm_of_length_le
    simp [Keyed.keys, hlength]
  exact hperm.mem_iff

/-- Equal records have equal entries under every key, or both have none. -/
theorem sameAt_of_same (ha : (Keyed.keys a).Nodup) (h : (Value.object a).same (.object b)) :
    SameAt key (.object a) (.object b) := by
  have hkeys : key ∈ Keyed.keys a ↔ key ∈ Keyed.keys b := mem_keys_iff_of_same ha h
  rw [Value.same, Bool.and_eq_true] at h
  rw [SameAt, Value.member?, Value.member?]
  cases hget : Keyed.get? key a with
  | none =>
    have hnone : Keyed.get? key b = none := by
      rwa [Keyed.get?_eq_none_iff, ← hkeys, ← Keyed.get?_eq_none_iff]
    rw [hnone]
    exact .none
  | some v =>
    obtain ⟨w, hw, hsame⟩ := Value.exists_of_sameEntries h.2 _ (Keyed.mem_of_get? hget)
    rw [hw]
    exact .some hsame

end Equal

namespace Table

variable {m : Model} {idName : String} {record row : Record} {rows : List Record}

/-! ## Rows with the id of the record -/

/-- If the record has an id, the rows that have it are those with an equal id. -/
theorem hasId_iff_sameAt (hid : idName ∈ Keyed.keys record) :
    hasId idName (Mutation.entry record idName) row ↔
      SameAt idName (.object row) (.object record) := by
  obtain ⟨id, hget⟩ := Option.isSome_iff_exists.1 ((Keyed.isSome_get? _ _).2 hid)
  rw [hasId, Mutation.entry, SameAt, Value.member?, Value.member?, hget]
  cases Keyed.get? idName row <;> simp

/-- If the record has none, they are those whose id is null. -/
theorem hasId_iff_null (hid : idName ∉ Keyed.keys record) :
    hasId idName (Mutation.entry record idName) row ↔ Keyed.get? idName row = some .null := by
  rw [hasId, Mutation.entry, (Keyed.get?_eq_none_iff _ _).2 hid, Option.getD_none]
  cases Keyed.get? idName row with
  | none => simp
  | some v => simp [Value.same_null, Value.isNull_iff]

/-- The id of a record that has none is that of the rows that have none either. -/
theorem sameAt_iff_not_mem (hid : idName ∉ Keyed.keys record) :
    SameAt idName (.object row) (.object record) ↔ idName ∉ Keyed.keys row := by
  rw [← Keyed.get?_eq_none_iff, SameAt, Value.member?, Value.member?,
    (Keyed.get?_eq_none_iff _ _).2 hid]
  cases Keyed.get? idName row <;> simp

/-! ## The rows that stay -/

/-- The rows below the record. -/
def rowsBelow (idName : String) (record : Record) (rows : List Record) : List Record :=
  rows.filter fun row => !hasId idName (Mutation.entry record idName) row

theorem connectedRows_eq (hm : m.idName = some idName) (hne : record ≠ []) :
    connectedRows m (some record) rows = record :: rowsBelow idName record rows :=
  goesBy_iff.2 hm record rows hne

theorem mem_rowsBelow_iff :
    row ∈ rowsBelow idName record rows ↔
      row ∈ rows ∧ ¬ hasId idName (Mutation.entry record idName) row := by
  simp [rowsBelow]

theorem rowsBelow_rowsBelow :
    rowsBelow idName record (rowsBelow idName record rows) = rowsBelow idName record rows := by
  simp [rowsBelow]

/-- A record is told apart from itself unless it has an id. -/
theorem hasId_self_iff (hrecord : (Value.object record).DistinctKeys) :
    hasId idName (Mutation.entry record idName) record ↔ idName ∈ Keyed.keys record := by
  by_cases hid : idName ∈ Keyed.keys record
  · rw [hasId_iff_sameAt hid]
    exact iff_of_true (.self hrecord idName) hid
  · rw [hasId_iff_null hid, (Keyed.get?_eq_none_iff _ _).2 hid]
    simp [hid]

/-- Laid below the record once more, the rows stay what they are just when it has an id. -/
theorem connectedRows_connectedRows_iff (hm : m.idName = some idName) (hne : record ≠ [])
    (hrecord : (Value.object record).DistinctKeys) :
    connectedRows m (some record) (connectedRows m (some record) rows) =
        connectedRows m (some record) rows ↔
      idName ∈ Keyed.keys record := by
  rw [connectedRows_eq hm hne, connectedRows_eq hm hne, ← hasId_self_iff hrecord,
    List.cons_eq_cons, rowsBelow, List.filter_cons, ← rowsBelow, rowsBelow_rowsBelow]
  cases hasId idName (Mutation.entry record idName) record <;> simp

/-! ## Records that lead -/

/-- The rows whose ids are not that of the record. -/
def rowsApart (idName : String) (record : Record) (rows : List Record) : List Record :=
  rows.filter fun row => ¬ SameAt idName (.object row) (.object record)

/-- A record leads the rows of a table: it comes first, the rows below it stay in their order,
those with another id are all there, and neither the record nor its id is there again. -/
structure Leads (idName : String) (record : Record) (rows result : List Record) : Prop where
  first : result.head? = some record
  order : result.tail.Sublist rows
  kept : (rowsApart idName record rows).Sublist result.tail
  alone : ∀ row ∈ result.tail, ¬ SameAt idName (.object row) (.object record) ∧
    (Value.object row).same (.object record) = false

theorem mem_rowsApart_iff :
    row ∈ rowsApart idName record rows ↔
      row ∈ rows ∧ ¬ SameAt idName (.object row) (.object record) := by
  simp [rowsApart]

theorem entry_isNull_iff :
    (Mutation.entry row idName).isNull ↔
      idName ∉ Keyed.keys row ∨ Keyed.get? idName row = some .null := by
  rw [Mutation.entry, ← Keyed.get?_eq_none_iff, Value.isNull_iff]
  cases Keyed.get? idName row <;> simp

section Leading

variable (hrows : ∀ row ∈ rows, (Value.object row).DistinctKeys)
include hrows

/-- If all rows below the record have other ids, the record is not there again either. -/
theorem leads_of_rowsBelow
    (hkept : (rowsApart idName record rows).Sublist (rowsBelow idName record rows))
    (halone : ∀ row ∈ rowsBelow idName record rows,
      ¬ SameAt idName (.object row) (.object record)) :
    Leads idName record rows (record :: rowsBelow idName record rows) where
  first := rfl
  order := List.filter_sublist
  kept := hkept
  alone := by
    intro row hrow
    have hkeys := (hrows row (mem_rowsBelow_iff.1 hrow).1).of_object.1
    exact ⟨halone row hrow, Bool.eq_false_iff.2 fun hsame =>
      halone row hrow (sameAt_of_same hkeys hsame)⟩

/-- A record with an id leads the rows. -/
theorem leads_of_mem_keys (hid : idName ∈ Keyed.keys record) :
    Leads idName record rows (record :: rowsBelow idName record rows) := by
  have hbelow : rowsBelow idName record rows = rowsApart idName record rows := by
    apply List.filter_congr
    intro row _
    simp [← hasId_iff_sameAt hid]
  apply leads_of_rowsBelow hrows
  · rw [hbelow]
  · intro row hrow
    rw [hbelow, mem_rowsApart_iff] at hrow
    exact hrow.2

/-- So does one without an id if all rows have ids that are not null: they all stay. -/
theorem leads_of_isNull_eq_false (hid : idName ∉ Keyed.keys record)
    (hset : ∀ row ∈ rows, (Mutation.entry row idName).isNull = false) :
    Leads idName record rows (record :: rowsBelow idName record rows) := by
  have hids : ∀ row ∈ rows, idName ∈ Keyed.keys row ∧ Keyed.get? idName row ≠ some .null := by
    intro row hrow
    have hnull := hset row hrow
    rwa [Bool.eq_false_iff, ne_eq, entry_isNull_iff, not_or, not_not] at hnull
  have hbelow : rowsBelow idName record rows = rows := by
    rw [rowsBelow, List.filter_eq_self]
    intro row hrow
    have hother : ¬ hasId idName (Mutation.entry record idName) row := by
      rw [hasId_iff_null hid]
      exact (hids row hrow).2
    simp [hother]
  apply leads_of_rowsBelow hrows
  · rw [hbelow]
    exact List.filter_sublist
  · intro row hrow
    rw [sameAt_iff_not_mem hid, not_not]
    exact (hids row (mem_rowsBelow_iff.1 hrow).1).1

omit hrows in
/-- A record without an id does not lead rows whose ids are missing or null: the former stay
though their ids are the same, and the latter go though they are not. -/
theorem isNull_eq_false_of_leads (hid : idName ∉ Keyed.keys record)
    (hleads : Leads idName record rows (record :: rowsBelow idName record rows)) :
    ∀ row ∈ rows, (Mutation.entry row idName).isNull = false := by
  intro row hrow
  rw [Bool.eq_false_iff, ne_eq, entry_isNull_iff]
  rintro (hmissing | hnull)
  · have hbelow : row ∈ rowsBelow idName record rows := by
      rw [mem_rowsBelow_iff, hasId_iff_null hid, (Keyed.get?_eq_none_iff _ _).2 hmissing]
      exact ⟨hrow, nofun⟩
    exact (hleads.alone row hbelow).1 ((sameAt_iff_not_mem hid).2 hmissing)
  · have hapart : row ∈ rowsApart idName record rows := by
      rw [mem_rowsApart_iff, sameAt_iff_not_mem hid, ← Keyed.get?_eq_none_iff, hnull]
      exact ⟨hrow, nofun⟩
    have hbelow : row ∈ rowsBelow idName record rows := hleads.kept.subset hapart
    exact (mem_rowsBelow_iff.1 hbelow).2 ((hasId_iff_null hid).2 hnull)

omit hrows in
/-- A row that is equal to a record without an id stays below it. -/
theorem mem_rowsBelow_of_same (hid : idName ∉ Keyed.keys record) (hrow : row ∈ rows)
    (hkeys : (Keyed.keys row).Nodup) (hsame : (Value.object row).same (.object record)) :
    row ∈ rowsBelow idName record rows := by
  have hmissing : idName ∉ Keyed.keys row := by
    rwa [mem_keys_iff_of_same hkeys hsame]
  rw [mem_rowsBelow_iff, hasId_iff_null hid, (Keyed.get?_eq_none_iff _ _).2 hmissing]
  exact ⟨hrow, nofun⟩

end Leading

/-- **The connected record leads the rows.** It is always the first, and the rows below it stay
in their order. Those with another id are all there, and it is not repeated among them, just
when it has an id or all rows have one that is not null; and just when it has an id nothing
changes if it is put first once more. Without an id, rows that are equal to it stay below. -/
theorem connectedRows_leads_iff (hm : m.idName = some idName) (hne : record ≠ [])
    (hrecord : (Value.object record).DistinctKeys)
    (hrows : ∀ row ∈ rows, (Value.object row).DistinctKeys) :
    let result := connectedRows m (some record) rows
    (result.head? = some record ∧ result.tail.Sublist rows) ∧
      (Leads idName record rows result ↔ idName ∈ Keyed.keys record ∨
        ∀ row ∈ rows, (Mutation.entry row idName).isNull = false) ∧
      (connectedRows m (some record) result = result ↔ idName ∈ Keyed.keys record) ∧
      (idName ∉ Keyed.keys record → ∀ row ∈ rows,
        (Value.object row).same (.object record) → row ∈ result.tail) := by
  intro result
  have hresult : result = record :: rowsBelow idName record rows := connectedRows_eq hm hne
  refine ⟨?_, ?_, connectedRows_connectedRows_iff hm hne hrecord, ?_⟩
  · rw [hresult]
    exact ⟨rfl, List.filter_sublist⟩
  · rw [hresult]
    by_cases hid : idName ∈ Keyed.keys record
    · exact iff_of_true (leads_of_mem_keys hrows hid) (.inl hid)
    · rw [or_iff_right hid]
      exact ⟨isNull_eq_false_of_leads hid, leads_of_isNull_eq_false hrows hid⟩
  · intro hid row hrow hsame
    rw [hresult]
    exact mem_rowsBelow_of_same hid hrow (hrows row hrow).of_object.1 hsame

/-- A saved user leads the rows. A new one is first, too, but it is also left in its place, and
there is one more each time. -/
theorem connectedRows_leads_iff_user :
    Leads "id" Blog.savedUser [Blog.newUser, Blog.savedUser]
        (connectedRows Blog.user (some Blog.savedUser) [Blog.newUser, Blog.savedUser]) ∧
      connectedRows Blog.user (some Blog.newUser) [Blog.newUser, Blog.savedUser] =
        [Blog.newUser, Blog.newUser, Blog.savedUser] ∧
      ¬ Leads "id" Blog.newUser [Blog.newUser, Blog.savedUser]
        [Blog.newUser, Blog.newUser, Blog.savedUser] ∧
      connectedRows Blog.user (some Blog.newUser) [Blog.newUser, Blog.newUser, Blog.savedUser] ≠
        [Blog.newUser, Blog.newUser, Blog.savedUser] := by
  have hnew : (Value.object Blog.newUser).DistinctKeys :=
    .object (by decide) (List.forall_mem_singleton.2 (.string _))
  have hsaved : (Value.object Blog.savedUser).DistinctKeys :=
    .object (by decide) (List.forall_mem_cons.2
      ⟨.number _, List.forall_mem_singleton.2 (.string _)⟩)
  have hrows : ∀ row ∈ [Blog.newUser, Blog.savedUser], (Value.object row).DistinctKeys :=
    List.forall_mem_cons.2 ⟨hnew, List.forall_mem_singleton.2 hsaved⟩
  have hid : "id" ∈ Keyed.keys Blog.savedUser := by decide
  have hnone : "id" ∉ Keyed.keys Blog.newUser := by decide
  have hkey : Blog.user.idName = some "id" := rfl
  obtain ⟨-, hleads, -, -⟩ :=
    connectedRows_leads_iff hkey (List.cons_ne_nil _ _) hsaved hrows
  obtain ⟨-, hleads', hagain, -⟩ :=
    connectedRows_leads_iff hkey (List.cons_ne_nil _ _) hnew hrows
  refine ⟨hleads.2 (.inl hid), rfl, mt hleads'.1 ?_, mt hagain.1 hnone⟩
  rintro (hid' | hset)
  · exact hnone hid'
  · exact absurd (hset _ List.mem_cons_self) (by decide)

end Table

end Schematic
