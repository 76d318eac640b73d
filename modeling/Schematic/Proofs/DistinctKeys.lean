import Schematic.Json.Written
import Schematic.Proofs.Merging

/-!
# Values with distinct keys

An object is a map: no key has two entries. This holds of every value that is read off a
text (`Json.Written.distinctKeys_of_value?`), as of a repeated key only the last entry
stays, and on such values equality is reflexive (`Json.Value.same_self`).
-/

namespace Schematic.Json

namespace Value

/-- No object in the value has two entries under one key. -/
inductive DistinctKeys : Value → Prop
  | null : DistinctKeys .null
  | bool (b : Bool) : DistinctKeys (.bool b)
  | number (n : Number) : DistinctKeys (.number n)
  | string (s : String) : DistinctKeys (.string s)
  | array {items : List Value} (hitems : ∀ v ∈ items, DistinctKeys v) : DistinctKeys (.array items)
  | object {entries : List (String × Value)} (hkeys : (Keyed.keys entries).Nodup)
      (hentries : ∀ e ∈ entries, DistinctKeys e.2) : DistinctKeys (.object entries)

/-- Objects agree if each entry of the one has an equal entry in the other. -/
theorem sameEntries_of_forall {entries more : List (String × Value)}
    (h : ∀ e ∈ entries, ∃ v, Keyed.get? e.1 more = some v ∧ e.2.same v) :
    sameEntries entries more := by
  induction entries with
  | nil => rfl
  | cons e rest ih =>
    obtain ⟨key, a⟩ := e
    obtain ⟨⟨v, hv, hsame⟩, hrest⟩ := List.forall_mem_cons.1 h
    rw [sameEntries, hv, Bool.and_eq_true]
    exact ⟨hsame, ih hrest⟩

/-- Of objects that agree, each entry of the one has an equal entry in the other. -/
theorem exists_of_sameEntries {entries more : List (String × Value)}
    (h : sameEntries entries more) :
    ∀ e ∈ entries, ∃ v, Keyed.get? e.1 more = some v ∧ e.2.same v := by
  induction entries with
  | nil => exact List.forall_mem_nil _
  | cons e rest ih =>
    obtain ⟨key, a⟩ := e
    rw [sameEntries, Bool.and_eq_true] at h
    obtain ⟨hhead, hrest⟩ := h
    refine List.forall_mem_cons.2 ⟨?_, ih hrest⟩
    split at hhead
    · exact ⟨_, ‹_›, hhead⟩
    · cases hhead

theorem sameItems_self {items : List Value} (h : ∀ v ∈ items, v.same v) :
    sameItems items items := by
  induction items with
  | nil => rfl
  | cons v rest ih =>
    obtain ⟨hv, hrest⟩ := List.forall_mem_cons.1 h
    rw [sameItems, Bool.and_eq_true]
    exact ⟨hv, ih hrest⟩

/-- Every value with distinct keys equals itself. -/
theorem same_self {v : Value} (h : v.DistinctKeys) : v.same v := by
  induction h with
  | null => rfl
  | bool b => exact beq_self_eq_true b
  | number n => exact n.same_refl
  | string s => exact beq_self_eq_true s
  | array _ ih => exact sameItems_self ih
  | object hkeys _ ih =>
    rw [same, beq_self_eq_true, Bool.true_and]
    -- With distinct keys the entry that a key finds is the one that asks for it.
    exact sameEntries_of_forall fun e he => ⟨e.2, Keyed.get?_of_mem hkeys he, ih e he⟩

/-- The entries of an object with distinct keys are values with distinct keys. -/
theorem DistinctKeys.of_object {entries : List (String × Value)}
    (h : (Value.object entries).DistinctKeys) :
    (Keyed.keys entries).Nodup ∧ ∀ e ∈ entries, e.2.DistinctKeys := by
  cases h with
  | object hkeys hentries => exact ⟨hkeys, hentries⟩

/-- A member of an object with distinct keys is a value with distinct keys. -/
theorem DistinctKeys.member? {v a : Value} {key : String} (h : v.DistinctKeys)
    (hmember : v.member? key = some a) : a.DistinctKeys := by
  cases h with
  | object _ hentries => exact hentries _ (Keyed.mem_of_get? hmember)
  | null | bool | number | string | array => cases hmember

end Value

namespace Written

mutual
/-- What is read off a text has distinct keys. -/
theorem distinctKeys_of_value? : ∀ (w : Written) {depth : Nat} {v : Value},
    value? depth w = some v → v.DistinctKeys
  | .null, _, _, h => by
    cases h
    exact .null
  | .bool b, _, _, h => by
    cases h
    exact .bool b
  | .number _, _, _, h => by
    obtain ⟨n, -, rfl⟩ := Option.map_eq_some_iff.1 h
    exact .number n
  | .string _, _, _, h => by
    obtain ⟨s, -, rfl⟩ := Option.map_eq_some_iff.1 h
    exact .string s
  | .array items, depth, _, h => by
    cases depth with
    | zero => cases h
    | succ depth =>
      obtain ⟨values, hvalues, rfl⟩ := Option.map_eq_some_iff.1 h
      exact .array (distinctKeys_of_values? items hvalues)
  | .object entries, depth, _, h => by
    cases depth with
    | zero => cases h
    | succ depth =>
      obtain ⟨pairs, hpairs, rfl⟩ := Option.map_eq_some_iff.1 h
      have hentries : ∀ e ∈ Keyed.ofPairs pairs, e.2.DistinctKeys :=
        Keyed.forall_putAll (P := fun _ => Value.DistinctKeys) (List.forall_mem_nil _)
          (distinctKeys_of_entries? entries hpairs)
      exact .object (Keyed.nodup_keys_ofPairs pairs) hentries

/-- Item by item, every value of an array that is read has distinct keys. -/
theorem distinctKeys_of_values? : ∀ (items : List Written) {depth : Nat} {values : List Value},
    values? depth items = some values → ∀ v ∈ values, v.DistinctKeys
  | [], _, _, h => by
    cases h
    exact List.forall_mem_nil _
  | item :: rest, depth, values, h => by
    rw [values?] at h
    split at h
    case h_1 v vs hv hvs =>
      cases h
      exact List.forall_mem_cons.2
        ⟨distinctKeys_of_value? item hv, distinctKeys_of_values? rest hvs⟩
    case h_2 => cases h

/-- Entry by entry, every value of an object that is read has distinct keys. -/
theorem distinctKeys_of_entries? : ∀ (entries : List (Option String × Written)) {depth : Nat}
    {pairs : List (String × Value)}, entries? depth entries = some pairs →
      ∀ e ∈ pairs, e.2.DistinctKeys
  | [], _, _, h => by
    cases h
    exact List.forall_mem_nil _
  | (key, item) :: rest, depth, pairs, h => by
    unfold entries? at h
    split at h
    case h_1 key v vs hv hvs =>
      cases h
      exact List.forall_mem_cons.2
        ⟨distinctKeys_of_value? item hv, distinctKeys_of_entries? rest hvs⟩
    case h_2 => cases h
end

end Written

theorem Value.distinctKeys_of_ofText? {text : String} {v : Value} (h : ofText? text = some v) :
    v.DistinctKeys := by
  obtain ⟨w, -, hw⟩ := Option.bind_eq_some_iff.1 h
  exact Written.distinctKeys_of_value? w hw

end Schematic.Json
