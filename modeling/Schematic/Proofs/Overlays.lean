import Schematic.Proofs.DistinctKeys
import Schematic.Proofs.MergeLaws

/-!
# Values laid over others

`Json.Value.merge` goes down both values as long as it meets objects on both sides, and
below the last of these the later value stands as it is. So at a path that both values have
there is the merge of what they have there (`Json.Value.valueAt?_merge`), at one that only
the later value has there is what it has (`Json.Value.valueAt?_merge_of_none`), and where it
has no such key the earlier value stays.

`Json.Value.Overlays` says so path by path, with the order of the keys; it holds of every
merge, and a second merge of the same value changes nothing
(`Json.Value.overlays_merge`). The later value is to have distinct keys, as an object is a
map.
-/

namespace Schematic.Json.Value

/-! ## Paths -/

/-- Whether a value is an object. -/
def isObject : Value → Bool
  | object _ => true
  | _ => false

/-- What stands in a value under a path of keys. -/
def valueAt? : List String → Value → Option Value
  | [], v => some v
  | key :: path, v => (v.member? key).bind (valueAt? path)

theorem valueAt?_append (path rest : List String) (v : Value) :
    v.valueAt? (path ++ rest) = (v.valueAt? path).bind (valueAt? rest) := by
  induction path generalizing v with
  | nil => rfl
  | cons key path ih =>
    rw [List.cons_append, valueAt?, valueAt?]
    cases v.member? key with
    | none => rfl
    | some a => exact ih a

/-- Only objects have something below them. -/
theorem valueAt?_cons_eq_some_iff {key : String} {path : List String} {v a : Value} :
    v.valueAt? (key :: path) = some a ↔
      ∃ entries member, v = object entries ∧ Keyed.get? key entries = some member ∧
        member.valueAt? path = some a := by
  rw [valueAt?, Option.bind_eq_some_iff]
  constructor
  · rintro ⟨member, hmember, ha⟩
    cases v with
    | object entries => exact ⟨entries, member, rfl, hmember, ha⟩
    | _ => cases hmember
  · rintro ⟨entries, member, rfl, hmember, ha⟩
    exact ⟨member, hmember, ha⟩

theorem DistinctKeys.valueAt? {path : List String} {v a : Value} (h : v.DistinctKeys)
    (ha : v.valueAt? path = some a) : a.DistinctKeys := by
  induction path generalizing v with
  | nil =>
    cases ha
    exact h
  | cons key path ih =>
    obtain ⟨member, hmember, ha⟩ := Option.bind_eq_some_iff.1 ha
    exact ih (h.member? hmember) ha

/-! ## One step of a merge -/

theorem mergeEntries_eq_mergeBy (present later : List (String × Value)) :
    mergeEntries present later = Keyed.mergeBy merge present later := by
  induction later generalizing present with
  | nil => rfl
  | cons entry rest ih =>
    obtain ⟨key, v⟩ := entry
    rw [mergeEntries, ih, Keyed.mergeBy_cons]
    congr 2
    funext present
    cases present <;> rfl

theorem merge_object (present later : List (String × Value)) :
    (object present).merge (object later) = object (Keyed.mergeBy merge present later) := by
  rw [merge, mergeEntries_eq_mergeBy]

/-- Unless both values are objects the later one stands. -/
theorem merge_eq_right {target source : Value}
    (h : target.isObject = false ∨ source.isObject = false) : target.merge source = source := by
  cases source with
  | object later =>
    cases target with
    | object present => simp [isObject] at h
    | _ => rfl
  | _ => rfl

variable {target source : Value}

/-- A second merge of the same value changes nothing. -/
theorem merge_merge_self (h : source.DistinctKeys) :
    ∀ target : Value, (target.merge source).merge source = target.merge source := by
  induction h with
  | @object later hkeys _ ih =>
    have hself : ∀ entry ∈ later, entry.2.merge entry.2 = entry.2 := by
      intro entry hentry
      have hnull : null.merge entry.2 = entry.2 := merge_eq_right (.inl rfl)
      have htwice := ih entry hentry null
      rwa [hnull] at htwice
    have htwice : (object later).merge (object later) = object later := by
      rw [merge_object, Keyed.mergeBy_self hkeys hself]
    intro target
    cases target with
    | object present =>
      rw [merge_object, merge_object, Keyed.mergeBy_mergeBy_self hkeys hself ih]
    | _ =>
      -- What is no object is replaced, and then the object meets itself.
      exact htwice
  | _ =>
    intro target
    exact merge_eq_right (.inr rfl)

/-! ## Merges along a path -/

/-- What two values have at a path is merged there. -/
theorem valueAt?_merge (h : source.DistinctKeys) {path : List String} {a b : Value}
    (htarget : target.valueAt? path = some a) (hsource : source.valueAt? path = some b) :
    (target.merge source).valueAt? path = some (a.merge b) := by
  induction path generalizing target source with
  | nil =>
    cases htarget
    cases hsource
    rfl
  | cons key path ih =>
    obtain ⟨present, p, rfl, hp, ha⟩ := valueAt?_cons_eq_some_iff.1 htarget
    obtain ⟨later, s, rfl, hs, hb⟩ := valueAt?_cons_eq_some_iff.1 hsource
    obtain ⟨hkeys, hentries⟩ := h.of_object
    rw [merge_object, valueAt?_cons_eq_some_iff]
    refine ⟨_, p.merge s, rfl, ?_, ih (hentries _ (Keyed.mem_of_get? hs)) ha hb⟩
    rw [Keyed.get?_mergeBy hkeys, hs, hp]
    rfl

/-- What only the later value has at a path is there after the merge. -/
theorem valueAt?_merge_of_none (h : source.DistinctKeys) {path : List String} {b : Value}
    (htarget : target.valueAt? path = none) (hsource : source.valueAt? path = some b) :
    (target.merge source).valueAt? path = some b := by
  induction path generalizing target source with
  | nil => cases htarget
  | cons key path ih =>
    obtain ⟨later, s, rfl, hs, hb⟩ := valueAt?_cons_eq_some_iff.1 hsource
    cases target with
    | object present =>
      obtain ⟨hkeys, hentries⟩ := h.of_object
      rw [merge_object, valueAt?_cons_eq_some_iff]
      cases hp : Keyed.get? key present with
      | none =>
        refine ⟨_, s, rfl, ?_, hb⟩
        rw [Keyed.get?_mergeBy hkeys, hs, hp]
        rfl
      | some p =>
        rw [valueAt?, member?, hp] at htarget
        refine ⟨_, p.merge s, rfl, ?_, ih (hentries _ (Keyed.mem_of_get? hs)) htarget hb⟩
        rw [Keyed.get?_mergeBy hkeys, hs, hp]
        rfl
    | _ =>
      rw [merge_eq_right (.inl rfl)]
      exact hsource

/-! ## Whole merges -/

/-- The result is what comes of laying the source over the target. -/
structure Overlays (target source result : Value) : Prop where
  /-- What is no object in the source stands in the result. -/
  plain : ∀ path v, source.valueAt? path = some v → v.isObject = false →
    result.valueAt? path = some v
  /-- What meets no object stands as well. -/
  replacing : ∀ path v, source.valueAt? path = some v →
    (∀ entries, target.valueAt? path ≠ some (object entries)) → result.valueAt? path = some v
  /-- Where two objects meet, the target stays under each key that the source does not have. -/
  kept : ∀ path present later key rest, target.valueAt? path = some (object present) →
    source.valueAt? path = some (object later) → key ∉ Keyed.keys later →
      result.valueAt? (path ++ key :: rest) = target.valueAt? (path ++ key :: rest)
  /-- Where two objects meet, the keys of the target are followed by the new ones. -/
  keys : ∀ path present later, target.valueAt? path = some (object present) →
    source.valueAt? path = some (object later) →
      ∃ entries, result.valueAt? path = some (object entries) ∧
        Keyed.keys entries =
          Keyed.keys present ++ (Keyed.keys later).filter (· ∉ Keyed.keys present)

/-- **Merging lays one value over another.** At every path of keys the later value counts,
except that objects are put together: where two of them meet, the keys of the earlier one
stay in order, with what they had if the later one does not have them, and the new keys
follow in the order of the later one. Merged a second time, the later value changes
nothing. -/
theorem overlays_merge (target : Value) (h : source.DistinctKeys) :
    Overlays target source (target.merge source) ∧
      (target.merge source).merge source = target.merge source := by
  refine ⟨⟨?plain, ?replacing, ?kept, ?keys⟩, merge_merge_self h target⟩
  case plain =>
    intro path v hsource hplain
    cases htarget : target.valueAt? path with
    | none => exact valueAt?_merge_of_none h htarget hsource
    | some a => rw [valueAt?_merge h htarget hsource, merge_eq_right (.inr hplain)]
  case replacing =>
    intro path v hsource hmeets
    cases htarget : target.valueAt? path with
    | none => exact valueAt?_merge_of_none h htarget hsource
    | some a =>
      have hplain : a.isObject = false := by
        cases a with
        | object entries => exact absurd htarget (hmeets entries)
        | _ => rfl
      rw [valueAt?_merge h htarget hsource, merge_eq_right (.inl hplain)]
  case kept =>
    intro path present later key rest htarget hsource hkey
    have hmerge := valueAt?_merge h htarget hsource
    obtain ⟨hkeys, -⟩ := (h.valueAt? hsource).of_object
    rw [merge_object] at hmerge
    rw [valueAt?_append, valueAt?_append, hmerge, htarget]
    simp only [Option.bind_some, valueAt?, member?]
    rw [Keyed.get?_mergeBy hkeys, (Keyed.get?_eq_none_iff _ _).2 hkey]
  case keys =>
    intro path present later htarget hsource
    have hmerge := valueAt?_merge h htarget hsource
    obtain ⟨hkeys, -⟩ := (h.valueAt? hsource).of_object
    rw [merge_object] at hmerge
    exact ⟨_, hmerge, Keyed.keys_mergeBy hkeys⟩

/-- The ids of some posts. -/
def postIds : Value :=
  object
    [("select", object
        [("id", bool true), ("posts", object [("select", object [("id", bool true)])])]),
      ("where", object [("id", int 7)]),
      ("take", int 5)]

/-- Titles of posts, with an object in place of a number and nothing in place of an object. -/
def postTitles : Value :=
  object
    [("skip", int 1),
      ("select", object [("posts", object [("select", object [("title", bool true)])])]),
      ("take", object [("first", int 2)]),
      ("where", null)]

/-- The titles go in beside the ids, and what is of another kind is replaced where it stood. -/
theorem overlays_merge_posts :
    (Overlays postIds postTitles (postIds.merge postTitles) ∧
      (postIds.merge postTitles).merge postTitles = postIds.merge postTitles) ∧
    postIds.merge postTitles = object
      [("select", object
          [("id", bool true),
            ("posts", object [("select", object [("id", bool true), ("title", bool true)])])]),
        ("where", null),
        ("take", object [("first", int 2)]),
        ("skip", int 1)] := by
  have hone : ∀ {key : String} {v : Value}, v.DistinctKeys → (object [(key, v)]).DistinctKeys :=
    fun hv => .object (List.nodup_cons.2 ⟨List.not_mem_nil, List.nodup_nil⟩)
      (List.forall_mem_singleton.2 hv)
  have htitles : postTitles.DistinctKeys := by
    refine .object (by decide) ?_
    simp only [List.forall_mem_cons]
    exact ⟨.number _, hone (hone (hone (.bool true))), hone (.number _), .null,
      List.forall_mem_nil _⟩
  exact ⟨overlays_merge postIds htitles, rfl⟩

end Schematic.Json.Value
