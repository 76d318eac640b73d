import Schematic.Proofs.Groups
import Schematic.Proofs.MergeLaws
import Schematic.Proofs.Typing

/-!
# Inserting twice

A selection and all parts of it are maps: none has two entries under one key
(`Selection.DistinctKeys`). Insertions keep this (`Selection.DistinctKeys.insert`), and so it
holds of all that queries select (`Query.distinctKeys_selection`).

What is a map in all its parts is merged in once and for all: to merge it in a second time
changes nothing (`Selected.merge_merge_self`), not even the order of fields and arguments. So it
does not matter how often something is inserted under a name, whatever was there before
(`Selection.insert_insert_self`).
-/

namespace Schematic

namespace Selected

/-- No part of what is selected has two entries under one key. -/
inductive DistinctKeys : Selected → Prop
  | field : DistinctKeys .field
  | nested {select : List (String × Selected)} {arguments : Keyed Json.Value}
      (hkeys : (Keyed.keys select).Nodup) (hselect : ∀ entry ∈ select, DistinctKeys entry.2)
      (harguments : (Keyed.keys arguments).Nodup) : DistinctKeys (.nested select arguments)
  | counted {arguments : Keyed Json.Value} (harguments : (Keyed.keys arguments).Nodup) :
      DistinctKeys (.counted arguments)
  | group (names : List String) : DistinctKeys (.group names)

/-- By induction on what is merged in: a key that is there is merged with its own entry. -/
theorem DistinctKeys.merge {b : Selected} (hb : b.DistinctKeys) :
    ∀ {a : Selected}, a.DistinctKeys → (a.merge b).DistinctKeys := by
  induction hb with
  | field =>
    intro a ha
    rw [merge_field]
    split
    · exact ha
    · exact .field
  | nested hkeys hselect harguments ih =>
    intro a ha
    cases ha with
    | nested hkeys' hselect' harguments' =>
      exact .nested (nodup_keys_mergeEntries hkeys')
        (forall_mergeEntries (P := fun _ => DistinctKeys) hselect' hselect
          fun entry hentry _ => ih entry hentry)
        (Keyed.nodup_keys_putAll harguments')
    | field | counted | group => exact .nested hkeys hselect harguments
  | counted harguments =>
    intro _ _
    exact .counted harguments
  | group names =>
    intro a _
    cases a <;> exact .group _

end Selected

/-! ## Insertions -/

namespace Selection

/-- No part of a selection has two entries under one key. -/
def DistinctKeys (s : Selection) : Prop :=
  s.toSelected.DistinctKeys

variable {s : Selection} {selected : Selected}

/-- The step: keys stay distinct when something is inserted. -/
theorem DistinctKeys.insert (h : s.DistinctKeys) (name : String)
    (hselected : selected.DistinctKeys) : (s.insert name selected).DistinctKeys := by
  cases h with
  | nested hkeys hselect harguments =>
    exact .nested (Keyed.nodup_keys_alter hkeys)
      (Keyed.forall_alter (P := fun _ => Selected.DistinctKeys) hselect hselected
        fun _ hpresent => hselected.merge hpresent) harguments

/-- The run: so they do however often something is inserted. -/
theorem DistinctKeys.insertAll (h : s.DistinctKeys) {entries : List (String × Selected)}
    (hentries : ∀ entry ∈ entries, entry.2.DistinctKeys) : (s.insertAll entries).DistinctKeys := by
  induction entries generalizing s with
  | nil => exact h
  | cons entry rest ih =>
    obtain ⟨hentry, hrest⟩ := List.forall_mem_cons.1 hentries
    exact ih (h.insert entry.1 hentry) hrest

/-- Arguments alone have only their own keys to be told apart. -/
theorem distinctKeys_bare {arguments : Keyed Json.Value} (h : (Keyed.keys arguments).Nodup) :
    DistinctKeys ⟨[], arguments⟩ :=
  .nested List.nodup_nil (List.forall_mem_nil _) h

theorem distinctKeys_empty : empty.DistinctKeys :=
  distinctKeys_bare List.nodup_nil

end Selection

/-! ## What queries select -/

namespace Prune

variable {schema : Schema} {options : Options} {model : Model} {excluded : List String}
  {request : Request}

theorem distinctKeys_countedAs (args : Keyed Json.Value) : (countedAs args).DistinctKeys := by
  rw [countedAs]
  split
  · exact .field
  · exact .counted (typedArguments_relationArguments args).nodup

/-- A count has one entry for every name it takes in. -/
theorem distinctKeys_count {counts : Selection}
    (hcounts : count options model excluded request = .ok counts) : counts.DistinctKeys := by
  obtain ⟨-, rfl⟩ := count_eq_ok_iff.1 hcounts
  rw [← Selection.insertAll_eq ⟨[], []⟩]
  apply Selection.distinctKeys_empty.insertAll
  rintro ⟨name, selected⟩ hentry
  obtain ⟨field, -, hentry⟩ := List.mem_filterMap.1 hentry
  obtain ⟨-, -, rfl⟩ := countContribution?_eq_some_iff.1 hentry
  exact distinctKeys_countedAs field.args

/-- Every pruned selection has distinct keys, whatever the schema declares. -/
theorem distinctKeys_prune {request : Request} :
    ∀ {model : Model} {node : Selection}, prune schema options model request = .ok node →
      node.DistinctKeys := by
  induction request using Request.induction with
  | h request ih =>
    intro model node hnode
    obtain ⟨-, rfl⟩ := prune_eq_ok_iff.1 hnode
    rw [← Selection.insertAll_eq ⟨[], relationArguments request.args⟩]
    apply (Selection.distinctKeys_bare (typedArguments_relationArguments _).nodup).insertAll
    rintro ⟨name, selected⟩ hentry
    rcases of_mem_entries hentry with ⟨field, hfield, hcontributes⟩ | ⟨rfl, -⟩
    · cases hcontributes with
      | plain => exact .field
      | relation _ _ _ _ _ _ hnested _ => exact ih field hfield hnested
      | count _ _ _ hcounts _ => exact distinctKeys_count hcounts
    · exact .field

end Prune

/-- Groups hold names and no entries, so that keys have to be told apart at the top only. -/
theorem Aggregate.distinctKeys_select (options : Options) (model : Model) (request : Request) :
    (select options model request).DistinctKeys := by
  apply Selection.distinctKeys_empty.insertAll
  rintro ⟨name, selected⟩ hentry
  obtain ⟨field, -, hcontributes⟩ := mem_contributions_iff.1 hentry
  cases hcontributes with
  | group => exact .group _
  | field => exact .field

/-- Every selection of a query has distinct keys. -/
theorem Query.distinctKeys_selection {q : Query} {node : Selection} (h : q.selection = .ok node) :
    node.DistinctKeys := by
  rw [selection] at h
  split at h
  · cases h
    exact Aggregate.distinctKeys_select q.options _ q.request
  · rw [pruneRoot] at h
    split at h
    · rw [pruneNamed] at h
      split at h
      · exact Prune.distinctKeys_prune h
      · cases h
        exact Selection.distinctKeys_empty
    · cases h

/-! ## Twice and once -/

namespace Selected

theorem nested_merge_nested (present later : List (String × Selected))
    (args args' : Keyed Json.Value) :
    (nested present args).merge (nested later args') =
      nested (Keyed.mergeBy merge present later) (Keyed.putAll args args') := by
  rw [← mergeEntries_eq_mergeBy]
  rfl

/-- Of groups that take in the same names twice, the second time adds none. -/
theorem group_merge_group_self (names more : List String) :
    ((group names).merge (group more)).merge (group more) = (group names).merge (group more) :=
  congrArg group (appendMissing_of_subset fun _ hname => mem_appendMissing.2 (.inr hname))

/-- A second merge of the same changes nothing, whatever the first one met. -/
theorem merge_merge_self {s : Selected} (h : s.DistinctKeys) :
    ∀ present : Selected, (present.merge s).merge s = present.merge s := by
  induction h with
  | field => exact fun _ => merge_merge_field rfl
  | @nested later args hkeys _ harguments ih =>
    have hself : ∀ entry ∈ later, entry.2.merge entry.2 = entry.2 :=
      fun entry hentry => merge_self (ih entry hentry)
    have htwice : (nested later args).merge (nested later args) = nested later args := by
      rw [nested_merge_nested, Keyed.mergeBy_self hkeys hself, Keyed.putAll_self harguments]
    intro present
    cases present with
    | nested select args' =>
      rw [nested_merge_nested, nested_merge_nested, Keyed.mergeBy_mergeBy_self hkeys hself ih,
        Keyed.putAll_putAll_self harguments]
    | field | counted | group =>
      -- All else is replaced, and then the selection meets itself.
      exact htwice
  | counted => exact fun _ => rfl
  | group names =>
    intro present
    cases present with
    | group names' => exact group_merge_group_self names' names
    | field | nested | counted =>
      exact congrArg group (appendMissing_of_subset (List.Subset.refl names))

end Selected

namespace Selection

theorem insert_eq (s : Selection) (name : String) (selected : Selected) :
    s.insert name selected = ⟨Keyed.alter name selected.mergeInto s.select, s.arguments⟩ :=
  rfl

/-- **Inserting twice is inserting once.** Whatever stood under the name before, and whatever is
inserted, plain, nested, counted or a group: the second time changes nothing, not even the order
of fields and arguments at any depth. -/
theorem insert_insert_self {selected : Selected} (h : selected.DistinctKeys) (s : Selection)
    (name : String) : (s.insert name selected).insert name selected = s.insert name selected := by
  rw [insert_eq, insert_eq, Selected.alter_alter_mergeInto_self (Selected.merge_merge_self h)]

/-- The latest posts with their comments, how many of these there are, and a group. -/
def latestPosts : Selected :=
  .nested [("comments", .nested [("text", .field)] [("take", .int 5)]),
    ("_count", .nested [("comments", .counted [("skip", .int 1)])] []),
    ("_min", .group ["id", "title", "id"])] [("orderBy", .string "id"), ("take", .int 2)]

/-- The posts that are selected already take in the others once: titles stay first, and the count
of comments is replaced. -/
theorem insert_insert_self_posts :
    latestPosts.DistinctKeys ∧
      ((Blog.selection.insert "posts" latestPosts).insert "posts" latestPosts).select =
        [("id", .field),
          ("posts", .nested [("title", .field),
              ("_count", .nested [("comments", .counted [("skip", .int 1)])] []), ("id", .field),
              ("comments", .nested [("text", .field)] [("take", .int 5)]),
              ("_min", .group ["id", "title", "id"])]
            [("orderBy", .string "id"), ("take", .int 2)]),
          ("_count", .nested [("posts", .field)] []),
          ("firstName", .field)] := by
  have hcomments : (Selected.nested [("text", .field)] [("take", .int 5)]).DistinctKeys :=
    .nested (by decide) (List.forall_mem_singleton.2 .field) (by decide)
  have hcount : (Selected.nested [("comments", .counted [("skip", .int 1)])] []).DistinctKeys :=
    .nested (by decide) (List.forall_mem_singleton.2 (.counted (by decide))) (by decide)
  have hlatest : latestPosts.DistinctKeys :=
    .nested (by decide) (List.forall_mem_cons.2 ⟨hcomments, List.forall_mem_cons.2 ⟨hcount,
      List.forall_mem_singleton.2 (.group _)⟩⟩) (by decide)
  refine ⟨hlatest, ?_⟩
  rw [insert_insert_self hlatest]
  rfl

end Selection

end Schematic
