import Schematic.Proofs.Groups

/-!
# Names of a group in order

A group has its names in the order in which they are first requested, by whichever of the requests
for it (`Aggregate.eraseDups_names`). That a name is there once is seen to in two places: within a
request `Aggregate.dropRepeats` drops a name next to itself, and a later request adds only the names
that are missing (`appendMissing`). So a name is repeated just when the first request for the group
comes back to it after another one (`Aggregate.ComesBack`), and then it is written twice as well
(`Query.nodup_groups_iff`).
-/

namespace Schematic

open Json (Value Written)

/-! ## First occurrences -/

section FirstOccurrences

variable {names more : List String}

/-- Of every name only one is left. -/
theorem nodup_eraseDups (names : List String) : names.eraseDups.Nodup := by
  rw [← firstOfName_id]
  simpa using nodup_firstOfName id names

theorem eraseDups_of_nodup (h : names.Nodup) : names.eraseDups = names := by
  induction names with
  | nil => rfl
  | cons name rest ih =>
    obtain ⟨hname, hrest⟩ := List.nodup_cons.1 h
    rw [eraseDups_cons_eq, ih hrest]
    refine congrArg (name :: ·) (List.filter_eq_self.2 fun other hother => ?_)
    have hne : other ≠ name := fun h => hname (h ▸ hother)
    simpa using hne

/-- What first occurs in two lists one after the other. -/
theorem eraseDups_append_congr {names' more' : List String} (h : names.eraseDups = names'.eraseDups)
    (hmore : more.eraseDups = more'.eraseDups) :
    (names ++ more).eraseDups = (names' ++ more').eraseDups := by
  have hmem : ∀ name, name ∈ names ↔ name ∈ names' := fun name => by
    rw [← List.mem_eraseDups, h, List.mem_eraseDups]
  have hkeep : ∀ others : List String, others.removeAll names = others.removeAll names' :=
    fun others => List.filter_congr fun other _ => by simp [hmem]
  rw [List.eraseDups_append, List.eraseDups_append, h, hkeep, List.removeAll, List.removeAll,
    eraseDups_filter, eraseDups_filter, hmore]

/-- Names that take in others have their own repetitions and no more. -/
theorem nodup_appendMissing_iff : (appendMissing names more).Nodup ↔ names.Nodup := by
  rw [appendMissing_eq, List.nodup_append]
  refine ⟨fun h => h.1, fun h => ⟨h, nodup_eraseDups _, ?_⟩⟩
  rintro name hname other hother rfl
  rw [List.mem_eraseDups, List.removeAll, List.mem_filter] at hother
  simp [hname] at hother

/-- What is missing is added behind, and so the first occurrences are those of the two
lists one after the other. -/
theorem eraseDups_appendMissing (names more : List String) :
    (appendMissing names more).eraseDups = (names ++ more).eraseDups := by
  have hrest : ((more.removeAll names).eraseDups.removeAll names) =
      (more.removeAll names).eraseDups := by
    rw [List.removeAll, ← eraseDups_filter, List.removeAll, List.filter_filter]
    simp only [Bool.and_self]
  rw [appendMissing_eq, List.eraseDups_append, List.eraseDups_append, hrest,
    eraseDups_of_nodup (nodup_eraseDups _)]

theorem appendMissing_append (names first second : List String) :
    appendMissing names (first ++ second) = appendMissing (appendMissing names first) second := by
  induction first generalizing names with
  | nil => rfl
  | cons name rest ih =>
    rw [List.cons_append, appendMissing, appendMissing, ih, ih]
    split <;> rfl

end FirstOccurrences

/-! ## Repetitions -/

/-- A name is in the list again after another one. -/
def ComesBack (names : List String) : Prop :=
  ∃ name other, name ≠ other ∧ [name, other, name].Sublist names

namespace Aggregate

/-- Dropping names next to themselves leaves the first occurrences. -/
theorem eraseDups_dropRepeats (names : List String) :
    (dropRepeats names).eraseDups = names.eraseDups := by
  induction names using dropRepeats.induct with
  | case1 => rfl
  | case2 => rfl
  | case3 name rest ih =>
    rw [dropRepeats, if_pos rfl, ih, eraseDups_cons_eq name (name :: rest), eraseDups_cons_eq]
    simp [List.filter_filter]
  | case4 name second rest hne ih =>
    rw [dropRepeats, if_neg hne, eraseDups_cons_eq, ih, ← eraseDups_cons_eq]

/-- It leaves no name twice just when no name comes back. -/
theorem nodup_dropRepeats_iff (names : List String) :
    (dropRepeats names).Nodup ↔ ¬ ComesBack names := by
  induction names using dropRepeats.induct with
  | case1 =>
    refine iff_of_true List.nodup_nil ?_
    rintro ⟨_, _, _, h⟩
    cases h
  | case2 name =>
    refine iff_of_true (List.nodup_singleton name) ?_
    rintro ⟨_, _, _, h⟩
    exact absurd h.length_le (by simp)
  | case3 name rest ih =>
    rw [dropRepeats, if_pos rfl, ih]
    refine not_congr ⟨?_, ?_⟩
    · rintro ⟨first, other, hne, h⟩
      exact ⟨first, other, hne, h.cons name⟩
    · rintro ⟨first, other, hne, h⟩
      refine ⟨first, other, hne, ?_⟩
      rcases List.cons_sublist_cons'.1 h with h | ⟨rfl, h⟩
      · exact h
      · exact (h.of_cons_of_ne hne.symm).cons_cons first
  | case4 name second rest hne ih =>
    rw [dropRepeats, if_neg hne, List.nodup_cons, ih, mem_dropRepeats, ← not_or]
    refine not_congr ⟨?_, ?_⟩
    · rintro (hname | ⟨first, other, hne', h⟩)
      · have hrest : name ∈ rest := (List.mem_cons.1 hname).resolve_left hne
        refine ⟨name, second, hne, ?_⟩
        exact ((List.singleton_sublist.2 hrest).cons_cons second).cons_cons name
      · exact ⟨first, other, hne', h.cons name⟩
    · rintro ⟨first, other, hne', hsub⟩
      rcases List.cons_sublist_cons'.1 hsub with h | ⟨rfl, h⟩
      · exact .inr ⟨first, other, hne', h⟩
      · exact .inl (h.subset (List.mem_cons_of_mem other List.mem_cons_self))

variable {model : Model} {excluded : List String} {request field : Request} {group : String}

/-! ## The names of a group -/

/-- The names requested in a group that can be selected, as they are requested. -/
def wanted (model : Model) (excluded : List String) (field : Request) : List String :=
  (field.fields.map (·.name)).filter fun name =>
    selectable model excluded name || (field.name = countName && name = allName)

/-- The names requested in a group that can be selected, by all requests for the group. -/
def wantedIn (model : Model) (excluded : List String) (request : Request) (group : String) :
    List String :=
  (request.fields.filter (·.name = group)).flatMap (wanted model excluded)

/-- The same request by request; a request that has nothing to select does not count. -/
def wantedBy (model : Model) (excluded : List String) (request : Request) (group : String) :
    List (List String) :=
  ((request.fields.filter (·.name = group)).map (wanted model excluded)).filter (· ≠ [])

/-- The first request for a group that has anything to select comes back to a name. -/
def RepeatsIn (model : Model) (excluded : List String) (request : Request) (group : String) :
    Prop :=
  ∃ first ∈ (wantedBy model excluded request group).head?, ComesBack first

theorem flatten_wantedBy (model : Model) (excluded : List String) (request : Request)
    (group : String) :
    (wantedBy model excluded request group).flatten = wantedIn model excluded request group := by
  rw [wantedBy, List.flatten_filter_ne_nil, wantedIn, List.flatMap_def]

/-- A request for a group contributes the names it wants, without those next to themselves. -/
theorem contribution?_of_isGroupName (hname : IsGroupName field.name) :
    contribution? model excluded field =
      if wanted model excluded field = [] then none
      else some (field.name, .group (dropRepeats (wanted model excluded field))) := by
  rw [contribution?, if_neg hname.2, if_pos hname.1]
  have hmembers : members model excluded field = dropRepeats (wanted model excluded field) := rfl
  rw [hmembers]
  split
  · rename_i hnone
    rw [if_pos]
    exact List.eq_nil_iff_forall_not_mem.2 fun name hname =>
      List.not_mem_nil (hnone ▸ mem_dropRepeats.2 hname)
  · rename_i hsome
    rw [if_neg]
    rintro hnone
    rw [hnone] at hsome
    exact hsome rfl

/-- Of the entries of a selection those of a group are the names of the requests for it. -/
theorem filter_contributions (hgroup : IsGroupName group) :
    (contributions model excluded request).filter (·.1 = group) =
      (wantedBy model excluded request group).map fun names =>
        (group, .group (dropRepeats names)) := by
  rw [contributions, wantedBy]
  induction request.fields with
  | nil => rfl
  | cons field rest ih =>
    rw [List.filter_cons, List.filterMap_cons]
    by_cases hname : field.name = group
    · subst hname
      rw [contribution?_of_isGroupName hgroup]
      by_cases hnone : wanted model excluded field = []
      · simp [hnone, ih]
      · simp [hnone, ih]
    · have hother : ∀ e ∈ contribution? model excluded field, e.1 ≠ group := by
        rintro ⟨key, selected⟩ he
        cases contribution?_eq_some_iff.1 he <;> exact hname
      rcases hentry : contribution? model excluded field with _ | e
      · simp [hname, ih]
      · simp [hname, hother e hentry, ih]

end Aggregate

/-- A group takes in the names of the groups that are merged into it. -/
theorem Selected.foldl_group (names : List String) (parts : List (List String)) (group : String) :
    (parts.map fun names => (group, Selected.group names)).foldl
        (fun s entry => some (entry.2.mergeInto s)) (some (.group names)) =
      some (.group (appendMissing names parts.flatten)) := by
  induction parts generalizing names with
  | nil => rfl
  | cons first rest ih =>
    rw [List.flatten_cons, appendMissing_append, List.map_cons, List.foldl_cons]
    exact ih (appendMissing names first)

namespace Aggregate

variable {model : Model} {request : Request} {options : Options} {group : String}
  {names : List String}

/-- Only what is requested under the name of a group is selected as one. -/
theorem isGroupName_of_mem_select
    (h : (group, .group names) ∈ (select options model request).select) : IsGroupName group := by
  have hkey : group ∈ Keyed.keys (select options model request).select := List.mem_map.2 ⟨_, h, rfl⟩
  rw [select_eq, Selected.mem_keys_mergeEntries, mem_keys_contributions_iff] at hkey
  rcases hkey with hkey | ⟨hgroup, -⟩ | hfield
  · cases hkey
  · exact hgroup
  · cases (suits_of_mem_select h).2 hfield.1

variable (model request options) in
/-- A group has the names of the first request for it, but none next to itself, and then those that
the other requests add. -/
theorem get?_select (hgroup : IsGroupName group) :
    Keyed.get? group (select options model request).select =
      match wantedBy model (options.exclusionsFor model.name request) request group with
      | [] => none
      | first :: rest =>
        some (.group (appendMissing (dropRepeats first) (rest.map dropRepeats).flatten)) := by
  rw [select_eq, Selected.get?_mergeEntries, filter_contributions hgroup]
  cases wantedBy model (options.exclusionsFor model.name request) request group with
  | nil => rfl
  | cons first rest =>
    have hfold := Selected.foldl_group (dropRepeats first) (rest.map dropRepeats) group
    rwa [List.map_map] at hfold

/-- The names of a group are those of the first request for it, and what the others add to
them. -/
theorem exists_wantedBy_of_mem_select
    (h : (group, .group names) ∈ (select options model request).select) :
    ∃ first rest,
      wantedBy model (options.exclusionsFor model.name request) request group = first :: rest ∧
      names = appendMissing (dropRepeats first) (rest.map dropRepeats).flatten := by
  have hget := Keyed.get?_of_mem nodup_keys_select h
  rw [get?_select model request options (isGroupName_of_mem_select h)] at hget
  split at hget
  · cases hget
  · rename_i first rest hparts
    cases hget
    exact ⟨first, rest, hparts, rfl⟩

/-- What comes first request by request comes first after all that is next to itself is dropped. -/
theorem eraseDups_flatten_map_dropRepeats (parts : List (List String)) :
    (parts.map dropRepeats).flatten.eraseDups = parts.flatten.eraseDups := by
  induction parts with
  | nil => rfl
  | cons first rest ih => exact eraseDups_append_congr (eraseDups_dropRepeats first) ih

/-- **Order.** A group has its names in the order in which they are first requested. -/
theorem eraseDups_names (h : (group, .group names) ∈ (select options model request).select) :
    names.eraseDups =
      (wantedIn model (options.exclusionsFor model.name request) request group).eraseDups := by
  obtain ⟨first, rest, hparts, rfl⟩ := exists_wantedBy_of_mem_select h
  rw [eraseDups_appendMissing, ← flatten_wantedBy, hparts]
  exact eraseDups_flatten_map_dropRepeats (first :: rest)

/-- **Repetitions.** A group has a name twice just when the first request for it comes back to a
name. -/
theorem nodup_names_iff (h : (group, .group names) ∈ (select options model request).select) :
    names.Nodup ↔
      ¬ RepeatsIn model (options.exclusionsFor model.name request) request group := by
  obtain ⟨first, rest, hparts, rfl⟩ := exists_wantedBy_of_mem_select h
  rw [nodup_appendMissing_iff, nodup_dropRepeats_iff, RepeatsIn, hparts]
  simp

end Aggregate

/-! ## Writing groups -/

/-- No object that is written has a key twice. -/
inductive Json.Written.DistinctKeys : Written → Prop
  | null : DistinctKeys .null
  | bool (b : Bool) : DistinctKeys (.bool b)
  | number (n : Option Json.Number) : DistinctKeys (.number n)
  | string (s : Option String) : DistinctKeys (.string s)
  | array {items : List Written} (hitems : ∀ w ∈ items, DistinctKeys w) :
      DistinctKeys (.array items)
  | object {entries : List (Option String × Written)} (hkeys : (entries.map Prod.fst).Nodup)
      (hentries : ∀ e ∈ entries, DistinctKeys e.2) : DistinctKeys (.object entries)

theorem Json.Written.distinctKeys_object_iff {entries : List (Option String × Written)} :
    DistinctKeys (.object entries) ↔
      (entries.map Prod.fst).Nodup ∧ ∀ e ∈ entries, e.2.DistinctKeys := by
  constructor
  · rintro ⟨⟩
    exact ⟨‹_›, ‹_›⟩
  · exact fun ⟨hkeys, hentries⟩ => .object hkeys hentries

namespace Selected

theorem writtenEntries_eq_map (entries : List (String × Selected)) :
    writtenEntries entries = entries.map fun e => (some e.1, e.2.written) := by
  induction entries with
  | nil => rfl
  | cons entry rest ih => rw [writtenEntries, ih, List.map_cons]

/-- A group is written with a key for every name, as often as it has the name. -/
theorem distinctKeys_writtenGroup_iff (names : List String) :
    (writtenGroup names).DistinctKeys ↔ names.Nodup := by
  rw [writtenGroup, Json.Written.distinctKeys_object_iff, List.map_map]
  have hbools : ∀ e ∈ names.map fun name => (some name, Written.bool true), e.2.DistinctKeys :=
    List.forall_mem_map.2 fun _ _ => .bool true
  rw [and_iff_left hbools]
  exact List.nodup_map_iff fun _ _ => Option.some.inj

end Selected

namespace Aggregate

variable {model : Model} {request : Request} {options : Options}

/-- What is written of the selection of an aggregate has no key twice just when no group has a name
twice. -/
theorem distinctKeys_written_select_iff :
    (select options model request).written.DistinctKeys ↔
      ∀ group names, (group, .group names) ∈ (select options model request).select →
        names.Nodup := by
  have hwritten : (select options model request).written =
      .object [(some "select",
        .object (Selected.writtenEntries (select options model request).select))] := by
    rw [select, Selection.insertAll_eq]
    rfl
  have hkeys : ((Selected.writtenEntries (select options model request).select).map
      Prod.fst).Nodup := by
    have hnodup : (Keyed.keys (select options model request).select).Nodup := nodup_keys_select
    have hmap := (List.nodup_map_iff fun _ _ => Option.some.inj).2 hnodup
    rw [Selected.writtenEntries_eq_map, List.map_map]
    rwa [Keyed.keys, List.map_map] at hmap
  rw [hwritten, Json.Written.distinctKeys_object_iff, List.forall_mem_singleton,
    Json.Written.distinctKeys_object_iff, and_iff_right hkeys, Selected.writtenEntries_eq_map,
    List.forall_mem_map, List.map_singleton, and_iff_right (List.nodup_singleton _)]
  constructor
  · exact fun h group names hmem => (Selected.distinctKeys_writtenGroup_iff names).1 (h _ hmem)
  · rintro h ⟨name, s⟩ hs
    show s.written.DistinctKeys
    by_cases hname : Text.hasStart "_" name
    · have hgroup : s = .group s.members := (suits_of_mem_select hs).1 hname
      rw [hgroup] at hs ⊢
      exact (Selected.distinctKeys_writtenGroup_iff _).2 (h name _ hs)
    · rw [(suits_of_mem_select hs).2 hname]
      exact .bool true

end Aggregate

/-- **Names of groups.** The selection of an aggregate or group-by result has the names of each
group in the order in which they are first requested. A name is repeated, and then written twice as
a key, just when the first request for a group comes back to a name. -/
theorem Query.nodup_groups_iff {q : Query} {model : Model}
    (h : q.schema.aggregatedModel? q.returnType = some model) :
    ∃ node, q.selection = .ok node ∧
      (∀ group names, (group, .group names) ∈ node.select →
        names.eraseDups = (Aggregate.wantedIn model (q.options.exclusionsFor model.name q.request)
          q.request group).eraseDups ∧
        (names.Nodup ↔ ¬ Aggregate.RepeatsIn model
          (q.options.exclusionsFor model.name q.request) q.request group)) ∧
      (node.written.DistinctKeys ↔ ∀ group, Aggregate.IsGroupName group →
        ¬ Aggregate.RepeatsIn model (q.options.exclusionsFor model.name q.request)
          q.request group) := by
  refine ⟨Aggregate.select q.options model q.request, by simp only [selection, h],
    fun group names hmem => ⟨Aggregate.eraseDups_names hmem, Aggregate.nodup_names_iff hmem⟩, ?_⟩
  rw [Aggregate.distinctKeys_written_select_iff]
  constructor
  · rintro hnodup group hgroup ⟨first, hfirst, hback⟩
    have hget := Aggregate.get?_select model q.request q.options hgroup
    obtain ⟨rest, hparts⟩ := List.head?_eq_some_iff.1 hfirst
    rw [hparts] at hget
    have hmem := Keyed.mem_of_get? hget
    exact (Aggregate.nodup_names_iff hmem).1 (hnodup _ _ hmem) ⟨first, hfirst, hback⟩
  · intro hnone group names hmem
    have hgroup := Aggregate.isGroupName_of_mem_select hmem
    exact (Aggregate.nodup_names_iff hmem).2 (hnone group hgroup)

/-- Of users the number of ids is requested twice, before and after that of all records. -/
def Blog.countsQuery : Query where
  schema := Blog.sumsSchema
  request := (Request.ofName "aggregateUser").withField "AggregateUser"
    ((Request.ofName "_count").withFields "UserCountAggregateOutputType"
      [.ofName "id", .ofName "_all", (Request.ofName "id").withLabel "again"])
  returnType := "AggregateUser"
  options := {}

/-- The first of the two requests for ids comes before that for all records and the other
after it: the name comes back, and the group has it twice. -/
theorem Query.nodup_groups_iff_counts :
    Blog.countsQuery.schema.aggregatedModel? Blog.countsQuery.returnType = some Blog.user ∧
      Blog.countsQuery.selection = .ok ⟨[("_count", .group ["id", "_all", "id"])], []⟩ ∧
      Aggregate.RepeatsIn Blog.user [] Blog.countsQuery.request "_count" := by
  have hsums : Blog.countsQuery.schema.aggregatedModel? Blog.countsQuery.returnType =
      some Blog.user := rfl
  obtain ⟨node, hnode, hgroups, -⟩ := nodup_groups_iff hsums
  cases hnode
  refine ⟨hsums, rfl, ?_⟩
  by_contra hnot
  have hnodup : ["id", "_all", "id"].Nodup := (hgroups "_count" _ (.head _)).2.2 hnot
  exact absurd hnodup (by decide)

end Schematic
