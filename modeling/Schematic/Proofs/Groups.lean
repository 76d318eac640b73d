import Schematic.Proofs.Blog
import Schematic.Proofs.Kept
import Schematic.Proofs.Merging

/-!
# Groups of aggregates

What an aggregate or group-by result of a model selects (`Aggregate.Groups`): the groups that are
requested, each with those of its requested names that can be selected (`Aggregate.InGroup`), and
the fields to group by. A group may be requested several times, and has then the names of all its
requests, as merged groups have the names of each other (`Selected.mem_members_mergeEntries`). A
group without names is left out. This is the whole select argument of a query for such a result
(`Query.value_groups`).
-/

namespace Schematic

open Json (Value)

namespace Blog

/-- The schema of the blog with the sums of users. -/
def sumsSchema : Schema :=
  schemaWith [] [⟨"AggregateUser", []⟩] []

/-- Two counts of users, averages that there are none of, and a field to group by. -/
def sumsRequest : Request :=
  (Request.ofName "aggregateUser").withFields "AggregateUser" [
    (Request.ofName "_count").withFields "UserCountAggregateOutputType"
      [.ofName "id", .ofName "_all"],
    ((Request.ofName "_count").withLabel "names").withFields "UserCountAggregateOutputType"
      [.ofName "firstName", .ofName "id", .ofName "password"],
    (Request.ofName "_avg").withField "UserAvgAggregateOutputType" (.ofName "_all"),
    .ofName "firstName",
    .ofName "__typename"]

end Blog

/-! ## Names of groups -/

/-- No name is lost, as one of each row of repetitions is left. -/
theorem Aggregate.mem_dropRepeats {names : List String} {name : String} :
    name ∈ dropRepeats names ↔ name ∈ names := by
  induction names using dropRepeats.induct with
  | case1 => rfl
  | case2 => rfl
  | case3 first rest ih =>
    rw [dropRepeats, if_pos rfl, ih, List.mem_cons, List.mem_cons, List.mem_cons]
    exact (or_iff_right_of_imp .inl).symm
  | case4 first second rest hne ih =>
    rw [dropRepeats, if_neg hne, List.mem_cons, ih]
    exact List.mem_cons.symm

namespace Keyed

/-- If pairs have one value, only their keys have to be told apart. -/
theorem ofPairs_const {α : Type} (names : List String) (a : α) :
    ofPairs (names.map (·, a)) = (keys (ofPairs (names.map (·, a)))).map (·, a) := by
  have hvalue : ∀ e ∈ ofPairs (names.map (·, a)), e.2 = a :=
    forall_putAll (P := fun _ b => b = a) (List.forall_mem_nil _)
      (List.forall_mem_map.2 fun _ _ => rfl)
  rw [keys, List.map_map]
  refine (List.map_id _).symm.trans (List.map_congr_left fun e he => ?_)
  exact Prod.ext rfl (hvalue e he)

end Keyed

/-- The form of a group has every name of the group once. -/
theorem exists_groupValue_eq (names : List String) :
    ∃ distinct : List String, distinct.Nodup ∧ (∀ name, name ∈ distinct ↔ name ∈ names) ∧
      groupValue names = .object (distinct.map (·, .bool true)) := by
  refine ⟨Keyed.keys (Keyed.ofPairs (names.map (·, Value.bool true))),
    Keyed.nodup_keys_ofPairs _, fun name => ?_, ?_⟩
  · rw [Keyed.ofPairs, Keyed.mem_keys_putAll]
    simp [Keyed.keys]
  · exact congrArg Value.object (Keyed.ofPairs_const names _)

/-! ## Merged groups -/

namespace Selected

/-- Entry by entry, the value of what is selected stands under its key. -/
theorem entryValues_eq_map (entries : List (String × Selected)) :
    entryValues entries = entries.map fun e => (e.1, e.2.toValue) := by
  induction entries with
  | nil => rfl
  | cons entry rest ih => rw [entryValues, ih, List.map_cons]

theorem keys_map_toValue (entries : List (String × Selected)) :
    Keyed.keys (entries.map fun e => (e.1, e.2.toValue)) = Keyed.keys entries := by
  rw [Keyed.keys, List.map_map]
  rfl

variable {s later : Selected} {name : String}

/-- The names of a group. What is no group has none. -/
def members : Selected → List String
  | group names => names
  | _ => []

/-- Whether what is selected is a group. -/
def IsGroup (s : Selected) : Prop :=
  s = group s.members

/-- What a group is merged into becomes a group. -/
theorem IsGroup.merge (hlater : later.IsGroup) (s : Selected) : (s.merge later).IsGroup := by
  rw [hlater]
  cases s <;> rfl

/-- The step: a group takes in the names of a later one. -/
theorem mem_members_merge (hlater : later.IsGroup) :
    name ∈ (s.merge later).members ↔ name ∈ s.members ∨ name ∈ later.members := by
  rw [hlater]
  cases s with
  | group names => exact mem_appendMissing
  | field => simp [members, Selected.merge]
  | nested => simp [members, Selected.merge]
  | counted => simp [members, Selected.merge]

/-- The run: a group has the names of all that are merged into it. -/
theorem mem_members_mergeEntries {key : String} {present entries : List (String × Selected)}
    (hentries : ∀ e ∈ entries, e.1 = key → e.2.IsGroup) :
    (∃ s, Keyed.get? key (mergeEntries present entries) = some s ∧ name ∈ s.members) ↔
      (∃ s, Keyed.get? key present = some s ∧ name ∈ s.members) ∨
        ∃ e ∈ entries, e.1 = key ∧ name ∈ e.2.members :=
  get?_mergeEntries_iff (P := fun s => name ∈ s.members) fun e he hkey _ =>
    mem_members_merge (hentries e he hkey)

end Selected

/-! ## Requested groups -/

namespace Aggregate

variable {model : Model} {excluded : List String} {request field : Request} {name member : String}

/-- The name of a group: it starts with one underscore. -/
def IsGroupName (name : String) : Prop :=
  Text.hasStart "_" name ∧ ¬ isMeta name

/-- A name that is requested in a group, by any of the requests for the group, and can be
selected: it is declared and not excluded, or it stands for all records in a count. -/
def InGroup (model : Model) (excluded : List String) (request : Request) (group member : String) :
    Prop :=
  ∃ field ∈ request.fields, field.name = group ∧ ∃ part ∈ field.fields, part.name = member ∧
    ((model.field? member).isSome ∧ member ∉ excluded ∨ group = countName ∧ member = allName)

/-- A field to group by: it is requested, declared and not excluded. -/
def GroupsBy (model : Model) (excluded : List String) (request : Request) (name : String) : Prop :=
  ¬ Text.hasStart "_" name ∧ (∃ field ∈ request.fields, field.name = name) ∧
    (model.field? name).isSome ∧ name ∉ excluded

/-- What is selected of an aggregate or group-by result. -/
structure Groups (model : Model) (excluded : List String) (request : Request)
    (entries : Keyed Value) : Prop where
  nodup : (Keyed.keys entries).Nodup
  /-- There are the groups that are not empty, and the fields to group by. -/
  mem_keys_iff : ∀ name, name ∈ Keyed.keys entries ↔
    IsGroupName name ∧ (∃ member, InGroup model excluded request name member) ∨
      GroupsBy model excluded request name
  /-- Of a group the names in it are selected, each once, and nothing else. -/
  group : ∀ name v, (name, v) ∈ entries → IsGroupName name →
    ∃ members : List String, members.Nodup ∧
      (∀ member, member ∈ members ↔ InGroup model excluded request name member) ∧
      v = .object (members.map (·, .bool true))
  field : ∀ name v, (name, v) ∈ entries → GroupsBy model excluded request name → v = .bool true

theorem selectable_iff :
    selectable model excluded name ↔ (model.field? name).isSome ∧ name ∉ excluded := by
  simp [selectable]

/-- A name is selected in a group if it is declared and not excluded; in counts the one
for all records is as well. -/
theorem mem_members_iff : member ∈ members model excluded field ↔
    ∃ part ∈ field.fields, part.name = member ∧
      ((model.field? member).isSome ∧ member ∉ excluded ∨
        field.name = countName ∧ member = allName) := by
  rw [members, mem_dropRepeats, List.mem_filter, List.mem_map]
  simp only [Bool.or_eq_true, Bool.and_eq_true, decide_eq_true_eq, selectable_iff, ← and_assoc,
    exists_and_right]

/-- What belongs to the query language starts with an underscore, too. -/
theorem hasStart_of_isMeta (h : isMeta name) : Text.hasStart "_" name := by
  have hunderscore : "_".toList <+: "__".toList := by decide
  exact List.isPrefixOf_iff_prefix.2 (hunderscore.trans (List.isPrefixOf_iff_prefix.1 h))

/-- The two ways in which a sub-request contributes an entry. -/
inductive Contributes (model : Model) (excluded : List String) (field : Request) :
    String → Selected → Prop
  | group (hname : IsGroupName field.name) (hne : members model excluded field ≠ []) :
    Contributes model excluded field field.name (.group (members model excluded field))
  | field (hname : ¬ Text.hasStart "_" field.name) (hdeclared : (model.field? field.name).isSome)
      (hexcluded : field.name ∉ excluded) :
    Contributes model excluded field field.name .field

/-- There are no other ways to contribute: a group without names contributes nothing. -/
theorem contribution?_eq_some_iff {selected : Selected} :
    contribution? model excluded field = some (name, selected) ↔
      Contributes model excluded field name selected := by
  rw [contribution?]
  constructor
  · intro h
    split at h
    · cases h
    rename_i hmeta
    split at h
    · rename_i hstart
      split at h
      · cases h
      · rename_i hne
        cases h
        exact .group ⟨hstart, hmeta⟩ hne
    · rename_i hstart
      split at h <;> cases h
      rename_i hselectable
      obtain ⟨hdeclared, hexcluded⟩ := selectable_iff.1 hselectable
      exact .field hstart hdeclared hexcluded
  · rintro (⟨⟨hstart, hmeta⟩, hne⟩ | ⟨hstart, hdeclared, hexcluded⟩)
    · rw [if_neg hmeta, if_pos hstart]
      cases hmembers : members model excluded field with
      | nil => exact absurd hmembers hne
      | cons => rfl
    · rw [if_neg fun hmeta => hstart (hasStart_of_isMeta hmeta), if_neg hstart,
        if_pos (selectable_iff.2 ⟨hdeclared, hexcluded⟩)]

/-! ## The whole selection -/

variable (model excluded request) in
/-- All entries that are merged. -/
def contributions : List (String × Selected) :=
  request.fields.filterMap (contribution? model excluded)

theorem mem_contributions_iff {selected : Selected} :
    (name, selected) ∈ contributions model excluded request ↔
      ∃ field ∈ request.fields, Contributes model excluded field name selected := by
  simp only [contributions, List.mem_filterMap, contribution?_eq_some_iff]

/-- An entry is a group or a plain field, as its name says. -/
def Suits (name : String) (s : Selected) : Prop :=
  (Text.hasStart "_" name → s.IsGroup) ∧ (¬ Text.hasStart "_" name → s = .field)

/-- What is contributed under the name of a group is one, and nothing else is. -/
theorem suits_of_mem_contributions :
    ∀ e ∈ contributions model excluded request, Suits e.1 e.2 := by
  rintro ⟨name, selected⟩ he
  obtain ⟨field, -, hcontributes⟩ := mem_contributions_iff.1 he
  cases hcontributes with
  | group hname => exact ⟨fun _ => rfl, fun h => absurd hname.1 h⟩
  | field hname => exact ⟨fun h => absurd h hname, fun _ => rfl⟩

theorem Suits.merge {s later : Selected} (hs : Suits name s) (hlater : Suits name later) :
    Suits name (s.merge later) := by
  refine ⟨fun h => (hlater.1 h).merge s, fun h => ?_⟩
  rw [hs.2 h, hlater.2 h]
  rfl

/-- The names that the requests for a group contribute are the names in the group. -/
theorem exists_contribution_iff (hname : IsGroupName name) :
    (∃ e ∈ contributions model excluded request, e.1 = name ∧ member ∈ e.2.members) ↔
      InGroup model excluded request name member := by
  constructor
  · rintro ⟨⟨_, selected⟩, he, rfl, hmember⟩
    obtain ⟨field, hfield, hcontributes⟩ := mem_contributions_iff.1 he
    cases hcontributes with
    | group => exact ⟨field, hfield, rfl, mem_members_iff.1 hmember⟩
    | field => cases hmember
  · rintro ⟨field, hfield, rfl, hpart⟩
    have hmember : member ∈ members model excluded field := mem_members_iff.2 hpart
    exact ⟨_, mem_contributions_iff.2 ⟨field, hfield, .group hname (List.ne_nil_of_mem hmember)⟩,
      rfl, hmember⟩

/-- There are entries for the groups with any names, and for the fields to group by. -/
theorem mem_keys_contributions_iff :
    name ∈ Keyed.keys (contributions model excluded request) ↔
      IsGroupName name ∧ (∃ member, InGroup model excluded request name member) ∨
        GroupsBy model excluded request name := by
  constructor
  · intro hkey
    obtain ⟨⟨_, selected⟩, he, rfl⟩ := List.mem_map.1 hkey
    obtain ⟨field, hfield, hcontributes⟩ := mem_contributions_iff.1 he
    cases hcontributes with
    | group hname hne =>
      obtain ⟨member, hmember⟩ := List.exists_mem_of_ne_nil _ hne
      exact .inl ⟨hname, member, field, hfield, rfl, mem_members_iff.1 hmember⟩
    | field hname hdeclared hexcluded =>
      exact .inr ⟨hname, ⟨field, hfield, rfl⟩, hdeclared, hexcluded⟩
  · rintro (⟨hname, member, hmember⟩ | ⟨hname, ⟨field, hfield, rfl⟩, hdeclared, hexcluded⟩)
    · obtain ⟨e, he, rfl, -⟩ := (exists_contribution_iff hname).2 hmember
      exact List.mem_map_of_mem he
    · exact List.mem_map.2 ⟨_, mem_contributions_iff.2
        ⟨field, hfield, .field hname hdeclared hexcluded⟩, rfl⟩

section Select

variable {options : Options}

theorem select_eq : (select options model request).select = Selected.mergeEntries []
    (contributions model (options.exclusionsFor model.name request) request) := by
  rw [select, Selection.insertAll_select]
  rfl

theorem nodup_keys_select : (Keyed.keys (select options model request).select).Nodup := by
  rw [select_eq]
  exact Selected.nodup_keys_mergeEntries List.nodup_nil

/-- Merging keeps groups apart from fields, as no group has the name of a field. -/
theorem suits_of_mem_select {s : Selected}
    (hs : (name, s) ∈ (select options model request).select) : Suits name s := by
  rw [select_eq] at hs
  exact Selected.forall_mergeEntries (List.forall_mem_nil _) suits_of_mem_contributions
    (fun e he s hs => hs.merge (suits_of_mem_contributions e he)) _ hs

/-- A selected group has the names that are in it, by whichever requests. -/
theorem mem_members_of_mem_select {s : Selected} (hname : IsGroupName name)
    (hs : (name, s) ∈ (select options model request).select) :
    member ∈ s.members ↔
      InGroup model (options.exclusionsFor model.name request) request name member := by
  have hget := Keyed.get?_of_mem nodup_keys_select hs
  have hgroups : ∀ e ∈ contributions model (options.exclusionsFor model.name request) request,
      e.1 = name → e.2.IsGroup := by
    rintro e he rfl
    exact (suits_of_mem_contributions e he).1 hname.1
  have hmerged := @Selected.mem_members_mergeEntries member name [] _ hgroups
  rw [← select_eq, hget, exists_contribution_iff hname] at hmerged
  simpa using hmerged

variable (options model request) in
/-- The selection of a model is that of its groups and of the fields to group by. -/
theorem groups_select :
    Groups model (options.exclusionsFor model.name request) request
      (Selected.entryValues (select options model request).select) := by
  rw [Selected.entryValues_eq_map]
  refine ⟨?_, fun name => ?_, fun name v he hname => ?_, fun name v he hfield => ?_⟩
  · rw [Selected.keys_map_toValue]
    exact nodup_keys_select
  · rw [Selected.keys_map_toValue, select_eq, Selected.mem_keys_mergeEntries,
      mem_keys_contributions_iff]
    exact or_iff_right List.not_mem_nil
  · obtain ⟨⟨_, s⟩, hs, heq⟩ := List.mem_map.1 he
    cases heq
    have hgroup : s.IsGroup := (suits_of_mem_select hs).1 hname.1
    obtain ⟨distinct, hdistinct, hmem, hvalue⟩ := exists_groupValue_eq s.members
    refine ⟨distinct, hdistinct, fun member => ?_, ?_⟩
    · rw [hmem, mem_members_of_mem_select hname hs]
    · rw [← hvalue, hgroup]
      rfl
  · obtain ⟨⟨_, s⟩, hs, heq⟩ := List.mem_map.1 he
    cases heq
    rw [(suits_of_mem_select hs).2 hfield.1]
    rfl

end Select

end Aggregate

/-! ## Queries -/

/-- In a loaded schema the model that an output type sums up is found by its name. -/
theorem Schema.aggregatedModel?_eq {documents : List Document} {schema : Schema}
    {output : OutputType} {model : Model} (h : ofDocuments documents = .ok schema)
    (houtput : output ∈ schema.outputTypes) (hmodel : model ∈ schema.models)
    (hrole : output.role = .aggregate model.name ∨ output.role = .groupBy model.name) :
    schema.aggregatedModel? output.name = some model := by
  have hrepresents := LoadedFrom.represents_of_ofDocuments h
  have hfound : schema.findOutput? output.name = some output :=
    (hrepresents.outputsIndexed.find?_eq_some_iff _ _).2 ⟨mem_outputTypes_iff.1 houtput, rfl⟩
  have hname : output.role.aggregatedModel? = some model.name := by
    rcases hrole with hrole | hrole <;> rw [hrole] <;> rfl
  rw [aggregatedModel?, hfound, Option.bind_eq_bind, Option.bind_some, hname]
  exact (hrepresents.findModel? _ _).2 ⟨hmodel, rfl⟩

/-- **What aggregates select.** A query for an aggregate or group-by result of a model always has
a select argument, whatever is requested and under all options: the groups and the fields to group
by, each at the top. -/
theorem Query.value_groups {documents : List Document} {schema : Schema} {output : OutputType}
    {model : Model} {returnType : String} (h : Schema.ofDocuments documents = .ok schema)
    (houtput : output ∈ schema.outputTypes) (hmodel : model ∈ schema.models)
    (hrole : output.role = .aggregate model.name ∨ output.role = .groupBy model.name)
    (htype : bareType returnType = output.name) (request : Request) (options : Options) :
    ∃ entries, (ofReturnType schema request returnType options).value = .ok (.object entries) ∧
      Aggregate.Groups model (options.exclusionsFor model.name request) request entries := by
  have hsums : schema.aggregatedModel? (bareType returnType) = some model := by
    rw [htype]
    exact Schema.aggregatedModel?_eq h houtput hmodel hrole
  refine ⟨_, ?_, Aggregate.groups_select model request options⟩
  simp only [value, selection, isAggregate, ofReturnType, hsums]
  rfl

/-- Counts that are requested twice are put together, and averages of nothing are left out. -/
theorem Query.value_groups_users :
    (ofReturnType Blog.sumsSchema Blog.sumsRequest "[AggregateUser!]!" Blog.options).value =
        .ok (.object [
          ("_count", .object [("id", .bool true), ("_all", .bool true), ("firstName", .bool true)]),
          ("firstName", .bool true)]) ∧
      Aggregate.Groups Blog.user ["password"] Blog.sumsRequest [
        ("_count", .object [("id", .bool true), ("_all", .bool true), ("firstName", .bool true)]),
        ("firstName", .bool true)] := by
  have hload : Schema.ofDocuments [Blog.withInterface [] [⟨"AggregateUser", []⟩] []] =
      .ok Blog.sumsSchema := rfl
  obtain ⟨entries, hvalue, hgroups⟩ := value_groups hload List.mem_cons_self List.mem_cons_self
    (.inl rfl) (by decide : bareType "[AggregateUser!]!" = _) Blog.sumsRequest Blog.options
  cases hvalue
  exact ⟨rfl, hgroups⟩

end Schematic
