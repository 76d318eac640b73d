import Mathlib.Data.List.Basic
import Schematic.Proofs.Blog
import Schematic.Proofs.Entries

/-!
# The keys of a pruned selection

Requests, labels, types, counts, exclusions, default fields and the fallback all
write into one ordered map. Its keys are listed here without it: first the names
the sub-requests select, in their order (`selectedName?`), then the default
fields in theirs, and the field that tells records apart only where all of these
are missing. A key stands once, where it came first.

A sub-request selects its own name as a plain field (`SelectsPlain`) or as a
relation with something selected of its target (`SelectsNested`), and the name
of the counts if it asks for one that takes something in (`SelectsCount`). Only
the latter two are nested.
-/

namespace Schematic.Prune

variable (schema : Schema) (options : Options) (model : Model) (excluded : List String)

/-- The sub-request selects a plain field, or a relation as a whole. -/
def SelectsPlain (field : Request) : Prop :=
  ¬ isMeta field.name ∧ field.name ∉ excluded ∧
    ∃ declared ∈ model.field? field.name, field.isLeaf ∨ ¬ declared.isRelation

/-- The sub-request selects a relation of whose target it selects something. -/
def SelectsNested (field : Request) : Prop :=
  ¬ isMeta field.name ∧ field.name ∉ excluded ∧
    ∃ declared ∈ model.field? field.name, declared.isRelation ∧ ¬ field.isLeaf ∧
      ∃ target ∈ schema.findModel? declared.type,
        ∃ nested ∈ (prune schema options target field).toOption, ¬ nested.isEmpty

/-- The sub-request asks for a count, and the count takes something in. -/
def SelectsCount (field : Request) : Prop :=
  field.name ∉ excluded ∧ AsksCount model field.name ∧
    ∃ counted ∈ field.fields, Countable model excluded counted.name

/-- The sub-request asks for a count, and the count takes the name in. -/
def CountsName (field : Request) (name : String) : Prop :=
  field.name ∉ excluded ∧ AsksCount model field.name ∧
    Countable model excluded name ∧ ∃ counted ∈ field.fields, counted.name = name

instance (field : Request) : Decidable (SelectsPlain model excluded field) :=
  inferInstanceAs (Decidable (_ ∧ _ ∧ _))

instance (field : Request) : Decidable (SelectsNested schema options model excluded field) :=
  inferInstanceAs (Decidable (_ ∧ _ ∧ _))

instance (name : String) : Decidable (AsksCount model name) :=
  inferInstanceAs (Decidable (_ ∧ _))

instance (name : String) : Decidable (Countable model excluded name) :=
  inferInstanceAs (Decidable (_ ∧ _ ∧ _))

instance (field : Request) : Decidable (SelectsCount model excluded field) :=
  inferInstanceAs (Decidable (_ ∧ _ ∧ _))

/-- The name a sub-request selects. -/
def selectedName? (field : Request) : Option String :=
  if SelectsPlain model excluded field ∨ SelectsNested schema options model excluded field then
    some field.name
  else if SelectsCount model excluded field then some countName
  else none

/-- The names of the default fields that can be selected. -/
def defaultNames (request : Request) : List String :=
  (options.defaultsFor model.name request).filterMap fun default =>
    if default.2 ∧ default.1 ∉ options.exclusionsFor model.name request ∧
        (model.field? default.1).isSome then some default.1
    else none

/-- The names that are selected, in the order in which they are. -/
def selectedNames (request : Request) : List String :=
  let excluded := options.exclusionsFor model.name request
  let wanted := request.fields.filterMap (selectedName? schema options model excluded) ++
    defaultNames options model request
  if wanted = [] ∧ options.emptySelection = .primaryKey then
    (model.idName.filter (· ∉ excluded)).toList
  else wanted

/-- What is selected before any falling back. -/
inductive Wanted (request : Request) : String → Prop
  | requested {field : Request} (hfield : field ∈ request.fields)
      (hselects : SelectsPlain model (options.exclusionsFor model.name request) field ∨
        SelectsNested schema options model (options.exclusionsFor model.name request) field) :
      Wanted request field.name
  | counted {field : Request} (hfield : field ∈ request.fields)
      (hselects : SelectsCount model (options.exclusionsFor model.name request) field) :
      Wanted request countName
  | default {name : String} (hflagged : (name, true) ∈ options.defaultsFor model.name request)
      (hdeclared : (model.field? name).isSome)
      (hexcluded : name ∉ options.exclusionsFor model.name request) :
      Wanted request name

variable {schema options model excluded}

/-! ## Sub-requests that contribute -/

/-- No field of the query language asks for a count. -/
theorem not_isMeta_of_asksCount {name : String} (h : AsksCount model name) : ¬ isMeta name := by
  obtain ⟨-, rfl | hfind⟩ := h
  · decide
  · rw [FieldRole.ofName] at hfind
    split at hfind
    · rename_i hstart
      intro hmeta
      obtain ⟨_, hfindMany⟩ := List.isPrefixOf_iff_prefix.1 hstart
      obtain ⟨_, hunderscores⟩ := List.isPrefixOf_iff_prefix.1 hmeta
      have hhead := congrArg List.head? (hfindMany.trans hunderscores.symm)
      simp [findManyStart] at hhead
    · cases hfind

theorem SelectsPlain.contributes {field : Request} (h : SelectsPlain model excluded field) :
    Contributes schema options model excluded field field.name .field := by
  obtain ⟨hmeta, hexcluded, declared, hdeclared, hplain⟩ := h
  exact .plain hmeta hexcluded hdeclared hplain

/-- A relation with something selected of its target contributes that selection. -/
theorem SelectsNested.contributes {field : Request}
    (h : SelectsNested schema options model excluded field) :
    ∃ nested : Selection,
      Contributes schema options model excluded field field.name nested.toSelected := by
  obtain ⟨hmeta, hexcluded, declared, hdeclared, hrelation, hfields, target, htarget, nested,
    hnested, hne⟩ := h
  have hpruned : prune schema options target field = .ok nested := by
    rcases hprune : prune schema options target field with error | node <;>
      rw [hprune] at hnested <;> cases hnested
    rfl
  exact ⟨nested, .relation hmeta hexcluded hdeclared hrelation hfields htarget hpruned hne⟩

/-- A count takes something in if it takes some name in. -/
theorem selectsCount_iff_exists_countsName {field : Request} :
    SelectsCount model excluded field ↔ ∃ name, CountsName model excluded field name := by
  constructor
  · rintro ⟨hexcluded, hasks, counted, hcounted, hcountable⟩
    exact ⟨_, hexcluded, hasks, hcountable, counted, hcounted, rfl⟩
  · rintro ⟨_, hexcluded, hasks, hcountable, counted, hcounted, rfl⟩
    exact ⟨hexcluded, hasks, counted, hcounted, hcountable⟩

/-- Without an error, a count that takes a name in is contributed. -/
theorem CountsName.contributes {field : Request} {name : String}
    (h : CountsName model excluded field name)
    (hok : ∃ e, entry schema options model excluded field = .ok e) :
    ∃ counts : Selection, name ∈ Keyed.keys counts.select ∧
      Contributes schema options model excluded field countName counts.toSelected := by
  obtain ⟨hexcluded, hasks, hcountable, hcounted⟩ := h
  have hmeta := not_isMeta_of_asksCount hasks
  obtain ⟨counts, hcounts⟩ := exists_count_of_entry hmeta hexcluded hasks hok
  have hkey : name ∈ Keyed.keys counts.select := (mem_keys_count hcounts).2 ⟨hcountable, hcounted⟩
  refine ⟨counts, hkey, .count hmeta hexcluded hasks hcounts fun hempty => ?_⟩
  rw [List.isEmpty_iff.1 hempty] at hkey
  cases hkey

theorem SelectsCount.contributes {field : Request} (h : SelectsCount model excluded field)
    (hok : ∃ e, entry schema options model excluded field = .ok e) :
    ∃ counts : Selection,
      Contributes schema options model excluded field countName counts.toSelected := by
  obtain ⟨name, hname⟩ := selectsCount_iff_exists_countsName.1 h
  obtain ⟨counts, -, hcontributes⟩ := hname.contributes hok
  exact ⟨counts, hcontributes⟩

/-- What is contributed is selected in one of the three ways. -/
theorem Contributes.selects {field : Request} {name : String} {selected : Selected}
    (h : Contributes schema options model excluded field name selected) :
    name = field.name ∧ SelectsPlain model excluded field ∧ selected = .field ∨
    name = field.name ∧ SelectsNested schema options model excluded field ∧ selected.isNested ∨
    name = countName ∧ SelectsCount model excluded field ∧ selected.isNested := by
  cases h with
  | plain hmeta hexcluded hdeclared hplain =>
    exact .inl ⟨rfl, ⟨hmeta, hexcluded, _, hdeclared, hplain⟩, rfl⟩
  | relation hmeta hexcluded hdeclared hrelation hfields htarget hnested hne =>
    refine .inr (.inl ⟨rfl, ⟨hmeta, hexcluded, _, hdeclared, hrelation, hfields, _, htarget, _,
      ?_, hne⟩, rfl⟩)
    rw [hnested]
    rfl
  | @count counts hmeta hexcluded hasks hcounts hne =>
    obtain ⟨⟨key, _⟩, hmem⟩ := List.exists_mem_of_ne_nil _ (mt List.isEmpty_iff.2 hne)
    obtain ⟨hcountable, counted, hcounted, rfl⟩ :=
      (mem_keys_count hcounts).1 (List.mem_map.2 ⟨_, hmem, rfl⟩)
    exact .inr (.inr ⟨rfl, ⟨hexcluded, hasks, counted, hcounted, hcountable⟩, rfl⟩)

theorem selectedName?_eq_some_iff {field : Request} {name : String} :
    selectedName? schema options model excluded field = some name ↔
      name = field.name ∧ (SelectsPlain model excluded field ∨
        SelectsNested schema options model excluded field) ∨
      name = countName ∧ SelectsCount model excluded field := by
  rw [selectedName?]
  split
  · rename_i hselects
    -- What is declared asks for no count, so only one of the two names is selected.
    have hdeclared : model.field? field.name ≠ none := by
      rcases hselects with ⟨-, -, _, hdeclared, -⟩ | ⟨-, -, _, hdeclared, -⟩ <;>
        rw [hdeclared] <;> exact Option.some_ne_none _
    have hnot : ¬ SelectsCount model excluded field := fun h => hdeclared h.2.1.1
    simp [hselects, hnot, eq_comm]
  · rename_i hnot
    split <;> rename_i hcount <;> simp [hnot, hcount, eq_comm]

/-- Without an error, a sub-request contributes an entry under the name it selects. -/
theorem selectedName?_eq {field : Request}
    (hok : ∃ e, entry schema options model excluded field = .ok e) :
    selectedName? schema options model excluded field =
      (contribution? schema options model excluded field).map Prod.fst := by
  ext name
  rw [Option.map_eq_some_iff, selectedName?_eq_some_iff]
  constructor
  · rintro (⟨rfl, hplain | hnested⟩ | ⟨rfl, hcount⟩)
    · exact ⟨_, contribution?_eq_some_iff.2 hplain.contributes, rfl⟩
    · obtain ⟨nested, hcontributes⟩ := hnested.contributes
      exact ⟨_, contribution?_eq_some_iff.2 hcontributes, rfl⟩
    · obtain ⟨counts, hcontributes⟩ := hcount.contributes hok
      exact ⟨_, contribution?_eq_some_iff.2 hcontributes, rfl⟩
  · rintro ⟨⟨_, selected⟩, hentry, rfl⟩
    rcases (contribution?_eq_some_iff.1 hentry).selects with
      ⟨rfl, hplain, -⟩ | ⟨rfl, hnested, -⟩ | ⟨rfl, hcount, -⟩
    · exact .inl ⟨rfl, .inl hplain⟩
    · exact .inl ⟨rfl, .inr hnested⟩
    · exact .inr ⟨rfl, hcount⟩

/-! ## All keys -/

/-- The entries stand under the names that are selected. -/
theorem keys_entries {request : Request} (hok : ∀ field ∈ request.fields, ∃ e,
      entry schema options model (options.exclusionsFor model.name request) field = .ok e) :
    Keyed.keys (entries schema options model request) =
      selectedNames schema options model request := by
  have hcontributed : Keyed.keys (request.fields.filterMap
      (contribution? schema options model (options.exclusionsFor model.name request))) =
        request.fields.filterMap
          (selectedName? schema options model (options.exclusionsFor model.name request)) := by
    rw [Keyed.keys, List.map_filterMap]
    exact List.filterMap_congr fun field hfield => (selectedName?_eq (hok field hfield)).symm
  have hdefault : Keyed.keys ((options.defaultsFor model.name request).filterMap
      (defaultContribution? model (options.exclusionsFor model.name request))) =
        defaultNames options model request := by
    rw [Keyed.keys, List.map_filterMap, defaultNames]
    refine List.filterMap_congr fun default _ => ?_
    rw [defaultContribution?]
    split <;> rfl
  have hwanted := congrArg₂ (· ++ ·) hcontributed hdefault
  simp only [Keyed.keys, ← List.map_append] at hwanted
  rw [entries, completed, selectedNames, ← hwanted]
  simp only [List.map_eq_nil_iff, List.isEmpty_iff]
  split
  · rw [Keyed.keys, idEntries, List.map_map]
    exact List.map_id _
  · rfl

/-- Before any falling back, exactly what is wanted is selected. -/
theorem mem_wanted_iff {request : Request} {name : String} :
    name ∈ request.fields.filterMap
        (selectedName? schema options model (options.exclusionsFor model.name request)) ++
          defaultNames options model request ↔
      Wanted schema options model request name := by
  rw [List.mem_append, List.mem_filterMap, defaultNames, List.mem_filterMap]
  constructor
  · rintro (⟨field, hfield, hname⟩ | ⟨⟨_, flag⟩, hdefault, hname⟩)
    · rcases selectedName?_eq_some_iff.1 hname with ⟨rfl, hselects⟩ | ⟨rfl, hselects⟩
      · exact .requested hfield hselects
      · exact .counted hfield hselects
    · split at hname
      · rename_i h
        cases hname
        obtain ⟨rfl, hexcluded, hdeclared⟩ := h
        exact .default hdefault hdeclared hexcluded
      · cases hname
  · rintro (⟨hfield, hselects⟩ | ⟨hfield, hselects⟩ | ⟨hflagged, hdeclared, hexcluded⟩)
    · exact .inl ⟨_, hfield, selectedName?_eq_some_iff.2 (.inl ⟨rfl, hselects⟩)⟩
    · exact .inl ⟨_, hfield, selectedName?_eq_some_iff.2 (.inr ⟨rfl, hselects⟩)⟩
    · exact .inr ⟨_, hflagged, if_pos ⟨rfl, hexcluded, hdeclared⟩⟩

/-- The field that tells records apart is fallen back on where nothing else is selected,
if that is asked for. -/
theorem mem_selectedNames_iff {request : Request} {name : String} :
    name ∈ selectedNames schema options model request ↔
      Wanted schema options model request name ∨
        model.idName = some name ∧ name ∉ options.exclusionsFor model.name request ∧
          options.emptySelection = .primaryKey ∧
          ∀ other, ¬ Wanted schema options model request other := by
  simp only [← mem_wanted_iff, ← List.eq_nil_iff_forall_not_mem]
  rw [selectedNames]
  split
  · -- Nothing is wanted, and so only the fallback is left.
    rename_i hnone
    rw [hnone.1, Option.mem_toList, Option.filter_eq_some_iff]
    simp [hnone.2]
  · rename_i hnot
    refine (or_iff_left ?_).symm
    rintro ⟨-, -, hkey, hnone⟩
    exact hnot ⟨hnone, hkey⟩

/-- A key is nested if a sub-request selects something nested under it. -/
theorem exists_nested_entry_iff {request : Request} {name : String}
    (hok : ∀ field ∈ request.fields, ∃ e,
      entry schema options model (options.exclusionsFor model.name request) field = .ok e) :
    (∃ e ∈ entries schema options model request, e.1 = name ∧ e.2.isNested) ↔
      ∃ field ∈ request.fields,
        name = field.name ∧
          SelectsNested schema options model (options.exclusionsFor model.name request) field ∨
        name = countName ∧
          SelectsCount model (options.exclusionsFor model.name request) field := by
  constructor
  · rintro ⟨⟨name, selected⟩, hmem, rfl, hnested⟩
    rcases of_mem_entries hmem with ⟨field, hfield, hcontributes⟩ | ⟨rfl, -⟩
    · rcases hcontributes.selects with ⟨-, -, rfl⟩ | ⟨hname, hselects, -⟩ | ⟨hname, hselects, -⟩
      · cases hnested
      · exact ⟨field, hfield, .inl ⟨hname, hselects⟩⟩
      · exact ⟨field, hfield, .inr ⟨hname, hselects⟩⟩
    · cases hnested
  · rintro ⟨field, hfield, ⟨rfl, hselects⟩ | ⟨rfl, hselects⟩⟩
    · obtain ⟨nested, hcontributes⟩ := hselects.contributes
      exact ⟨_, hcontributes.mem_entries hfield, rfl, rfl⟩
    · obtain ⟨counts, hcontributes⟩ := hselects.contributes (hok field hfield)
      exact ⟨_, hcontributes.mem_entries hfield, rfl, rfl⟩

/-- **The keys of a pruned selection** are the names that are wanted, or else the
one of the field that tells records apart. They stand in the order of the first
sub-request that selects them, and default fields come last; nested are those
under which a sub-request selects something nested. -/
theorem pruneNamed_keys {name : String} {request : Request} {node : Selection}
    (hmodel : schema.resolveModel? name = some model)
    (hnode : pruneNamed schema options name request = .ok node) :
    (∀ key, key ∈ Keyed.keys node.select ↔
      Wanted schema options model request key ∨
        model.idName = some key ∧ key ∉ options.exclusionsFor model.name request ∧
          options.emptySelection = .primaryKey ∧
          ∀ other, ¬ Wanted schema options model request other) ∧
    Keyed.keys node.select = (selectedNames schema options model request).eraseDups ∧
    ∀ key, (∃ s, node.get? key = some s ∧ s.isNested) ↔
      ∃ field ∈ request.fields,
        key = field.name ∧
          SelectsNested schema options model (options.exclusionsFor model.name request) field ∨
        key = countName ∧
          SelectsCount model (options.exclusionsFor model.name request) field := by
  rw [pruneNamed, hmodel] at hnode
  obtain ⟨hok, rfl⟩ := prune_eq_ok_iff.1 hnode
  have hkeys : Keyed.keys (Selected.mergeEntries [] (entries schema options model request)) =
      (selectedNames schema options model request).eraseDups := by
    rw [Selected.keys_mergeEntries_nil, keys_entries hok]
  refine ⟨fun key => ?_, hkeys, fun key => ?_⟩
  · rw [hkeys, List.mem_eraseDups, mem_selectedNames_iff]
  · rw [← exists_nested_entry_iff hok, Selection.get?,
      Selected.get?_mergeEntries_isNested merge_field_of_mem_entries]
    exact or_iff_right fun ⟨_, hget, _⟩ => nomatch hget

/-- Of the users of the blog, the posts are wanted, under two labels but as one key,
and the passwords are not. -/
theorem pruneNamed_keys_blog :
    Keyed.keys Blog.selection.select = ["id", "posts", countName, "firstName"] ∧
      (selectedNames Blog.schema Blog.options Blog.user Blog.request).eraseDups =
        ["id", "posts", countName, "firstName"] ∧
      Wanted Blog.schema Blog.options Blog.user Blog.request "posts" ∧
      ¬ Wanted Blog.schema Blog.options Blog.user Blog.request "password" := by
  have hmodel : Blog.schema.resolveModel? "User" = some Blog.user := rfl
  have hnode : pruneNamed Blog.schema Blog.options "User" Blog.request = .ok Blog.selection := rfl
  obtain ⟨hkey, hkeys, -⟩ := pruneNamed_keys hmodel hnode
  have hposts := (hkey "posts").1 (.tail _ (.head _))
  refine ⟨rfl, hkeys.symm, hposts.resolve_right fun h => ?_, fun h => ?_⟩
  · exact absurd h.1 (by decide)
  · exact absurd ((hkey "password").2 (.inl h)) (by decide)

end Schematic.Prune
