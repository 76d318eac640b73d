import Schematic.Proofs.Merging
import Schematic.Proofs.Results
import Schematic.Selection.Prune

/-!
# What pruning merges

A pruned selection is one merge of entries (`prune_eq_ok_iff`): those the
sub-requests contribute, in their order, then the default fields, and, if there
are none of either, the field that tells records apart. The entry of a
sub-request is `Prune.entry`, and `Contributes` lists the three ways in which
there is one; `Countable` says which names a count takes in.

Proofs about pruning go by induction on the request (`Request.induction`), take
the selection apart with `prune_eq_ok_iff`, and treat the entries one by one.
-/

namespace Schematic

/-! ## Requests -/

namespace Request

/-- Nothing is requested below a field just when it has no sub-requests. -/
theorem isLeaf_iff {request : Request} : request.isLeaf ↔ request.fields = [] := by
  simp [isLeaf, fields]

/-- A sub-request is smaller than its request. -/
theorem sizeOf_lt_of_mem_fields {request field : Request} (h : field ∈ request.fields) :
    sizeOf field < sizeOf request := by
  obtain ⟨group, hgroup, hfield⟩ := List.mem_flatMap.1 h
  obtain ⟨entry, hentry, rfl⟩ := List.mem_map.1 hfield
  obtain ⟨type, entries⟩ := group
  obtain ⟨label, field⟩ := entry
  cases request with
  | mk name label' args groups =>
    have hgroups := List.sizeOf_lt_of_mem hgroup
    have hentries := List.sizeOf_lt_of_mem hentry
    simp only [Request.mk.sizeOf_spec, Prod.mk.sizeOf_spec] at *
    omega

/-- What holds of a request whenever it holds of its sub-requests holds of every
request. -/
theorem induction {P : Request → Prop}
    (h : ∀ request, (∀ field ∈ request.fields, P field) → P request) (request : Request) :
    P request :=
  h request fun field hfield =>
    have := sizeOf_lt_of_mem_fields hfield
    induction h field
termination_by sizeOf request

end Request

namespace Prune

variable (schema : Schema) (options : Options) (model : Model) (excluded : List String)

/-- The entry a sub-request contributes to the selection of its model. -/
def entry (field : Request) : Except SelectError (Option (String × Selected)) :=
  if isMeta field.name ∨ field.name ∈ excluded then .ok none
  else match Requested.ofName model field.name with
    | .count => (count options model excluded field).map (nestedEntry countName)
    | .declared declared =>
      if declared.isRelation ∧ ¬ field.isLeaf then
        match schema.findModel? declared.type with
        | some target => (prune schema options target field).map (nestedEntry field.name)
        | none => .ok none
      else .ok (some (field.name, .field))
    | .unknown =>
      if options.strict then .error (.unknownField model.name field.name) else .ok none

/-- The entry a sub-request contributes, if it contributes one. -/
def contribution? (field : Request) : Option (String × Selected) :=
  (entry schema options model excluded field).toOption.join

/-- The labels of sub-requests do not matter to what they contribute. -/
theorem pruneFields_eq (fields : List (String × Request)) :
    pruneFields schema options model excluded fields =
      ((fields.map Prod.snd).mapM (entry schema options model excluded)).map
        (List.filterMap id) := by
  induction fields with
  | nil => rfl
  | cons field rest ih =>
    obtain ⟨label, field⟩ := field
    have hcons : pruneFields schema options model excluded ((label, field) :: rest) = do
        let first ← entry schema options model excluded field
        let more ← pruneFields schema options model excluded rest
        return first.toList ++ more := by
      rw [pruneFields, entry]
      split
      · rfl
      · cases Requested.ofName model field.name with
        | count => rfl
        | declared declared =>
          simp only
          split
          · cases schema.findModel? declared.type <;> rfl
          · rfl
        | unknown =>
          simp only
          split <;> rfl
    rw [hcons, ih, List.map_cons, mapM_filterMap_cons]

/-- Groups are pruned one after the other, and the types they are for do not matter. -/
theorem pruneGroups_eq (groups : List (String × List (String × Request))) :
    pruneGroups schema options model excluded groups =
      ((groups.flatMap fun group => group.2.map Prod.snd).mapM
        (entry schema options model excluded)).map (List.filterMap id) := by
  induction groups with
  | nil => rfl
  | cons group rest ih =>
    obtain ⟨type, fields⟩ := group
    rw [pruneGroups, pruneFields_eq, ih, List.flatMap_cons, List.mapM_append]
    cases (fields.map Prod.snd).mapM (entry schema options model excluded) with
    | error => rfl
    | ok first =>
      cases (rest.flatMap fun group => group.2.map Prod.snd).mapM
          (entry schema options model excluded) with
      | error => rfl
      | ok more =>
        simp [bind, Except.bind, pure, Except.pure, Except.map]

/-- A selection is completed from the entries the sub-requests contribute. -/
theorem prune_eq (request : Request) :
    prune schema options model request =
      ((request.fields.mapM
          (entry schema options model (options.exclusionsFor model.name request))).map
        (List.filterMap id)).map (complete options model request) := by
  obtain ⟨name, label, args, groups⟩ := request
  rw [prune, pruneGroups_eq]
  rfl

/-! ## What a count takes in -/

/-- A count takes in the list relations that are not excluded. -/
def Countable (name : String) : Prop :=
  ¬ isMeta name ∧ name ∉ excluded ∧ ∃ declared ∈ model.field? name, declared.isListRelation

/-- What is selected under the name of a counted relation. -/
def countedAs (args : Keyed Json.Value) : Selected :=
  match relationArguments args with
  | [] => .field
  | arguments => .counted arguments

/-- The entry a sub-request contributes to a count, if it contributes one. -/
def countContribution? (field : Request) : Option (String × Selected) :=
  (countEntry options model excluded field).toOption.join

variable {options model excluded}

/-- A list relation that is not excluded is counted, with its arguments. -/
theorem countEntry_of_countable {field : Request} (h : Countable model excluded field.name) :
    countEntry options model excluded field = .ok (some (field.name, countedAs field.args)) := by
  obtain ⟨hmeta, hexcluded, declared, hdeclared, hlist⟩ := h
  rw [countEntry, if_neg hmeta, Option.mem_def.1 hdeclared, countedAs]
  simp only [if_pos (And.intro hlist hexcluded)]
  cases relationArguments field.args <;> rfl

variable (options) in
/-- What is not counted has no entry: it is passed over, or an error. -/
theorem countEntry_of_not_countable {field : Request} (h : ¬ Countable model excluded field.name) :
    countEntry options model excluded field = .ok none ∨
      countEntry options model excluded field =
        .error (.unknownField model.name field.name) := by
  rw [countEntry]
  by_cases hmeta : isMeta field.name
  · exact .inl (if_pos hmeta)
  · rw [if_neg hmeta]
    rcases hdeclared : model.field? field.name with _ | declared
    · by_cases hstrict : options.strict <;> simp [hstrict]
    · refine .inl (if_neg fun hcounted => h ?_)
      exact ⟨hmeta, hcounted.2, declared, hdeclared, hcounted.1⟩

theorem countContribution?_eq_some_iff {field : Request} {name : String} {selected : Selected} :
    countContribution? options model excluded field = some (name, selected) ↔
      Countable model excluded field.name ∧ name = field.name ∧
        selected = countedAs field.args := by
  rw [countContribution?]
  by_cases h : Countable model excluded field.name
  · simp [countEntry_of_countable h, h, Except.toOption, eq_comm]
  · rcases countEntry_of_not_countable options h with h' | h' <;>
      simp [h', h, Except.toOption]

variable (options model excluded) in
/-- A count has the entries of its sub-requests inserted one after the other. -/
theorem count_eq (request : Request) :
    count options model excluded request =
      ((request.fields.mapM (countEntry options model excluded)).map (List.filterMap id)).map
        Selection.empty.insertAll := by
  rw [count]
  cases request.fields.mapM (countEntry options model excluded) <;> rfl

/-- A count is one merge of the entries of its sub-requests, without arguments. -/
theorem count_eq_ok_iff {request : Request} {counts : Selection} :
    count options model excluded request = .ok counts ↔
      (∀ field ∈ request.fields, ∃ e, countEntry options model excluded field = .ok e) ∧
        counts = ⟨Selected.mergeEntries []
          (request.fields.filterMap (countContribution? options model excluded)), []⟩ := by
  rw [count_eq, map_eq_ok_iff]
  simp only [mapM_filterMap_eq_ok_iff]
  constructor
  · rintro ⟨entries, ⟨hall, rfl⟩, rfl⟩
    exact ⟨hall, Selection.insertAll_eq _ _⟩
  · rintro ⟨hall, rfl⟩
    exact ⟨_, ⟨hall, rfl⟩, Selection.insertAll_eq _ _⟩

theorem isCounted_countedAs (args : Keyed Json.Value) : (countedAs args).IsCounted := by
  rw [countedAs]
  split
  · exact .inl rfl
  · exact .inr ⟨_, rfl⟩

variable (options model excluded) in
theorem isCounted_countContributions (fields : List Request) :
    ∀ e ∈ fields.filterMap (countContribution? options model excluded), e.2.IsCounted := by
  rintro ⟨name, selected⟩ he
  obtain ⟨field, -, hentry⟩ := List.mem_filterMap.1 he
  obtain ⟨-, -, rfl⟩ := countContribution?_eq_some_iff.1 hentry
  exact isCounted_countedAs field.args

/-- A count holds counted relations only. -/
theorem isCounted_of_mem_count {request : Request} {counts : Selection}
    (h : count options model excluded request = .ok counts) :
    ∀ e ∈ counts.select, e.2.IsCounted := by
  have hentries := isCounted_countContributions options model excluded request.fields
  rw [(count_eq_ok_iff.1 h).2]
  exact Selected.forall_mergeEntries (P := fun _ s => s.IsCounted) (List.forall_mem_nil _) hentries
    fun e he _ hs => hs.merge (hentries e he)

/-- A count has the names it takes in as its keys. -/
theorem mem_keys_count {request : Request} {counts : Selection} {name : String}
    (h : count options model excluded request = .ok counts) :
    name ∈ Keyed.keys counts.select ↔
      Countable model excluded name ∧ ∃ field ∈ request.fields, field.name = name := by
  rw [(count_eq_ok_iff.1 h).2, Selected.mem_keys_mergeEntries, Keyed.keys_nil]
  simp only [List.not_mem_nil, false_or, Keyed.keys, List.mem_map, List.mem_filterMap]
  constructor
  · rintro ⟨⟨_, selected⟩, ⟨field, hfield, hentry⟩, rfl⟩
    obtain ⟨hcountable, rfl, -⟩ := countContribution?_eq_some_iff.1 hentry
    exact ⟨hcountable, field, hfield, rfl⟩
  · rintro ⟨hcountable, field, hfield, rfl⟩
    exact ⟨_, ⟨field, hfield, countContribution?_eq_some_iff.2 ⟨hcountable, rfl, rfl⟩⟩, rfl⟩

/-! ## What a sub-request contributes -/

variable (options model excluded)

/-- A request for a count of relations: its name is not declared, and asks for one. -/
def AsksCount (name : String) : Prop :=
  model.field? name = none ∧ (name = countName ∨ FieldRole.ofName name = .findMany)

/-- The three ways in which a sub-request contributes an entry. -/
inductive Contributes (field : Request) : String → Selected → Prop
  /-- A plain field, or a relation with nothing requested below it. -/
  | plain {declared : Field} (hmeta : ¬ isMeta field.name) (hexcluded : field.name ∉ excluded)
      (hdeclared : model.field? field.name = some declared)
      (hplain : field.isLeaf ∨ ¬ declared.isRelation) :
      Contributes field field.name .field
  /-- A relation with a selection of its target that is not empty. -/
  | relation {declared : Field} {target : Model} {nested : Selection}
      (hmeta : ¬ isMeta field.name) (hexcluded : field.name ∉ excluded)
      (hdeclared : model.field? field.name = some declared)
      (hrelation : declared.isRelation) (hfields : ¬ field.isLeaf)
      (htarget : schema.findModel? declared.type = some target)
      (hnested : prune schema options target field = .ok nested) (hne : ¬ nested.isEmpty) :
      Contributes field field.name nested.toSelected
  /-- A count that takes something in. -/
  | count {counts : Selection} (hmeta : ¬ isMeta field.name) (hexcluded : field.name ∉ excluded)
      (hasks : AsksCount model field.name)
      (hcounts : count options model excluded field = .ok counts) (hne : ¬ counts.isEmpty) :
      Contributes field countName counts.toSelected

variable {schema options model excluded}

theorem ofName_of_declared {name : String} {declared : Field}
    (h : model.field? name = some declared) :
    Requested.ofName model name = .declared declared := by
  rw [Requested.ofName, h]

theorem declared_of_ofName {name : String} {declared : Field}
    (h : Requested.ofName model name = .declared declared) :
    model.field? name = some declared := by
  rw [Requested.ofName] at h
  split at h
  case h_1 field hfield =>
    cases h
    exact hfield
  case h_2 => split at h <;> cases h

theorem ofName_of_asksCount {name : String} (h : AsksCount model name) :
    Requested.ofName model name = .count := by
  rw [Requested.ofName, h.1]
  exact if_pos h.2

theorem ofName_of_unknown {name : String} (h : model.field? name = none)
    (hasks : ¬ AsksCount model name) : Requested.ofName model name = .unknown := by
  rw [Requested.ofName, h]
  exact if_neg fun h' => hasks ⟨h, h'⟩

theorem nestedEntry_eq_some_iff {name name' : String} {nested : Selection} {selected : Selected} :
    nestedEntry name nested = some (name', selected) ↔
      ¬ nested.isEmpty ∧ name' = name ∧ selected = nested.toSelected := by
  rw [nestedEntry]
  cases nested.isEmpty <;> simp [eq_comm]

/-- A count contributes under one name, by whichever it is asked for. -/
theorem entry_of_asksCount {field : Request} (hmeta : ¬ isMeta field.name)
    (hexcluded : field.name ∉ excluded) (hasks : AsksCount model field.name) :
    entry schema options model excluded field =
      (count options model excluded field).map (nestedEntry countName) := by
  rw [entry, if_neg (not_or.2 ⟨hmeta, hexcluded⟩), ofName_of_asksCount hasks]

/-- A relation is pruned for its target, and contributes if anything is selected of that. -/
theorem entry_of_relation {field : Request} {declared : Field} (hmeta : ¬ isMeta field.name)
    (hexcluded : field.name ∉ excluded) (hdeclared : model.field? field.name = some declared)
    (hrelation : declared.isRelation) (hfields : ¬ field.isLeaf) :
    entry schema options model excluded field = match schema.findModel? declared.type with
      | some target => (prune schema options target field).map (nestedEntry field.name)
      | none => .ok none := by
  rw [entry, if_neg (not_or.2 ⟨hmeta, hexcluded⟩), ofName_of_declared hdeclared]
  exact if_pos ⟨hrelation, hfields⟩

theorem entry_of_plain {field : Request} {declared : Field} (hmeta : ¬ isMeta field.name)
    (hexcluded : field.name ∉ excluded) (hdeclared : model.field? field.name = some declared)
    (hplain : field.isLeaf ∨ ¬ declared.isRelation) :
    entry schema options model excluded field = .ok (some (field.name, .field)) := by
  rw [entry, if_neg (not_or.2 ⟨hmeta, hexcluded⟩), ofName_of_declared hdeclared]
  exact if_neg fun h => hplain.elim h.2 (absurd h.1)

/-- A name that is not declared and asks for no count has no entry. -/
theorem entry_of_unknown {field : Request} (hdeclared : model.field? field.name = none)
    (hasks : ¬ AsksCount model field.name) (e : String × Selected) :
    entry schema options model excluded field ≠ .ok (some e) := by
  rw [entry, ofName_of_unknown hdeclared hasks]
  split
  · simp
  · cases options.strict <;> simp

/-- A sub-request has an entry just when it contributes it in one of the three ways. -/
theorem entry_eq_some_iff {field : Request} {name : String} {selected : Selected} :
    entry schema options model excluded field = .ok (some (name, selected)) ↔
      Contributes schema options model excluded field name selected := by
  constructor
  · intro h
    by_cases hskip : isMeta field.name ∨ field.name ∈ excluded
    · rw [entry, if_pos hskip] at h
      cases h
    · obtain ⟨hmeta, hexcluded⟩ := not_or.1 hskip
      rcases hdeclared : model.field? field.name with _ | declared
      · by_cases hasks : AsksCount model field.name
        · rw [entry_of_asksCount hmeta hexcluded hasks] at h
          obtain ⟨counts, hcounts, hentry⟩ := map_eq_ok_iff.1 h
          obtain ⟨hne, rfl, rfl⟩ := nestedEntry_eq_some_iff.1 hentry
          exact .count hmeta hexcluded hasks hcounts hne
        · exact absurd h (entry_of_unknown hdeclared hasks _)
      · by_cases hplain : field.isLeaf ∨ ¬ declared.isRelation
        · rw [entry_of_plain hmeta hexcluded hdeclared hplain] at h
          cases h
          exact .plain hmeta hexcluded hdeclared hplain
        · obtain ⟨hfields, hrelation⟩ := not_or.1 hplain
          have hrelation := Decidable.not_not.1 hrelation
          rw [entry_of_relation hmeta hexcluded hdeclared hrelation hfields] at h
          rcases htarget : schema.findModel? declared.type with _ | target
          · rw [htarget] at h
            cases h
          · rw [htarget] at h
            obtain ⟨nested, hnested, hentry⟩ := map_eq_ok_iff.1 h
            obtain ⟨hne, rfl, rfl⟩ := nestedEntry_eq_some_iff.1 hentry
            exact .relation hmeta hexcluded hdeclared hrelation hfields htarget hnested hne
  · rintro (⟨hmeta, hexcluded, hdeclared, hplain⟩ |
      ⟨hmeta, hexcluded, hdeclared, hrelation, hfields, htarget, hnested, hne⟩ |
      ⟨hmeta, hexcluded, hasks, hcounts, hne⟩)
    · exact entry_of_plain hmeta hexcluded hdeclared hplain
    · rw [entry_of_relation hmeta hexcluded hdeclared hrelation hfields, htarget]
      exact map_eq_ok_iff.2 ⟨_, hnested, nestedEntry_eq_some_iff.2 ⟨hne, rfl, rfl⟩⟩
    · rw [entry_of_asksCount hmeta hexcluded hasks]
      exact map_eq_ok_iff.2 ⟨_, hcounts, nestedEntry_eq_some_iff.2 ⟨hne, rfl, rfl⟩⟩

theorem contribution?_eq_some_iff {field : Request} {name : String} {selected : Selected} :
    contribution? schema options model excluded field = some (name, selected) ↔
      Contributes schema options model excluded field name selected := by
  rw [contribution?, ← entry_eq_some_iff]
  cases entry schema options model excluded field <;> simp [Except.toOption]

/-- Without an error, a request for a count has one. -/
theorem exists_count_of_entry {field : Request} (hmeta : ¬ isMeta field.name)
    (hexcluded : field.name ∉ excluded) (hasks : AsksCount model field.name)
    (hok : ∃ e, entry schema options model excluded field = .ok e) :
    ∃ counts, count options model excluded field = .ok counts := by
  obtain ⟨e, hentry⟩ := hok
  rw [entry_of_asksCount hmeta hexcluded hasks] at hentry
  obtain ⟨counts, hcounts, -⟩ := map_eq_ok_iff.1 hentry
  exact ⟨counts, hcounts⟩

/-- Without an error, a request for a relation has a selection of its target. -/
theorem exists_prune_of_entry {field : Request} {declared : Field} {target : Model}
    (hmeta : ¬ isMeta field.name) (hexcluded : field.name ∉ excluded)
    (hdeclared : model.field? field.name = some declared) (hrelation : declared.isRelation)
    (hfields : ¬ field.isLeaf) (htarget : schema.findModel? declared.type = some target)
    (hok : ∃ e, entry schema options model excluded field = .ok e) :
    ∃ nested, prune schema options target field = .ok nested := by
  obtain ⟨e, hentry⟩ := hok
  rw [entry_of_relation hmeta hexcluded hdeclared hrelation hfields, htarget] at hentry
  obtain ⟨nested, hnested, -⟩ := map_eq_ok_iff.1 hentry
  exact ⟨nested, hnested⟩

/-! ## What is selected without being requested -/

variable (model excluded) in
/-- The entry of a default field, if it is flagged, declared and not excluded. -/
def defaultContribution? (default : String × Bool) : Option (String × Selected) :=
  if default.2 ∧ default.1 ∉ excluded ∧ (model.field? default.1).isSome then
    some (default.1, .field)
  else none

variable (model excluded) in
/-- The entry of the field that tells records apart, unless it is excluded. -/
def idEntries : List (String × Selected) :=
  (model.idName.filter (· ∉ excluded)).toList.map (·, .field)

variable (options model) in
/-- The entries of a selection, given those the sub-requests contribute. -/
def completed (request : Request) (contributed : List (String × Selected)) :
    List (String × Selected) :=
  let excluded := options.exclusionsFor model.name request
  let wanted := contributed ++
    (options.defaultsFor model.name request).filterMap (defaultContribution? model excluded)
  if wanted.isEmpty ∧ options.emptySelection = .primaryKey then idEntries model excluded
  else wanted

variable (schema options model) in
/-- All entries that are merged into the selection of a model. -/
def entries (request : Request) : List (String × Selected) :=
  completed options model request (request.fields.filterMap
    (contribution? schema options model (options.exclusionsFor model.name request)))

/-- A default field is merged like a requested one: it adds nothing to what is
there. -/
theorem addDefault_eq (default : String × Bool) {s : Selection}
    (hs : ∀ entry ∈ s.select, entry.2.merge .field = entry.2) :
    addDefault model excluded s default =
      s.insertAll (defaultContribution? model excluded default).toList := by
  obtain ⟨name, flag⟩ := default
  rw [defaultContribution?, addDefault]
  by_cases hwanted : flag ∧ name ∉ excluded ∧ (model.field? name).isSome
  · rw [if_pos hwanted]
    -- A missing key is added, and one that is there is merged with a plain field to itself.
    rcases hget : Keyed.get? name s.select with _ | present
    · have hmissing : s.contains name = false := by
        rw [Selection.contains, Keyed.contains, hget]
        rfl
      simp only [hwanted, hmissing, not_false_eq_true, decide_true, Bool.not_false, Bool.and_self,
        if_true]
      rfl
    · have hcontains : s.contains name = true := by
        rw [Selection.contains, Keyed.contains, hget]
        rfl
      have hpresent : present.merge .field = present := hs _ (Keyed.mem_of_get? hget)
      simp only [hcontains, Bool.not_true, Bool.and_false, Bool.false_and, Bool.false_eq_true,
        if_false]
      rw [Option.toList_some, Selection.insertAll_eq, Selected.mergeEntries_cons,
        Keyed.alter_of_get? hget hpresent]
      rfl
  · have hskip : (flag && !s.contains name && decide (name ∉ excluded) &&
        (model.field? name).isSome) = false := by
      rw [Bool.eq_false_iff]
      simp only [ne_eq, Bool.and_eq_true, decide_eq_true_eq]
      rintro ⟨⟨⟨hflag, -⟩, hexcluded⟩, hdeclared⟩
      exact hwanted ⟨hflag, hexcluded, hdeclared⟩
    simp only [hskip, if_neg hwanted]
    rfl

/-- Where plain fields leave entries as they are, defaults are insertions like others. -/
theorem foldl_addDefault (defaults : Keyed Bool) {s : Selection}
    (hs : ∀ entry ∈ s.select, entry.2.merge .field = entry.2) :
    defaults.foldl (addDefault model excluded) s =
      s.insertAll (defaults.filterMap (defaultContribution? model excluded)) := by
  induction defaults generalizing s with
  | nil => rfl
  | cons default rest ih =>
    have hs' : ∀ entry ∈ (addDefault model excluded s default).select,
        entry.2.merge .field = entry.2 := by
      rw [addDefault]
      split
      · exact Keyed.forall_alter (P := fun _ (s : Selected) => s.merge .field = s) hs rfl
          fun _ _ => Selected.merge_merge_field rfl
      · exact hs
    rw [List.foldl_cons, ih hs', addDefault_eq default hs, List.filterMap_cons]
    cases defaultContribution? model excluded default <;> rfl

/-- The entries of sub-requests are plain fields and nested selections. -/
theorem Contributes.merge_field {field : Request} {name : String} {selected : Selected}
    (h : Contributes schema options model excluded field name selected) :
    selected.merge .field = selected := by
  cases h <;> rfl

/-- A selection is completed to one merge of all its entries. -/
theorem complete_eq (request : Request) {contributed : List (String × Selected)}
    (hcontributed : ∀ entry ∈ contributed, entry.2.merge .field = entry.2) :
    complete options model request contributed =
      ⟨Selected.mergeEntries [] (completed options model request contributed),
        relationArguments request.args⟩ := by
  have hrequested : ∀ entry ∈ (Selection.insertAll ⟨[], relationArguments request.args⟩
      contributed).select, entry.2.merge .field = entry.2 := by
    rw [Selection.insertAll_eq]
    exact Selected.merge_field_of_mem_mergeEntries (List.forall_mem_nil _) hcontributed
  rw [complete, completed]
  simp only [foldl_addDefault _ hrequested]
  simp only [Selection.insertAll_eq, ← Selected.mergeEntries_append]
  -- What is selected is empty just when nothing is merged into it.
  generalize contributed ++ _ = wanted
  have hempty : (Selected.mergeEntries [] wanted).isEmpty = wanted.isEmpty := by
    rw [Bool.eq_iff_iff, List.isEmpty_iff, List.isEmpty_iff, Selected.mergeEntries_eq_nil_iff]
    exact and_iff_right rfl
  rw [Selection.isEmpty, hempty]
  split
  · rename_i hnone
    rw [List.isEmpty_iff.1 hnone.1, addId, idEntries]
    rcases model.idName with _ | name
    · rfl
    · simp only [Option.filter_some, decide_eq_true_eq, ite_not]
      split <;> rfl
  · rfl

/-- What a sub-request comes to is an entry or an error. When there is no error,
all entries are merged. -/
theorem prune_eq_ok_iff {request : Request} {node : Selection} :
    prune schema options model request = .ok node ↔
      (∀ field ∈ request.fields, ∃ e,
        entry schema options model (options.exclusionsFor model.name request) field = .ok e) ∧
      node = ⟨Selected.mergeEntries [] (entries schema options model request),
        relationArguments request.args⟩ := by
  have hcontributed : ∀ e ∈ request.fields.filterMap
      (contribution? schema options model (options.exclusionsFor model.name request)),
      e.2.merge .field = e.2 := by
    intro e he
    obtain ⟨field, -, hfield⟩ := List.mem_filterMap.1 he
    exact (contribution?_eq_some_iff.1 hfield).merge_field
  rw [prune_eq, map_eq_ok_iff]
  simp only [mapM_filterMap_eq_ok_iff]
  constructor
  · rintro ⟨_, ⟨hall, rfl⟩, rfl⟩
    exact ⟨hall, complete_eq request hcontributed⟩
  · rintro ⟨hall, rfl⟩
    exact ⟨_, ⟨hall, rfl⟩, complete_eq request hcontributed⟩

/-! ## Where entries come from -/

variable (options model) in
/-- The entries of the default fields of a model. -/
def defaultEntries (request : Request) : List (String × Selected) :=
  (options.defaultsFor model.name request).filterMap
    (defaultContribution? model (options.exclusionsFor model.name request))

/-- Default fields are plain. -/
theorem eq_field_of_mem_defaultEntries {request : Request} :
    ∀ entry ∈ defaultEntries options model request, entry.2 = .field := by
  intro entry hentry
  obtain ⟨default, -, hdefault⟩ := List.mem_filterMap.1 hentry
  rw [defaultContribution?] at hdefault
  split at hdefault <;> cases hdefault
  rfl

/-- If empty selections are kept there is no falling back. -/
theorem entries_of_keep (hkeep : options.emptySelection = .keep) (request : Request) :
    entries schema options model request =
      request.fields.filterMap
          (contribution? schema options model (options.exclusionsFor model.name request)) ++
        defaultEntries options model request := by
  rw [entries, completed]
  exact if_neg fun h => EmptySelection.noConfusion (hkeep.symm.trans h.2)

/-- There is no falling back if a sub-request contributes something. -/
theorem entries_of_contributes {request field : Request} {name : String} {selected : Selected}
    (hfield : field ∈ request.fields)
    (h : Contributes schema options model (options.exclusionsFor model.name request)
      field name selected) :
    entries schema options model request =
      request.fields.filterMap
          (contribution? schema options model (options.exclusionsFor model.name request)) ++
        defaultEntries options model request := by
  rw [entries, completed]
  refine if_neg fun hnone => ?_
  have hmem := List.mem_filterMap.2 ⟨field, hfield, contribution?_eq_some_iff.2 h⟩
  rw [(List.append_eq_nil_iff.1 (List.isEmpty_iff.1 hnone.1)).1] at hmem
  cases hmem

/-- What a sub-request contributes is merged into the selection. -/
theorem Contributes.mem_entries {request field : Request} {name : String} {selected : Selected}
    (hfield : field ∈ request.fields)
    (h : Contributes schema options model (options.exclusionsFor model.name request)
      field name selected) :
    (name, selected) ∈ entries schema options model request := by
  rw [entries_of_contributes hfield h]
  exact List.mem_append_left _ (List.mem_filterMap.2 ⟨field, hfield, contribution?_eq_some_iff.2 h⟩)

/-- An entry is contributed by a sub-request, or it is a plain field that is not
excluded: a declared one, or the one that tells records apart. -/
theorem of_mem_entries {request : Request} {name : String} {selected : Selected}
    (h : (name, selected) ∈ entries schema options model request) :
    (∃ field ∈ request.fields, Contributes schema options model
        (options.exclusionsFor model.name request) field name selected) ∨
      selected = .field ∧ name ∉ options.exclusionsFor model.name request ∧
        ((model.field? name).isSome ∨ model.idName = some name) := by
  rw [entries, completed] at h
  split at h
  · obtain ⟨id, hid, heq⟩ := List.mem_map.1 h
    cases heq
    obtain ⟨hid, hexcluded⟩ := Option.filter_eq_some_iff.1 (Option.mem_toList.1 hid)
    exact .inr ⟨rfl, of_decide_eq_true hexcluded, .inr hid⟩
  · rcases List.mem_append.1 h with h | h
    · obtain ⟨field, hfield, hentry⟩ := List.mem_filterMap.1 h
      exact .inl ⟨field, hfield, contribution?_eq_some_iff.1 hentry⟩
    · obtain ⟨default, -, hentry⟩ := List.mem_filterMap.1 h
      rw [defaultContribution?] at hentry
      split at hentry
      · rename_i hdefault
        cases hentry
        exact .inr ⟨rfl, hdefault.2.1, .inl hdefault.2.2⟩
      · cases hentry

/-- All entries are plain fields and nested selections. -/
theorem merge_field_of_mem_entries {request : Request} :
    ∀ e ∈ entries schema options model request, e.2.merge .field = e.2 := by
  intro e h
  rcases of_mem_entries h with ⟨field, -, hcontributes⟩ | ⟨hselected, -⟩
  · exact hcontributes.merge_field
  · rw [hselected]
    rfl

end Prune

end Schematic
