import Schematic.Proofs.Uniform

/-!
# Aliases

A field can be requested several times, under different labels. Under uniform
options it does not matter over how many requests for a field the sub-requests
below it are spread: a request may be cut in two anywhere (`Request.Splits`), and
is pruned to the same selection up to the order of fields (`pruneNamed_splits`).

What a request is pruned to is the join of what its halves are pruned to
(`isJoin_prune`). Default fields, which both halves come with, add nothing to what
the other half selects, and a half of which nothing is selected is missing from
the join as well. From there the proof goes up the request: what is the same when
it is merged into a selection (`Selected.Interchangeable`) makes selections the same.
-/

namespace Schematic

/-! ## Splitting requests -/

namespace Request

/-- A request in two: one with the first of its sub-requests, one with the rest. -/
structure Halves (field first second : Request) : Prop where
  name_first : first.name = field.name
  name_second : second.name = field.name
  args_first : first.args = field.args
  args_second : second.args = field.args
  fields : field.fields = first.fields ++ second.fields
  nonempty_first : first.fields ≠ []
  nonempty_second : second.fields ≠ []

/-- A request is replaced: by its halves, or by itself with one request below it
replaced. -/
inductive Splits : Request → List Request → Prop
  | halves {field first second : Request} (h : Halves field first second) :
      Splits field [first, second]
  | within {request split field : Request} {parts before after : List Request}
      (hname : split.name = request.name) (hargs : split.args = request.args)
      (hfields : request.fields = before ++ [field] ++ after)
      (hsplit : split.fields = before ++ parts ++ after) (hparts : Splits field parts) :
      Splits request [split]

theorem Halves.not_isLeaf {field first second : Request} (h : Halves field first second) :
    ¬ field.isLeaf ∧ ¬ first.isLeaf ∧ ¬ second.isLeaf := by
  simp [isLeaf_iff, h.fields, h.nonempty_first, h.nonempty_second]

variable {field : Request} {parts : List Request}

theorem Splits.ne_nil (h : Splits field parts) : parts ≠ [] := by
  cases h <;> exact List.cons_ne_nil _ _

/-- The parts of a request ask for the same field with the same arguments. -/
theorem Splits.name_args (h : Splits field parts) :
    ∀ part ∈ parts, part.name = field.name ∧ part.args = field.args := by
  cases h with
  | halves h =>
    simp [h.name_first, h.name_second, h.args_first, h.args_second]
  | within hname hargs =>
    simp [hname, hargs]

end Request

/-! ## What comes to the same -/

namespace Selected

/-- Merged into any selection, the entries come to the same as the others. -/
def Interchangeable (later later' : List (String × Selected)) : Prop :=
  ∀ present : List (String × Selected), (Keyed.keys present).Nodup →
    (∀ entry ∈ present, Unmixed entry.1 entry.2) →
    SameEntries (mergeEntries present later) (mergeEntries present later')

theorem interchangeable_refl {later : List (String × Selected)}
    (h : ∀ entry ∈ later, Unmixed entry.1 entry.2) : Interchangeable later later :=
  fun _ hnodup hpresent => (SameEntries.refl_of_unmixed hnodup hpresent).mergeEntries h

theorem SameEntries.eq_nil_iff {select select' : List (String × Selected)}
    (h : SameEntries select select') : select = [] ↔ select' = [] := by
  rw [Keyed.eq_nil_iff_forall_not_mem_keys, Keyed.eq_nil_iff_forall_not_mem_keys]
  exact forall_congr' fun key => not_congr (h.keys key)

theorem Unmixed.nodup_select {key : String} {select : List (String × Selected)}
    {arguments : Keyed Json.Value} (h : Unmixed key (.nested select arguments)) :
    (Keyed.keys select).Nodup := by
  cases h <;> assumption

theorem Unmixed.nodup_arguments {key : String} {select : List (String × Selected)}
    {arguments : Keyed Json.Value} (h : Unmixed key (.nested select arguments)) :
    (Keyed.keys arguments).Nodup := by
  cases h <;> assumption

end Selected

open Selected

/-- A selection is what two others with its arguments come to together. -/
structure Selection.IsJoin (first second node : Selection) : Prop where
  arguments_first : first.arguments = node.arguments
  arguments_second : second.arguments = node.arguments
  select : SameEntries node.select (mergeEntries first.select second.select)

namespace Prune

variable {schema : Schema} {options : Options} {model : Model} {excluded : List String}
  {key : String} {node node' first second : Selection}

/-! ## Nested entries -/

/-- Selections that are the same are so as entries. -/
theorem interchangeable_of_same (h : node.Same node') :
    Interchangeable (nestedEntry key node).toList (nestedEntry key node').toList := by
  intro present hnodup hpresent
  have hrefl := SameEntries.refl_of_unmixed hnodup hpresent
  have hempty : node.isEmpty = node'.isEmpty := by
    rw [Bool.eq_iff_iff, Selection.isEmpty, Selection.isEmpty, List.isEmpty_iff, List.isEmpty_iff]
    exact (same_nested_iff.1 h).2.eq_nil_iff
  rw [nestedEntry, nestedEntry, hempty]
  split
  · exact hrefl
  · exact hrefl.alter key h

/-- A join comes to the same as what it joins. -/
theorem interchangeable_of_isJoin (h : Selection.IsJoin first second node)
    (hfirst : Unmixed key first.toSelected) (hsecond : Unmixed key second.toSelected) :
    Interchangeable (nestedEntry key node).toList
      ((nestedEntry key first).toList ++ (nestedEntry key second).toList) := by
  by_cases hempty : first.isEmpty
  · -- Only the second half has anything selected, if there is anything at all.
    have hsame : node.Same second := by
      have hselect := h.select
      rw [List.isEmpty_iff.1 hempty, mergeEntries_of_nodup hsecond.nodup_select] at hselect
      exact same_nested_iff.2 ⟨h.arguments_second.symm, hselect⟩
    have hnone : nestedEntry key first = none := if_pos hempty
    rw [hnone]
    exact interchangeable_of_same hsame
  · by_cases hempty' : second.isEmpty
    · have hsame : node.Same first := by
        have hselect := h.select
        rw [List.isEmpty_iff.1 hempty'] at hselect
        exact same_nested_iff.2 ⟨h.arguments_first.symm, hselect⟩
      have hnone : nestedEntry key second = none := if_pos hempty'
      rw [hnone, Option.toList_none, List.append_nil]
      exact interchangeable_of_same hsame
    · intro present hnodup hpresent
      have hsame : node.toSelected.Same (first.toSelected.merge second.toSelected) := by
        refine same_nested_iff.2 ⟨?_, h.select⟩
        rw [h.arguments_first, h.arguments_second,
          Keyed.putAll_self (h.arguments_first ▸ hfirst.nodup_arguments)]
      have hne : ¬ node.isEmpty := by
        intro hnone
        have hmerged := h.select.eq_nil_iff.1 (List.isEmpty_iff.1 hnone)
        exact hempty (List.isEmpty_iff.2 (mergeEntries_eq_nil_iff.1 hmerged).1)
      rw [nestedEntry, nestedEntry, nestedEntry, if_neg hempty, if_neg hempty', if_neg hne]
      have hmerge := alter_alter_merge hpresent hfirst hsecond
      simp only [Option.toList_some, List.singleton_append, mergeEntries_cons, mergeEntries_nil,
        hmerge]
      exact (SameEntries.refl_of_unmixed hnodup hpresent).alter key hsame

/-! ## Halves -/

section Halves

variable {field half half' : Request}

/-- A request is pruned to the join of what its halves are pruned to. -/
theorem isJoin_prune (hfree : schema.CountUndeclared) (hoptions : options.Uniform)
    (hmodel : model ∈ schema.models) (h : field.Halves half half')
    (hnode : prune schema options model field = .ok node)
    (hfirst : prune schema options model half = .ok first)
    (hsecond : prune schema options model half' = .ok second) :
    Selection.IsJoin first second node := by
  have hunmixed : ∀ request, ∀ entry ∈ entries schema options model request,
      Unmixed entry.1 entry.2 := fun request =>
    unmixed_of_mem_entries hfree hmodel fun _ _ => unmixed_of_prune hfree
  have hnode' := unmixed_of_prune hfree hmodel hnode
  have hfirst' := unmixed_of_prune hfree hmodel hfirst
  obtain ⟨-, rfl⟩ := prune_eq_ok_iff.1 hnode
  obtain ⟨-, rfl⟩ := prune_eq_ok_iff.1 hfirst
  obtain ⟨-, rfl⟩ := prune_eq_ok_iff.1 hsecond
  refine ⟨congrArg relationArguments h.args_first, congrArg relationArguments h.args_second, ?_⟩
  have hjoin : mergeEntries (mergeEntries [] (entries schema options model half))
      (mergeEntries [] (entries schema options model half')) =
        mergeEntries [] (entries schema options model half ++
          entries schema options model half') := by
    rw [mergeEntries_append]
    exact mergeEntries_mergeEntries (P := Unmixed) (fun _ _ _ ha hb => hb.merge ha)
      (fun _ _ _ _ ha hb hc => hc.merge_assoc ha hb) hfirst'.select (hunmixed half')
  -- Of the default fields, which come with both halves, the first are not needed.
  have hget : ∀ key, Keyed.get? key (mergeEntries [] (entries schema options model field)) =
      Keyed.get? key (mergeEntries [] (entries schema options model half ++
        entries schema options model half')) := by
    intro key
    have hplain : ∀ entry ∈ half.fields.filterMap
        (contribution? schema options model (options.exclusionsFor model.name field)),
        entry.2.merge .field = entry.2 := by
      intro entry hentry
      obtain ⟨_, -, hcontributes⟩ := List.mem_filterMap.1 hentry
      exact (contribution?_eq_some_iff.1 hcontributes).merge_field
    rw [entries_of_uniform hoptions field half, entries_of_uniform hoptions field half',
      entries_of_uniform hoptions field field, h.fields, List.filterMap_append, List.append_assoc]
    exact (get?_mergeEntries_fields_twice key hplain eq_field_of_mem_defaultEntries).symm
  rw [hjoin]
  exact sameEntries_of_get?_eq hnode'.nodup (nodup_keys_mergeEntries List.nodup_nil) hget
    fun entry hentry => (hnode'.select entry hentry).same_refl

/-- A count is the join of the counts of its halves. -/
theorem isJoin_count (h : field.Halves half half')
    (hnode : count options model excluded field = .ok node)
    (hfirst : count options model excluded half = .ok first)
    (hsecond : count options model excluded half' = .ok second) :
    Selection.IsJoin first second node := by
  have hnode' := isCounted_of_mem_count hnode
  have hfirst' := isCounted_of_mem_count hfirst
  have hcounted := isCounted_countContributions options model excluded half'.fields
  obtain ⟨-, rfl⟩ := count_eq_ok_iff.1 hnode
  obtain ⟨-, rfl⟩ := count_eq_ok_iff.1 hfirst
  obtain ⟨-, rfl⟩ := count_eq_ok_iff.1 hsecond
  refine ⟨rfl, rfl, ?_⟩
  have hjoin := mergeEntries_mergeEntries (P := fun _ s => s.IsCounted)
    (fun _ _ _ ha hb => ha.merge hb) (fun _ _ _ _ ha hb hc => ha.merge_assoc hb hc) hfirst' hcounted
  rw [hjoin, ← mergeEntries_append, ← List.filterMap_append, ← h.fields]
  exact sameEntries_of_get?_eq (nodup_keys_mergeEntries List.nodup_nil)
    (nodup_keys_mergeEntries List.nodup_nil) (fun _ => rfl)
    fun entry hentry => (hnode' entry hentry).same_refl

end Halves

/-! ## What a name decides -/

variable (schema options model excluded) in
/-- What requests for a name contribute if something is requested below them: all
the same, if only nothing or a plain field, selections of one target, or counts. -/
inductive Decided (name : String) : Prop
  | plain (contribution : Option (String × Selected))
      (hplain : ∀ entry ∈ contribution, entry.2 = .field)
      (h : ∀ field : Request, field.name = name → ¬ field.isLeaf →
        contribution? schema options model excluded field = contribution)
  | relation {target : Model} (hname : name ≠ countName) (htarget : target ∈ schema.models)
      (h : ∀ field : Request, field.name = name → ¬ field.isLeaf →
        ∃ nested, prune schema options target field = .ok nested ∧
          contribution? schema options model excluded field = nestedEntry name nested)
  | count (h : ∀ field : Request, field.name = name →
      ∃ counts, count options model excluded field = .ok counts ∧
        contribution? schema options model excluded field = nestedEntry countName counts)

variable (excluded) in
/-- Where the counts are no field, and nothing is rejected, a name is of one kind for all
requests. -/
theorem decided (hfree : schema.CountUndeclared) (hpermissive : options.strict = false)
    (hmodel : model ∈ schema.models) (name : String) :
    Decided schema options model excluded name := by
  by_cases hskip : isMeta name ∨ name ∈ excluded
  · refine .plain none (by simp) ?_
    rintro field rfl -
    rw [contribution?, entry, if_pos hskip]
    rfl
  · obtain ⟨hmeta, hexcluded⟩ := not_or.1 hskip
    rcases hdeclared : model.field? name with _ | declared
    · by_cases hasks : AsksCount model name
      · refine .count ?_
        rintro field rfl
        obtain ⟨counts, hcounts⟩ := exists_count_of_permissive model excluded hpermissive field
        refine ⟨counts, hcounts, ?_⟩
        rw [contribution?, entry_of_asksCount hmeta hexcluded hasks, hcounts]
        rfl
      · refine .plain none (by simp) ?_
        rintro field rfl -
        rcases hentry : contribution? schema options model excluded field with _ | e
        · rfl
        · exact absurd (entry_eq_some_iff.2 (contribution?_eq_some_iff.1 hentry))
            (entry_of_unknown hdeclared hasks e)
    · by_cases hrelation : declared.isRelation
      · have hname : name ≠ countName := by
          rintro rfl
          rw [hfree model hmodel] at hdeclared
          cases hdeclared
        rcases htarget : schema.findModel? declared.type with _ | target
        · refine .plain none (by simp) ?_
          rintro field rfl hfields
          rw [contribution?, entry_of_relation hmeta hexcluded hdeclared hrelation hfields, htarget]
          rfl
        · refine .relation hname (List.mem_of_find?_eq_some htarget) ?_
          rintro field rfl hfields
          obtain ⟨nested, hnested⟩ := exists_prune_of_permissive schema hpermissive target field
          refine ⟨nested, hnested, ?_⟩
          rw [contribution?, entry_of_relation hmeta hexcluded hdeclared hrelation hfields, htarget]
          simp only [hnested]
          rfl
      · refine .plain (some (name, .field)) (by simp) ?_
        rintro field rfl -
        exact contribution?_eq_some_iff.2 (.plain hmeta hexcluded hdeclared (.inr hrelation))

/-! ## Splitting below -/

section Below

variable {request split field : Request} {parts before after : List Request}

/-- Selections are the same if what was split below comes to the same. -/
theorem same_of_interchangeable (hfree : schema.CountUndeclared) (hoptions : options.Uniform)
    (hmodel : model ∈ schema.models) (hargs : split.args = request.args)
    (hfields : request.fields = before ++ [field] ++ after)
    (hsplit : split.fields = before ++ parts ++ after)
    (hparts : Interchangeable
      ([field].filterMap
        (contribution? schema options model (options.exclusionsFor model.name request)))
      (parts.filterMap
        (contribution? schema options model (options.exclusionsFor model.name request))))
    (hnode : prune schema options model request = .ok node)
    (hnode' : prune schema options model split = .ok node') : node.Same node' := by
  have hunmixed : ∀ entry ∈ entries schema options model request, Unmixed entry.1 entry.2 :=
    unmixed_of_mem_entries hfree hmodel fun _ _ => unmixed_of_prune hfree
  obtain ⟨-, rfl⟩ := prune_eq_ok_iff.1 hnode
  obtain ⟨-, rfl⟩ := prune_eq_ok_iff.1 hnode'
  refine same_nested_iff.2 ⟨congrArg relationArguments hargs.symm, ?_⟩
  simp only [entries_of_uniform hoptions request request, hfields, List.filterMap_append,
    List.mem_append] at hunmixed
  simp only [entries_of_uniform hoptions request, hfields, hsplit, List.filterMap_append,
    mergeEntries_append]
  have hbefore := hparts (mergeEntries [] (before.filterMap
    (contribution? schema options model (options.exclusionsFor model.name request))))
    (nodup_keys_mergeEntries List.nodup_nil)
    (forall_mergeEntries (P := Unmixed) (List.forall_mem_nil _)
      (fun entry hentry => hunmixed entry (.inl (.inl (.inl hentry))))
      fun entry hentry _ => (hunmixed entry (.inl (.inl (.inl hentry)))).merge)
  exact (hbefore.mergeEntries fun entry hentry => hunmixed entry (.inl (.inr hentry))).mergeEntries
    fun entry hentry => hunmixed entry (.inr hentry)

/-- A count does not depend on what is below the relations it takes in. -/
theorem count_eq_of_splits (hparts : field.Splits parts)
    (hfields : request.fields = before ++ [field] ++ after)
    (hsplit : split.fields = before ++ parts ++ after)
    (hnode : count options model excluded request = .ok node)
    (hnode' : count options model excluded split = .ok node') : node = node' := by
  obtain ⟨-, rfl⟩ := count_eq_ok_iff.1 hnode
  obtain ⟨-, rfl⟩ := count_eq_ok_iff.1 hnode'
  have hpart : ∀ part ∈ parts, countContribution? options model excluded part =
      countContribution? options model excluded field := by
    intro part hpart
    obtain ⟨hname, hargs⟩ := hparts.name_args part hpart
    simp only [countContribution?, countEntry, hname, hargs]
  have hmerge : ∀ present, mergeEntries present
      (parts.filterMap (countContribution? options model excluded)) =
        mergeEntries present ([field].filterMap (countContribution? options model excluded)) := by
    intro present
    cases hparts with
    | halves =>
      obtain ⟨hfirst, hpart⟩ := List.forall_mem_cons.1 hpart
      obtain ⟨hsecond, -⟩ := List.forall_mem_cons.1 hpart
      simp only [List.filterMap_cons, List.filterMap_nil, hfirst, hsecond]
      rcases hentry : countContribution? options model excluded field with _ | ⟨name, s⟩
      · rfl
      · obtain ⟨-, -, rfl⟩ := countContribution?_eq_some_iff.1 hentry
        exact alter_alter_counted (isCounted_countedAs field.args)
    | within =>
      obtain ⟨hsame, -⟩ := List.forall_mem_cons.1 hpart
      simp only [List.filterMap_cons, hsame]
  simp only [hfields, hsplit, List.filterMap_append, mergeEntries_append, hmerge]

end Below

/-! ## Replacing requests -/

section Replace

variable {request split field half half' : Request} {parts before after : List Request}

/-- The halves of a request contribute what it does. -/
theorem interchangeable_of_halves (hfree : schema.CountUndeclared) (hoptions : options.Uniform)
    (hmodel : model ∈ schema.models) (h : field.Halves half half') :
    Interchangeable (contribution? schema options model excluded field).toList
      ((contribution? schema options model excluded half).toList ++
        (contribution? schema options model excluded half').toList) := by
  obtain ⟨hfield, hfirst, hsecond⟩ := h.not_isLeaf
  cases decided excluded hfree hoptions.permissive hmodel field.name with
  | plain contribution hplain hsame =>
    rw [hsame field rfl hfield, hsame half h.name_first hfirst, hsame half' h.name_second hsecond]
    rcases contribution with _ | ⟨name, s⟩
    · exact interchangeable_refl (List.forall_mem_nil _)
    · obtain rfl : s = .field := hplain _ rfl
      have htwice : ∀ present, mergeEntries present ([(name, .field)] ++ [(name, .field)]) =
          mergeEntries present [(name, .field)] :=
        fun _ => alter_alter_counted (.inl rfl)
      intro present hnodup hpresent
      simp only [Option.toList_some, htwice]
      exact interchangeable_refl (List.forall_mem_singleton.2 .field) present hnodup hpresent
  | relation hname htarget hnested =>
    obtain ⟨node, hnode, hentry⟩ := hnested field rfl hfield
    obtain ⟨first, hnode₁, hentry₁⟩ := hnested half h.name_first hfirst
    obtain ⟨second, hnode₂, hentry₂⟩ := hnested half' h.name_second hsecond
    rw [hentry, hentry₁, hentry₂]
    exact interchangeable_of_isJoin (isJoin_prune hfree hoptions htarget h hnode hnode₁ hnode₂)
      ((unmixed_of_prune hfree htarget hnode₁).unmixed hname)
      ((unmixed_of_prune hfree htarget hnode₂).unmixed hname)
  | count hcount =>
    obtain ⟨counts, hcounts, hentry⟩ := hcount field rfl
    obtain ⟨first, hcounts₁, hentry₁⟩ := hcount half h.name_first
    obtain ⟨second, hcounts₂, hentry₂⟩ := hcount half' h.name_second
    rw [hentry, hentry₁, hentry₂]
    exact interchangeable_of_isJoin (isJoin_count h hcounts hcounts₁ hcounts₂)
      (unmixed_count hcounts₁) (unmixed_count hcounts₂)

/-- A request contributes the same with one below it replaced by what comes to the
same. -/
theorem interchangeable_of_within (hfree : schema.CountUndeclared) (hoptions : options.Uniform)
    (hmodel : model ∈ schema.models) (hname : split.name = request.name)
    (hargs : split.args = request.args) (hfields : request.fields = before ++ [field] ++ after)
    (hsplit : split.fields = before ++ parts ++ after) (hparts : field.Splits parts)
    (hbelow : ∀ {target : Model} {excluded : List String}, target ∈ schema.models →
      Interchangeable ([field].filterMap (contribution? schema options target excluded))
        (parts.filterMap (contribution? schema options target excluded))) :
    Interchangeable (contribution? schema options model excluded request).toList
      (contribution? schema options model excluded split).toList := by
  have hrequest : ¬ request.isLeaf := by
    simp [Request.isLeaf_iff, hfields]
  have hleaf : ¬ split.isLeaf := by
    simp [Request.isLeaf_iff, hsplit, hparts.ne_nil]
  cases decided excluded hfree hoptions.permissive hmodel request.name with
  | plain contribution hplain hsame =>
    rw [hsame request rfl hrequest, hsame split hname hleaf]
    refine interchangeable_refl fun entry hentry => ?_
    rw [hplain entry (Option.mem_toList.1 hentry)]
    exact .field
  | relation _ htarget hnested =>
    obtain ⟨node, hnode, hentry⟩ := hnested request rfl hrequest
    obtain ⟨node', hnode', hentry'⟩ := hnested split hname hleaf
    rw [hentry, hentry']
    exact interchangeable_of_same (same_of_interchangeable hfree hoptions htarget hargs hfields
      hsplit (hbelow htarget) hnode hnode')
  | count hcount =>
    obtain ⟨counts, hcounts, hentry⟩ := hcount request rfl
    obtain ⟨counts', hcounts', hentry'⟩ := hcount split hname
    obtain rfl := count_eq_of_splits hparts hfields hsplit hcounts hcounts'
    rw [hentry, hentry']
    exact interchangeable_of_same (unmixed_count hcounts).same_refl

/-- What replaces a request comes to the same. By induction on where it is split. -/
theorem interchangeable_of_splits (hfree : schema.CountUndeclared) (hoptions : options.Uniform)
    (h : field.Splits parts) :
    ∀ {model : Model} {excluded : List String}, model ∈ schema.models →
      Interchangeable ([field].filterMap (contribution? schema options model excluded))
        (parts.filterMap (contribution? schema options model excluded)) := by
  induction h with
  | halves h =>
    intro model excluded hmodel
    simp only [List.filterMap_eq_flatMap_toList, List.flatMap_cons, List.flatMap_nil,
      List.append_nil]
    exact interchangeable_of_halves hfree hoptions hmodel h
  | within hname hargs hfields hsplit hparts ih =>
    intro model excluded hmodel
    simp only [List.filterMap_eq_flatMap_toList, List.flatMap_cons, List.flatMap_nil,
      List.append_nil]
    exact interchangeable_of_within hfree hoptions hmodel hname hargs hfields hsplit hparts ih

end Replace

/-! ## Splitting anywhere -/

/-- **Splitting a request over labels does not change what is selected.** Wherever
in a request one below it is replaced by its halves, the selections are the same. -/
theorem pruneNamed_splits {name : String} {request split : Request}
    (hfree : schema.CountUndeclared) (hoptions : options.Uniform)
    (hsplit : request.Splits [split]) :
    ∃ node node', pruneNamed schema options name request = .ok node ∧
      pruneNamed schema options name split = .ok node' ∧ node.Same node' := by
  rw [pruneNamed, pruneNamed]
  rcases hmodel : schema.resolveModel? name with _ | model
  · have hnil : SameEntries [] [] :=
      sameEntries_of_get?_eq List.nodup_nil List.nodup_nil (fun _ => rfl) (List.forall_mem_nil _)
    exact ⟨.empty, .empty, rfl, rfl, same_nested_iff.2 ⟨rfl, hnil⟩⟩
  · have hmem := Schema.mem_models_of_resolveModel? hmodel
    obtain ⟨node, hnode⟩ :=
      exists_prune_of_permissive schema hoptions.permissive model request
    obtain ⟨node', hnode'⟩ :=
      exists_prune_of_permissive schema hoptions.permissive model split
    refine ⟨node, node', hnode, hnode', ?_⟩
    cases hsplit with
    | within hname hargs hfields hsplit hparts =>
      exact same_of_interchangeable hfree hoptions hmem hargs hfields hsplit
        (interchangeable_of_splits hfree hoptions hparts hmem) hnode hnode'

/-- The posts of the blog's users can be requested in two. -/
theorem pruneNamed_splits_blog :
    Blog.request.Splits [Blog.splitRequest] ∧
      ∃ node node', pruneNamed Blog.schema Blog.kept "User" Blog.request = .ok node ∧
        pruneNamed Blog.schema Blog.kept "User" Blog.splitRequest = .ok node' ∧
        node.Same node' := by
  have hhalves : Request.Halves
      ((Request.ofName "posts").withFields "Post" [.ofName "title",
        (Request.ofName "findManyComment").withField "Post" (.ofName "comments")])
      ((Request.ofName "posts").withField "Post" (.ofName "title"))
      (((Request.ofName "posts").withLabel "commented").withField "Post"
        ((Request.ofName "findManyComment").withField "Post" (.ofName "comments"))) :=
    ⟨rfl, rfl, rfl, rfl, rfl, List.cons_ne_nil _ _, List.cons_ne_nil _ _⟩
  have hsplits : Blog.request.Splits [Blog.splitRequest] :=
    @Request.Splits.within _ _ _ _ [.ofName "id"] _ rfl rfl rfl rfl (.halves hhalves)
  exact ⟨hsplits, pruneNamed_splits Blog.countUndeclared_schema Blog.uniform_kept hsplits⟩

end Prune

end Schematic
