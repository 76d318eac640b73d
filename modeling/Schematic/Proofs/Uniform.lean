import Schematic.Proofs.Exclusion
import Schematic.Proofs.MergeLaws
import Schematic.Proofs.Strictness
import Schematic.Proofs.Typing

/-!
# Pruning under uniform options

Options are uniform if they treat all requests alike: what is selected always or
never is fixed (`Options.Fixed`), names that are not declared are passed over, and an
empty selection stays empty. Then pruning never fails, and its entries are those of the
sub-requests and of the default fields, without any falling back
(`entries_of_uniform`, `mem_keys_prune_iff`).

In a schema that leaves the name of the counts to the counts, what is selected
under one name is of one kind (`unmixed_of_prune`), so that the laws of merging
hold of it, and no path of nested selections goes on below a count
(`countName_not_mem_dropLast`).
-/

namespace Schematic

/-- No model declares a field under the name of the counts. -/
def Schema.CountUndeclared (schema : Schema) : Prop :=
  ∀ model ∈ schema.models, model.field? countName = none

namespace Options

/-- What is selected always or never does not depend on the request. -/
structure Fixed (options : Options) : Prop where
  defaults : ∀ entry ∈ options.defaultFields, ∃ fields, entry.2 = .fixed fields
  excluded : ∀ entry ∈ options.excludedFields, ∃ names, entry.2 = .fixed names

/-- Options that treat all requests alike. -/
structure Uniform (options : Options) : Prop where
  permissive : options.strict = false
  keep : options.emptySelection = .keep
  defaults : ∀ entry ∈ options.defaultFields, ∃ fields, entry.2 = .fixed fields
  excluded : ∀ entry ∈ options.excludedFields, ∃ names, entry.2 = .fixed names

variable {options : Options}

theorem Uniform.fixed (h : options.Uniform) : options.Fixed :=
  ⟨h.defaults, h.excluded⟩

/-- Fixed defaults are those of any request. -/
theorem Fixed.defaultsFor_eq (h : options.Fixed) (model : String) (r r' : Request) :
    options.defaultsFor model r = options.defaultsFor model r' := by
  rw [defaultsFor, defaultsFor]
  rcases hget : Keyed.get? model options.defaultFields with _ | defaults
  · rfl
  · obtain ⟨fields, hfields⟩ := h.defaults _ (Keyed.mem_of_get? hget)
    obtain rfl : defaults = .fixed fields := hfields
    rfl

/-- Fixed exclusions are those of any request. -/
theorem Fixed.exclusionsFor_eq (h : options.Fixed) (model : String) (r r' : Request) :
    options.exclusionsFor model r = options.exclusionsFor model r' := by
  rw [exclusionsFor, exclusionsFor]
  rcases hget : Keyed.get? model options.excludedFields with _ | excluded
  · rfl
  · obtain ⟨names, hnames⟩ := h.excluded _ (Keyed.mem_of_get? hget)
    obtain rfl : excluded = .fixed names := hnames
    rfl

/-- Further defaults leave options fixed, as they are names themselves. -/
theorem Fixed.withDefaultFields (h : options.Fixed) (model : String) (names : List String) :
    (options.withDefaultFields model names).Fixed where
  defaults := Keyed.forall_alter (P := fun _ d => ∃ fields, d = DefaultFields.fixed fields)
    h.defaults ⟨_, rfl⟩ fun _ _ => ⟨_, rfl⟩
  excluded := h.excluded

/-- Further exclusions leave options fixed as well. -/
theorem Fixed.withExcludedFields (h : options.Fixed) (model : String) (names : List String) :
    (options.withExcludedFields model names).Fixed where
  defaults := h.defaults
  excluded := Keyed.forall_alter (P := fun _ e => ∃ names, e = ExcludedFields.fixed names)
    h.excluded ⟨_, rfl⟩ fun _ _ => ⟨_, rfl⟩

theorem Uniform.withDefaultFields (h : options.Uniform) (model : String) (names : List String) :
    (options.withDefaultFields model names).Uniform where
  permissive := h.permissive
  keep := h.keep
  defaults := (h.fixed.withDefaultFields model names).defaults
  excluded := h.excluded

theorem Uniform.withExcludedFields (h : options.Uniform) (model : String) (names : List String) :
    (options.withExcludedFields model names).Uniform where
  permissive := h.permissive
  keep := h.keep
  defaults := h.defaults
  excluded := (h.fixed.withExcludedFields model names).excluded

end Options

theorem Blog.countUndeclared_schema : Blog.schema.CountUndeclared :=
  List.forall_mem_cons.2 ⟨rfl, List.forall_mem_cons.2 ⟨rfl, List.forall_mem_cons.2 ⟨rfl,
    List.forall_mem_nil _⟩⟩⟩

theorem Blog.uniform_kept : Blog.kept.Uniform where
  permissive := rfl
  keep := rfl
  defaults := List.forall_mem_cons.2 ⟨⟨_, rfl⟩, List.forall_mem_nil _⟩
  excluded := List.forall_mem_cons.2 ⟨⟨_, rfl⟩, List.forall_mem_cons.2 ⟨⟨_, rfl⟩,
    List.forall_mem_nil _⟩⟩

namespace Prune

variable {schema : Schema} {options : Options} {model : Model} {excluded : List String}

/-! ## Entries without falling back -/

/-- Under uniform options requests differ only in what they contribute themselves. -/
theorem entries_of_uniform (hoptions : options.Uniform) (request other : Request) :
    entries schema options model other =
      other.fields.filterMap
          (contribution? schema options model (options.exclusionsFor model.name request)) ++
        defaultEntries options model request := by
  have hexcluded := hoptions.fixed.exclusionsFor_eq model.name other request
  have hdefaults := hoptions.fixed.defaultsFor_eq model.name other request
  rw [entries_of_keep hoptions.keep, defaultEntries, defaultEntries, hexcluded, hdefaults]

/-- Without falling back, the keys of a selection are the names that are wanted. -/
theorem mem_keys_prune_iff (hkeep : options.emptySelection = .keep) {request : Request}
    {node : Selection} {key : String} (hnode : prune schema options model request = .ok node) :
    key ∈ Keyed.keys node.select ↔ Wanted schema options model request key := by
  obtain ⟨hok, rfl⟩ := prune_eq_ok_iff.1 hnode
  rw [Selected.keys_mergeEntries_nil, List.mem_eraseDups, keys_entries hok, mem_selectedNames_iff]
  exact or_iff_left fun h => EmptySelection.noConfusion (hkeep.symm.trans h.2.2.1)

/-! ## One kind under one name -/

/-- Counts are told apart from relations by their name. -/
theorem unmixed_count {request : Request} {counts : Selection}
    (hcounts : count options model excluded request = .ok counts) :
    Selected.Unmixed countName counts.toSelected := by
  have hcounted := isCounted_of_mem_count hcounts
  rw [(count_eq_ok_iff.1 hcounts).2] at hcounted ⊢
  exact .count (Selected.nodup_keys_mergeEntries List.nodup_nil) hcounted List.nodup_nil

/-- A selection in which what stands under one name is of one kind. -/
structure UnmixedSelection (s : Selection) : Prop where
  nodup : (Keyed.keys s.select).Nodup
  select : ∀ entry ∈ s.select, Selected.Unmixed entry.1 entry.2
  arguments : (Keyed.keys s.arguments).Nodup

/-- A selection of one kind may stand under any name but that of the counts. -/
theorem UnmixedSelection.unmixed {s : Selection} {name : String} (h : UnmixedSelection s)
    (hname : name ≠ countName) : Selected.Unmixed name s.toSelected :=
  .relation hname h.nodup h.select h.arguments

/-- What a sub-request contributes is of the kind of its name, if that holds of
what it is pruned to. -/
theorem Contributes.unmixed_of (hfree : schema.CountUndeclared) (hmodel : model ∈ schema.models)
    {field : Request} {name : String} {selected : Selected}
    (hprune : ∀ {target : Model} {nested : Selection}, target ∈ schema.models →
      prune schema options target field = .ok nested → UnmixedSelection nested)
    (h : Contributes schema options model excluded field name selected) :
    Selected.Unmixed name selected := by
  cases h with
  | plain => exact .field
  | relation _ _ hdeclared _ _ htarget hnested _ =>
    have hname : field.name ≠ countName := by
      intro hname
      rw [hname, hfree model hmodel] at hdeclared
      cases hdeclared
    exact (hprune (List.mem_of_find?_eq_some htarget) hnested).unmixed hname
  | count _ _ _ hcounts _ => exact unmixed_count hcounts

/-- All entries are of the kind of their names, if that holds of what sub-requests
are pruned to. -/
theorem unmixed_of_mem_entries (hfree : schema.CountUndeclared) (hmodel : model ∈ schema.models)
    {request : Request}
    (hprune : ∀ field ∈ request.fields, ∀ {target : Model} {nested : Selection},
      target ∈ schema.models → prune schema options target field = .ok nested →
        UnmixedSelection nested) :
    ∀ entry ∈ entries schema options model request, Selected.Unmixed entry.1 entry.2 := by
  rintro ⟨name, selected⟩ hentry
  rcases of_mem_entries hentry with ⟨field, hfield, hcontributes⟩ | ⟨rfl, -⟩
  · exact hcontributes.unmixed_of hfree hmodel (hprune field hfield)
  · exact .field

/-- In a pruned selection what stands under one name is of one kind, at every
depth. -/
theorem unmixed_of_prune (hfree : schema.CountUndeclared) {request : Request} :
    ∀ {model : Model} {node : Selection}, model ∈ schema.models →
      prune schema options model request = .ok node → UnmixedSelection node := by
  induction request using Request.induction with
  | h request ih =>
    intro model node hmodel hnode
    obtain ⟨-, rfl⟩ := prune_eq_ok_iff.1 hnode
    have hentries : ∀ entry ∈ entries schema options model request,
        Selected.Unmixed entry.1 entry.2 :=
      unmixed_of_mem_entries hfree hmodel ih
    exact {
      nodup := Selected.nodup_keys_mergeEntries List.nodup_nil
      select := Selected.forall_mergeEntries (P := Selected.Unmixed) (List.forall_mem_nil _)
        hentries fun entry hentry _ => (hentries entry hentry).merge
      arguments := (typedArguments_relationArguments request.args).nodup }

/-- No path goes on below a count. -/
theorem countName_not_mem_dropLast (hfree : schema.CountUndeclared) {request : Request} :
    ∀ {model : Model} {node : Selection} {path : List String} {key : String},
      model ∈ schema.models → prune schema options model request = .ok node →
      Selected.HasKeyAt key path node.select → countName ∉ path.dropLast := by
  induction request using Request.induction with
  | h request ih =>
    intro model node path key hmodel hnode hkey
    match path with
    | [] => exact List.not_mem_nil
    | [_] => exact List.not_mem_nil
    | step :: next :: path =>
      obtain ⟨field, hfield, select, arguments, hcontributes, hkey⟩ :=
        exists_contributes_of_hasKeyAt hnode hkey
      generalize hs : Selected.nested select arguments = selected at hcontributes
      cases hcontributes with
      | plain => cases hs
      | relation _ _ hdeclared _ _ htarget hnested _ =>
        cases hs
        have hrest := ih field hfield (List.mem_of_find?_eq_some htarget) hnested hkey
        rw [List.dropLast_cons_cons, List.mem_cons, not_or]
        refine ⟨fun hname => ?_, hrest⟩
        rw [← hname, hfree model hmodel] at hdeclared
        cases hdeclared
      | count _ _ _ hcounts _ =>
        -- Nothing in a count is nested, so that the path would have to end here.
        cases hs
        obtain ⟨_, _, hmem, -⟩ := hkey
        cases not_isNested_of_mem_count hcounts _ hmem

end Prune

end Schematic
