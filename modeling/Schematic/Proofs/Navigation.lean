import Schematic.Proofs.Loaded
import Schematic.Proofs.Uniform
import Schematic.Selection.Query

/-!
# Parts of a request

There are two ways to the select argument of a part of a request: pruning the
whole request and looking at what is nested under a path of fields, or following
the path through the request and pruning the part it leads to (`Query.valueOf`).

The one merges all requests for a field, and the other goes on with the first of
them only. On a path of relations on which that one has something below it and is
not excluded (`Prune.Navigates`), the part has no key that the whole lacks
(`Prune.Navigates.hasKeyAt`), but it has less where a field is requested again with
something below it. Where there is only one such request for each field, the two ways
agree (`Prune.Navigates.selectedAt?_eq`).

A path on which the first request for a field has nothing below it, and only a later
one has, is not of this kind: there the part may even have what the whole lacks.
-/

namespace Schematic

/-! ## Select arguments -/

/-- What is nested in a select argument under a path of fields. -/
def Json.Value.selectedAt? : List String → Json.Value → Option Json.Value
  | [], value => some value
  | name :: path, value =>
    ((value.member? "select").bind (·.member? name)).bind (selectedAt? path)

theorem Selected.get?_entryValues (name : String) (select : List (String × Selected)) :
    Keyed.get? name (entryValues select) = (Keyed.get? name select).map toValue := by
  induction select with
  | nil => rfl
  | cons entry rest ih =>
    obtain ⟨key, selected⟩ := entry
    rw [entryValues, Keyed.get?_cons, Keyed.get?_cons, ih]
    split <;> rfl

/-- Below a field stands what is selected under it. -/
theorem Selection.selectedAt?_toValue {node : Selection} (h : TypedArguments node.arguments)
    (name : String) (path : List String) :
    node.toValue.selectedAt? (name :: path) =
      (node.get? name).bind fun selected => selected.toValue.selectedAt? path := by
  have hselect : "select" ∉ Keyed.keys node.arguments := by
    intro hmem
    obtain ⟨argument, hargument, hname⟩ := List.mem_map.1 hmem
    have htyped := (h.typed argument hargument).1
    rw [hname] at htyped
    exact absurd htyped (by decide)
  rw [toValue, nodeValue, Json.Value.selectedAt?, Json.Value.member?, Keyed.get?_putAll h.nodup,
    (Keyed.get?_eq_none_iff _ _).2 hselect]
  show (Keyed.get? name (Selected.entryValues node.select)).bind _ = _
  rw [Selected.get?_entryValues, Selection.get?]
  cases Keyed.get? name node.select <;> rfl

/-! ## Models of a schema -/

/-- In a loaded schema a model is found under its name. -/
theorem Schema.resolveModel?_name {schema : Schema}
    (hnodup : (schema.models.map (·.name)).Nodup) {model : Model} (h : model ∈ schema.models) :
    schema.resolveModel? model.name = some model := by
  have hfind : schema.findModel? model.name = some model := find?_of_nodup hnodup h
  rw [resolveModel?, hfind]
  rfl

namespace Prune

variable {schema : Schema} {options : Options} {model target : Model} {request part : Request}
  {path : List String}

/-! ## Paths through a request -/

variable (schema options) in
/-- A path of relations leads from a request for a model to a part of it for another
one: to the first request for every field, which has something below it and is not
excluded. -/
inductive Navigates : Model → Request → List String → Model → Request → Prop
  | here {model : Model} {request : Request} : Navigates model request [] model request
  | step {model next target : Model} {request field part : Request} {name : String}
      {declared : Field} {path : List String} (hfield : request.field? name = some field)
      (hexcluded : name ∉ options.exclusionsFor model.name request) (hfields : ¬ field.isLeaf)
      (hdeclared : model.field? name = some declared) (hrelation : declared.isRelation)
      (hnext : schema.findModel? declared.type = some next)
      (hrest : Navigates next field path target part) :
      Navigates model request (name :: path) target part

/-- The sub-request can select something under the name. -/
def SelectsUnder (model : Model) (name : String) (field : Request) : Prop :=
  field.name = name ∨ name = countName ∧ AsksCount model field.name

instance (name : String) (field : Request) : Decidable (SelectsUnder model name field) :=
  inferInstanceAs (Decidable (_ ∨ _))

variable (schema) in
/-- Of the requests for each field on the path only one has something below it. -/
def RequestedOnce : Model → Request → List String → Prop
  | _, _, [] => True
  | model, request, name :: path =>
    (request.fields.countP fun field => SelectsUnder model name field ∧ ¬ field.isLeaf) = 1 ∧
      ∀ declared ∈ model.field? name, ∀ next ∈ schema.findModel? declared.type,
        ∀ field ∈ request.field? name, RequestedOnce next field path

theorem Navigates.foldlM_field? (h : Navigates schema options model request path target part) :
    path.foldlM Request.field? request = some part := by
  induction h with
  | here => rfl
  | step hfield _ _ _ _ _ _ ih =>
    rw [List.foldlM_cons, hfield]
    exact ih

theorem Navigates.mem_models (h : Navigates schema options model request path target part)
    (hmodel : model ∈ schema.models) : target ∈ schema.models := by
  induction h with
  | here => exact hmodel
  | step _ _ _ _ _ hnext _ ih => exact ih (List.mem_of_find?_eq_some hnext)

/-- The first request for a field is one of the sub-requests, and has its name. -/
theorem mem_of_field? {name : String} {field : Request} (h : request.field? name = some field) :
    field ∈ request.fields ∧ field.name = name :=
  ⟨List.mem_of_find?_eq_some h, of_decide_eq_true (List.find?_some h :)⟩

/-! ## One step -/

section Step

variable {excluded : List String} {field : Request} {name : String} {selected : Selected}

theorem Contributes.selectsUnder
    (h : Contributes schema options model excluded field name selected) :
    SelectsUnder model name field := by
  cases h with
  | plain => exact .inl rfl
  | relation => exact .inl rfl
  | count _ _ hasks => exact .inr ⟨rfl, hasks⟩

/-- With nothing below it a sub-request contributes a plain field at most. -/
theorem Contributes.eq_field_of_isLeaf
    (h : Contributes schema options model excluded field name selected) (hleaf : field.isLeaf) :
    selected = .field := by
  cases h with
  | plain => rfl
  | relation _ _ _ _ hfields => exact absurd hleaf hfields
  | count _ _ _ hcounts hne =>
    obtain ⟨-, rfl⟩ := count_eq_ok_iff.1 hcounts
    rw [Request.isLeaf_iff.1 hleaf] at hne
    exact absurd rfl hne

/-- Something nested comes from a sub-request with something below it. -/
theorem exists_contributes_of_isNested {node : Selection}
    (hnode : prune schema options model request = .ok node)
    (hselected : node.get? name = some selected) (hnested : selected.isNested) :
    ∃ other ∈ request.fields, ∃ nested, ¬ other.isLeaf ∧
      Contributes schema options model (options.exclusionsFor model.name request) other name
        nested := by
  obtain ⟨-, rfl⟩ := prune_eq_ok_iff.1 hnode
  have hentry := (Selected.get?_mergeEntries_isNested merge_field_of_mem_entries).1
    ⟨selected, hselected, hnested⟩
  rcases hentry with ⟨_, hnone, -⟩ | ⟨⟨_, nested⟩, hmem, rfl, hnested⟩
  · cases hnone
  · rcases of_mem_entries hmem with ⟨other, hother, hcontributes⟩ | ⟨rfl, -⟩
    · refine ⟨other, hother, nested, fun hleaf => ?_, hcontributes⟩
      obtain rfl : nested = .field := hcontributes.eq_field_of_isLeaf hleaf
      cases hnested
    · cases hnested

/-- What a sub-request contributes is selected as it is, if the others for it have
nothing below them. -/
theorem get?_of_contributes {node : Selection} {before after : List Request}
    (hnode : prune schema options model request = .ok node)
    (hsplit : request.fields = before ++ field :: after)
    (hothers : ∀ other, other ∈ before ∨ other ∈ after → SelectsUnder model name other →
      other.isLeaf)
    (h : Contributes schema options model (options.exclusionsFor model.name request) field name
      selected) : node.get? name = some selected := by
  have hplain : ∀ others : List Request, (∀ other ∈ others, other ∈ before ∨ other ∈ after) →
      ∀ entry ∈ others.filterMap
        (contribution? schema options model (options.exclusionsFor model.name request)),
      entry.1 = name → entry.2 = .field := by
    rintro others hmem ⟨_, _⟩ hentry rfl
    obtain ⟨other, hother, hentry⟩ := List.mem_filterMap.1 hentry
    have hcontributes := contribution?_eq_some_iff.1 hentry
    exact hcontributes.eq_field_of_isLeaf
      (hothers other (hmem other hother) hcontributes.selectsUnder)
  have hfield : field ∈ request.fields := by
    rw [hsplit]
    exact List.mem_append_right _ List.mem_cons_self
  obtain ⟨-, rfl⟩ := prune_eq_ok_iff.1 hnode
  rw [entries_of_contributes hfield h, hsplit, List.filterMap_append,
    List.filterMap_cons_some (contribution?_eq_some_iff.2 h), List.append_assoc, List.cons_append]
  refine Selected.get?_mergeEntries_once h.merge_field (hplain before fun _ => .inl) ?_
  intro entry hentry hname
  rcases List.mem_append.1 hentry with hentry | hentry
  · exact hplain after (fun _ => .inr) entry hentry hname
  · exact eq_field_of_mem_defaultEntries entry hentry

/-- The step: if of the requests for a relation only the first has anything below
it, then what is nested under the relation is what this request is pruned to. -/
theorem exists_prune_of_countP_eq_one {node : Selection} {declared : Field} {next : Model}
    (hnode : prune schema options model request = .ok node)
    (hfield : request.field? name = some field) (hfields : ¬ field.isLeaf)
    (hdeclared : model.field? name = some declared)
    (hnext : schema.findModel? declared.type = some next)
    (honce :
      (request.fields.countP fun field => SelectsUnder model name field ∧ ¬ field.isLeaf) = 1)
    (hselected : node.get? name = some selected) (hnested : selected.isNested) :
    ∃ nested, prune schema options next field = .ok nested ∧ selected = nested.toSelected := by
  obtain ⟨hmem, hname⟩ := mem_of_field? hfield
  obtain ⟨before, after, hsplit⟩ := List.append_of_mem hmem
  have hothers : ∀ other, other ∈ before ∨ other ∈ after → SelectsUnder model name other →
      other.isLeaf := by
    have hself : SelectsUnder model name field ∧ ¬ field.isLeaf := ⟨.inl hname, hfields⟩
    rw [hsplit, List.countP_append, List.countP_cons_of_pos (by simpa using hself)] at honce
    obtain ⟨hbefore, hafter⟩ := Nat.add_eq_zero_iff.1 (Nat.succ.inj honce)
    intro other hother hselects
    have hnot := hother.elim (List.countP_eq_zero.1 hbefore other)
      (List.countP_eq_zero.1 hafter other)
    simpa [hselects] using hnot
  -- Only the one request with anything below it can have contributed what is nested.
  obtain ⟨other, hother, nested, hbelow, hcontributes⟩ :=
    exists_contributes_of_isNested hnode hselected hnested
  obtain rfl : other = field := by
    rw [hsplit, List.mem_append, List.mem_cons] at hother
    rcases hother with hother | rfl | hother
    · exact absurd (hothers other (.inl hother) hcontributes.selectsUnder) hbelow
    · rfl
    · exact absurd (hothers other (.inr hother) hcontributes.selectsUnder) hbelow
  have hget := get?_of_contributes hnode hsplit hothers hcontributes
  obtain rfl : selected = nested := Option.some.inj (hselected.symm.trans hget)
  cases hcontributes with
  | plain => cases hnested
  | relation _ _ hdeclared' _ _ hnext' hpruned _ =>
    obtain rfl := Option.some.inj (hdeclared.symm.trans hdeclared')
    obtain rfl := Option.some.inj (hnext.symm.trans hnext')
    exact ⟨_, hpruned, rfl⟩
  | count _ _ hasks =>
    rw [← hname, hasks.1] at hdeclared
    cases hdeclared

theorem merge_field_of_get? {node : Selection}
    (hnode : prune schema options model request = .ok node)
    (hselected : node.get? name = some selected) : selected.merge .field = selected := by
  obtain ⟨-, rfl⟩ := prune_eq_ok_iff.1 hnode
  exact Selected.merge_field_of_mem_mergeEntries (List.forall_mem_nil _)
    merge_field_of_mem_entries _ (Keyed.mem_of_get? hselected)

/-- Where an object stands below a field, the field is nested. -/
theorem isNested_of_selectedAt? {entries : Keyed Json.Value}
    (hselected : selected.merge .field = selected)
    (h : selected.toValue.selectedAt? path = some (.object entries)) : selected.isNested := by
  cases selected with
  | nested => rfl
  | field => cases path <;> cases h
  | counted => cases hselected
  | group => cases hselected

end Step

/-! ## The whole path -/

/-- The run: where only the first request for each field on a path has anything
below it, the part it leads to is pruned to what is nested under the path. -/
theorem Navigates.selectedAt?_eq (h : Navigates schema options model request path target part) :
    ∀ {node : Selection} {entries : Keyed Json.Value},
      prune schema options model request = .ok node → RequestedOnce schema model request path →
      node.toValue.selectedAt? path = some (.object entries) →
      ∃ nested, prune schema options target part = .ok nested ∧
        nested.toValue = .object entries := by
  induction h with
  | here =>
    intro node entries hnode _ hvalue
    exact ⟨node, hnode, Option.some.inj hvalue⟩
  | @step model _ _ request field _ name declared path hfield _ hfields hdeclared _ hnext _ ih =>
    intro node entries hnode honce hvalue
    have harguments : TypedArguments node.arguments := by
      rw [(prune_eq_ok_iff.1 hnode).2]
      exact typedArguments_relationArguments request.args
    rw [Selection.selectedAt?_toValue harguments, Option.bind_eq_some_iff] at hvalue
    obtain ⟨selected, hselected, hvalue⟩ := hvalue
    have hnested := isNested_of_selectedAt? (merge_field_of_get? hnode hselected) hvalue
    obtain ⟨nested, hpruned, rfl⟩ := exists_prune_of_countP_eq_one hnode hfield hfields hdeclared
      hnext honce.1 hselected hnested
    exact ih hpruned (honce.2 declared hdeclared _ hnext field hfield) hvalue

/-- The run without this condition: the part that a path of relations leads to has a
selection, and all of it, but for what stands below counts, is in that of the whole. -/
theorem Navigates.hasKeyAt (h : Navigates schema options model request path target part) :
    ∀ {node : Selection}, prune schema options model request = .ok node →
      (∀ name ∈ path, ¬ isMeta name) →
      ∃ nested, prune schema options target part = .ok nested ∧
        ∀ below key, countName ∉ (path ++ below).dropLast →
          Selected.HasKeyAt key below nested.select →
          Selected.HasKeyAt key (path ++ below) node.select := by
  induction h with
  | here =>
    intro node hnode _
    exact ⟨node, hnode, fun _ _ _ hkey => hkey⟩
  | @step model next _ request field _ name declared path hfield hexcluded hfields hdeclared
      hrelation hnext _ ih =>
    intro node hnode hmeta
    obtain ⟨hmem, rfl⟩ := mem_of_field? hfield
    obtain ⟨hname, hbelow⟩ := List.forall_mem_cons.1 hmeta
    obtain ⟨between, hbetween⟩ := exists_prune_of_entry hname hexcluded hdeclared hrelation hfields
      hnext ((prune_eq_ok_iff.1 hnode).1 field hmem)
    obtain ⟨nested, hnested, hkeys⟩ := ih hbetween hbelow
    refine ⟨nested, hnested, fun below key hpath hkey => ?_⟩
    have hkey := hkeys below key (not_mem_dropLast_of_cons hpath) hkey
    exact Contributes.hasKeyAt hnode hmem hpath
      (.relation hname hexcluded hdeclared hrelation hfields hnext hbetween
        (Selected.not_isEmpty_of_hasKeyAt hkey)) hkey

end Prune

namespace Query

open Prune

/-- The selection of a query for a model is what its request is pruned to. -/
theorem selection_eq {documents : List Document} {q : Query} {root : Model}
    (hload : Schema.ofDocuments documents = .ok q.schema) (haggregate : q.isAggregate = false)
    (hroot : q.schema.resolveModel? q.returnType = some root) :
    q.selection = prune q.schema q.options root q.request := by
  have hnone : q.schema.aggregatedModel? q.returnType = none := by
    rwa [isAggregate, Option.isSome_eq_false_iff, Option.isNone_iff_eq_none] at haggregate
  have hself := Schema.resolveModel?_name (Schema.nodup_names_of_ofDocuments hload)
    (Schema.mem_models_of_resolveModel? hroot)
  simp only [selection, hnone, pruneRoot, hroot, Option.some_or, pruneNamed, hself]

/-- **Parts and wholes.** On a path of relations on which the first request for every
field has something below it and is not excluded, the part that the path leads to is
pruned to no key, but for those below counts, that the whole request is not pruned to.
What is nested in the whole under the path comes out exactly, if of the requests for
each field on the path only the first has anything below it. -/
theorem valueOf_of_navigates {documents : List Document} {q : Query} {root target : Model}
    {part : Request} {path : String} {value : Json.Value}
    (hload : Schema.ofDocuments documents = .ok q.schema) (haggregate : q.isAggregate = false)
    (hroot : q.schema.resolveModel? q.returnType = some root)
    (hpath : Navigates q.schema q.options root q.request (Request.pathNames path) target part)
    (hvalue : q.value = .ok value) :
    (∀ entries, RequestedOnce q.schema root q.request (Request.pathNames path) →
      value.selectedAt? (Request.pathNames path) = some (.object entries) →
      q.valueOf path (some target.name) none = .ok (.object entries)) ∧
    ((∀ name ∈ Request.pathNames path, ¬ isMeta name) →
      ∃ node nested : Selection, value = node.toValue ∧
        q.valueOf path (some target.name) none = .ok nested.toValue ∧
        ∀ below key, countName ∉ (Request.pathNames path ++ below).dropLast →
          Selected.HasKeyAt key below nested.select →
          Selected.HasKeyAt key (Request.pathNames path ++ below) node.select) := by
  have hself : q.schema.resolveModel? target.name = some target :=
    Schema.resolveModel?_name (Schema.nodup_names_of_ofDocuments hload)
      (hpath.mem_models (Schema.mem_models_of_resolveModel? hroot))
  have hvalueOf : ∀ {nested : Selection}, prune q.schema q.options target part = .ok nested →
      q.valueOf path (some target.name) none = .ok nested.toValue := by
    intro nested hnested
    have hdescend : q.request.descend? path = some part := hpath.foldlM_field?
    simp only [valueOf, hdescend, pruneNamed, hself, hnested]
    rfl
  have hnode : ∃ node, prune q.schema q.options root q.request = .ok node ∧
      value = node.toValue := by
    rw [Query.value, selection_eq hload haggregate hroot] at hvalue
    rcases hnode : prune q.schema q.options root q.request with error | node <;>
      rw [hnode] at hvalue <;> cases hvalue
    exact ⟨node, rfl, by rw [haggregate]; rfl⟩
  obtain ⟨node, hnode, rfl⟩ := hnode
  constructor
  · intro entries honce hselected
    obtain ⟨nested, hnested, hentries⟩ := hpath.selectedAt?_eq hnode honce hselected
    rw [hvalueOf hnested, hentries]
  · intro hmeta
    obtain ⟨nested, hnested, hkeys⟩ := hpath.hasKeyAt hnode hmeta
    exact ⟨node, nested, rfl, hvalueOf hnested, hkeys⟩

/-- The authors of posts are requested twice, but the second time with nothing below
them, and so the part has the posts of the authors as the whole does. -/
theorem valueOf_of_navigates_blog :
    Blog.authorsQuery.value = .ok (.object [("select", .object [("title", .bool true),
        ("author", .object [("select", .object [
          ("posts", .object [("select", .object [("title", .bool true)]),
            ("take", .int 2)])])])])]) ∧
      Blog.authorsQuery.valueOf "author.posts" (some "Post") none =
        .ok (.object [("select", .object [("title", .bool true)]), ("take", .int 2)]) := by
  have hload : Schema.ofDocuments [Blog.document] = .ok Blog.authorsQuery.schema := rfl
  have hroot : Blog.schema.resolveModel? "Post" = some Blog.post := rfl
  have hpath : Navigates Blog.schema {} Blog.post Blog.authorsQuery.request
      (Request.pathNames "author.posts") Blog.post
      (((Request.ofName "posts").withArg "take" (.int 2)).withField "Post" (.ofName "title")) :=
    .step rfl (by decide) (by decide) rfl rfl rfl
      (.step rfl (by decide) (by decide) rfl rfl rfl .here)
  have honce : RequestedOnce Blog.schema Blog.post Blog.authorsQuery.request
      (Request.pathNames "author.posts") := by
    refine ⟨rfl, ?_⟩
    rintro _ ⟨⟩ _ ⟨⟩ _ ⟨⟩
    refine ⟨rfl, ?_⟩
    rintro _ ⟨⟩ _ ⟨⟩ _ ⟨⟩
    trivial
  exact ⟨rfl, (valueOf_of_navigates hload rfl hroot hpath rfl).1 _ honce rfl⟩

/-- Under two labels with something below both of them, the whole has more than the
part. -/
example : (Query.mk Blog.schema Blog.request "User" Blog.options).value.toOption.bind
      (·.selectedAt? ["posts"]) = some (.object [("select", .object [("title", .bool true),
        ("_count", .object [("select", .object [("comments", .bool true)])]),
        ("id", .bool true)])]) ∧
    (Query.mk Blog.schema Blog.request "User" Blog.options).valueOf "posts" (some "Post") none =
      .ok (.object [("select", .object [("title", .bool true),
        ("_count", .object [("select", .object [("comments", .bool true)])])])]) :=
  ⟨rfl, rfl⟩

/-- Posts that are requested as a whole at first, and later with their titles. The path
goes on with the former, and of these, as nothing is selected, the ids are fallen back
on, which the whole lacks. -/
example : let request := (Request.ofName "findManyUser").withFields "User" [.ofName "posts",
      ((Request.ofName "posts").withLabel "recent").withField "Post" (.ofName "title")]
    (Query.mk Blog.schema request "User" {}).value.toOption.bind (·.selectedAt? ["posts"]) =
      some (.object [("select", .object [("title", .bool true)])]) ∧
    (Query.mk Blog.schema request "User" {}).valueOf "posts" (some "Post") none =
      .ok (.object [("select", .object [("id", .bool true)])]) :=
  ⟨rfl, rfl⟩

end Query

end Schematic
