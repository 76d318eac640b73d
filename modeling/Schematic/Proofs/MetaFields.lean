import Schematic.Proofs.Uniform

/-!
# Fields of the query language

A request that has anything of a model below it may lose the fields of the query language that it
has there too, at every depth (`Request.LosesMeta`, `Request.withoutMeta`). If what is selected
always or never does not depend on the request, it is pruned to the same selection, in the same
order, or fails with the same error (`Prune.pruneNamed_losesMeta`).

Where there is nothing else below a request, these fields do count: without them a relation would be
requested as a whole.
-/

namespace Schematic

/-- Some of the items that may go are gone from a list, and the others have given way to related
ones. -/
inductive Thinned {α : Type} (MayGo : α → Prop) (R : α → α → Prop) : List α → List α → Prop
  | nil : Thinned MayGo R [] []
  | keep {a b : α} {items less : List α} (hab : R a b) (hrest : Thinned MayGo R items less) :
      Thinned MayGo R (a :: items) (b :: less)
  | drop {a : α} {items less : List α} (hdrop : MayGo a) (hrest : Thinned MayGo R items less) :
      Thinned MayGo R (a :: items) less

/-- What comes of nothing can be left out of a run: it has the same results, or fails alike. -/
theorem mapM_of_thinned {ε α β : Type} {f : α → Except ε (Option β)} {MayGo : α → Prop}
    {R : α → α → Prop} {items less : List α} (h : Thinned MayGo R items less)
    (hdrop : ∀ a ∈ items, MayGo a → f a = .ok none) (hkeep : ∀ a ∈ items, ∀ b, R a b → f b = f a) :
    (less.mapM f).map (List.filterMap id) = (items.mapM f).map (List.filterMap id) := by
  induction h with
  | nil => rfl
  | @keep a b items less hab _ ih =>
    obtain ⟨hkeep, hkeepRest⟩ := List.forall_mem_cons.1 hkeep
    have hrest := ih (List.forall_mem_cons.1 hdrop).2 hkeepRest
    rw [mapM_filterMap_cons, mapM_filterMap_cons, hrest, hkeep b hab]
  | @drop a items less ha _ ih =>
    obtain ⟨hdrop, hdropRest⟩ := List.forall_mem_cons.1 hdrop
    rw [ih hdropRest (List.forall_mem_cons.1 hkeep).2, mapM_filterMap_cons, hdrop ha]
    cases (items.mapM f).map (List.filterMap id) <;> rfl

theorem thinned_of_filter {α : Type} {MayGo : α → Prop} {R : α → α → Prop} {keep : α → Bool}
    {f : α → α} {items : List α} (hdrop : ∀ a ∈ items, ¬ keep a → MayGo a)
    (hkeep : ∀ a ∈ items, R a (f a)) :
    Thinned MayGo R items ((items.filter keep).map f) := by
  induction items with
  | nil => exact .nil
  | cons a rest ih =>
    obtain ⟨hdrop, hdropRest⟩ := List.forall_mem_cons.1 hdrop
    obtain ⟨hkeep, hkeepRest⟩ := List.forall_mem_cons.1 hkeep
    have hrest := ih hdropRest hkeepRest
    rw [List.filter_cons]
    split
    · exact .keep hkeep hrest
    · rename_i ha
      exact .drop (hdrop ha) hrest

namespace Request

/-! ## Requests that lose fields of the query language -/

/-- The second request is the first without some fields of the query language, at every depth. Where
there was something below a request there still is. -/
inductive LosesMeta : Request → Request → Prop
  | intro {request less : Request} (hname : less.name = request.name)
      (hargs : less.args = request.args) (hleaf : less.isLeaf → request.isLeaf)
      (hfields : Thinned (fun field => isMeta field.name) LosesMeta request.fields less.fields) :
      LosesMeta request less

/-- Whether anything that is no field of the query language is requested below. -/
def hasData (r : Request) : Bool :=
  r.fields.any fun field => !isMeta field.name

mutual
/-- The request without the fields of the query language, at every depth, wherever there is anything
else beside them. -/
def withoutMeta : Request → Request
  | ⟨name, label, args, groups⟩ =>
    ⟨name, label, args, groupsWithoutMeta (hasData ⟨name, label, args, groups⟩) groups⟩
termination_by structural request => request

/-- The sub-requests on several types without fields of the query language, if they may go. -/
def groupsWithoutMeta (mayGo : Bool) :
    List (String × List (String × Request)) → List (String × List (String × Request))
  | [] => []
  | (type, fields) :: rest => (type, fieldsWithoutMeta mayGo fields) :: groupsWithoutMeta mayGo rest
termination_by structural groups => groups

/-- Several sub-requests without fields of the query language, if they may go. -/
def fieldsWithoutMeta (mayGo : Bool) : List (String × Request) → List (String × Request)
  | [] => []
  | (label, field) :: rest =>
    if mayGo && isMeta field.name then fieldsWithoutMeta mayGo rest
    else (label, field.withoutMeta) :: fieldsWithoutMeta mayGo rest
termination_by structural fields => fields
end

theorem map_snd_fieldsWithoutMeta (mayGo : Bool) (fields : List (String × Request)) :
    (fieldsWithoutMeta mayGo fields).map Prod.snd =
      ((fields.map Prod.snd).filter fun field => !(mayGo && isMeta field.name)).map
        withoutMeta := by
  induction fields with
  | nil => rfl
  | cons field rest ih =>
    obtain ⟨label, field⟩ := field
    rw [fieldsWithoutMeta, List.map_cons, List.filter_cons]
    cases mayGo && isMeta field.name
    · exact congrArg (field.withoutMeta :: ·) ih
    · exact ih

/-- Over the groups of all types, just the fields of the query language are gone, if they
may go. -/
theorem fields_withoutMeta (request : Request) :
    request.withoutMeta.fields =
      (request.fields.filter fun field => !(request.hasData && isMeta field.name)).map
        withoutMeta := by
  obtain ⟨name, label, args, groups⟩ := request
  rw [withoutMeta]
  generalize hasData ⟨name, label, args, groups⟩ = mayGo
  show (groupsWithoutMeta mayGo groups).flatMap _ = ((groups.flatMap _).filter _).map _
  induction groups with
  | nil => rfl
  | cons group rest ih =>
    obtain ⟨type, fields⟩ := group
    rw [groupsWithoutMeta, List.flatMap_cons, map_snd_fieldsWithoutMeta, ih, List.flatMap_cons,
      List.filter_append, List.map_append]

/-- Nothing that was requested with something below it becomes a leaf, nor the other way round. -/
theorem LosesMeta.isLeaf_eq {request less : Request} (h : request.LosesMeta less) :
    less.isLeaf = request.isLeaf := by
  obtain ⟨-, -, hleaf, hfields⟩ := h
  refine Bool.eq_iff_iff.2 ⟨hleaf, fun h => ?_⟩
  rw [isLeaf_iff] at h ⊢
  generalize less.fields = fields at hfields
  rw [h] at hfields
  cases hfields
  rfl

/-- A request may lose them everywhere at once. -/
theorem losesMeta_withoutMeta (request : Request) : request.LosesMeta request.withoutMeta := by
  induction request using Request.induction with
  | h request ih =>
    refine .intro (by cases request; rfl) (by cases request; rfl) ?_ ?_
    · -- If all were gone, there would have to be something else beside them.
      rw [isLeaf_iff, isLeaf_iff, fields_withoutMeta, List.map_eq_nil_iff, List.filter_eq_nil_iff]
      intro hgone
      refine List.eq_nil_iff_forall_not_mem.2 fun field hfield => ?_
      have hmayGo := hgone field hfield
      obtain ⟨hdata, -⟩ : request.hasData ∧ isMeta field.name := by simpa using hmayGo
      obtain ⟨other, hother, hname⟩ := List.any_eq_true.1 hdata
      exact hgone other hother (by simpa [hdata] using hname)
    · rw [fields_withoutMeta]
      refine thinned_of_filter (fun field _ hdropped => ?_) ih
      have hmayGo : request.hasData ∧ isMeta field.name := by simpa using hdropped
      exact hmayGo.2

end Request

namespace Prune

variable {schema : Schema} {options : Options} {request less : Request}

/-! ## Pruning -/

/-- Neither the entries of sub-requests to a count nor those to a selection come of fields of the
query language. -/
theorem countEntry_of_isMeta (options : Options) (model : Model) (excluded : List String)
    {field : Request} (h : isMeta field.name) :
    countEntry options model excluded field = .ok none :=
  if_pos h

theorem entry_of_isMeta (schema : Schema) (options : Options) (model : Model)
    (excluded : List String) {field : Request} (h : isMeta field.name) :
    entry schema options model excluded field = .ok none :=
  if_pos (.inl h)

/-- A count takes in the same names, as no field of the query language is one of them. -/
theorem count_of_losesMeta (h : request.LosesMeta less) (model : Model) (excluded : List String) :
    count options model excluded less = count options model excluded request := by
  obtain ⟨-, -, -, hfields⟩ := h
  rw [count_eq, count_eq, mapM_of_thinned hfields
    (fun _ _ => countEntry_of_isMeta options model excluded) fun field _ other hother => ?_]
  obtain ⟨hname, hargs, -, -⟩ := hother
  rw [countEntry, countEntry, hname, hargs]

/-- The step: a sub-request contributes the same, if it is pruned to the same. -/
theorem entry_of_losesMeta (h : request.LosesMeta less)
    (hprune : ∀ target, prune schema options target less = prune schema options target request)
    (model : Model) (excluded : List String) :
    entry schema options model excluded less = entry schema options model excluded request := by
  have hcount : count options model excluded less = count options model excluded request :=
    count_of_losesMeta h model excluded
  have hleaf : less.isLeaf = request.isLeaf := h.isLeaf_eq
  obtain ⟨hname, -, -, -⟩ := h
  simp only [entry, hname, hcount, hleaf, hprune]

/-- The run: without the fields of the query language a request is pruned to the same. -/
theorem prune_of_losesMeta (hfixed : options.Fixed) (h : request.LosesMeta less) :
    ∀ model, prune schema options model less = prune schema options model request := by
  induction request using Request.induction generalizing less with
  | h request ih =>
    intro model
    have hexcluded := hfixed.exclusionsFor_eq model.name less request
    have hdefaults := hfixed.defaultsFor_eq model.name less request
    obtain ⟨-, hargs, -, hfields⟩ := h
    -- Only the entries of the sub-requests could differ.
    have hcomplete : complete options model less = complete options model request := by
      funext entries
      simp only [complete, hexcluded, hdefaults, hargs]
    rw [prune_eq, prune_eq, hexcluded, hcomplete, mapM_of_thinned hfields
      (fun _ _ => entry_of_isMeta schema options model _) fun field hfield other hother => ?_]
    exact entry_of_losesMeta hother (ih field hfield hother) model _

/-- **Fields of the query language.** A request may lose them wherever there is anything else beside
them, all at once or some only. If what is selected always or never does not depend on the request,
it still has the same selection, in the same order, or the same error. -/
theorem pruneNamed_losesMeta (hfixed : options.Fixed) (request : Request) (name : String) :
    request.LosesMeta request.withoutMeta ∧ ∀ less, request.LosesMeta less →
      pruneNamed schema options name less = pruneNamed schema options name request ∧
        pruneRoot schema options name less = pruneRoot schema options name request := by
  refine ⟨request.losesMeta_withoutMeta, fun less hless => ?_⟩
  have hprune : ∀ model, prune schema options model less = prune schema options model request :=
    prune_of_losesMeta hfixed hless
  have hnamed : ∀ name, pruneNamed schema options name less =
      pruneNamed schema options name request := fun name => by
    simp only [pruneNamed, hprune]
  exact ⟨hnamed name, by simp only [pruneRoot, hnamed]⟩

end Prune

/-- Types are requested at every depth, and of the drafts nothing else. -/
def Blog.typedRequest : Request :=
  (Request.ofName "findManyUser").withFields "User" [
    .ofName "__typename",
    .ofName "id",
    (Request.ofName "posts").withFields "Post" [
      .ofName "title",
      (Request.ofName "findManyComment").withFields "Post"
        [.ofName "comments", .ofName "__typename"]],
    ((Request.ofName "posts").withLabel "drafts").withField "Post" (.ofName "__typename")]

/-- The types go at every depth but from the drafts, of which nothing else is requested,
and the selection stays. -/
theorem Prune.pruneNamed_losesMeta_blog :
    Blog.typedRequest.LosesMeta Blog.typedRequest.withoutMeta ∧
      Blog.typedRequest.withoutMeta.fields.map (·.name) = ["id", "posts", "posts"] ∧
      pruneNamed Blog.schema Blog.options.rejectUnknown "User" Blog.typedRequest.withoutMeta =
        .ok ⟨[("id", .field),
          ("posts", .nested [("title", .field), ("_count", .nested [("comments", .field)] []),
            ("id", .field)] []),
          ("firstName", .field)], []⟩ := by
  have hfixed : Blog.options.rejectUnknown.Fixed :=
    ⟨Blog.uniform_kept.defaults, Blog.uniform_kept.excluded⟩
  obtain ⟨hless, hpruned⟩ := pruneNamed_losesMeta hfixed Blog.typedRequest "User"
  exact ⟨hless, rfl, (hpruned _ hless).1⟩

/-- Where there is nothing else beside it such a field counts: without it the authors are requested
as a whole. -/
example : pruneNamed Blog.schema {} "Post" ((Request.ofName "findManyPost").withField "Post"
      ((Request.ofName "author").withField "User" (.ofName "__typename"))) =
        .ok ⟨[("author", .nested [("id", .field)] [])], []⟩ ∧
    pruneNamed Blog.schema {} "Post"
      ((Request.ofName "findManyPost").withField "Post" (.ofName "author")) =
        .ok ⟨[("author", .field)], []⟩ :=
  ⟨rfl, rfl⟩

end Schematic
