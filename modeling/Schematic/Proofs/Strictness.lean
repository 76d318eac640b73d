import Schematic.Proofs.Blog
import Schematic.Proofs.PrunedKeys

/-!
# Strict pruning

Strict pruning differs from the permissive one only in that it gives up at a name
its model does not declare. Which names it looks at is said by `visits`: all
sub-requests it comes by, in depth-first order, each with the model of its level.
The main statement, `pruneNamed_strict`, is that the first unknown name among
them is the error, and that without one both runs have the same result.

Both runs are followed side by side: `AgreesUnless` says that the first succeeds
and that the second does the same unless there is an error. It goes through
several runs one after the other (`AgreesUnless.mapM`), where the error is the
first of the errors.
-/

namespace Schematic

/-! ## Runs that agree unless there is an error -/

/-- A result that an error comes before, if there is one. -/
def unlessError {ε α : Type} (error? : Option ε) (a : α) : Except ε α :=
  match error? with
  | some error => .error error
  | none => .ok a

/-- The first run succeeds, and the second does the same unless there is an error. -/
def AgreesUnless {ε α : Type} (error? : Option ε) (permissive strict : Except ε α) : Prop :=
  ∃ a, permissive = .ok a ∧ strict = unlessError error? a

namespace AgreesUnless

variable {ε α β γ : Type}

/-- Two equal runs that succeed. -/
theorem of_ok (a : α) : AgreesUnless (none : Option ε) (.ok a) (.ok a) :=
  ⟨a, rfl, rfl⟩

theorem map {error? : Option ε} {x y : Except ε α} (f : α → β) (h : AgreesUnless error? x y) :
    AgreesUnless error? (x.map f) (y.map f) := by
  obtain ⟨a, rfl, rfl⟩ := h
  refine ⟨f a, rfl, ?_⟩
  cases error? <;> rfl

/-- Runs one after the other agree unless one of them has an error, and then the
first error counts. -/
theorem mapM {f g : α → Except ε β} {seen : α → List γ} {error? : γ → Option ε}
    {items : List α}
    (h : ∀ a ∈ items, AgreesUnless ((seen a).findSome? error?) (f a) (g a)) :
    AgreesUnless ((items.flatMap seen).findSome? error?) (items.mapM f) (items.mapM g) := by
  induction items with
  | nil => exact of_ok []
  | cons a rest ih =>
    obtain ⟨hhead, hrest⟩ := List.forall_mem_cons.1 h
    obtain ⟨b, hf, hg⟩ := hhead
    obtain ⟨bs, hfs, hgs⟩ := ih hrest
    rw [List.mapM_cons, List.mapM_cons, hf, hg, hfs, hgs, List.flatMap_cons,
      List.findSome?_append]
    refine ⟨b :: bs, rfl, ?_⟩
    -- An error of the head comes before all others.
    cases (seen a).findSome? error? with
    | some error => rfl
    | none => cases (rest.flatMap seen).findSome? error? <;> rfl

end AgreesUnless

/-- Options that are permissive stay the same when they are made so. -/
theorem Options.eq_of_permissive {options : Options} (h : options.strict = false) :
    { options with strict := false } = options := by
  cases options
  cases h
  rfl

/-! ## What strict pruning looks at -/

/-- A sub-request that is looked at. -/
structure Visit where
  /-- The model of its level. -/
  model : Model
  field : Request
  /-- Whether it stands below a request for a count. -/
  counted : Bool

namespace Visit

/-- The name is not declared. A request for a count need not be, but what stands
below one has to. -/
def IsUnknown (visit : Visit) : Prop :=
  visit.model.field? visit.field.name = none ∧
    (visit.counted ∨ ¬ Prune.AsksCount visit.model visit.field.name)

instance (visit : Visit) : Decidable visit.IsUnknown :=
  inferInstanceAs (Decidable (_ ∧ _))

/-- The error of an unknown name. -/
def error? (visit : Visit) : Option SelectError :=
  if visit.IsUnknown then some (.unknownField visit.model.name visit.field.name) else none

end Visit

namespace Prune

/-- The visits below a request for a count: all names but those of the query
language. -/
def countVisits (model : Model) (field : Request) : List Visit :=
  field.fields.flatMap fun counted => if isMeta counted.name then [] else [⟨model, counted, true⟩]

mutual
/-- The sub-requests that are looked at to prune a request, depth first. -/
def visits (schema : Schema) (options : Options) (model : Model) : Request → List Visit
  | ⟨name, label, args, groups⟩ =>
    visitsOfGroups schema options model
      (options.exclusionsFor model.name ⟨name, label, args, groups⟩) groups
termination_by structural request => request

/-- The visits to the sub-requests on several types. -/
def visitsOfGroups (schema : Schema) (options : Options) (model : Model)
    (excluded : List String) : List (String × List (String × Request)) → List Visit
  | [] => []
  | (_, fields) :: rest =>
    visitsOfFields schema options model excluded fields ++
      visitsOfGroups schema options model excluded rest
termination_by structural groups => groups

/-- The visits to several sub-requests: each of them and what is below it, if it is
a relation or a request for a count. -/
def visitsOfFields (schema : Schema) (options : Options) (model : Model)
    (excluded : List String) : List (String × Request) → List Visit
  | [] => []
  | (_, field) :: rest =>
    let first :=
      if isMeta field.name ∨ field.name ∈ excluded then []
      else ⟨model, field, false⟩ :: match Requested.ofName model field.name with
        | .count => countVisits model field
        | .declared declared =>
          if declared.isRelation ∧ ¬ field.isLeaf then
            match schema.findModel? declared.type with
            | some target => visits schema options target field
            | none => []
          else []
        | .unknown => []
    first ++ visitsOfFields schema options model excluded rest
termination_by structural fields => fields
end

variable (schema : Schema) (options : Options) (model : Model) (excluded : List String)

/-- The visits to a sub-request and to what is below it. -/
def visitsOf (field : Request) : List Visit :=
  if isMeta field.name ∨ field.name ∈ excluded then []
  else ⟨model, field, false⟩ :: match Requested.ofName model field.name with
    | .count => countVisits model field
    | .declared declared =>
      if declared.isRelation ∧ ¬ field.isLeaf then
        match schema.findModel? declared.type with
        | some target => visits schema options target field
        | none => []
      else []
    | .unknown => []

theorem visitsOfFields_eq (fields : List (String × Request)) :
    visitsOfFields schema options model excluded fields =
      (fields.map Prod.snd).flatMap (visitsOf schema options model excluded) := by
  induction fields with
  | nil => rfl
  | cons field rest ih =>
    rw [visitsOfFields, ih]
    rfl

theorem visitsOfGroups_eq (groups : List (String × List (String × Request))) :
    visitsOfGroups schema options model excluded groups =
      (groups.flatMap fun group => group.2.map Prod.snd).flatMap
        (visitsOf schema options model excluded) := by
  induction groups with
  | nil => rfl
  | cons group rest ih =>
    rw [visitsOfGroups, visitsOfFields_eq, ih, List.flatMap_cons, List.flatMap_append]

/-- A request is visited one sub-request after the other. -/
theorem visits_eq (request : Request) :
    visits schema options model request =
      request.fields.flatMap
        (visitsOf schema options model (options.exclusionsFor model.name request)) := by
  obtain ⟨name, label, args, groups⟩ := request
  rw [visits, visitsOfGroups_eq]
  rfl

/-! ## Both ways of pruning side by side -/

variable {schema options model excluded}

/-- A name a count cannot take in is an error for the strict count only. -/
theorem agreesUnless_countEntry (field : Request) :
    AgreesUnless
      ((if isMeta field.name then [] else [Visit.mk model field true]).findSome? Visit.error?)
      (countEntry { options with strict := false } model excluded field)
      (countEntry { options with strict := true } model excluded field) := by
  rw [countEntry, countEntry]
  by_cases hmeta : isMeta field.name
  · simp only [if_pos hmeta]
    exact .of_ok none
  · simp only [if_neg hmeta]
    rcases hdeclared : model.field? field.name with _ | declared
    · have hunknown : (Visit.mk model field true).IsUnknown := ⟨hdeclared, .inl rfl⟩
      rw [List.findSome?_singleton, Visit.error?, if_pos hunknown]
      exact ⟨none, rfl, rfl⟩
    · have hknown : ¬ (Visit.mk model field true).IsUnknown :=
        fun h => Option.some_ne_none declared (hdeclared.symm.trans h.1)
      rw [List.findSome?_singleton, Visit.error?, if_neg hknown]
      by_cases hcounted : declared.isListRelation ∧ field.name ∉ excluded
      · simp only [if_pos hcounted]
        cases relationArguments field.args <;> exact .of_ok _
      · simp only [if_neg hcounted]
        exact .of_ok none

variable (options model excluded) in
theorem agreesUnless_count (field : Request) :
    AgreesUnless ((countVisits model field).findSome? Visit.error?)
      (count { options with strict := false } model excluded field)
      (count { options with strict := true } model excluded field) := by
  have hentries : AgreesUnless ((countVisits model field).findSome? Visit.error?)
      (field.fields.mapM (countEntry { options with strict := false } model excluded))
      (field.fields.mapM (countEntry { options with strict := true } model excluded)) :=
    .mapM fun counted _ => agreesUnless_countEntry counted
  exact hentries.map fun entries => Selection.empty.insertAll (entries.filterMap id)

/-- The step: what a sub-request contributes, if both ways agree on what it is
pruned to. -/
theorem agreesUnless_entry {field : Request}
    (hprune : ∀ target, AgreesUnless ((visits schema options target field).findSome? Visit.error?)
      (prune schema { options with strict := false } target field)
      (prune schema { options with strict := true } target field)) :
    AgreesUnless ((visitsOf schema options model excluded field).findSome? Visit.error?)
      (entry schema { options with strict := false } model excluded field)
      (entry schema { options with strict := true } model excluded field) := by
  rw [entry, entry, visitsOf]
  by_cases hskip : isMeta field.name ∨ field.name ∈ excluded
  · simp only [if_pos hskip]
    exact .of_ok none
  · simp only [if_neg hskip, List.findSome?_cons]
    rcases hdeclared : model.field? field.name with _ | declared
    · by_cases hasks : AsksCount model field.name
      · have hknown : ¬ (Visit.mk model field false).IsUnknown :=
          fun h => h.2.elim Bool.false_ne_true (absurd hasks)
        rw [Visit.error?, if_neg hknown, ofName_of_asksCount hasks]
        exact (agreesUnless_count options model excluded field).map _
      · have hunknown : (Visit.mk model field false).IsUnknown := ⟨hdeclared, .inr hasks⟩
        rw [Visit.error?, if_pos hunknown, ofName_of_unknown hdeclared hasks]
        exact ⟨none, rfl, rfl⟩
    · have hknown : ¬ (Visit.mk model field false).IsUnknown :=
        fun h => Option.some_ne_none declared (hdeclared.symm.trans h.1)
      rw [Visit.error?, if_neg hknown, ofName_of_declared hdeclared]
      by_cases hnested : declared.isRelation ∧ ¬ field.isLeaf
      · simp only [if_pos hnested]
        rcases schema.findModel? declared.type with _ | target
        · exact .of_ok none
        · exact (hprune target).map _
      · simp only [if_neg hnested]
        exact .of_ok _

variable (schema options) in
/-- The run: by induction on the request, permissive pruning succeeds and strict
pruning does the same up to the first unknown name it visits. -/
theorem agreesUnless_prune (request : Request) :
    ∀ model, AgreesUnless ((visits schema options model request).findSome? Visit.error?)
      (prune schema { options with strict := false } model request)
      (prune schema { options with strict := true } model request) := by
  induction request using Request.induction with
  | h request ih =>
    intro model
    have hentries : AgreesUnless ((visits schema options model request).findSome? Visit.error?)
        (request.fields.mapM (entry schema { options with strict := false } model
          (options.exclusionsFor model.name request)))
        (request.fields.mapM (entry schema { options with strict := true } model
          (options.exclusionsFor model.name request))) := by
      rw [visits_eq]
      exact .mapM fun field hfield => agreesUnless_entry (ih field hfield)
    rw [prune_eq, prune_eq]
    exact (hentries.map (List.filterMap id)).map (complete options model request)

variable (schema) in
/-- Permissive pruning never fails. -/
theorem exists_prune_of_permissive (hpermissive : options.strict = false) (model : Model)
    (request : Request) : ∃ node, prune schema options model request = .ok node := by
  obtain ⟨node, hnode, -⟩ := agreesUnless_prune schema options request model
  exact ⟨node, Options.eq_of_permissive hpermissive ▸ hnode⟩

variable (model excluded) in
/-- A permissive count never fails. -/
theorem exists_count_of_permissive (hpermissive : options.strict = false) (request : Request) :
    ∃ counts, count options model excluded request = .ok counts := by
  obtain ⟨counts, hcounts, -⟩ := agreesUnless_count options model excluded request
  exact ⟨counts, Options.eq_of_permissive hpermissive ▸ hcounts⟩

/-- The error of the first unknown visit. -/
theorem findSome?_error? (seen : List Visit) :
    seen.findSome? Visit.error? = (seen.find? (·.IsUnknown)).map fun visit =>
      .unknownField visit.model.name visit.field.name := by
  induction seen with
  | nil => rfl
  | cons visit rest ih =>
    rw [List.findSome?_cons, List.find?_cons, Visit.error?]
    by_cases h : visit.IsUnknown
    · simp [h]
    · simp [h, ih]

/-- **Strict pruning.** Permissive pruning never fails. Strict pruning fails just
when a sub-request it visits is unknown, with the first such one as its error, and
otherwise has the same result. -/
theorem pruneNamed_strict {name : String} {request : Request}
    (hmodel : schema.resolveModel? name = some model) :
    ∃ node, pruneNamed schema { options with strict := false } name request = .ok node ∧
      ((∃ error, pruneNamed schema { options with strict := true } name request = .error error) ↔
        ∃ visit ∈ visits schema options model request, visit.IsUnknown) ∧
      pruneNamed schema { options with strict := true } name request =
        match (visits schema options model request).find? (·.IsUnknown) with
        | some visit => .error (.unknownField visit.model.name visit.field.name)
        | none => .ok node := by
  obtain ⟨node, hpermissive, hstrict⟩ :=
    agreesUnless_prune schema options request model
  have hfirst : prune schema { options with strict := true } model request =
      match (visits schema options model request).find? (·.IsUnknown) with
      | some visit => .error (.unknownField visit.model.name visit.field.name)
      | none => .ok node := by
    rw [hstrict, findSome?_error?]
    cases (visits schema options model request).find? (·.IsUnknown) <;> rfl
  simp only [pruneNamed, hmodel]
  refine ⟨node, hpermissive, ?_, hfirst⟩
  rw [hfirst]
  cases hfind : (visits schema options model request).find? (·.IsUnknown) with
  | none =>
    have hnone := List.find?_eq_none.1 hfind
    constructor
    · rintro ⟨error, herror⟩
      cases herror
    · rintro ⟨visit, hvisit, hunknown⟩
      exact absurd (decide_eq_true hunknown) (hnone visit hvisit)
  | some visit =>
    have hunknown : visit.IsUnknown := of_decide_eq_true (List.find?_some hfind :)
    exact ⟨fun _ => ⟨visit, List.mem_of_find?_eq_some hfind, hunknown⟩, fun _ => ⟨_, rfl⟩⟩

/-- Of the users of the blog a draft is requested with a name that posts do not
have. It is passed over, or is the error. -/
theorem pruneNamed_strict_blog :
    Blog.schema.resolveModel? "User" = some Blog.user ∧
      pruneNamed Blog.schema { Blog.options with strict := false } "User" Blog.request =
        .ok Blog.selection ∧
      pruneNamed Blog.schema { Blog.options with strict := true } "User" Blog.request =
        .error (.unknownField "Post" "unknown") := by
  have hmodel : Blog.schema.resolveModel? "User" = some Blog.user := rfl
  obtain ⟨_, -, -, hstrict⟩ :=
    @pruneNamed_strict Blog.schema Blog.options Blog.user "User" Blog.request hmodel
  exact ⟨hmodel, rfl, hstrict.trans rfl⟩

end Prune

end Schematic
