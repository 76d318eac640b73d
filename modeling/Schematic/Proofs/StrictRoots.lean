import Schematic.Proofs.Groups
import Schematic.Proofs.Navigation

/-!
# Strict queries

Strict options are meant to reject what a model does not declare. Which requested names these are is
said for every kind of root (`Query.undeclared`): for a model by what pruning looks at
(`Prune.visits`), and for an aggregate or group-by result by the fields to group by and the members
of groups (`Aggregate.asked`).

A query with a model as its root is rejected with the first of them. One for an aggregate or
group-by result never is, and what its model does not declare is left out, as it is under permissive
options (`Query.strict_selection`).
-/

namespace Schematic

/-- Options that are strict stay the same when they are made so. -/
theorem Options.eq_of_strict {options : Options} (h : options.strict = true) :
    { options with strict := true } = options := by
  cases options
  cases h
  rfl

namespace Aggregate

/-- The names that are asked of the model that is summed up: fields to group by and members of
groups. Excluded names and the name for all records in a count are not. -/
def asked (excluded : List String) (request : Request) : List String :=
  request.fields.flatMap fun field =>
    if isMeta field.name then []
    else if Text.hasStart "_" field.name then
      (field.fields.map (·.name)).filter fun name =>
        ¬ isMeta name ∧ name ∉ excluded ∧ ¬ (field.name = countName ∧ name = allName)
    else [field.name].filter (· ∉ excluded)

/-- Nothing is selected that the model does not declare, but for all records in a count. -/
def SelectsDeclared (model : Model) (node : Selection) : Prop :=
  ∀ name s, (name, s) ∈ node.select →
    (Text.hasStart "_" name ∨ (model.field? name).isSome) ∧
      ∀ member ∈ s.members, (model.field? member).isSome ∨ name = countName ∧ member = allName

theorem selectsDeclared_select (options : Options) (model : Model) (request : Request) :
    SelectsDeclared model (select options model request) := by
  intro name s hs
  have hkey : name ∈ Keyed.keys (select options model request).select := List.mem_map.2 ⟨_, hs, rfl⟩
  rw [select_eq, Selected.mem_keys_mergeEntries, mem_keys_contributions_iff] at hkey
  rcases hkey with hkey | ⟨hgroup, -⟩ | ⟨hname, -, hdeclared, -⟩
  · cases hkey
  · refine ⟨.inl hgroup.1, fun member hmember => ?_⟩
    obtain ⟨_, -, -, _, -, -, hselectable⟩ := (mem_members_of_mem_select hgroup hs).1 hmember
    exact hselectable.imp_left And.left
  · refine ⟨.inr hdeclared, ?_⟩
    rw [(suits_of_mem_select hs).2 hname]
    exact List.forall_mem_nil _

end Aggregate

namespace Query

open Prune

/-- The same query under permissive options. -/
def permissive (q : Query) : Query :=
  { q with options := { q.options with strict := false } }

/-- The model that a query is pruned against: its return type, or else the fallback. -/
def root? (q : Query) : Option Model :=
  (q.schema.resolveModel? q.returnType).or (q.options.fallbackModel.bind q.schema.resolveModel?)

/-- The errors of the requested names that the model of their level does not declare, in the order
of the request. -/
def undeclared (q : Query) : List SelectError :=
  match q.schema.aggregatedModel? q.returnType with
  | some model =>
    ((Aggregate.asked (q.options.exclusionsFor model.name q.request) q.request).filter
      fun name => (model.field? name).isNone).map (.unknownField model.name)
  | none =>
    match q.root? with
    | some root => (visits q.schema q.options root q.request).filterMap Visit.error?
    | none => []

/-- For an aggregate or group-by result nothing depends on the options being strict. -/
theorem selection_of_aggregate {q : Query} {model : Model}
    (h : q.schema.aggregatedModel? q.returnType = some model) :
    q.selection = .ok (Aggregate.select q.options model q.request) ∧
      q.permissive.selection = .ok (Aggregate.select q.options model q.request) := by
  refine ⟨by simp only [selection, h], ?_⟩
  show (match q.schema.aggregatedModel? q.returnType with | some model => _ | none => _) = _
  rw [h]
  rfl

/-- Without a model there is an error, whatever the options. -/
theorem selection_of_root?_eq_none {q : Query}
    (haggregate : q.schema.aggregatedModel? q.returnType = none) (h : q.root? = none) :
    q.selection = .error (.invalidRoot q.returnType) := by
  rw [root?] at h
  simp only [selection, haggregate, pruneRoot, h]

/-- A query for a model is pruned against it. -/
theorem selection_of_root? {documents : List Document} {q : Query} {root : Model}
    (hload : Schema.ofDocuments documents = .ok q.schema)
    (haggregate : q.schema.aggregatedModel? q.returnType = none) (h : q.root? = some root) :
    q.selection = prune q.schema q.options root q.request := by
  have hroot : root ∈ q.schema.models := by
    rcases Option.or_eq_some_iff.1 h with h | ⟨-, h⟩
    · exact Schema.mem_models_of_resolveModel? h
    · obtain ⟨fallback, -, h⟩ := Option.bind_eq_some_iff.1 h
      exact Schema.mem_models_of_resolveModel? h
  have hself := Schema.resolveModel?_name (Schema.nodup_names_of_ofDocuments hload) hroot
  rw [root?] at h
  simp only [selection, haggregate, pruneRoot, h, pruneNamed, hself]

/-- The step from pruning to queries: a query for a model is rejected with the first name that is
not declared, and otherwise has the selection it has under permissive options. -/
theorem selection_strict {documents : List Document} {q : Query} {root : Model}
    (hload : Schema.ofDocuments documents = .ok q.schema) (hstrict : q.options.strict = true)
    (haggregate : q.schema.aggregatedModel? q.returnType = none) (h : q.root? = some root) :
    ∃ node, q.permissive.selection = .ok node ∧
      q.selection = unlessError q.undeclared.head? node := by
  obtain ⟨node, hpermissive, hnode⟩ := agreesUnless_prune q.schema q.options q.request root
  have hundeclared : q.undeclared.head? =
      (visits q.schema q.options root q.request).findSome? Visit.error? := by
    simp only [undeclared, haggregate, h, List.head?_filterMap]
  rw [Options.eq_of_strict hstrict] at hnode
  rw [hundeclared, selection_of_root? hload haggregate h, hnode]
  exact ⟨node, (selection_of_root? (q := q.permissive) hload haggregate h).trans hpermissive, rfl⟩

/-- **Strict queries.** Strict options reject a query for a model with the first requested name that
is not declared, and change nothing else about it. They do not change anything about a query for an
aggregate or group-by result: it is never rejected. So what is requested but not declared is left
out without an error just where such a result has any of it requested. -/
theorem strict_selection {documents : List Document} {q : Query}
    (hload : Schema.ofDocuments documents = .ok q.schema) (hstrict : q.options.strict = true) :
    (q.isAggregate = false →
      (q.root? = none → q.selection = .error (.invalidRoot q.returnType)) ∧
      (q.root?.isSome → (∀ error ∈ q.undeclared.head?, q.selection = .error error) ∧
        (q.undeclared = [] → q.selection = q.permissive.selection))) ∧
    (∀ model, q.schema.aggregatedModel? q.returnType = some model →
      ∃ node, q.selection = .ok node ∧ q.permissive.selection = .ok node ∧
        Aggregate.SelectsDeclared model node) ∧
    ((∀ node, q.selection = .ok node → q.undeclared = []) ↔
      (q.isAggregate = true → q.undeclared = [])) := by
  rcases haggregate : q.schema.aggregatedModel? q.returnType with _ | model
  · have hnot : q.isAggregate = false := by rw [isAggregate, haggregate]; rfl
    have hnone : q.root? = none → q.selection = .error (.invalidRoot q.returnType) :=
      selection_of_root?_eq_none haggregate
    have hsome : q.root?.isSome →
        (∀ error ∈ q.undeclared.head?, q.selection = .error error) ∧
          (q.undeclared = [] → q.selection = q.permissive.selection) := by
      intro hroot
      obtain ⟨root, hroot⟩ := Option.isSome_iff_exists.1 hroot
      obtain ⟨node, hpermissive, hnode⟩ := selection_strict hload hstrict haggregate hroot
      rw [hnode, hpermissive]
      constructor
      · rintro error herror
        rw [Option.mem_def.1 herror]
        rfl
      · intro hempty
        rw [hempty]
        rfl
    have hselected : ∀ node, q.selection = .ok node → q.undeclared = [] := by
      -- There is a model then, and no name to be rejected for.
      intro node hnode
      have hroot : q.root?.isSome := by
        by_contra h
        cases hnode.symm.trans (hnone (Option.not_isSome_iff_eq_none.1 h))
      rcases hundeclared : q.undeclared with _ | ⟨error, more⟩
      · rfl
      · have herror := (hsome hroot).1 error (by rw [hundeclared]; rfl)
        cases hnode.symm.trans herror
    refine ⟨fun _ => ⟨hnone, hsome⟩, ?_,
      iff_of_true hselected fun h => absurd (hnot.symm.trans h) Bool.false_ne_true⟩
    rintro _ ⟨⟩
  · have his : q.isAggregate = true := by rw [isAggregate, haggregate]; rfl
    obtain ⟨hselection, hpermissive⟩ := selection_of_aggregate haggregate
    refine ⟨fun h => absurd (h.symm.trans his) Bool.false_ne_true, ?_,
      fun h _ => h _ hselection, fun h _ _ => h his⟩
    rintro _ ⟨⟩
    exact ⟨_, hselection, hpermissive, Aggregate.selectsDeclared_select _ model _⟩

end Query

/-- Of the sums of users, and as a field to group by, something is requested that users do not
have. -/
def Blog.strictQuery : Query where
  schema := Blog.sumsSchema
  request := (Request.ofName "aggregateUser").withFields "AggregateUser" [
    (Request.ofName "_count").withFields "UserCountAggregateOutputType"
      [.ofName "id", .ofName "unknown"],
    .ofName "email"]
  returnType := "AggregateUser"
  options := Options.rejectUnknown {}

/-- It is passed over without an error. -/
theorem Query.strict_selection_sums :
    Blog.strictQuery.options.strict = true ∧
      Blog.strictQuery.undeclared =
        [.unknownField "User" "unknown", .unknownField "User" "email"] ∧
      Blog.strictQuery.selection = .ok ⟨[("_count", .group ["id"])], []⟩ := by
  have hload : Schema.ofDocuments [Blog.withInterface [] [⟨"AggregateUser", []⟩] []] =
      .ok Blog.strictQuery.schema := rfl
  have hstrict : Blog.strictQuery.options.strict = true := rfl
  obtain ⟨-, hsums, -⟩ := strict_selection hload hstrict
  obtain ⟨node, hnode, -⟩ := hsums Blog.user rfl
  refine ⟨hstrict, rfl, hnode.trans ?_⟩
  cases hnode
  rfl

end Schematic
