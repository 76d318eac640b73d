import Schematic.Proofs.Navigation

/-!
# Arguments of requests as they are

A part of a request that is taken as it is has the arguments of its sub-requests at every depth
(`Query.valueOf_arguments`). Several requests under one chain of names are merged, so that the last
one that gives an argument counts. But a request with nothing below it is selected as a plain field,
whatever its arguments are: these are lost, although a pruned count keeps them (`Prune.countEntry`).
-/

namespace Schematic

open Json (Value)

/-- Of what comes of several items the last is what comes of the first only if nothing comes of the
others. -/
theorem getLast?_filterMap_cons {α β : Type} (f : α → Option β) (a : α) (rest : List α) :
    ((a :: rest).filterMap f).getLast? = (rest.filterMap f).getLast?.or (f a) := by
  rcases ha : f a with _ | b
  · rw [List.filterMap_cons_none ha, Option.or_none]
  · rw [List.filterMap_cons_some ha, ← List.singleton_append, List.getLast?_append]
    rfl

namespace Request

/-- An argument that is given with a request. A null is none. -/
def argument? (key : String) (r : Request) : Option Value :=
  (Keyed.get? key r.args).filter fun value => !value.isNull

/-- The argument of the last of several requests that gives it. -/
def lastArgument? (key : String) (requests : List Request) : Option Value :=
  (requests.filterMap (argument? key)).getLast?

/-- All requests that a chain of names leads to, in their order. Names of the query language lead
nowhere. -/
def allAt : List String → Request → List Request
  | [], r => [r]
  | name :: path, r =>
    (r.fields.filter fun field => field.name = name ∧ ¬ isMeta name).flatMap (allAt path)

variable {key : String}

/-- Of requests one after the other the later ones go first. -/
theorem lastArgument?_append (key : String) (first second : List Request) :
    lastArgument? key (first ++ second) =
      (lastArgument? key second).or (lastArgument? key first) := by
  rw [lastArgument?, List.filterMap_append, List.getLast?_append]
  rfl

theorem lastArgument?_eq_none {requests : List Request}
    (h : ∀ r ∈ requests, r.argument? key = none) : lastArgument? key requests = none := by
  rw [lastArgument?, List.filterMap_eq_nil_iff.2 h]
  rfl

/-- Where several requests lead to others, the last argument is found request by request. -/
theorem lastArgument?_flatMap (f : Request → List Request) (requests : List Request) :
    lastArgument? key (requests.flatMap f) =
      (requests.filterMap fun r => lastArgument? key (f r)).getLast? := by
  induction requests with
  | nil => rfl
  | cons r rest ih =>
    rw [List.flatMap_cons, lastArgument?_append, ih, getLast?_filterMap_cons]

/-- With nothing below it a request leads to itself only. -/
theorem filter_allAt_of_isLeaf {r : Request} (h : r.isLeaf) (path : List String) :
    (r.allAt path).filter (¬ ·.isLeaf) = [] := by
  cases path with
  | nil => simp [allAt, h]
  | cons => rw [allAt, isLeaf_iff.1 h]; rfl

end Request

/-! ## Arguments that are selected -/

/-- Where entries are found for keys, each under its own, a lookup is the finding. -/
theorem Keyed.get?_filterMap {α : Type} (find : String → Option α) {key : String}
    {keys : List String} (hkey : key ∈ keys) :
    get? key (keys.filterMap fun k => (find k).map (k, ·)) = find key := by
  induction keys with
  | nil => cases hkey
  | cons k rest ih =>
    by_cases hk : k = key
    · subst hk
      rcases hfind : find k with _ | a
      · -- The key may be there again, with nothing found for it.
        rw [List.filterMap_cons_none (by rw [hfind]; rfl), get?_eq_none_iff]
        intro hmem
        obtain ⟨entry, hentry, rfl⟩ := List.mem_map.1 hmem
        obtain ⟨k', -, hk'⟩ := List.mem_filterMap.1 hentry
        obtain ⟨a, ha, rfl⟩ := Option.map_eq_some_iff.1 hk'
        exact nomatch ha.symm.trans hfind
      · rw [List.filterMap_cons_some (by rw [hfind]; rfl), get?_cons, if_pos rfl]
    · have hrest := ih ((List.mem_cons.1 hkey).resolve_left (Ne.symm hk))
      rcases hfind : find k with _ | a
      · rw [List.filterMap_cons_none (by rw [hfind]; rfl), hrest]
      · rw [List.filterMap_cons_some (by rw [hfind]; rfl), get?_cons, if_neg hk, hrest]

theorem get?_relationArguments {key : String} (hkey : key ∈ relationArgumentNames) (r : Request) :
    Keyed.get? key (relationArguments r.args) = r.argument? key := by
  have harguments : relationArguments r.args =
      relationArgumentNames.filterMap fun name => (r.argument? name).map (name, ·) := by
    refine List.filterMap_congr fun name _ => ?_
    rw [Request.argument?]
    rcases Keyed.get? name r.args with _ | value
    · rfl
    · cases value <;> rfl
  rw [harguments, Keyed.get?_filterMap _ hkey]

namespace Selected

/-- What is spelled out by a request: plain fields and nested selections, without repetitions. -/
inductive Spelled : Selected → Prop
  | field : Spelled .field
  | nested {select : List (String × Selected)} {arguments : Keyed Value}
      (hnodup : (Keyed.keys select).Nodup) (hselect : ∀ entry ∈ select, Spelled entry.2)
      (harguments : TypedArguments arguments) : Spelled (.nested select arguments)

/-- An argument that is selected under a path of nested selections. -/
def argumentAt? (key : String) : List String → Selected → Option Value
  | [], nested _ arguments => Keyed.get? key arguments
  | name :: path, nested select _ => (Keyed.get? name select).bind (argumentAt? key path)
  | _, _ => none

variable {key : String} {path : List String}

theorem Spelled.merge {b : Selected} (hb : Spelled b) : ∀ {a}, Spelled a → Spelled (a.merge b) := by
  induction hb with
  | field =>
    intro a ha
    rw [merge_field]
    split
    · exact ha
    · exact .field
  | nested hnodup hselect harguments ih =>
    intro a ha
    cases ha with
    | field => exact .nested hnodup hselect harguments
    | nested hnodup' hselect' harguments' =>
      exact .nested (nodup_keys_mergeEntries hnodup')
        (forall_mergeEntries (P := fun _ s => Spelled s) hselect' hselect
          fun entry hentry _ hs => ih entry hentry hs)
        (harguments'.putAll harguments)

/-- **The step.** A later selection gives an argument, or else it is the one that was given. -/
theorem argumentAt?_merge {b : Selected} (hb : Spelled b) :
    ∀ (path : List String) (a : Selected),
      argumentAt? key path (a.merge b) = (argumentAt? key path b).or (argumentAt? key path a) := by
  induction hb with
  | field => intro path a; cases path <;> cases a <;> rfl
  | @nested select arguments hnodup hselect harguments ih =>
    intro path a
    cases a with
    | nested select' arguments' =>
      -- The induction is on the later selection: of the earlier one nothing has to be known.
      show argumentAt? key path (nested (mergeEntries select' select) _) = _
      cases path with
      | nil => exact Keyed.get?_putAll harguments.nodup key
      | cons name path =>
        rw [argumentAt?, argumentAt?, argumentAt?, mergeEntries_eq_mergeBy,
          Keyed.get?_mergeBy hnodup]
        rcases hlater : Keyed.get? name select with _ | later
        · rfl
        · rcases Keyed.get? name select' with _ | present
          · exact Option.or_none.symm
          · exact ih _ (Keyed.mem_of_get? hlater) path present
    | field | counted | group =>
      cases path <;> exact Option.or_none.symm

/-- The run: of the selections that are merged under a name the last that gives an argument
counts. -/
theorem argumentAt?_foldl {entries : List (String × Selected)}
    (hentries : ∀ entry ∈ entries, Spelled entry.2) (path : List String)
    (present : Option Selected) :
    (entries.foldl (fun s entry => some (entry.2.mergeInto s)) present).bind
        (argumentAt? key path) =
      (entries.filterMap fun entry => argumentAt? key path entry.2).getLast?.or
        (present.bind (argumentAt? key path)) := by
  induction entries generalizing present with
  | nil => rfl
  | cons entry rest ih =>
    obtain ⟨hentry, hrest⟩ := List.forall_mem_cons.1 hentries
    have hinto : argumentAt? key path (entry.2.mergeInto present) =
        (argumentAt? key path entry.2).or (present.bind (argumentAt? key path)) := by
      cases present with
      | none => exact Option.or_none.symm
      | some s => exact argumentAt?_merge hentry path s
    rw [List.foldl_cons, ih hrest, getLast?_filterMap_cons, Option.or_assoc, ← hinto]
    rfl

end Selected

/-! ## What is selected as it is -/

/-- What is selected of a sub-request as it is. -/
def asIs (field : Request) : Selected :=
  if field.isLeaf then .field else (unpruned field).toSelected

/-- The entries of sub-requests as they are. -/
def spelledOut (fields : List Request) : List (String × Selected) :=
  (fields.filter (¬ isMeta ·.name)).map fun field => (field.name, asIs field)

theorem spelledOut_append (first second : List Request) :
    spelledOut (first ++ second) = spelledOut first ++ spelledOut second := by
  rw [spelledOut, List.filter_append, List.map_append]
  rfl

/-- The labels of sub-requests do not matter to how they are spelled out. -/
theorem unprunedFields_eq (fields : List (String × Request)) :
    unprunedFields fields = spelledOut (fields.map Prod.snd) := by
  induction fields with
  | nil => rfl
  | cons field rest ih =>
    obtain ⟨label, field⟩ := field
    rw [unprunedFields, ih, List.map_cons, spelledOut, spelledOut]
    by_cases hmeta : isMeta field.name
    · rw [List.filter_cons_of_neg (by simpa using hmeta)]
      simp [hmeta]
    · rw [List.filter_cons_of_pos (by simpa using hmeta), List.map_cons, asIs]
      simp only [if_neg hmeta]
      split <;> rfl

theorem unprunedGroups_eq (groups : List (String × List (String × Request))) :
    unprunedGroups groups = spelledOut (groups.flatMap fun group => group.2.map Prod.snd) := by
  induction groups with
  | nil => rfl
  | cons group rest ih =>
    rw [unprunedGroups, unprunedFields_eq, ih, List.flatMap_cons, spelledOut_append]

/-- A request as it is selects what is spelled out of its sub-requests. -/
theorem unpruned_eq (request : Request) :
    unpruned request = ⟨Selected.mergeEntries [] (spelledOut request.fields),
      relationArguments request.args⟩ := by
  obtain ⟨name, label, args, groups⟩ := request
  rw [unpruned, unprunedGroups_eq, Selection.insertAll_eq]
  rfl

/-- Under a name stand the sub-requests for it. -/
theorem filter_spelledOut (name : String) (fields : List Request) :
    (spelledOut fields).filter (·.1 = name) =
      (fields.filter fun field => field.name = name ∧ ¬ isMeta name).map fun field =>
        (field.name, asIs field) := by
  rw [spelledOut, List.filter_map, List.filter_filter]
  refine congrArg (List.map _) (List.filter_congr fun field _ => ?_)
  by_cases hname : field.name = name <;> simp [hname]

theorem spelled_asIs {field : Request} (h : (unpruned field).toSelected.Spelled) :
    (asIs field).Spelled := by
  rw [asIs]
  split
  · exact .field
  · exact h

theorem spelled_of_mem_spelledOut {fields : List Request}
    (h : ∀ field ∈ fields, (unpruned field).toSelected.Spelled) :
    ∀ entry ∈ spelledOut fields, entry.2.Spelled :=
  List.forall_mem_map.2 fun field hfield => spelled_asIs (h field (List.mem_of_mem_filter hfield))

/-- By induction on the request: whatever is taken as it is requested is spelled out. -/
theorem spelled_unpruned (request : Request) : (unpruned request).toSelected.Spelled := by
  induction request using Request.induction with
  | h request ih =>
    have hentries := spelled_of_mem_spelledOut ih
    rw [unpruned_eq]
    exact .nested (Selected.nodup_keys_mergeEntries List.nodup_nil)
      (Selected.forall_mergeEntries (P := fun _ s => s.Spelled) (List.forall_mem_nil _) hentries
        fun entry hentry _ hs => (hentries entry hentry).merge hs)
      (typedArguments_relationArguments request.args)

section

variable {key : String}

/-- The step: below a request stand the arguments that are given below its sub-requests. -/
theorem argumentAt?_unpruned_cons {request : Request} {name : String} {path : List String}
    (ih : ∀ field ∈ request.fields, (asIs field).argumentAt? key path =
      Request.lastArgument? key ((field.allAt path).filter (¬ ·.isLeaf))) :
    (unpruned request).toSelected.argumentAt? key (name :: path) =
      Request.lastArgument? key ((request.allAt (name :: path)).filter (¬ ·.isLeaf)) := by
  have hentries : ∀ entry ∈ (spelledOut request.fields).filter (·.1 = name), entry.2.Spelled :=
    fun entry hentry => spelled_of_mem_spelledOut (fun field _ => spelled_unpruned field) entry
      (List.mem_of_mem_filter hentry)
  rw [unpruned_eq]
  show (Keyed.get? name (Selected.mergeEntries [] _)).bind (Selected.argumentAt? key path) = _
  rw [Selected.get?_mergeEntries, Selected.argumentAt?_foldl hentries, filter_spelledOut,
    List.filterMap_map, Request.allAt, List.filter_flatMap, Request.lastArgument?_flatMap]
  -- Both sides take the last of the same requests, one by one.
  refine Option.or_none.trans (congrArg List.getLast? (List.filterMap_congr fun field hfield => ?_))
  exact ih field (List.mem_of_mem_filter hfield)

/-- The run: under a chain of names stands the argument of the last request there that gives it and
has something below it. -/
theorem argumentAt?_asIs (hkey : key ∈ relationArgumentNames) (request : Request) :
    ∀ path, (asIs request).argumentAt? key path =
      Request.lastArgument? key ((request.allAt path).filter (¬ ·.isLeaf)) := by
  induction request using Request.induction with
  | h request ih =>
    intro path
    rw [asIs]
    split
    · rename_i hleaf
      rw [Request.filter_allAt_of_isLeaf hleaf]
      cases path <;> rfl
    · rename_i hfields
      cases path with
      | nil =>
        rw [unpruned_eq, Request.allAt, List.filter_cons_of_pos (by simpa using hfields)]
        rw [List.filter_nil, Request.lastArgument?, List.filterMap_cons, List.filterMap_nil]
        show Keyed.get? key (relationArguments request.args) = _
        rw [get?_relationArguments hkey]
        cases request.argument? key <;> rfl
      | cons name path => exact argumentAt?_unpruned_cons fun field hfield => ih field hfield path

end

/-! ## Select arguments -/

/-- An argument stands in a select argument where it is selected. -/
theorem Selected.Spelled.member?_selectedAt? {key : String} (hkey : key ∈ relationArgumentNames)
    {s : Selected} (hs : s.Spelled) (path : List String) :
    (s.toValue.selectedAt? path).bind (·.member? key) = s.argumentAt? key path := by
  have hselect : key ≠ "select" := by
    rintro rfl
    exact absurd hkey (by decide)
  induction path generalizing s with
  | nil =>
    cases hs with
    | field => rfl
    | @nested select _ _ _ harguments =>
      show Keyed.get? key (Keyed.putAll [("select", Value.object (entryValues select))] _) = _
      rw [Keyed.get?_putAll harguments.nodup, Keyed.get?_cons, if_neg hselect.symm]
      exact Option.or_none
  | cons name path ih =>
    cases hs with
    | field => rfl
    | @nested select arguments _ hentries harguments =>
      have hvalue := @Selection.selectedAt?_toValue ⟨select, arguments⟩ harguments name path
      show ((Selection.toValue ⟨select, arguments⟩).selectedAt? (name :: path)).bind _ = _
      rw [hvalue, Selected.argumentAt?, Selection.get?]
      rcases hget : Keyed.get? name select with _ | selected
      · rfl
      · exact ih (hentries _ (Keyed.mem_of_get? hget))

/-- **Requests as they are.** A part of a request that is taken as it is has its arguments, and
under every chain of names the arguments of the requests there. Of several requests the last one
counts that gives an argument, among those that have something below them: so an argument is there
with its last value, unless the request that gives this has nothing below it. -/
theorem Query.valueOf_arguments {q : Query} {path : String} {part : Request}
    (hpart : q.request.descend? path = some part) :
    ∃ value, q.valueOf path none none = .ok value ∧ ∀ key ∈ relationArgumentNames,
      value.member? key = part.argument? key ∧ ∀ name below,
        (value.selectedAt? (name :: below)).bind (·.member? key) =
            Request.lastArgument? key ((part.allAt (name :: below)).filter (¬ ·.isLeaf)) ∧
          ∀ before last after, part.allAt (name :: below) = before ++ last :: after →
            (∀ later ∈ after, later.argument? key = none) → ¬ last.isLeaf →
            ∀ argument ∈ last.argument? key,
              (value.selectedAt? (name :: below)).bind (·.member? key) = some argument := by
  have hspelled := spelled_unpruned part
  refine ⟨(unpruned part).toValue, by rw [valueOf, hpart]; rfl, fun key hkey => ⟨?_, ?_⟩⟩
  · have hvalue := hspelled.member?_selectedAt? hkey []
    rw [unpruned_eq] at hvalue ⊢
    exact hvalue.trans (get?_relationArguments hkey part)
  · intro name below
    have hvalue : ((unpruned part).toValue.selectedAt? (name :: below)).bind (·.member? key) =
        Request.lastArgument? key ((part.allAt (name :: below)).filter (¬ ·.isLeaf)) :=
      (hspelled.member?_selectedAt? hkey (name :: below)).trans
        (argumentAt?_unpruned_cons fun field _ => argumentAt?_asIs hkey field below)
    refine ⟨hvalue, fun before last after hsplit hafter hlast argument hargument => ?_⟩
    have hnone : Request.lastArgument? key (after.filter (¬ ·.isLeaf)) = none :=
      Request.lastArgument?_eq_none fun later hlater => hafter later (List.mem_of_mem_filter hlater)
    rw [hvalue, hsplit, List.filter_append, List.filter_cons_of_pos (by simpa using hlast),
      Request.lastArgument?_append, ← List.singleton_append, Request.lastArgument?_append, hnone]
    rw [Request.lastArgument?, List.filterMap_cons_some hargument]
    rfl

/-- Posts with their authors. The first posts of these are requested twice with something below them
and once without, and some of their posts are counted. -/
def Blog.countedQuery : Query where
  schema := Blog.schema
  request := (Request.ofName "findManyPost").withField "Post"
    (((Request.ofName "author").withArg "skip" (.int 1)).withFields "User" [
      ((Request.ofName "posts").withArg "take" (.int 2)).withField "Post" (.ofName "title"),
      (((Request.ofName "posts").withArg "take" (.int 3)).withField "Post"
        (.ofName "id")).withLabel "more",
      ((Request.ofName "posts").withArg "take" (.int 4)).withLabel "all",
      (Request.ofName "_count").withField "UserCount"
        ((Request.ofName "posts").withArg "where" (.object [("id", .int 1)]))])
  returnType := "Post"
  options := {}

/-- The last request for posts has nothing below it, and neither has the one in the count. -/
theorem Query.valueOf_arguments_counted :
    ∃ part value, Blog.countedQuery.request.descend? "author" = some part ∧
      Blog.countedQuery.valueOf "author" none none = .ok value ∧
      value.member? "skip" = some (.int 1) ∧
      (value.selectedAt? ["posts"]).bind (·.member? "take") = some (.int 3) ∧
      Request.lastArgument? "take" (part.allAt ["posts"]) = some (.int 4) ∧
      (value.selectedAt? ["_count", "posts"]).bind (·.member? "where") = none ∧
      Request.lastArgument? "where" (part.allAt ["_count", "posts"]) =
        some (.object [("id", .int 1)]) := by
  obtain ⟨part, hpart⟩ : ∃ part, Blog.countedQuery.request.descend? "author" = some part :=
    ⟨_, rfl⟩
  obtain ⟨value, hvalue, harguments⟩ := valueOf_arguments hpart
  obtain ⟨hskip, -⟩ := harguments "skip" (by decide)
  obtain ⟨-, htake⟩ := harguments "take" (by decide)
  obtain ⟨-, hwhere⟩ := harguments "where" (by decide)
  cases hpart
  exact ⟨_, value, rfl, hvalue, hskip, (htake "posts" []).1, rfl, (hwhere "_count" ["posts"]).1,
    rfl⟩

end Schematic
