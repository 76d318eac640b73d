import Schematic.Proofs.CommaLists
import Schematic.Request.Basic

/-!
# Paths through requests

The names on a path are what stands between its dots, unless that is empty. So behind a dot a
path goes on from where the path before the dot leads (`Request.descend?_append`), and further
dots do not matter.

A name leads to the first sub-request for it (`Request.IsFirst`), across all groups in their
order, and several names lead on from one to the next (`Request.Follows`). Together this says
where any path leads (`Request.paths_compose`).
-/

namespace Schematic.Request

/-! ## Names on a path -/

theorem pathNames_empty : pathNames "" = [] := rfl

/-- **Names are cut at a dot.** All else about the names on a path follows from this. -/
theorem pathNames_append (p q : String) :
    pathNames (p ++ "." ++ q) = pathNames p ++ pathNames q := by
  have hsplit : Text.split '.' (p ++ "." ++ q) = Text.split '.' p ++ Text.split '.' q :=
    Text.split_append '.' p q
  rw [pathNames, hsplit, List.filter_append]
  rfl

/-- Dots and nothing else. -/
def dots (n : Nat) : String :=
  String.ofList (List.replicate n '.')

theorem dots_zero : dots 0 = "" := rfl

theorem dots_succ (n : Nat) : dots (n + 1) = "." ++ dots n := by
  apply String.toList_injective
  simp [dots, List.replicate_succ]

/-- Dots before a path change nothing. -/
theorem pathNames_dots_append (n : Nat) (p : String) : pathNames (dots n ++ p) = pathNames p := by
  induction n with
  | zero => rw [dots_zero, String.empty_append]
  | succ n ih =>
    have hdot := pathNames_append "" (dots n ++ p)
    rwa [String.empty_append, pathNames_empty, List.nil_append, ih, ← String.append_assoc,
      ← dots_succ] at hdot

/-- Dots behind a path change nothing either. -/
theorem pathNames_append_dots (n : Nat) (p : String) : pathNames (p ++ dots n) = pathNames p := by
  cases n with
  | zero => rw [dots_zero, String.append_empty]
  | succ n =>
    have hdots := pathNames_dots_append n ""
    rw [String.append_empty] at hdots
    rw [dots_succ, ← String.append_assoc, pathNames_append, hdots, pathNames_empty, List.append_nil]

/-- Any number of dots cuts a path as one does. -/
theorem pathNames_append_dots_append (n : Nat) (p q : String) :
    pathNames (p ++ dots (n + 1) ++ q) = pathNames (p ++ "." ++ q) := by
  -- The first of the dots cuts, and the others stand before what follows.
  have hdots := pathNames_append p (dots n ++ q)
  rw [pathNames_dots_append, ← String.append_assoc] at hdots
  rw [pathNames_append, dots_succ, ← String.append_assoc, hdots]

/-- What can be a name on a path. -/
def IsPathName (name : String) : Prop :=
  name ≠ "" ∧ '.' ∉ name.toList

instance (name : String) : Decidable (IsPathName name) :=
  inferInstanceAs (Decidable (_ ∧ _))

/-- Names that have no dots are found again on the path that is made of them. -/
theorem pathNames_intercalate {names : List String} (h : ∀ name ∈ names, IsPathName name) :
    pathNames (".".intercalate names) = names := by
  rcases names with _ | ⟨name, rest⟩
  · rfl
  · have hsplit : Text.split '.' (".".intercalate (name :: rest)) = name :: rest :=
      Text.split_intercalate (List.cons_ne_nil _ _) fun name hname => (h name hname).2
    rw [pathNames, hsplit, List.filter_eq_self]
    intro name hname
    exact decide_eq_true (h name hname).1

/-! ## One step -/

/-- The first sub-request for a field: none for it is in the groups before, and none stands before
it in its own group. -/
def IsFirst (r : Request) (name : String) (field : Request) : Prop :=
  field.name = name ∧ ∃ earlier type before key after later,
    r.groups = earlier ++ (type, before ++ (key, field) :: after) :: later ∧
      (∀ group ∈ earlier, ∀ entry ∈ group.2, entry.2.name ≠ name) ∧
      ∀ entry ∈ before, entry.2.name ≠ name

section

variable {r field : Request} {name : String}

/-- The first sub-request for a field in one group. -/
theorem find?_group_eq_some_iff {group : List (String × Request)} :
    (group.map Prod.snd).find? (·.name = name) = some field ↔
      field.name = name ∧ ∃ before key after, group = before ++ (key, field) :: after ∧
        ∀ entry ∈ before, entry.2.name ≠ name := by
  rw [List.find?_map, Option.map_eq_some_iff]
  constructor
  · rintro ⟨⟨key, field⟩, hentry, rfl⟩
    obtain ⟨hname, before, after, rfl, hbefore⟩ := List.find?_eq_some_iff_append.1 hentry
    exact ⟨of_decide_eq_true hname, before, key, after, rfl, fun entry hmem => by
      simpa using hbefore entry hmem⟩
  · rintro ⟨hname, before, key, after, rfl, hbefore⟩
    refine ⟨(key, field), List.find?_eq_some_iff_append.2 ⟨decide_eq_true hname, before, after, rfl,
      fun entry hmem => ?_⟩, rfl⟩
    simpa using hbefore entry hmem

theorem find?_group_eq_none_iff {group : List (String × Request)} :
    (group.map Prod.snd).find? (·.name = name) = none ↔
      ∀ entry ∈ group, entry.2.name ≠ name := by
  simp

/-- The step: a name leads to the first sub-request for it. -/
theorem field?_eq_some_iff : r.field? name = some field ↔ r.IsFirst name field := by
  rw [field?, fields, List.find?_flatMap, List.findSome?_eq_some_iff]
  simp only [find?_group_eq_some_iff, find?_group_eq_none_iff]
  constructor
  · rintro ⟨earlier, ⟨type, group⟩, later, hgroups, ⟨hname, before, key, after, rfl, hbefore⟩,
      hearlier⟩
    exact ⟨hname, earlier, type, before, key, after, later, hgroups, hearlier, hbefore⟩
  · rintro ⟨hname, earlier, type, before, key, after, later, hgroups, hearlier, hbefore⟩
    exact ⟨earlier, _, later, hgroups, ⟨hname, before, key, after, rfl, hbefore⟩, hearlier⟩

end

/-! ## Whole paths -/

/-- Names lead from a request to a part of it: each to the first sub-request for it. -/
inductive Follows : Request → List String → Request → Prop
  | here {r : Request} : Follows r [] r
  | step {r field part : Request} {name : String} {names : List String}
      (hfirst : r.IsFirst name field) (hrest : Follows field names part) :
      Follows r (name :: names) part

/-- The run: names lead from step to step. -/
theorem foldlM_field?_eq_some_iff {names : List String} {r part : Request} :
    names.foldlM field? r = some part ↔ r.Follows names part := by
  induction names generalizing r with
  | nil =>
    constructor
    · rintro ⟨⟩
      exact .here
    · rintro ⟨⟩
      rfl
  | cons name names ih =>
    rw [List.foldlM_cons, Option.bind_eq_bind, Option.bind_eq_some_iff]
    constructor
    · rintro ⟨field, hfield, hrest⟩
      exact .step (field?_eq_some_iff.1 hfield) (ih.1 hrest)
    · intro h
      cases h with
      | step hfirst hrest => exact ⟨_, field?_eq_some_iff.2 hfirst, ih.2 hrest⟩

/-- Behind a dot a path goes on from where it has led. -/
theorem descend?_append (r : Request) (p q : String) :
    r.descend? (p ++ "." ++ q) = (r.descend? p).bind (·.descend? q) := by
  rw [descend?, pathNames_append, List.foldlM_append]
  rfl

/-- **Paths compose.** A path goes on behind a dot from where the path before the dot leads, if
that leads anywhere. An empty path stays where it is; dots at the start of a path, at its end or
next to others do not matter; and of names, one after the other, each leads to the first
sub-request for it across all groups. -/
theorem paths_compose (r : Request) (p q : String) :
    r.descend? (p ++ "." ++ q) = (r.descend? p).bind (·.descend? q) ∧
      r.descend? "" = some r ∧
      (∀ n, r.descend? (dots n ++ p) = r.descend? p ∧ r.descend? (p ++ dots n) = r.descend? p ∧
        r.descend? (p ++ dots (n + 1) ++ q) = r.descend? (p ++ "." ++ q)) ∧
      ∀ names, (∀ name ∈ names, IsPathName name) → ∀ part,
        r.descend? (".".intercalate names) = some part ↔ r.Follows names part := by
  refine ⟨descend?_append r p q, rfl, fun n => ⟨?_, ?_, ?_⟩, fun names hnames part => ?_⟩
  · rw [descend?, descend?, pathNames_dots_append]
  · rw [descend?, descend?, pathNames_append_dots]
  · rw [descend?, descend?, pathNames_append_dots_append]
  · rw [descend?, pathNames_intercalate hnames, foldlM_field?_eq_some_iff]

/-- The latest posts of a user. -/
def latest : Request :=
  (ofName "posts").withArg "take" (.int 2)

/-- A feed of drafts and posts, with the latest posts of those who wrote the latter. They are
requested a second time, with all of their posts. -/
def feed : Request :=
  ((ofName "feed").withField "Draft" (ofName "title")).withFields "Post"
    [((ofName "author").withField "User" latest).withLabel "writer",
      (ofName "author").withField "User" (ofName "posts")]

/-- The first request for the authors is in the second group, under a label of its own. -/
theorem paths_compose_feed :
    (∀ name ∈ ["author", "posts"], IsPathName name) ∧
      feed.descend? (".".intercalate ["author", "posts"]) = some latest ∧
      (feed.descend? "author").bind (·.descend? "posts") = some latest ∧
      feed.descend? (dots 2 ++ ("author" ++ dots 3 ++ "posts")) = some latest := by
  have hnames : ∀ name ∈ ["author", "posts"], IsPathName name := by decide
  have hauthor : feed.IsFirst "author" (((ofName "author").withField "User" latest).withLabel
      "writer") :=
    ⟨rfl, [("Draft", [("title", ofName "title")])], "Post", [], "writer", _, [], rfl, by decide,
      List.forall_mem_nil _⟩
  have hposts : (((ofName "author").withField "User" latest).withLabel "writer").IsFirst "posts"
      latest :=
    ⟨rfl, [], "User", [], "posts", [], [], rfl, List.forall_mem_nil _, List.forall_mem_nil _⟩
  obtain ⟨hdot, -, hdots, hfollows⟩ := paths_compose feed "author" "posts"
  have hpath := (hfollows _ hnames latest).2 (.step hauthor (.step hposts .here))
  refine ⟨hnames, hpath, hdot.symm.trans hpath, ?_⟩
  rw [((paths_compose feed _ "").2.2.1 2).1, (hdots 2).2.2]
  exact hpath

end Schematic.Request
