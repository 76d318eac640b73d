import Mathlib.Data.List.Infix
import Schematic.Proofs.Kept
import Schematic.Proofs.Spacing

/-!
# Aliases in documentation

A documentation text gives a model the names that its first closed annotation lists
(`Alias.First`): of the places where an annotation begins it is the leftmost at which a
`])` follows on the same line, and it ends at the first of these. Every text is read as this
annotation says, or as no names (`Alias.reads_iff`), and so names that are written into an
annotation are read again, whatever stands around it (`Alias.ofDocumentation_annotated`).
-/

namespace Schematic

namespace Text

/-! ## White space at the ends -/

/-- The second text is the first without the white space at its ends. -/
structure Trims (s t : List Char) : Prop where
  padded : Padded t s
  trimmed : IsTrimmed t

/-- Behind the leading white space there is something else, if anything. -/
theorem isBlank_of_head?_dropWhile {s : List Char} {c : Char}
    (h : c ∈ (s.dropWhile isBlank).head?) : isBlank c = false := by
  have hhead := List.head?_dropWhile_not isBlank s
  rw [Option.mem_def.1 h] at hhead
  exact hhead

/-- What is cut off at the end is white space. -/
theorem exists_trimEnd_append (s : List Char) :
    ∃ after, (∀ c ∈ after, isBlank c) ∧ trimEnd s ++ after = s := by
  refine ⟨(s.reverse.takeWhile isBlank).reverse, ?_, ?_⟩
  · intro c hc
    exact List.mem_takeWhile_imp (List.mem_reverse.1 hc)
  · rw [trimEnd, ← List.reverse_append, List.takeWhile_append_dropWhile, List.reverse_reverse]

/-- Trimming leaves a text without white space at its ends. -/
theorem trims_trim (s : List Char) : Trims s (trim s) := by
  obtain ⟨after, hafter, hs⟩ := exists_trimEnd_append (trimStart s)
  refine ⟨⟨s.takeWhile isBlank, after, fun c hc => List.mem_takeWhile_imp hc, hafter, ?_⟩, ?_, ?_⟩
  · rw [List.append_assoc, trim, hs, trimStart, List.takeWhile_append_dropWhile]
  · intro c hc
    refine isBlank_of_head?_dropWhile (s := s) ?_
    rw [← trimStart, ← hs, List.head?_append, ← trim, Option.mem_def.1 hc]
    rfl
  · intro c hc
    rw [trim, trimEnd, List.getLast?_reverse] at hc
    exact isBlank_of_head?_dropWhile hc

/-- Only one text is another without the white space at its ends. -/
theorem trims_iff {s t : List Char} : Trims s t ↔ trim s = t := by
  constructor
  · intro h
    rw [h.padded.trim_eq, h.trimmed.trim_eq]
  · rintro rfl
    exact trims_trim s

end Text

namespace Alias

open Text

/-! ## Items -/

/-- The names are the items between the commas of a text, without white space at their ends
and without the empty ones. -/
def Lists (body : List Char) (names : List String) : Prop :=
  ∃ trimmed, List.Forall₂ Trims (body.splitOn ',') trimmed ∧
    names.map String.toList = trimmed.filter (· ≠ [])

/-- The items of an annotation, as lists of characters. -/
theorem map_toList_items (body : List Char) :
    (items body).map String.toList = ((body.splitOn ',').map trim).filter (· ≠ []) := by
  rw [items, segments_eq_splitOn, List.map_map]
  exact (List.map_congr_left fun _ _ => String.toList_ofList).trans (List.map_id _)

/-- A text lists the names that are read off it, and no others. -/
theorem lists_iff {body : List Char} {names : List String} :
    Lists body names ↔ items body = names := by
  constructor
  · rintro ⟨trimmed, htrimmed, hnames⟩
    have hmap : (body.splitOn ',').map trim = trimmed := by
      rw [← List.forall₂_eq_eq_eq, List.forall₂_map_left_iff]
      exact htrimmed.imp fun _ _ h => trims_iff.1 h
    have hsame : (items body).map String.toList = names.map String.toList := by
      rw [map_toList_items, hmap, hnames]
    exact List.map_injective_iff.2 (fun _ _ => String.toList_inj.1) hsame
  · rintro rfl
    refine ⟨(body.splitOn ',').map trim, ?_, map_toList_items body⟩
    rw [List.forall₂_map_right_iff, List.forall₂_same]
    exact fun s _ => trims_trim s

/-- A name that can be listed. -/
structure IsName (name : String) : Prop where
  ne_empty : name ≠ ""
  comma : ',' ∉ name.toList
  line : '\n' ∉ name.toList
  trimmed : IsTrimmed name.toList

/-- Names with commas between them, and spaces behind the commas. -/
def listed (names : List String) : List Char :=
  [',', ' '].intercalate (names.map String.toList)

theorem listed_singleton (name : String) : listed [name] = name.toList :=
  List.intercalate_singleton

/-- A further name is listed behind a comma and a space. -/
theorem listed_cons_cons (name second : String) (rest : List String) :
    listed (name :: second :: rest) = name.toList ++ ',' :: ' ' :: listed (second :: rest) := by
  rw [listed, List.map_cons, List.map_cons, List.intercalate_cons_cons, List.append_assoc]
  rfl

/-- The commas are found where they were put, and the items have got the spaces. -/
theorem forall₂_segments_listed {names : List String} (hne : names ≠ [])
    (hnames : ∀ name ∈ names, IsName name) :
    List.Forall₂ Padded (names.map String.toList) (segments ',' (listed names)) := by
  induction names with
  | nil => exact absurd rfl hne
  | cons name rest ih =>
    obtain ⟨hname, hrest⟩ := List.forall_mem_cons.1 hnames
    have hone : segments ',' name.toList = [name.toList] := by
      rw [segments_eq_splitOn, List.splitOn_eq_singleton hname.comma]
    cases rest with
    | nil =>
      rw [listed_singleton, hone]
      exact .cons (.refl _) .nil
    | cons second rest =>
      rw [listed_cons_cons, segments_append_cons, hone]
      have hspace : List.Forall₂ Padded (segments ',' (listed (second :: rest)))
          (segments ',' (' ' :: listed (second :: rest))) :=
        forall₂_segments_cons (by decide) (by decide) _
      exact .cons (.refl _) (forall₂_padded_trans (ih (List.cons_ne_nil _ _) hrest) hspace)

/-- Names that are written as a list are listed. -/
theorem lists_listed {names : List String} (hnames : ∀ name ∈ names, IsName name) :
    Lists (listed names) names := by
  by_cases hne : names = []
  · rw [hne, lists_iff]
    rfl
  have htrimmed : ∀ cs ∈ names.map String.toList, IsTrimmed cs := by
    rw [List.forall_mem_map]
    intro name hname
    exact (hnames name hname).trimmed
  have hkept : ∀ cs ∈ names.map String.toList, decide (cs ≠ []) := by
    rw [List.forall_mem_map]
    intro name hname
    simpa using (hnames name hname).ne_empty
  have hpadded :=
    (List.forall₂_and_left _ _).2 ⟨htrimmed, forall₂_segments_listed hne hnames⟩
  refine ⟨names.map String.toList, ?_, (List.filter_eq_self.2 hkept).symm⟩
  rw [← segments_eq_splitOn]
  exact hpadded.flip.imp fun _ _ h => ⟨h.2, h.1⟩

/-! ## Annotations -/

/-- How an annotation ends. -/
def closing : List Char :=
  [']', ')']

/-- The first text stands in another up to the end of an annotation on the same line. -/
structure Closes (body cs : List Char) : Prop where
  line : '\n' ∉ body
  stands : body ++ closing <+: cs

/-- An annotation with some inside begins behind the first text and is closed on its line. -/
def ClosedAt (cs before body : List Char) : Prop :=
  ∃ after, cs = before ++ opening ++ after ∧ Closes body after

/-- The leftmost annotation that is closed, up to the first end. -/
structure First (cs before body : List Char) : Prop where
  closed : ClosedAt cs before body
  leftmost : ∀ before' body', ClosedAt cs before' body' → before.length ≤ before'.length
  shortest : ∀ body', ClosedAt cs before body' → body.length ≤ body'.length

/-! ### Ends -/

theorem body?_cons (c : Char) (rest : List Char) :
    body? (c :: rest) =
      if closing.isPrefixOf (c :: rest) then some []
      else if c = '\n' then none
      else (body? rest).map (c :: ·) :=
  rfl

theorem not_closes_nil (body : List Char) : ¬ Closes body [] := by
  rintro ⟨-, hstands⟩
  have hnil := (List.append_eq_nil_iff.1 (List.prefix_nil.1 hstands)).2
  exact absurd hnil (by decide)

/-- Where no end begins, the next character stands inside, and it is no end of the line. -/
theorem closes_cons_iff {c : Char} {rest body : List Char} (h : ¬ closing <+: c :: rest) :
    Closes body (c :: rest) ↔ ∃ body', body = c :: body' ∧ c ≠ '\n' ∧ Closes body' rest := by
  constructor
  · rintro ⟨hline, hstands⟩
    cases body with
    | nil => exact absurd hstands h
    | cons d body' =>
      obtain ⟨rfl, hrest⟩ := List.cons_prefix_cons.1 hstands
      exact ⟨body', rfl, (List.ne_of_not_mem_cons hline).symm,
        List.not_mem_of_not_mem_cons hline, hrest⟩
  · rintro ⟨body', rfl, hc, hline, hstands⟩
    exact ⟨List.not_mem_cons_of_ne_of_not_mem hc.symm hline,
      List.cons_prefix_cons.2 ⟨rfl, hstands⟩⟩

/-- The text up to the first end on the line is found, if there is one. -/
theorem body?_spec (cs : List Char) :
    match body? cs with
    | some body => Closes body cs ∧ ∀ body', Closes body' cs → body.length ≤ body'.length
    | none => ∀ body, ¬ Closes body cs := by
  induction cs with
  | nil => exact not_closes_nil
  | cons c rest ih =>
    rw [body?_cons]
    by_cases hclosing : closing <+: c :: rest
    · rw [if_pos (List.isPrefixOf_iff_prefix.2 hclosing)]
      exact ⟨⟨List.not_mem_nil, hclosing⟩, fun _ _ => Nat.zero_le _⟩
    rw [if_neg (mt List.isPrefixOf_iff_prefix.1 hclosing)]
    by_cases hline : c = '\n'
    · rw [if_pos hline]
      intro body hbody
      obtain ⟨_, -, hc, -⟩ := (closes_cons_iff hclosing).1 hbody
      exact hc hline
    rw [if_neg hline]
    cases hrest : body? rest with
    | none =>
      rw [hrest] at ih
      intro body hbody
      obtain ⟨body', -, -, hbody⟩ := (closes_cons_iff hclosing).1 hbody
      exact ih body' hbody
    | some body =>
      rw [hrest] at ih
      refine ⟨(closes_cons_iff hclosing).2 ⟨body, rfl, hline, ih.1⟩, fun body' hbody => ?_⟩
      obtain ⟨body', rfl, -, hbody⟩ := (closes_cons_iff hclosing).1 hbody
      exact Nat.succ_le_succ (ih.2 body' hbody)

/-! ### Beginnings -/

/-- An annotation begins here, or in the rest of the text. -/
theorem closedAt_cons_iff {c : Char} {rest before body : List Char} :
    ClosedAt (c :: rest) before body ↔
      (before = [] ∧ ClosedAt (c :: rest) [] body) ∨
        ∃ before', before = c :: before' ∧ ClosedAt rest before' body := by
  constructor
  · intro h
    cases before with
    | nil => exact .inl ⟨rfl, h⟩
    | cons d before' =>
      obtain ⟨after, hcs, hbody⟩ := h
      obtain ⟨rfl, hrest⟩ := List.cons.inj hcs
      exact .inr ⟨before', rfl, after, hrest, hbody⟩
  · rintro (⟨rfl, h⟩ | ⟨before', rfl, after, rfl, hbody⟩)
    · exact h
    · exact ⟨after, rfl, hbody⟩

/-- Behind the start of an annotation it only has to be closed. -/
theorem closedAt_append_iff {after body : List Char} :
    ClosedAt (opening ++ after) [] body ↔ Closes body after := by
  constructor
  · rintro ⟨after', hcs, hbody⟩
    rwa [List.append_cancel_left hcs]
  · intro h
    exact ⟨after, rfl, h⟩

/-- An annotation at the very start is read up to its first end. -/
theorem isPrefixOf?_bind_body?_spec (cs : List Char) :
    match opening.isPrefixOf? cs >>= body? with
    | some body => ClosedAt cs [] body ∧ ∀ body', ClosedAt cs [] body' → body.length ≤ body'.length
    | none => ∀ body, ¬ ClosedAt cs [] body := by
  cases hopening : opening.isPrefixOf? cs with
  | none =>
    rintro body ⟨after, rfl, -⟩
    have hsome : opening.isPrefixOf? (opening ++ after) = some after :=
      List.isPrefixOf?_eq_some_iff_append_eq.2 rfl
    exact absurd (hsome.symm.trans hopening) (Option.some_ne_none _)
  | some after =>
    obtain rfl := List.isPrefixOf?_eq_some_iff_append_eq.1 hopening
    simp only [closedAt_append_iff]
    exact body?_spec after

/-- The inside of the first closed annotation is found, if there is one. -/
theorem listing?_spec (cs : List Char) :
    match listing? cs with
    | some body => ∃ before, First cs before body
    | none => ∀ before body, ¬ ClosedAt cs before body := by
  induction cs with
  | nil =>
    rintro before body ⟨after, hcs, -⟩
    have hopening := List.append_eq_nil_iff.1 (List.append_eq_nil_iff.1 hcs.symm).1
    exact absurd hopening.2 (by decide)
  | cons c rest ih =>
    have hhead := isPrefixOf?_bind_body?_spec (c :: rest)
    rw [listing?]
    cases hstart : opening.isPrefixOf? (c :: rest) >>= body? with
    | some body =>
      rw [hstart] at hhead
      exact ⟨[], hhead.1, fun _ _ _ => Nat.zero_le _, hhead.2⟩
    | none =>
      rw [hstart] at hhead
      -- No annotation is closed at the start, so all of them are in the rest.
      have hlater : ∀ {before body}, ClosedAt (c :: rest) before body →
          ∃ before', before = c :: before' ∧ ClosedAt rest before' body := by
        intro before body h
        rcases closedAt_cons_iff.1 h with ⟨-, h⟩ | h
        · exact absurd h (hhead body)
        · exact h
      cases hrest : listing? rest with
      | none =>
        rw [hrest] at ih
        intro before body h
        obtain ⟨before', -, h⟩ := hlater h
        exact ih before' body h
      | some body =>
        rw [hrest] at ih
        obtain ⟨before, hclosed, hleftmost, hshortest⟩ := ih
        refine ⟨c :: before, closedAt_cons_iff.2 (.inr ⟨before, rfl, hclosed⟩), ?_, ?_⟩
        · intro before' body' h
          obtain ⟨before', rfl, hrest⟩ := hlater h
          exact Nat.succ_le_succ (hleftmost before' body' hrest)
        · intro body' h
          obtain ⟨before', hbefore, hrest⟩ := hlater h
          obtain rfl := (List.cons.inj hbefore).2
          exact hshortest body' hrest

/-- A text has only one first closed annotation. -/
theorem First.body_eq {cs before before' body body' : List Char} (h : First cs before body)
    (h' : First cs before' body') : body = body' := by
  obtain ⟨after, hcs, hcloses⟩ := h.closed
  obtain ⟨after', hcs', hcloses'⟩ := h'.closed
  have hlength : before.length = before'.length :=
    (h.leftmost _ _ h'.closed).antisymm (h'.leftmost _ _ h.closed)
  rw [hcs, List.append_assoc, List.append_assoc] at hcs'
  obtain ⟨rfl, hafter⟩ := List.append_inj hcs' hlength
  obtain rfl := List.append_cancel_left hafter
  have hbody : body <+: after := (List.prefix_append _ _).trans hcloses.stands
  have hbody' : body' <+: after := (List.prefix_append _ _).trans hcloses'.stands
  have hle : body.length ≤ body'.length := h.shortest _ h'.closed
  have hge : body'.length ≤ body.length := h'.shortest _ h.closed
  exact (List.prefix_of_prefix_length_le hbody hbody' hle).eq_of_length (hle.antisymm hge)

/-! ## Reading -/

/-- What is found is inside the first annotation that is closed. -/
theorem listing?_eq_some_iff {cs body : List Char} :
    listing? cs = some body ↔ ∃ before, First cs before body := by
  have hspec := listing?_spec cs
  constructor
  · intro h
    rw [h] at hspec
    exact hspec
  · rintro ⟨before, hfirst⟩
    cases h : listing? cs with
    | none =>
      rw [h] at hspec
      exact absurd hfirst.closed (hspec _ _)
    | some body' =>
      rw [h] at hspec
      obtain ⟨_, hfirst'⟩ := hspec
      rw [hfirst'.body_eq hfirst]

/-- Nothing is found just when no annotation is closed. -/
theorem listing?_eq_none_iff {cs : List Char} :
    listing? cs = none ↔ ∀ before body, ¬ ClosedAt cs before body := by
  constructor
  · intro h
    have hspec := listing?_spec cs
    rw [h] at hspec
    exact hspec
  · intro hnone
    cases h : listing? cs with
    | none => rfl
    | some body =>
      obtain ⟨before, hfirst⟩ := listing?_eq_some_iff.1 h
      exact absurd hfirst.closed (hnone _ _)

/-- The names are those of the first closed annotation of a text, or it has none and there
are no names. -/
def Reads (text : String) (names : List String) : Prop :=
  (∃ before body, First text.toList before body ∧ Lists body names) ∨
    (∀ before body, ¬ ClosedAt text.toList before body) ∧ names = []

/-- The names of a text are those that are read off it, and there is no other reading. -/
theorem reads_iff {text : String} {names : List String} :
    Reads text names ↔ ofDocumentation text = names := by
  rw [ofDocumentation]
  constructor
  · rintro (⟨before, body, hfirst, hlists⟩ | ⟨hnone, rfl⟩)
    · rw [listing?_eq_some_iff.2 ⟨before, hfirst⟩]
      exact lists_iff.1 hlists
    · rw [listing?_eq_none_iff.2 hnone]
  · intro h
    cases hlisting : listing? text.toList with
    | none =>
      rw [hlisting] at h
      exact .inr ⟨listing?_eq_none_iff.1 hlisting, h.symm⟩
    | some body =>
      rw [hlisting] at h
      obtain ⟨before, hfirst⟩ := listing?_eq_some_iff.1 hlisting
      exact .inl ⟨before, body, hfirst, lists_iff.2 h⟩

/-! ## Written annotations -/

/-- An annotation does not begin inside the beginning of another. -/
theorem eq_nil_or_prefix_of_overlap {gap rest after : List Char}
    (h : gap ++ (opening ++ rest) = opening ++ after) : gap = [] ∨ opening <+: gap := by
  have hgap : gap <+: gap ++ (opening ++ rest) := List.prefix_append _ _
  have hopening : opening <+: gap ++ (opening ++ rest) := h ▸ List.prefix_append _ _
  by_cases hlength : opening.length ≤ gap.length
  · exact .inr (List.prefix_of_prefix_length_le hopening hgap hlength)
  cases gap with
  | nil => exact .inl rfl
  | cons c gap =>
    -- Then one begins behind the first letter of another, but there is no `@` there.
    have hat : c :: gap ++ ['@'] <+: c :: gap ++ (opening ++ rest) := by
      rw [List.prefix_append_right_inj]
      exact List.prefix_append ['@'] _
    have hle : (c :: gap ++ ['@']).length ≤ opening.length := by
      rw [List.length_append, List.length_singleton]
      omega
    have hinside : gap ++ ['@'] <+: opening.tail :=
      (List.cons_prefix_cons.1 (List.prefix_of_prefix_length_le hat hopening hle)).2
    have hmem : '@' ∈ opening.tail := hinside.subset (List.mem_append_right _ (.head _))
    exact absurd hmem (by decide)

/-- With an end behind it, the text has no other that begins earlier. -/
def ClosedOnce (body : List Char) : Prop :=
  ∀ n < body.length, ¬ closing <+: (body ++ closing).drop n

instance (body : List Char) : Decidable (ClosedOnce body) :=
  inferInstanceAs (Decidable (∀ n < _, _))

/-- The first annotation is the one behind a text in which none begins. -/
theorem first_of_closedOnce {before body : List Char} (after : List Char)
    (hbefore : ¬ opening <:+: before) (hline : '\n' ∉ body) (hbody : ClosedOnce body) :
    First (before ++ opening ++ (body ++ closing ++ after)) before body := by
  refine ⟨⟨_, rfl, hline, List.prefix_append _ _⟩, ?leftmost, ?shortest⟩
  case leftmost =>
    rintro before' body' ⟨after', hcs, -⟩
    by_contra hlt
    simp only [List.append_assoc] at hcs
    have hprefix : before' <+: before :=
      List.prefix_of_prefix_length_le ⟨_, hcs.symm⟩ ⟨_, rfl⟩ (by omega)
    obtain ⟨gap, rfl⟩ := hprefix
    rw [List.append_assoc, List.append_cancel_left_eq] at hcs
    rcases eq_nil_or_prefix_of_overlap hcs with rfl | ⟨rest, rfl⟩
    · rw [List.append_nil] at hlt
      exact hlt le_rfl
    · exact hbefore ⟨before', rest, List.append_assoc _ _ _⟩
  case shortest =>
    rintro body' ⟨after', hcs, -, hstands⟩
    by_contra hlt
    rw [← List.append_cancel_left hcs] at hstands
    have hprefix : body' ++ closing <+: body ++ closing := by
      refine List.prefix_of_prefix_length_le hstands (List.prefix_append _ _) ?_
      rw [List.length_append, List.length_append]
      omega
    obtain ⟨rest, hrest⟩ := hprefix
    refine hbody body'.length (by omega) ?_
    rw [← hrest, List.append_assoc, List.drop_left]
    exact List.prefix_append _ _

/-- The annotation that lists some names. -/
def annotated (names : List String) : String :=
  "@PrismaSelect.map([" ++ ", ".intercalate names ++ "])"

theorem toList_annotated (names : List String) :
    (annotated names).toList = opening ++ (listed names ++ closing) := by
  have hlisted : (", ".intercalate names).toList = listed names := String.toList_intercalate
  unfold annotated
  rw [String.toList_append, String.toList_append, hlisted, List.append_assoc]
  rfl

/-- What stands in a list is a comma, a space, or in a name. -/
theorem mem_listed {names : List String} {c : Char} (h : c ∈ listed names) :
    c = ',' ∨ c = ' ' ∨ ∃ name ∈ names, c ∈ name.toList := by
  induction names with
  | nil => cases h
  | cons name rest ih =>
    cases rest with
    | nil =>
      rw [listed_singleton] at h
      exact .inr (.inr ⟨name, .head _, h⟩)
    | cons second rest =>
      rw [listed_cons_cons, List.mem_append, List.mem_cons, List.mem_cons] at h
      rcases h with h | h | h | h
      · exact .inr (.inr ⟨name, .head _, h⟩)
      · exact .inl h
      · exact .inr (.inl h)
      · rcases ih h with h | h | ⟨name', hname, h⟩
        · exact .inl h
        · exact .inr (.inl h)
        · exact .inr (.inr ⟨name', .tail _ hname, h⟩)

/-- What names are written into an annotation is read again. -/
theorem ofDocumentation_annotated {names : List String} {before : String} (after : String)
    (hnames : ∀ name ∈ names, IsName name)
    (hclosed : ClosedOnce (listed names)) (hbefore : ¬ opening <:+: before.toList) :
    ofDocumentation (before ++ annotated names ++ after) = names := by
  have hline : '\n' ∉ listed names := by
    intro h
    rcases mem_listed h with h | h | ⟨name, hname, h⟩
    · exact absurd h (by decide)
    · exact absurd h (by decide)
    · exact (hnames name hname).line h
  have htext : (before ++ annotated names ++ after).toList =
      before.toList ++ opening ++ (listed names ++ closing ++ after.toList) := by
    simp only [String.toList_append, toList_annotated, List.append_assoc]
  have hfirst := first_of_closedOnce after.toList hbefore hline hclosed
  rw [← htext] at hfirst
  exact reads_iff.1 (.inl ⟨_, _, hfirst, lists_listed hnames⟩)

end Alias

/-! ## Models -/

theorem Model.aliases_of_ofDocument {composite : Bool} {declared : Document.Model} {m : Model}
    (h : Model.ofDocument composite declared = .ok m) :
    m.aliases = (m.documentation.map Alias.ofDocumentation).getD [] := by
  rw [Model.ofDocument] at h
  split at h
  · cases h
  · obtain ⟨fields, -, rfl⟩ := map_eq_ok_iff.1 h
    rfl

namespace Alias

/-- **Aliases are read as they are written.** Names that can be listed are read again from
the first annotation of a text, if with them there is no end before its own. Every text is
read as its first closed annotation says, or else gives no names. These are the aliases of
the models that documents load. -/
theorem aliases_written_read :
    (∀ (names : List String) (before after : String), (∀ name ∈ names, IsName name) →
      ClosedOnce (listed names) → ¬ opening <:+: before.toList →
        ofDocumentation (before ++ annotated names ++ after) = names) ∧
    (∀ text names, ofDocumentation text = names ↔ Reads text names) ∧
    ∀ documents schema, Schema.ofDocuments documents = .ok schema → ∀ m ∈ schema.models,
      m.aliases = (m.documentation.map ofDocumentation).getD [] := by
  refine ⟨?written, fun _ _ => reads_iff.symm, ?loaded⟩
  case written =>
    intro names before after hnames hclosed hbefore
    exact ofDocumentation_annotated after hnames hclosed hbefore
  case loaded =>
    intro documents schema hload m hm
    have hmodels :=
      Schema.mapM_firsts_of_loadModels (Schema.loadedFrom_of_ofDocuments hload).models
    obtain ⟨declared, -, hdeclared⟩ :=
      exists_of_mem_of_forall₂ (mapM_eq_ok_iff_forall₂.1 hmodels) hm
    exact Model.aliases_of_ofDocument hdeclared

/-- Users with a documentation text. -/
def documentedUsers (text : String) : Document :=
  { Blog.document with
    datamodel := ⟨[], [{ Blog.table "User" [] with documentation := some text }], []⟩ }

/-- Their model as it is loaded. -/
def documentedUser (text : String) : Model :=
  { Blog.model "User" [] with
    documentation := some text
    aliases := ofDocumentation text }

/-- The names that are written may hold brackets. An annotation that is not closed on its line
does not count, and neither does one behind the first. -/
theorem aliases_written_read_users :
    (∃ schema, Schema.ofDocuments [documentedUsers ("Users.\n" ++
        annotated ["Account", "[Profile]", "a)b]"] ++ (" " ++ annotated ["Guest"]))] = .ok schema ∧
      ∃ m ∈ schema.models, m.aliases = ["Account", "[Profile]", "a)b]"]) ∧
    Reads "@PrismaSelect.map([A]\n@PrismaSelect.map([ B ,, C]) @PrismaSelect.map([D])"
      ["B", "C"] := by
  obtain ⟨hwritten, hread, hloaded⟩ := aliases_written_read
  have hload : ∀ text, Schema.ofDocuments [documentedUsers text] =
      .ok { Blog.schema with models := [documentedUser text] } := fun _ => rfl
  have hplain : ∀ {name : String}, (name.toList.all fun c => !Text.isBlank c) →
      Text.IsTrimmed name.toList := fun h => .of_forall (by simpa using h)
  have hnames : ∀ name ∈ ["Account", "[Profile]", "a)b]"], IsName name := by
    simp only [List.forall_mem_cons]
    exact ⟨⟨by decide, by decide, by decide, hplain (by decide)⟩,
      ⟨by decide, by decide, by decide, hplain (by decide)⟩,
      ⟨by decide, by decide, by decide, hplain (by decide)⟩, List.forall_mem_nil _⟩
  have haliases := hwritten ["Account", "[Profile]", "a)b]"] "Users.\n" (" " ++ annotated ["Guest"])
    hnames (by decide) (by decide)
  exact ⟨⟨_, hload _, _, .head _, (hloaded _ _ (hload _) _ (.head _)).trans haliases⟩,
    (hread _ _).1 rfl⟩

end Alias

end Schematic
