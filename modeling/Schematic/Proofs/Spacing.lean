import Mathlib.Logic.Relation
import Schematic.Proofs.CommaLists

/-!
# White space in lists

White space may be put at either end of a list in a text, and on both sides of its commas
(`Text.Spaced`). It goes into the items, which get it at their ends
(`Text.forall₂_padded_of_spaced`). Numbers are read without the white space at their ends, so
lists of numbers stay what they were. A list of truth values stays a list too, but an item
that is `true` is false with white space (`FormValue.coerce_of_spaced`).
-/

namespace Schematic

/-- Several truth values. -/
def Blog.flags : Field :=
  { loaded (column "flags" "Boolean") "Flags" with isList := true }

namespace Text

/-! ## White space -/

/-- White space is put in at either end, or beside an occurrence of a separator. -/
inductive SpacedOnce (sep : Char) : List Char → List Char → Prop
  | first {c : Char} (hc : isBlank c) (cs : List Char) : SpacedOnce sep cs (c :: cs)
  | last {c : Char} (hc : isBlank c) (cs : List Char) : SpacedOnce sep cs (cs ++ [c])
  | before {c : Char} (hc : isBlank c) (cs ds : List Char) :
    SpacedOnce sep (cs ++ sep :: ds) (cs ++ c :: sep :: ds)
  | after {c : Char} (hc : isBlank c) (cs ds : List Char) :
    SpacedOnce sep (cs ++ sep :: ds) (cs ++ sep :: c :: ds)

/-- White space is put in at such places any number of times. -/
def Spaced (sep : Char) : List Char → List Char → Prop :=
  Relation.ReflTransGen (SpacedOnce sep)

/-- White space is put in at the ends. -/
def Padded (s s' : List Char) : Prop :=
  ∃ before after, (∀ c ∈ before, isBlank c) ∧ (∀ c ∈ after, isBlank c) ∧
    s' = before ++ s ++ after

theorem Spaced.ne_nil {sep : Char} {cs cs' : List Char} (h : Spaced sep cs cs') (hne : cs ≠ []) :
    cs' ≠ [] := by
  cases h with
  | refl => exact hne
  | tail _ hstep => cases hstep <;> simp

namespace Padded

variable {s s' s'' : List Char}

theorem refl (s : List Char) : Padded s s :=
  ⟨[], [], List.forall_mem_nil _, List.forall_mem_nil _, by simp⟩

theorem cons {c : Char} (hc : isBlank c) (s : List Char) : Padded s (c :: s) :=
  ⟨[c], [], List.forall_mem_singleton.2 hc, List.forall_mem_nil _, by simp⟩

theorem concat {c : Char} (hc : isBlank c) (s : List Char) : Padded s (s ++ [c]) :=
  ⟨[], [c], List.forall_mem_nil _, List.forall_mem_singleton.2 hc, by simp⟩

theorem trans (h : Padded s s') (h' : Padded s' s'') : Padded s s'' := by
  obtain ⟨before, after, hbefore, hafter, rfl⟩ := h
  obtain ⟨before', after', hbefore', hafter', rfl⟩ := h'
  refine ⟨before' ++ before, after ++ after', ?_, ?_, by simp⟩
  · exact List.forall_mem_append.2 ⟨hbefore', hbefore⟩
  · exact List.forall_mem_append.2 ⟨hafter, hafter'⟩

/-- Trimming does not see what white space is put around a text. -/
theorem trim_eq (h : Padded s s') : trim s' = trim s := by
  obtain ⟨before, after, hbefore, hafter, rfl⟩ := h
  rw [trim, trimStart, List.append_assoc, List.dropWhile_append_of_pos hbefore,
    List.dropWhile_append, trim, trimStart]
  split
  · rename_i hempty
    rw [List.isEmpty_iff.1 hempty, List.dropWhile_eq_nil_iff.2 hafter]
  · have hreverse : ∀ c ∈ after.reverse, isBlank c := fun c hc => hafter c (List.mem_reverse.1 hc)
    rw [trimEnd, List.reverse_append, List.dropWhile_append_of_pos hreverse, trimEnd]

/-- A text without white space is padded of itself alone. -/
theorem eq_of_forall (h : Padded s s') (hs : ∀ c ∈ s', isBlank c = false) : s = s' := by
  obtain ⟨before, after, hbefore, hafter, rfl⟩ := h
  have hnil : ∀ blank : List Char, (∀ c ∈ blank, isBlank c) → blank ⊆ before ++ s ++ after →
      blank = [] := by
    intro blank hblank hsub
    refine List.eq_nil_iff_forall_not_mem.2 fun c hc => ?_
    have hplain := hs c (hsub hc)
    rw [hblank c hc] at hplain
    cases hplain
  rw [hnil before hbefore (by simp), hnil after hafter (by simp)]
  simp

end Padded

instance : Std.Refl Padded :=
  ⟨Padded.refl⟩

/-! ## Segments -/

theorem forall₂_padded_trans {first second third : List (List Char)}
    (h : List.Forall₂ Padded first second) (h' : List.Forall₂ Padded second third) :
    List.Forall₂ Padded first third := by
  induction h generalizing third with
  | nil => exact h'
  | cons hs _ ih =>
    cases h' with
    | cons hs' h' => exact .cons (hs.trans hs') (ih h')

variable {sep c : Char}

/-- White space before a text is before its first segment. -/
theorem forall₂_segments_cons (hc : isBlank c) (hsep : c ≠ sep) (cs : List Char) :
    List.Forall₂ Padded (segments sep cs) (segments sep (c :: cs)) := by
  obtain ⟨first, more, h⟩ := List.exists_cons_of_ne_nil (segments_ne_nil sep cs)
  rw [segments, if_neg hsep, h]
  exact .cons (.cons hc first) (List.forall₂_refl more)

/-- What is added at the end is added to the last segment. -/
theorem segments_concat (hsep : c ≠ sep) (cs : List Char) :
    ∃ init last, segments sep cs = init ++ [last] ∧
      segments sep (cs ++ [c]) = init ++ [last ++ [c]] := by
  induction cs with
  | nil => exact ⟨[], [], rfl, by simp [segments, hsep]⟩
  | cons d rest ih =>
    obtain ⟨init, last, h, h'⟩ := ih
    by_cases hd : d = sep
    · refine ⟨[] :: init, last, ?_, ?_⟩
      · rw [segments, if_pos hd, h, List.cons_append]
      · rw [List.cons_append, segments, if_pos hd, h', List.cons_append]
    · rw [segments, List.cons_append, segments, if_neg hd, if_neg hd, h, h']
      cases init with
      | nil => exact ⟨[], d :: last, rfl, rfl⟩
      | cons first init => exact ⟨(d :: first) :: init, last, rfl, rfl⟩

/-- White space behind a text is behind its last segment. -/
theorem forall₂_segments_concat (hc : isBlank c) (hsep : c ≠ sep) (cs : List Char) :
    List.Forall₂ Padded (segments sep cs) (segments sep (cs ++ [c])) := by
  obtain ⟨init, last, h, h'⟩ := segments_concat hsep cs
  rw [h, h']
  exact List.rel_append (List.forall₂_refl init) (.cons (.concat hc last) .nil)

variable {cs cs' : List Char}

/-- The step: white space that is put in once goes to one end of a segment. -/
theorem forall₂_padded_of_spacedOnce (hsep : isBlank sep = false) (h : SpacedOnce sep cs cs') :
    List.Forall₂ Padded (segments sep cs) (segments sep cs') := by
  have hne : ∀ {c : Char}, isBlank c → c ≠ sep := by
    rintro c hc rfl
    rw [hsep] at hc
    cases hc
  cases h with
  | first hc => exact forall₂_segments_cons hc (hne hc) cs
  | last hc => exact forall₂_segments_concat hc (hne hc) cs
  | @before c hc ds es =>
    have hconcat : ds ++ c :: sep :: es = (ds ++ [c]) ++ sep :: es := by simp
    rw [hconcat, segments_append_cons, segments_append_cons]
    exact List.rel_append (forall₂_segments_concat hc (hne hc) ds) (List.forall₂_refl _)
  | @after c hc ds es =>
    rw [segments_append_cons, segments_append_cons]
    exact List.rel_append (List.forall₂_refl _) (forall₂_segments_cons hc (hne hc) es)

/-- The run: white space goes to the ends of segments. -/
theorem forall₂_padded_of_spaced (hsep : isBlank sep = false) (h : Spaced sep cs cs') :
    List.Forall₂ Padded (segments sep cs) (segments sep cs') := by
  induction h with
  | refl => exact List.forall₂_refl _
  | tail _ hstep ih => exact forall₂_padded_trans ih (forall₂_padded_of_spacedOnce hsep hstep)

/-- The items of a string get it, too. -/
theorem forall₂_padded_split (hsep : isBlank sep = false) {text text' : String}
    (h : Spaced sep text.toList text'.toList) :
    List.Forall₂ (fun item item' : String => Padded item.toList item'.toList)
      (split sep text) (split sep text') := by
  rw [split, split, List.forall₂_map_left_iff, List.forall₂_map_right_iff]
  simpa only [String.toList_ofList] using forall₂_padded_of_spaced hsep h

end Text

/-! ## Items -/

namespace FormValue

open Json (Value)

variable {field : Field} {item item' : String}

/-- The step for numbers: they are read without the white space at their ends. -/
theorem toOption_scalar_of_padded (htype : field.type = "Int" ∨ field.type = "Float")
    (h : Text.Padded item.toList item'.toList) :
    (scalar field item).toOption = (scalar field item').toOption := by
  unfold scalar
  rw [h.trim_eq]
  rcases htype with htype | htype
  · rw [if_pos htype, if_pos htype]
    split <;> rfl
  · have hint : ¬ field.type = "Int" := by
      rw [htype]
      decide
    rw [if_neg hint, if_neg hint, if_pos htype, if_pos htype]
    split <;> rfl

/-- The step for truth values: white space makes none true, as what is true has none. -/
theorem eq_true_of_padded (h : Text.Padded item.toList item'.toList) (htrue : item' = "true") :
    item = "true" := by
  rw [htrue] at h
  exact String.toList_inj.1 (h.eq_of_forall (by simp [Text.isBlank, Text.blankRanges]))

/-! ## Lists -/

/-- A list of truth values is always read. -/
theorem list_truths (hlist : field.isList) (htype : field.type = "Boolean") {text : String}
    (hne : text ≠ "") :
    list field text =
      .ok (.array ((Text.split ',' text).map fun item => .bool (item = "true"))) := by
  have hread : (Text.split ',' text).mapM (scalar field) =
      .ok ((Text.split ',' text).map fun item => Value.bool (item = "true")) := by
    rw [mapM_eq_ok_iff_forall₂, List.forall₂_map_right_iff, List.forall₂_same]
    exact fun item _ => scalar_truth hlist htype item
  rw [list, if_neg hne, hread]
  rfl

/-- The run for numbers. -/
theorem toOption_list_of_padded (htype : field.type = "Int" ∨ field.type = "Float")
    {text text' : String} (hne : text ≠ "") (hne' : text' ≠ "")
    (h : List.Forall₂ (fun item item' : String => Text.Padded item.toList item'.toList)
      (Text.split ',' text) (Text.split ',' text')) :
    (list field text).toOption = (list field text').toOption := by
  have hread : ((Text.split ',' text).mapM (scalar field)).toOption =
      ((Text.split ',' text').mapM (scalar field)).toOption :=
    toOption_mapM_of_forall₂ (h.imp fun _ _ => toOption_scalar_of_padded htype)
  rw [list, list, if_neg hne, if_neg hne', toOption_map, toOption_map, hread]

/-- The run for truth values: a list stays the same if what was true in it stays true. -/
theorem truths_eq_iff_of_padded {items items' : List String}
    (h : List.Forall₂ (fun item item' : String => Text.Padded item.toList item'.toList)
      items items') :
    items.map (fun item => Value.bool (item = "true")) =
        items'.map (fun item => Value.bool (item = "true")) ↔
      List.Forall₂ (fun item item' => item = "true" → item' = "true") items items' := by
  induction h with
  | nil => simp
  | cons hitem _ ih =>
    rw [List.map_cons, List.map_cons, List.cons.injEq, ih, List.forall₂_cons, Value.bool.injEq,
      decide_eq_decide]
    exact and_congr_left fun _ => ⟨Iff.mp, fun hkept => ⟨hkept, eq_true_of_padded hitem⟩⟩

/-- **White space in lists.** White space at the ends of a list and around its commas does not
change whether the list is read. Numbers are the same with it. Truth values are the same just
when no item that is `true` has got any: with white space it is false. -/
theorem coerce_of_spaced (hlist : field.isList)
    (htype : field.type = "Int" ∨ field.type = "Float" ∨ field.type = "Boolean")
    {text text' : String} (hne : text ≠ "") (h : Text.Spaced ',' text.toList text'.toList)
    (writing : Writing) :
    ((∃ v, coerce (some field) writing (.string text) = .ok v) ↔
        ∃ v, coerce (some field) writing (.string text') = .ok v) ∧
      ((coerce (some field) writing (.string text)).toOption =
          (coerce (some field) writing (.string text')).toOption ↔
        (field.type = "Boolean" →
          List.Forall₂ (fun item item' => item = "true" → item' = "true")
            (Text.split ',' text) (Text.split ',' text'))) := by
  have hjson : field.type ≠ "Json" := by
    intro hjson
    simp [hjson] at htype
  have hpadded := Text.forall₂_padded_split (by decide) h
  have hne' : text' ≠ "" := fun h' => h.ne_nil (mt String.toList_eq_nil_iff.1 hne)
    (String.toList_eq_nil_iff.2 h')
  rw [coerce_list hlist hjson, coerce_list hlist hjson]
  by_cases hboolean : field.type = "Boolean"
  · rw [list_truths hlist hboolean hne, list_truths hlist hboolean hne']
    refine ⟨⟨fun _ => ⟨_, rfl⟩, fun _ => ⟨_, rfl⟩⟩, ?_⟩
    simp only [Except.toOption, Option.some.injEq, Value.array.injEq,
      truths_eq_iff_of_padded hpadded, hboolean, forall_true_left]
  · have hnumber : field.type = "Int" ∨ field.type = "Float" :=
      htype.imp_right fun h => h.resolve_right hboolean
    have hread := toOption_list_of_padded hnumber hne hne' hpadded
    refine ⟨?_, iff_of_true hread fun h => absurd h hboolean⟩
    rw [exists_ok_iff, hread, exists_ok_iff]

/-- Two truth values and two numbers, with a space after the comma. -/
theorem coerce_of_spaced_flags :
    (coerce (some Blog.scores) .create (.string "1,2")).toOption =
        (coerce (some Blog.scores) .create (.string "1, 2")).toOption ∧
      coerce (some Blog.flags) .create (.string "true,true") =
        .ok (.array [.bool true, .bool true]) ∧
      coerce (some Blog.flags) .create (.string "true, true") =
        .ok (.array [.bool true, .bool false]) ∧
      (coerce (some Blog.flags) .create (.string "true,true")).toOption ≠
        (coerce (some Blog.flags) .create (.string "true, true")).toOption := by
  have hblank : Text.isBlank ' ' := by decide
  have hnumbers : Text.Spaced ',' "1,2".toList "1, 2".toList :=
    .single (.after hblank ['1'] ['2'])
  have htruths : Text.Spaced ',' "true,true".toList "true, true".toList :=
    .single (.after hblank "true".toList "true".toList)
  have hscores : Blog.scores.isList := rfl
  have hflags : Blog.flags.isList := rfl
  refine ⟨?_, rfl, rfl, ?_⟩
  · exact (coerce_of_spaced hscores (by decide) (by decide) hnumbers _).2.2 (by decide)
  · refine mt (coerce_of_spaced hflags (by decide) (by decide) htruths _).2.1 ?_
    decide

end FormValue

end Schematic
