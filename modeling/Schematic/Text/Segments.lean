/-!
# Segments

A text between the occurrences of a separator. A text without one is a single
segment, so there is always one at least: `join_segments` puts the text
together again, and no segment holds the separator (`not_mem_of_mem_segments`).
-/

namespace Schematic.Text

/-- The parts of a text before, between and after the occurrences of `sep`. -/
def segments (sep : Char) : List Char → List (List Char)
  | [] => [[]]
  | c :: rest =>
    if c = sep then [] :: segments sep rest
    else match segments sep rest with
      | [] => [[c]]
      | first :: more => (c :: first) :: more

/-- Texts with `sep` between them. -/
def join (sep : Char) : List (List Char) → List Char
  | [] => []
  | [last] => last
  | first :: more => first ++ sep :: join sep more

/-- The segments of a string. -/
def split (sep : Char) (text : String) : List String :=
  (segments sep text.toList).map String.ofList

theorem segments_ne_nil (sep : Char) (cs : List Char) : segments sep cs ≠ [] := by
  cases cs with
  | nil => simp [segments]
  | cons c rest =>
    rw [segments]
    split
    · simp
    · split <;> simp

/-- The segments with the separator between them are the text. -/
theorem join_segments (sep : Char) (cs : List Char) : join sep (segments sep cs) = cs := by
  induction cs with
  | nil => rfl
  | cons c rest ih =>
    obtain ⟨first, more, h⟩ := List.exists_cons_of_ne_nil (segments_ne_nil sep rest)
    rw [h] at ih
    by_cases hc : c = sep
    · rw [segments, if_pos hc, h, join, List.nil_append, ih, hc]
      simp
    · rw [segments, if_neg hc, h]
      cases more with
      | nil => exact congrArg (c :: ·) ih
      | cons second more => exact congrArg (c :: ·) ih

/-- No segment holds the separator. -/
theorem not_mem_of_mem_segments {sep : Char} {cs s : List Char} (h : s ∈ segments sep cs) :
    sep ∉ s := by
  induction cs generalizing s with
  | nil =>
    rw [segments, List.mem_singleton] at h
    simp [h]
  | cons c rest ih =>
    obtain ⟨first, more, hr⟩ := List.exists_cons_of_ne_nil (segments_ne_nil sep rest)
    rw [hr] at ih
    rw [segments, hr] at h
    by_cases hc : c = sep
    · rw [if_pos hc, List.mem_cons] at h
      rcases h with rfl | h
      · simp
      · exact ih h
    · rw [if_neg hc] at h
      rcases List.mem_cons.1 h with rfl | h
      · rw [List.mem_cons]
        rintro (rfl | h')
        · exact hc rfl
        · exact ih List.mem_cons_self h'
      · exact ih (List.mem_cons_of_mem _ h)

end Schematic.Text
