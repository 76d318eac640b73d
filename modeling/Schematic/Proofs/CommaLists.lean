import Mathlib.Data.List.TakeWhile
import Schematic.Admin.Value
import Schematic.Proofs.Blog
import Schematic.Proofs.Results

/-!
# Lists in texts

A list is typed as its items with commas between them. Reading such a text gives back the
items (`FormValue.coerce_listText_iff`): no item holds a comma, so the commas are found where
they were put (`Text.split_intercalate`), and each item is read as what it was written for
(`FormValue.Item.scalar_shown`), integers of 64 bits to the last one (`Numeral.integer?_repr`).
Only a single empty text is lost, as it is written like no item at all.
-/

namespace Schematic

/-- Several numbers. -/
def Blog.scores : Field :=
  { loaded (column "scores" "Float") "Scores" with isList := true }

/-! ## Segments -/

namespace Text

/-- Segments are the parts of a list between the occurrences of an element. -/
theorem segments_eq_splitOn (sep : Char) (cs : List Char) : segments sep cs = cs.splitOn sep := by
  induction cs with
  | nil => rfl
  | cons c rest ih =>
    obtain ⟨first, more, h⟩ := List.exists_cons_of_ne_nil (segments_ne_nil sep rest)
    rw [segments, List.splitOn_cons_eq_if_modifyHead, ← ih, h]
    simp only [beq_iff_eq, List.modifyHead_cons]

theorem segments_append_cons (sep : Char) (cs ds : List Char) :
    segments sep (cs ++ sep :: ds) = segments sep cs ++ segments sep ds := by
  simp only [segments_eq_splitOn, List.splitOn_append_cons_self]

/-- A text is cut at a separator wherever that stands. -/
theorem split_append (sep : Char) (first second : String) :
    split sep (first ++ String.singleton sep ++ second) = split sep first ++ split sep second := by
  rw [split, String.toList_append, String.toList_append, String.toList_singleton,
    List.append_assoc, List.singleton_append, segments_append_cons, List.map_append]
  rfl

/-- Texts with a separator between them that none of them holds are found again. -/
theorem split_intercalate {sep : Char} {texts : List String} (hne : texts ≠ [])
    (hsep : ∀ text ∈ texts, sep ∉ text.toList) :
    split sep ((String.singleton sep).intercalate texts) = texts := by
  have hsegments : ([sep].intercalate (texts.map String.toList)).splitOn sep =
      texts.map String.toList :=
    List.splitOn_intercalate sep (by simpa using hsep) (by simpa using hne)
  rw [split, segments_eq_splitOn, String.toList_intercalate, String.toList_singleton, hsegments,
    List.map_map]
  exact (List.map_congr_left fun text _ => String.ofList_toList).trans (List.map_id _)

/-- A text without white space at its ends. -/
structure IsTrimmed (cs : List Char) : Prop where
  first : ∀ c ∈ cs.head?, isBlank c = false
  last : ∀ c ∈ cs.getLast?, isBlank c = false

theorem IsTrimmed.of_forall {cs : List Char} (h : ∀ c ∈ cs, isBlank c = false) : IsTrimmed cs := by
  constructor
  · intro c hc
    exact h c (List.mem_of_mem_head? hc)
  · intro c hc
    exact h c (List.mem_of_mem_getLast? hc)

theorem dropWhile_isBlank_eq_self {cs : List Char} (h : ∀ c ∈ cs.head?, isBlank c = false) :
    cs.dropWhile isBlank = cs := by
  cases cs with
  | nil => rfl
  | cons c rest => rw [List.dropWhile_cons, if_neg (by simp [h c rfl])]

theorem IsTrimmed.trim_eq {cs : List Char} (h : IsTrimmed cs) : trim cs = cs := by
  have hlast : ∀ c ∈ cs.reverse.head?, isBlank c = false := by
    rw [List.head?_reverse]
    exact h.last
  rw [trim, trimStart, dropWhile_isBlank_eq_self h.first, trimEnd, dropWhile_isBlank_eq_self hlast,
    List.reverse_reverse]

end Text

/-! ## Decimal numerals -/

namespace Numeral

theorem value_toDigits (n : Nat) : value (Nat.toDigits 10 n) = n := by
  rw [value, ← Nat.ofDigitChars_eq_foldl]
  exact Nat.ofDigitChars_ten_toDigits

theorem isDigit_of_mem_toDigits {n : Nat} : ∀ c ∈ Nat.toDigits 10 n, c.isDigit :=
  fun _ => Nat.isDigit_of_mem_toDigits (by decide) (by decide)

theorem readDigits?_toDigits (n : Nat) :
    readDigits? (Nat.toDigits 10 n) = some (Nat.toDigits 10 n, []) := by
  rw [readDigits?, List.takeWhile_eq_self_iff.2 isDigit_of_mem_toDigits,
    List.dropWhile_eq_nil_iff.2 isDigit_of_mem_toDigits]
  cases h : Nat.toDigits 10 n with
  | nil => exact absurd h Nat.toDigits_ne_nil
  | cons c rest => rfl

/-- Digits have no sign before them. -/
theorem readSign_toDigits (n : Nat) :
    readSign (Nat.toDigits 10 n) = (false, Nat.toDigits 10 n) := by
  have hdigit : ∀ c ∈ Nat.toDigits 10 n, c.isDigit := isDigit_of_mem_toDigits
  unfold readSign
  split
  · rename_i h
    rw [h] at hdigit
    exact absurd (hdigit _ List.mem_cons_self) (by decide)
  · rename_i h
    rw [h] at hdigit
    exact absurd (hdigit _ List.mem_cons_self) (by decide)
  · rfl

/-- Digits and a minus are neither white space nor commas. -/
theorem plain_of_mem_repr {n : Int} {c : Char} (hc : c ∈ n.repr.toList) :
    Text.isBlank c = false ∧ c ≠ ',' := by
  have hdigit : ∀ n : Nat, c ∈ Nat.toDigits 10 n → Text.isBlank c = false ∧ c ≠ ',' := by
    intro n hc
    obtain ⟨hlow, hhigh⟩ : 48 ≤ c.toNat ∧ c.toNat ≤ 57 :=
      Char.isDigit_iff_toNat.1 (isDigit_of_mem_toDigits c hc)
    refine ⟨?_, fun hcomma => ?_⟩
    · simp only [Text.isBlank, Text.blankRanges, List.any_cons, List.any_nil, Bool.or_false,
        Bool.or_eq_false_iff, Bool.and_eq_false_iff, decide_eq_false_iff_not]
      omega
    · rw [hcomma] at hlow
      exact absurd hlow (by decide)
  rw [Int.repr_eq_if] at hc
  split at hc
  · rw [Nat.toList_repr] at hc
    exact hdigit _ hc
  · rw [String.toList_append, List.mem_append, Nat.toList_repr] at hc
    rcases hc with hc | hc
    · obtain rfl : c = '-' := List.mem_singleton.1 hc
      exact ⟨by decide, by decide⟩
    · exact hdigit _ hc

/-- What is read is the value of the digits, with the sign before them. -/
theorem integer?_of_readSign {cs : List Char} {n : Nat} {i : Int64} (negative : Bool)
    (hsign : readSign cs = (negative, Nat.toDigits 10 n))
    (hvalue : (if negative then -(n : Int) else n) = i.toInt) : integer? cs = some i.toInt := by
  simp only [integer?, hsign, readDigits?_toDigits, value_toDigits, hvalue]
  exact if_pos ⟨i.minValue_le_toInt, i.toInt_le⟩

/-- An integer of 64 bits is read from its decimal numeral. -/
theorem integer?_repr (i : Int64) : integer? i.toInt.repr.toList = some i.toInt := by
  rw [Int.repr_eq_if]
  split
  · rename_i hsign
    rw [Nat.toList_repr]
    exact integer?_of_readSign false (readSign_toDigits _) (Int.toNat_of_nonneg hsign)
  · rename_i hsign
    rw [String.toList_append, Nat.toList_repr]
    refine integer?_of_readSign true rfl ?_
    rw [if_pos rfl]
    omega

end Numeral

namespace FormValue

open Json (Value)

/-! ## Items -/

/-- An item of a list of truth values is true only if it says so. -/
theorem scalar_truth {field : Field} (hlist : field.isList) (htype : field.type = "Boolean")
    (text : String) : scalar field text = .ok (.bool (text = "true")) := by
  rw [scalar, htype, if_neg (by decide), if_neg (by decide), if_pos ⟨rfl, hlist⟩]

/-- What may stand in a list. -/
inductive Item where
  | integer (i : Int64)
  | truth (b : Bool)
  | text (s : String)
  deriving DecidableEq

namespace Item

/-- The value of an item. -/
def value : Item → Value
  | integer i => .int i.toInt
  | truth b => .bool b
  | text s => .string s

/-- An item as it is typed. -/
def shown : Item → String
  | integer i => toString i.toInt
  | truth b => toString b
  | text s => s

/-- Whether an item may stand in a list of a type. Texts may if it is not one of the other
types, and if there is no comma in them. -/
def Fits (type : String) : Item → Prop
  | integer _ => type = "Int" ∨ type = "Float"
  | truth _ => type = "Boolean"
  | text s => type ≠ "Int" ∧ type ≠ "Float" ∧ type ≠ "Boolean" ∧ ',' ∉ s.toList

variable {item : Item} {field : Field}

theorem not_mem_shown (hitem : item.Fits field.type) : ',' ∉ item.shown.toList := by
  cases item with
  | integer i => exact fun h => (Numeral.plain_of_mem_repr h).2 rfl
  | truth b => cases b <;> decide
  | text s => exact hitem.2.2.2

/-- The step: an item is read as what it was written for. -/
theorem scalar_shown (hlist : field.isList) (hitem : item.Fits field.type) :
    scalar field item.shown = .ok item.value := by
  cases item with
  | integer i =>
    have htrim : Text.trim (shown (.integer i)).toList = i.toInt.repr.toList :=
      (Text.IsTrimmed.of_forall fun c hc => (Numeral.plain_of_mem_repr hc).1).trim_eq
    rw [scalar, htrim, Numeral.number?, Numeral.integer?_repr]
    rcases hitem with htype | htype
    · rw [if_pos htype]
      rfl
    · rw [htype]
      rfl
  | truth b =>
    have htrue : decide (shown (.truth b) = "true") = b := by cases b <;> rfl
    rw [scalar_truth hlist hitem, htrue]
    rfl
  | text s =>
    obtain ⟨hint, hfloat, hboolean, -⟩ := hitem
    rw [scalar, if_neg hint, if_neg hfloat, if_neg fun h => hboolean h.1]
    rfl

end Item

/-! ## Lists -/

/-- A list as it is typed. -/
def listText (items : List Item) : String :=
  ",".intercalate (items.map Item.shown)

variable {field : Field} {items : List Item}

theorem split_listText (hne : items ≠ []) (hitems : ∀ item ∈ items, item.Fits field.type) :
    Text.split ',' (listText items) = items.map Item.shown :=
  Text.split_intercalate (by simpa using hne)
    (List.forall_mem_map.2 fun item hitem => Item.not_mem_shown (hitems item hitem))

/-- Only the empty text as a single item is typed like no item at all. -/
theorem listText_eq_empty_iff (hitems : ∀ item ∈ items, item.Fits field.type) :
    listText items = "" ↔ items = [] ∨ items = [.text ""] := by
  constructor
  · intro hempty
    by_cases hne : items = []
    · exact .inl hne
    · have hshown := split_listText hne hitems
      rw [hempty] at hshown
      obtain ⟨item, rfl, hitem⟩ := List.map_eq_singleton_iff.1 hshown.symm
      cases item with
      | integer i =>
        have hread := Numeral.integer?_repr i
        rw [show i.toInt.repr = String.ofList [] from hitem] at hread
        cases hread
      | truth b => cases b <;> exact absurd hitem (by decide)
      | text s => exact .inr (congrArg (fun s => [Item.text s]) hitem)
  · rintro (rfl | rfl) <;> rfl

/-- The run: the items of a text are read one by one. -/
theorem list_listText (hlist : field.isList) (hitems : ∀ item ∈ items, item.Fits field.type)
    (hlost : items ≠ [.text ""]) :
    list field (listText items) = .ok (.array (items.map Item.value)) := by
  by_cases hne : items = []
  · rw [hne]
    rfl
  · have hread : (items.map Item.shown).mapM (scalar field) = .ok (items.map Item.value) := by
      rw [mapM_eq_ok_iff_forall₂, List.forall₂_map_left_iff, List.forall₂_map_right_iff,
        List.forall₂_same]
      exact fun item hitem => Item.scalar_shown hlist (hitems item hitem)
    rw [list, if_neg fun h => ((listText_eq_empty_iff hitems).1 h).elim hne hlost,
      split_listText hne hitems, hread]
    rfl

/-- A text that is meant for a list is read as one, whatever it is sent with. -/
theorem coerce_list (hlist : field.isList) (hjson : field.type ≠ "Json") (writing : Writing)
    (text : String) : coerce (some field) writing (.string text) = list field text := by
  rw [coerce, ofText, if_neg hjson, if_pos hlist]

/-- **Lists are read as they are typed.** Whatever a list of integers, of truth values or of
texts without commas is sent with, the text that has its items between commas is read as the
very list, and nothing is wrapped around it; but the list of a single empty text is not, as
its text is that of the empty list. -/
theorem coerce_listText_iff (hlist : field.isList) (hjson : field.type ≠ "Json")
    (hitems : ∀ item ∈ items, item.Fits field.type) (writing : Writing) :
    listText [] = "" ∧
      (coerce (some field) writing (.string (listText items)) =
        .ok (.array (items.map Item.value)) ↔ items ≠ [.text ""]) := by
  rw [coerce_list hlist hjson]
  refine ⟨rfl, ?_, list_listText hlist hitems⟩
  rintro hread rfl
  cases hread

/-- The least and the greatest integer of 64 bits, in a list of numbers that an update is
to set. -/
theorem coerce_listText_scores :
    listText [.integer Int64.minValue, .integer 0, .integer Int64.maxValue] =
        "-9223372036854775808,0,9223372036854775807" ∧
      coerce (some Blog.scores) (.update true)
          (.string "-9223372036854775808,0,9223372036854775807") =
        .ok (.array [.int (-9223372036854775808), .int 0, .int 9223372036854775807]) := by
  have htext : listText [.integer Int64.minValue, .integer 0, .integer Int64.maxValue] =
      "-9223372036854775808,0,9223372036854775807" := by decide
  have hitems : ∀ item ∈ [Item.integer Int64.minValue, .integer 0, .integer Int64.maxValue],
      item.Fits Blog.scores.type :=
    fun item hitem => by
      simp only [List.mem_cons, List.not_mem_nil, or_false] at hitem
      rcases hitem with rfl | rfl | rfl <;> exact .inr rfl
  refine ⟨htext, ?_⟩
  rw [← htext]
  exact (coerce_listText_iff rfl (by decide) hitems _).2.2 (by decide)

end FormValue

end Schematic
