import Schematic.Admin.Filter
import Schematic.Proofs.Results

/-!
# Conditions of column filters

What is typed for an operator is read once: its operand is a number, a list or a text that
stays a text, and a second reading finds nothing left to do
(`Filter.operand_of_operand_eq_ok`). So a condition is its own condition, and it has the
operators that were set, in their order. Reading fails only in numeric columns, over the
first text that is no numeral (`Filter.failure?_condition`); the main statement,
`Filter.condition_outcomes`, goes through all outcomes.
-/

namespace Schematic.Filter

open Json (Value)

/-! ## Operands -/

/-- The texts an operand is read off: the items of a list, or one text. -/
def operandTexts (operator text : String) : List String :=
  if operator ∈ listOperators then Text.split ',' text else [text]

/-- Whether a text is an integer or a finite double, with white space at its ends at most. -/
def IsNumeral (text : String) : Prop :=
  (Numeral.integer? (Text.trim text.toList)).isSome ∨
    (Numeral.double? (Text.trim text.toList)).isSome

instance : DecidablePred IsNumeral :=
  fun _ => inferInstanceAs (Decidable (_ ∨ _))

variable {operator text : String} {numeric : Bool} {v w : Value}

theorem isSome_number?_iff :
    (Numeral.number? (Text.trim text.toList)).isSome ↔ IsNumeral text := by
  rw [IsNumeral, Numeral.number?]
  cases Numeral.integer? (Text.trim text.toList) <;> simp

/-- A list is read item by item, and any other text as a whole. -/
theorem operand_string :
    operand operator numeric (.string text) =
      if operator ∈ listOperators then
        ((operandTexts operator text).mapM (item operator numeric)).map .array
      else item operator numeric text := by
  rw [operand, operandTexts]
  split <;> rfl

/-- A text becomes a number or stays what it is. -/
theorem of_item_eq_ok (h : item operator numeric text = .ok v) :
    (∃ n, v = .number n) ∨ v = .string text := by
  rw [item] at h
  split at h
  · split at h
    · cases h
      exact .inl ⟨_, rfl⟩
    · cases h
  · cases h
    exact .inr rfl

/-- The step: a value that was read off an operand is left alone when it is read again, and
null is read off null only. -/
theorem operand_of_operand_eq_ok (h : operand operator numeric v = .ok w) :
    operand operator numeric w = .ok w ∧ w.isNull = v.isNull := by
  cases v with
  | string text =>
    rw [operand_string] at h
    split at h
    · obtain ⟨items, -, rfl⟩ := map_eq_ok_iff.1 h
      exact ⟨rfl, rfl⟩
    · rename_i hlist
      obtain ⟨n, rfl⟩ | rfl := of_item_eq_ok h
      · exact ⟨rfl, rfl⟩
      · rw [operand_string, if_neg hlist]
        exact ⟨h, rfl⟩
  | _ =>
    cases h
    exact ⟨rfl, rfl⟩

/-! ## Whole conditions -/

/-- The operator and the operand of an entry. -/
def operation (numeric : Bool) (entry : String × Value) : Except AdminError (String × Value) :=
  (operand entry.1 numeric entry.2).map (entry.1, ·)

/-- The entries of a filter whose operators are set. -/
def setEntries (input : Keyed Value) : Keyed Value :=
  input.filter fun entry => !entry.2.isNull

theorem condition_eq (input : Keyed Value) (numeric : Bool) :
    condition input numeric =
      ((setEntries input).mapM (operation numeric)).map fun
        | [] => none
        | operations => some operations :=
  rfl

theorem operation_eq_ok_iff {entry o : String × Value} :
    operation numeric entry = .ok o ↔
      o.1 = entry.1 ∧ operand entry.1 numeric entry.2 = .ok o.2 := by
  obtain ⟨key, w⟩ := o
  rw [operation, map_eq_ok_iff]
  constructor
  · rintro ⟨w', hw, ho⟩
    cases ho
    exact ⟨rfl, hw⟩
  · rintro ⟨rfl, hw⟩
    exact ⟨w, hw, rfl⟩

variable {input c : Keyed Value}

/-- A condition has the operators that are set, one operand for each. -/
theorem condition_eq_ok_some_iff :
    condition input numeric = .ok (some c) ↔
      c ≠ [] ∧ List.Forall₂ (fun entry o => operation numeric entry = .ok o) (setEntries input) c := by
  rw [condition_eq, map_eq_ok_iff, ← mapM_eq_ok_iff_forall₂]
  constructor
  · rintro ⟨operations, hoperations, hsome⟩
    split at hsome
    · cases hsome
    · cases hsome
      exact ⟨‹_›, hoperations⟩
  · rintro ⟨hne, hoperations⟩
    refine ⟨c, hoperations, ?_⟩
    split
    · exact absurd rfl hne
    · rfl

/-- There is no condition if nothing is set. -/
theorem condition_eq_ok_none_iff :
    condition input numeric = .ok none ↔ ∀ entry ∈ input, entry.2.isNull := by
  have hset : setEntries input = [] ↔ ∀ entry ∈ input, entry.2.isNull := by
    simp [setEntries, List.filter_eq_nil_iff]
  rw [← hset, condition_eq, map_eq_ok_iff]
  constructor
  · rintro ⟨operations, hoperations, hnone⟩
    split at hnone
    · exact List.forall₂_nil_right_iff.1 (mapM_eq_ok_iff_forall₂.1 hoperations)
    · cases hnone
  · intro hnil
    exact ⟨[], by rw [hnil]; rfl, rfl⟩

/-- The run: a condition has the operators that are set, in order, none of them is null, and
each operand is read as itself. -/
theorem of_condition_eq_ok (h : condition input numeric = .ok (some c)) :
    Keyed.keys c = Keyed.keys (setEntries input) ∧
      ∀ o ∈ c, o.2.isNull = false ∧ operation numeric o = .ok o := by
  obtain ⟨-, hread⟩ := condition_eq_ok_some_iff.1 h
  constructor
  · rw [Keyed.keys, Keyed.keys, ← List.forall₂_eq_eq_eq, List.forall₂_map_left_iff,
      List.forall₂_map_right_iff]
    exact hread.flip.imp fun _ _ ho => (operation_eq_ok_iff.1 ho).1
  · intro o ho
    obtain ⟨entry, hentry, hread⟩ := exists_of_mem_of_forall₂ hread ho
    obtain ⟨hkey, hoperand⟩ := operation_eq_ok_iff.1 hread
    obtain ⟨hself, hnull⟩ := operand_of_operand_eq_ok hoperand
    have hset : entry.2.isNull = false := by simpa using (List.mem_filter.1 hentry).2
    exact ⟨hnull.trans hset, operation_eq_ok_iff.2 ⟨rfl, hkey ▸ hself⟩⟩

/-- A condition is its own condition. -/
theorem condition_self (h : condition input numeric = .ok (some c)) :
    condition c numeric = .ok (some c) := by
  have hself := (of_condition_eq_ok h).2
  have hset : setEntries c = c := by
    rw [setEntries, List.filter_eq_self]
    intro o ho
    simp [(hself o ho).1]
  rw [condition_eq_ok_some_iff, hset, List.forall₂_same]
  exact ⟨(condition_eq_ok_some_iff.1 h).1, fun o ho => (hself o ho).2⟩

/-! ## Failures -/

/-- The error over a text: in a numeric column it has to be a numeral. -/
def textError? (operator : String) (numeric : Bool) (text : String) : Option AdminError :=
  if numeric && (Numeral.number? (Text.trim text.toList)).isNone then
    some (.invalidNumber operator text)
  else none

/-- The error over an entry of a filter: the one over the first of its texts that has one. -/
def entryError? (numeric : Bool) (entry : String × Value) : Option AdminError :=
  match entry.2 with
  | .string text => (operandTexts entry.1 text).findSome? (textError? entry.1 numeric)
  | _ => none

theorem isSome_textError?_iff :
    (textError? operator numeric text).isSome ↔ numeric ∧ ¬ IsNumeral text := by
  rw [← isSome_number?_iff, textError?]
  cases numeric <;> cases Numeral.number? (Text.trim text.toList) <;> simp

theorem failure?_item :
    failure? (item operator numeric text) = textError? operator numeric text := by
  rw [item, textError?]
  cases numeric with
  | false => rfl
  | true => cases Numeral.number? (Text.trim text.toList) <;> rfl

theorem failure?_operation (entry : String × Value) :
    failure? (operation numeric entry) = entryError? numeric entry := by
  obtain ⟨operator, v⟩ := entry
  rw [operation, failure?_map]
  cases v with
  | string text =>
    rw [operand_string, entryError?]
    split
    · rw [failure?_map, failure?_mapM]
      simp only [failure?_item]
    · rename_i hlist
      simp [operandTexts, hlist, failure?_item]
  | _ => rfl

/-- Of the texts of numeric columns the first one that is no numeral is the error, under the
operator it was typed for. -/
theorem failure?_condition (input : Keyed Value) (numeric : Bool) :
    failure? (condition input numeric) = input.findSome? (entryError? numeric) := by
  have hunset : ∀ entry : String × Value, entry.2.isNull → entryError? numeric entry = none := by
    rintro ⟨operator, v⟩ hnull
    cases v with
    | null => rfl
    | _ => cases hnull
  rw [condition_eq, failure?_map, failure?_mapM]
  simp only [failure?_operation]
  induction input with
  | nil => rfl
  | cons entry rest ih =>
    rw [setEntries, List.filter_cons, List.findSome?_cons, ← ih]
    cases hnull : entry.2.isNull with
    | true => simp [hunset entry hnull, setEntries]
    | false => simp [List.findSome?_cons, setEntries]

/-- There is an error just when a text of a numeric column is no numeral. -/
theorem exists_condition_error_iff :
    (∃ error, condition input numeric = .error error) ↔
      numeric ∧ ∃ operator text, (operator, .string text) ∈ input ∧
        ∃ item ∈ operandTexts operator text, ¬ IsNumeral item := by
  have hsome : (∃ error, condition input numeric = .error error) ↔
      (input.findSome? (entryError? numeric)).isSome := by
    rw [← failure?_condition, Option.isSome_iff_exists]
    simp only [failure?_eq_some_iff]
  rw [hsome, List.findSome?_isSome_iff]
  constructor
  · rintro ⟨⟨operator, v⟩, hentry, herror⟩
    cases v with
    | string text =>
      rw [entryError?, List.findSome?_isSome_iff] at herror
      obtain ⟨item, hitem, herror⟩ := herror
      obtain ⟨hnumeric, hnumeral⟩ := isSome_textError?_iff.1 herror
      exact ⟨hnumeric, operator, text, hentry, item, hitem, hnumeral⟩
    | _ => cases herror
  · rintro ⟨hnumeric, operator, text, hentry, item, hitem, hnumeral⟩
    refine ⟨_, hentry, ?_⟩
    rw [entryError?, List.findSome?_isSome_iff]
    exact ⟨item, hitem, isSome_textError?_iff.2 ⟨hnumeric, hnumeral⟩⟩

/-! ## All outcomes -/

/-- **The condition of a filter.** If there is one, it has the operators whose values are not
null, in the order of the filter, none of them is null, and it is its own condition. There is
none just when every value is null. And reading fails just when the column is numeric and a
text, or an item of a list under `in` or `notIn`, is neither an integer nor a finite double. -/
theorem condition_outcomes (input : Keyed Value) (numeric : Bool) :
    (∀ c, condition input numeric = .ok (some c) →
        Keyed.keys c = Keyed.keys (input.filter fun entry => !entry.2.isNull) ∧
          (∀ o ∈ c, o.2.isNull = false) ∧ condition c numeric = .ok (some c)) ∧
      (condition input numeric = .ok none ↔ ∀ entry ∈ input, entry.2.isNull) ∧
      ((∃ error, condition input numeric = .error error) ↔
        numeric ∧ ∃ operator text, (operator, .string text) ∈ input ∧
          ∃ item ∈ operandTexts operator text, ¬ IsNumeral item) := by
  refine ⟨?_, condition_eq_ok_none_iff, exists_condition_error_iff⟩
  intro c h
  obtain ⟨hkeys, hentries⟩ := of_condition_eq_ok h
  exact ⟨hkeys, fun o ho => (hentries o ho).1, condition_self h⟩

/-- A filter of a numeric column: a list, an operator that is not set, a text, a number. -/
def scoreFilter : Keyed Value :=
  [("in", .string "1, 2.5,3"), ("equals", .null), ("gt", .string " 0"), ("not", .int 7)]

/-- The condition that it is read as. -/
def scoreCondition : Keyed Value :=
  [("in", .array [.int 1, .number (.double ⟨0x4004000000000000⟩), .int 3]), ("gt", .int 0),
    ("not", .int 7)]

/-- Numbers and lists of them are read once, and a list is no number. -/
theorem condition_outcomes_scores :
    condition scoreFilter true = .ok (some scoreCondition) ∧
      Keyed.keys scoreCondition = ["in", "gt", "not"] ∧
      condition scoreCondition true = .ok (some scoreCondition) ∧
      ∃ error, condition [("gt", .string "1, 2.5,3")] true = .error error := by
  have hread : condition scoreFilter true = .ok (some scoreCondition) := rfl
  obtain ⟨hkeys, -, hself⟩ := (condition_outcomes scoreFilter true).1 _ hread
  have hlist : ¬ IsNumeral "1, 2.5,3" := by decide
  have herror := (condition_outcomes [("gt", .string "1, 2.5,3")] true).2.2.2
    ⟨rfl, "gt", _, List.mem_singleton_self _, _, List.mem_singleton_self _, hlist⟩
  exact ⟨hread, hkeys, hself, herror⟩

end Schematic.Filter
