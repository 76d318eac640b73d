/-!
# Keyed lists

Objects, argument maps, selections and option tables all show the order in
which their keys were first written, so they are held as lists of pairs. A key
is written through `alter`, which changes the entry a key already has where it
stands and puts a new key last; `put` and `ofPairs` are made from it.

The main statements say what an alteration does to the keys (`keys_alter`),
to a lookup (`get?_alter_self`, `get?_alter_of_ne`) and to distinctness
(`nodup_keys_alter`).
-/

namespace Schematic

/-- Entries in the order in which their keys were first written. -/
abbrev Keyed (α : Type u) := List (String × α)

namespace Keyed

variable {α : Type u} {β : Type v}

/-- The keys, in order. -/
def keys (entries : Keyed α) : List String :=
  entries.map Prod.fst

/-- The first entry under a key. -/
def get? (key : String) : Keyed α → Option α
  | [] => none
  | (k, a) :: rest => if k = key then some a else get? key rest

/-- Whether a key has an entry. -/
def contains (key : String) (entries : Keyed α) : Bool :=
  (get? key entries).isSome

/-- Replaces the entry under `key` by what `f` makes of it, in its place; a key
without an entry is added at the end. -/
def alter (key : String) (f : Option α → α) : Keyed α → Keyed α
  | [] => [(key, f none)]
  | (k, a) :: rest => if k = key then (k, f (some a)) :: rest else (k, a) :: alter key f rest

/-- Writes an entry: a repeated key keeps its place and takes the new value. -/
def put (entries : Keyed α) (key : String) (a : α) : Keyed α :=
  alter key (fun _ => a) entries

/-- Writes several entries, one after the other. -/
def putAll (entries : Keyed α) (more : Keyed α) : Keyed α :=
  more.foldl (fun acc entry => acc.put entry.1 entry.2) entries

/-- Entries written into an empty list: of a repeated key the place of the
first and the value of the last entry remain. -/
def ofPairs (pairs : List (String × α)) : Keyed α :=
  putAll [] pairs

/-- Every entry with its value changed. -/
def mapValues (f : α → β) (entries : Keyed α) : Keyed β :=
  entries.map fun entry => (entry.1, f entry.2)

/-! ## Keys and lookups -/

@[simp] theorem keys_nil : keys ([] : Keyed α) = [] := rfl

@[simp] theorem keys_cons (key : String) (a : α) (rest : Keyed α) :
    keys ((key, a) :: rest) = key :: keys rest := rfl

@[simp] theorem get?_nil (key : String) : get? key ([] : Keyed α) = none := rfl

theorem get?_cons (key k : String) (a : α) (rest : Keyed α) :
    get? key ((k, a) :: rest) = if k = key then some a else get? key rest := rfl

/-- A lookup finds something exactly on the keys. -/
theorem isSome_get? (key : String) (entries : Keyed α) :
    (get? key entries).isSome ↔ key ∈ keys entries := by
  induction entries with
  | nil => simp
  | cons entry rest ih =>
    obtain ⟨k, a⟩ := entry
    rw [get?_cons, keys_cons]
    by_cases h : k = key
    · simp [h]
    · rw [if_neg h, ih, List.mem_cons]
      exact ⟨Or.inr, fun h' => h'.resolve_left (Ne.symm h)⟩

/-- A lookup fails exactly off the keys. -/
theorem get?_eq_none_iff (key : String) (entries : Keyed α) :
    get? key entries = none ↔ key ∉ keys entries := by
  rw [← isSome_get?]
  cases get? key entries <;> simp

/-- There are no entries just when there are no keys. -/
theorem eq_nil_iff_forall_not_mem_keys {entries : Keyed α} :
    entries = [] ↔ ∀ key, key ∉ keys entries := by
  rw [← List.eq_nil_iff_forall_not_mem, keys, List.map_eq_nil_iff]

/-- What a lookup finds is an entry. -/
theorem mem_of_get? {key : String} {a : α} {entries : Keyed α}
    (h : get? key entries = some a) : (key, a) ∈ entries := by
  induction entries with
  | nil => cases h
  | cons entry rest ih =>
    obtain ⟨k, b⟩ := entry
    rw [get?_cons] at h
    by_cases hk : k = key
    · rw [if_pos hk] at h
      cases h
      exact hk ▸ List.mem_cons_self
    · rw [if_neg hk] at h
      exact List.mem_cons_of_mem _ (ih h)

/-- With distinct keys, every entry is what a lookup finds. -/
theorem get?_of_mem {key : String} {a : α} {entries : Keyed α} (hnd : (keys entries).Nodup)
    (h : (key, a) ∈ entries) : get? key entries = some a := by
  induction entries with
  | nil => cases h
  | cons entry rest ih =>
    obtain ⟨k, b⟩ := entry
    rw [keys_cons, List.nodup_cons] at hnd
    rw [get?_cons]
    rcases List.mem_cons.1 h with h | h
    · cases h
      exact if_pos rfl
    · have hk : k ≠ key := fun hk =>
        hnd.1 (hk ▸ List.mem_map.2 ⟨(key, a), h, rfl⟩)
      rw [if_neg hk]
      exact ih hnd.2 h

/-! ## Alterations -/

/-- An alteration adds its key at the end unless it is there. -/
theorem keys_alter (key : String) (f : Option α → α) (entries : Keyed α) :
    keys (alter key f entries) =
      if key ∈ keys entries then keys entries else keys entries ++ [key] := by
  induction entries with
  | nil => rfl
  | cons entry rest ih =>
    obtain ⟨k, a⟩ := entry
    by_cases h : k = key
    · simp [alter, h]
    · rw [alter, if_neg h, keys_cons, keys_cons, ih]
      by_cases hr : key ∈ keys rest
      · simp [hr]
      · simp [hr, Ne.symm h]

/-- After an alteration its key has the altered value. -/
@[simp] theorem get?_alter_self (key : String) (f : Option α → α) (entries : Keyed α) :
    get? key (alter key f entries) = some (f (get? key entries)) := by
  induction entries with
  | nil => simp [alter, get?_cons]
  | cons entry rest ih =>
    obtain ⟨k, a⟩ := entry
    by_cases h : k = key
    · simp [alter, get?_cons, h]
    · simp [alter, get?_cons, h, ih]

/-- An alteration leaves every other key alone. -/
theorem get?_alter_of_ne {key key' : String} (h : key' ≠ key) (f : Option α → α)
    (entries : Keyed α) : get? key' (alter key f entries) = get? key' entries := by
  induction entries with
  | nil => simp [alter, get?_cons, Ne.symm h]
  | cons entry rest ih =>
    obtain ⟨k, a⟩ := entry
    by_cases hk : k = key
    · simp [alter, get?_cons, hk, Ne.symm h]
    · simp [alter, get?_cons, hk, ih]

/-- An alteration keeps keys distinct. -/
theorem nodup_keys_alter {key : String} {f : Option α → α} {entries : Keyed α}
    (h : (keys entries).Nodup) : (keys (alter key f entries)).Nodup := by
  rw [keys_alter]
  split
  · exact h
  · rename_i hk
    exact List.nodup_append.2 ⟨h, by simp, by
      intro a ha b hb
      rw [List.mem_singleton.1 hb]
      exact fun hab => hk (hab ▸ ha)⟩

/-- Written entries have distinct keys if the entries before them had. -/
theorem nodup_keys_putAll {entries more : Keyed α} (h : (keys entries).Nodup) :
    (keys (putAll entries more)).Nodup := by
  induction more generalizing entries with
  | nil => exact h
  | cons entry rest ih => exact ih (nodup_keys_alter h)

/-- Entries written into an empty list have distinct keys. -/
theorem nodup_keys_ofPairs (pairs : List (String × α)) : (keys (ofPairs pairs)).Nodup :=
  nodup_keys_putAll List.nodup_nil

end Keyed

end Schematic
