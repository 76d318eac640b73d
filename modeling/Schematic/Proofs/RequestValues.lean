import Schematic.Proofs.DistinctKeys
import Schematic.Proofs.MergeLaws
import Schematic.Proofs.Results
import Schematic.Request.Json

/-!
# Requests read back

A request and all parts of it are maps: no object among its arguments has a key twice, and no
two groups, or sub-requests of a group, have one key (`Request.DistinctKeys`). This holds of
every request that is read (`Request.distinctKeys_of_decode`) and of all that is built from
such requests (`Request.distinctKeys_build`).

Nothing of a request is lost in its JSON form: it is read back as it was, with the order of
arguments, groups and sub-requests, if as many arrays and objects may lie within each other
as do (`Request.readsBack_build`). The values among its arguments are read back first
(`Json.Value.value?_written`), then maps of anything that is read back
(`Json.Decoder.keyed_object`).
-/

namespace Schematic

open Json (Decoder Fields Value Written)

/-- Distinct keys are written into an empty map as they are. -/
theorem Keyed.ofPairs_of_nodup {α : Type} {entries : Keyed α} (h : (keys entries).Nodup) :
    ofPairs entries = entries := by
  rw [ofPairs, putAll_eq_mergeBy, mergeBy_of_nodup, List.nil_append]
  exact h

namespace Json

/-! ## Maps -/

section Maps

variable {α : Type} {d : Decoder α} {depth : Nat}

/-- Reads an entry of a map. -/
def Decoder.entry (d : Decoder α) (depth : Nat) (entry : Option String × Written) :
    Option (String × α) := do
  return (← entry.1, ← d depth entry.2)

theorem Decoder.entry_eq_some_iff {e : Option String × Written} {pair : String × α} :
    d.entry depth e = some pair ↔ e.1 = some pair.1 ∧ d depth e.2 = some pair.2 := by
  obtain ⟨key, a⟩ := pair
  simp [entry, Option.bind_eq_some_iff]

theorem Decoder.keyed_succ (entries : List (Option String × Written)) :
    keyed d (depth + 1) (.object entries) = (entries.mapM (d.entry depth)).map Keyed.ofPairs :=
  rfl

/-- A map is read back if its keys are distinct and each of its entries is read back. -/
theorem Decoder.keyed_object {w : α → Written} {entries : Keyed α}
    (hkeys : (Keyed.keys entries).Nodup) (h : ∀ e ∈ entries, d depth (w e.2) = some e.2) :
    keyed d (depth + 1) (.object (entries.map fun e => (some e.1, w e.2))) = some entries := by
  have hread : (entries.map fun e => (some e.1, w e.2)).mapM (d.entry depth) =
      some entries := by
    rw [mapM_eq_some_iff_forall₂, List.forall₂_map_left_iff, List.forall₂_same]
    intro e he
    exact entry_eq_some_iff.2 ⟨rfl, h e he⟩
  rw [keyed_succ, hread, Option.map_some, Keyed.ofPairs_of_nodup hkeys]

/-- A map that is read has distinct keys, and what holds of all that its entries may be read as
holds of them. -/
theorem Decoder.of_keyed_eq_some {P : α → Prop} {w : Written} {entries : Keyed α}
    (hd : ∀ {depth w a}, d depth w = some a → P a) (h : keyed d depth w = some entries) :
    (Keyed.keys entries).Nodup ∧ ∀ e ∈ entries, P e.2 := by
  rw [keyed.eq_def] at h
  split at h
  · obtain ⟨pairs, hpairs, rfl⟩ := Option.map_eq_some_iff.1 h
    refine ⟨Keyed.nodup_keys_ofPairs pairs, ?_⟩
    apply Keyed.forall_putAll (P := fun _ => P) (List.forall_mem_nil _)
    intro pair hpair
    obtain ⟨e, -, he⟩ := exists_of_mem_of_forall₂ (mapM_eq_some_iff_forall₂.1 hpairs) hpair
    exact hd (entry_eq_some_iff.1 he).2
  · cases h

/-- What holds of the default of a field, and of all that may be read for it, holds of what it
is read as. -/
theorem Fields.of_optional_eq_some {P : α → Prop} {fields : Fields} {name : String}
    {default a : α} (hdefault : P default) (hd : ∀ {depth w a}, d depth w = some a → P a)
    (h : fields.optional name default d = some a) : P a := by
  unfold optional at h
  split at h
  · exact hd h
  · cases h
    exact hdefault

end Maps

/-! ## Values -/

mutual
/-- How many arrays and objects lie within each other in a value. -/
def Value.nesting : Value → Nat
  | .array items => Value.itemsNesting items + 1
  | .object entries => Value.entriesNesting entries + 1
  | _ => 0
termination_by structural v => v

/-- The nesting of the items of an array. -/
def Value.itemsNesting : List Value → Nat
  | [] => 0
  | item :: rest => max item.nesting (Value.itemsNesting rest)
termination_by structural items => items

/-- The nesting of the entries of an object. -/
def Value.entriesNesting : List (String × Value) → Nat
  | [] => 0
  | (_, item) :: rest => max item.nesting (Value.entriesNesting rest)
termination_by structural entries => entries
end

namespace Value

variable {depth : Nat}

/-- An array takes one level more than its items. -/
theorem exists_of_nesting_array_le {items : List Value} (h : (array items).nesting ≤ depth) :
    ∃ inner, depth = inner + 1 ∧ ∀ v ∈ items, v.nesting ≤ inner := by
  obtain ⟨inner, rfl⟩ := Nat.exists_eq_add_of_le' (Nat.le_trans (Nat.le_add_left 1 _) h)
  refine ⟨inner, rfl, ?_⟩
  rw [nesting, Nat.add_le_add_iff_right] at h
  induction items with
  | nil => exact List.forall_mem_nil _
  | cons v rest ih =>
    rw [itemsNesting, Nat.max_le] at h
    exact List.forall_mem_cons.2 ⟨h.1, ih h.2⟩

/-- An object takes one level more than its entries. -/
theorem exists_of_nesting_object_le {entries : List (String × Value)}
    (h : (object entries).nesting ≤ depth) :
    ∃ inner, depth = inner + 1 ∧ ∀ e ∈ entries, e.2.nesting ≤ inner := by
  obtain ⟨inner, rfl⟩ := Nat.exists_eq_add_of_le' (Nat.le_trans (Nat.le_add_left 1 _) h)
  refine ⟨inner, rfl, ?_⟩
  rw [nesting, Nat.add_le_add_iff_right] at h
  induction entries with
  | nil => exact List.forall_mem_nil _
  | cons e rest ih =>
    obtain ⟨key, v⟩ := e
    rw [entriesNesting, Nat.max_le] at h
    exact List.forall_mem_cons.2 ⟨h.1, ih h.2⟩

theorem writtenEntries_eq_map (entries : List (String × Value)) :
    writtenEntries entries = entries.map fun e => (some e.1, e.2.written) := by
  induction entries with
  | nil => rfl
  | cons e rest ih =>
    obtain ⟨key, v⟩ := e
    rw [writtenEntries, ih, List.map_cons]

/-- An object is read as a map of values. -/
theorem value?_object (entries : List (Option String × Written)) :
    Written.value? (depth + 1) (.object entries) =
      (Decoder.keyed Decoder.value (depth + 1) (.object entries)).map object := by
  have hread : Written.entries? depth entries = entries.mapM (Decoder.value.entry depth) := by
    induction entries with
    | nil => rfl
    | cons entry rest ih =>
      obtain ⟨key, w⟩ := entry
      unfold Written.entries?
      rw [ih, List.mapM_cons]
      cases key <;> cases hw : Written.value? depth w <;>
        cases hrest : rest.mapM (Decoder.value.entry depth) <;>
          simp [Decoder.entry, Decoder.value, hw]
  rw [Written.value?, hread, Decoder.keyed_succ, Option.map_map]
  rfl

/-- The items of an array are read back if each of them is. -/
theorem values?_writtenItems {items : List Value}
    (h : ∀ v ∈ items, Written.value? depth v.written = some v) :
    Written.values? depth (writtenItems items) = some items := by
  induction items with
  | nil => rfl
  | cons v rest ih =>
    obtain ⟨hv, hrest⟩ := List.forall_mem_cons.1 h
    rw [writtenItems, Written.values?, hv, ih hrest]

/-- A value with distinct keys is read back wherever it is not too deep. -/
theorem value?_written {v : Value} (h : v.DistinctKeys) (hdepth : v.nesting ≤ depth) :
    Written.value? depth v.written = some v := by
  induction h generalizing depth with
  | null | bool | number | string => rfl
  | @array items _ ih =>
    obtain ⟨inner, rfl, hitems⟩ := exists_of_nesting_array_le hdepth
    rw [written, Written.value?, values?_writtenItems fun v hv => ih v hv (hitems v hv)]
    rfl
  | @object entries hkeys _ ih =>
    obtain ⟨inner, rfl, hentries⟩ := exists_of_nesting_object_le hdepth
    rw [written, writtenEntries_eq_map, value?_object,
      Decoder.keyed_object (d := .value) hkeys fun e he => ih e he (hentries e he)]
    rfl

/-- So are its entries as a map of values. -/
theorem keyed_value_written {entries : List (String × Value)} (h : (object entries).DistinctKeys)
    (hdepth : (object entries).nesting ≤ depth) :
    Decoder.keyed .value depth (object entries).written = some entries := by
  obtain ⟨inner, rfl, -⟩ := exists_of_nesting_object_le hdepth
  have hread := value?_written h hdepth
  rw [written, value?_object] at hread
  obtain ⟨_, hread, hobject⟩ := Option.map_eq_some_iff.1 hread
  cases hobject
  exact hread

end Value

end Json

namespace Request

/-! ## Requests are maps -/

/-- No part of a request has two entries under one key. -/
inductive DistinctKeys : Request → Prop
  | mk {name label : String} {args : List (String × Value)}
      {groups : List (String × List (String × Request))}
      (hargs : (Value.object args).DistinctKeys)
      (htypes : (Keyed.keys groups).Nodup)
      (hlabels : ∀ group ∈ groups, (Keyed.keys group.2).Nodup)
      (hfields : ∀ group ∈ groups, ∀ entry ∈ group.2, DistinctKeys entry.2) :
      DistinctKeys ⟨name, label, args, groups⟩

/-- No two requests of a group have one key, and no part of them has two entries under one. -/
def GroupDistinct (entries : List (String × Request)) : Prop :=
  (Keyed.keys entries).Nodup ∧ ∀ entry ∈ entries, entry.2.DistinctKeys

variable {r : Request}

theorem distinctKeys_iff :
    r.DistinctKeys ↔ (Value.object r.args).DistinctKeys ∧ (Keyed.keys r.groups).Nodup ∧
      ∀ group ∈ r.groups, GroupDistinct group.2 := by
  obtain ⟨name, label, args, groups⟩ := r
  constructor
  · rintro ⟨hargs, htypes, hlabels, hfields⟩
    exact ⟨hargs, htypes, fun group hgroup => ⟨hlabels group hgroup, hfields group hgroup⟩⟩
  · rintro ⟨hargs, htypes, hgroups⟩
    exact .mk hargs htypes (fun group hgroup => (hgroups group hgroup).1)
      fun group hgroup => (hgroups group hgroup).2

/-- What is read has distinct keys, however many levels of requests are allowed. -/
theorem distinctKeys_of_decodeLevels {levels depth : Nat} {w : Written}
    (h : decodeLevels levels depth w = some r) : r.DistinctKeys := by
  induction levels generalizing depth w r with
  | zero => cases h
  | succ levels ih =>
    simp only [decodeLevels, Option.bind_eq_bind, Option.bind_eq_some_iff, Option.pure_def,
      Option.some.injEq] at h
    obtain ⟨fields, -, name, -, label, -, args, hargs, groups, hgroups, rfl⟩ := h
    have hargs := Fields.of_optional_eq_some ⟨List.nodup_nil, List.forall_mem_nil _⟩
      (Decoder.of_keyed_eq_some (Written.distinctKeys_of_value? _)) hargs
    have hgroups := Fields.of_optional_eq_some ⟨List.nodup_nil, List.forall_mem_nil _⟩
      (Decoder.of_keyed_eq_some (Decoder.of_keyed_eq_some ih)) hgroups
    exact distinctKeys_iff.2 ⟨.object hargs.1 hargs.2, hgroups⟩

/-- Every request that is read has distinct keys. -/
theorem distinctKeys_of_decode {depth : Nat} {w : Written} (h : decode depth w = some r) :
    r.DistinctKeys :=
  distinctKeys_of_decodeLevels h

theorem distinctKeys_ofName (name : String) : (ofName name).DistinctKeys :=
  .mk (.object List.nodup_nil (List.forall_mem_nil _)) List.nodup_nil (List.forall_mem_nil _)
    (List.forall_mem_nil _)

theorem DistinctKeys.withLabel (h : r.DistinctKeys) (label : String) :
    (r.withLabel label).DistinctKeys := by
  obtain ⟨hargs, htypes, hlabels, hfields⟩ := h
  exact .mk hargs htypes hlabels hfields

theorem DistinctKeys.withArg (h : r.DistinctKeys) (name : String) {value : Value}
    (hvalue : value.DistinctKeys) : (r.withArg name value).DistinctKeys := by
  obtain ⟨hargs, hgroups⟩ := distinctKeys_iff.1 h
  obtain ⟨hkeys, hentries⟩ := hargs.of_object
  have hargs' : (Value.object (Keyed.put r.args name value)).DistinctKeys :=
    .object (Keyed.nodup_keys_alter hkeys)
      (Keyed.forall_alter (P := fun _ => Value.DistinctKeys) hentries hvalue fun _ _ => hvalue)
  exact distinctKeys_iff.2 ⟨hargs', hgroups⟩

/-- A group of requests with distinct keys stays one when a request is put into it. -/
theorem GroupDistinct.put {entries : List (String × Request)} (h : GroupDistinct entries)
    (key : String) (hr : r.DistinctKeys) : GroupDistinct (Keyed.put entries key r) :=
  ⟨Keyed.nodup_keys_alter h.1,
    Keyed.forall_alter (P := fun _ => DistinctKeys) h.2 hr fun _ _ => hr⟩

theorem DistinctKeys.withField (h : r.DistinctKeys) (type : String) {field : Request}
    (hfield : field.DistinctKeys) : (r.withField type field).DistinctKeys := by
  obtain ⟨hargs, htypes, hgroups⟩ := distinctKeys_iff.1 h
  have hnone : GroupDistinct [] := ⟨List.nodup_nil, List.forall_mem_nil _⟩
  have hgroups' : ∀ group ∈ (r.withField type field).groups, GroupDistinct group.2 :=
    Keyed.forall_alter (P := fun _ => GroupDistinct) hgroups (hnone.put field.key hfield)
      fun _ hgroup => hgroup.put field.key hfield
  exact distinctKeys_iff.2 ⟨hargs, Keyed.nodup_keys_alter htypes, hgroups'⟩

theorem DistinctKeys.withFields (h : r.DistinctKeys) (type : String) {fields : List Request}
    (hfields : ∀ field ∈ fields, field.DistinctKeys) : (r.withFields type fields).DistinctKeys := by
  induction fields generalizing r with
  | nil => exact h
  | cons field rest ih =>
    obtain ⟨hfield, hrest⟩ := List.forall_mem_cons.1 hfields
    exact ih (h.withField type hfield) hrest

/-! ## Requests built -/

/-- What a request can be given. -/
inductive Addition
  | label (label : String)
  | arg (name : String) (value : Value)
  | field (type : String) (field : Request)
  | fields (type : String) (fields : List Request)

/-- The request with what it is given. -/
def extend (r : Request) : Addition → Request
  | .label label => r.withLabel label
  | .arg name value => r.withArg name value
  | .field type field => r.withField type field
  | .fields type fields => r.withFields type fields

/-- The request with all that it is given, one after the other. -/
def build (r : Request) (additions : List Addition) : Request :=
  additions.foldl extend r

/-- What is given has distinct keys. -/
def Addition.DistinctKeys : Addition → Prop
  | .label _ => True
  | .arg _ value => value.DistinctKeys
  | .field _ r => r.DistinctKeys
  | .fields _ rs => ∀ r ∈ rs, r.DistinctKeys

/-- The step: whatever a request is given, its keys stay distinct. -/
theorem distinctKeys_extend (h : r.DistinctKeys) {addition : Addition}
    (haddition : addition.DistinctKeys) : (r.extend addition).DistinctKeys := by
  cases addition with
  | label label => exact h.withLabel label
  | arg name value => exact h.withArg name haddition
  | field type field => exact h.withField type haddition
  | fields type fields => exact h.withFields type haddition

/-- The run: so they do however often it is given something. -/
theorem distinctKeys_build (h : r.DistinctKeys) {additions : List Addition}
    (hadditions : ∀ addition ∈ additions, addition.DistinctKeys) :
    (r.build additions).DistinctKeys := by
  induction additions generalizing r with
  | nil => exact h
  | cons addition rest ih =>
    obtain ⟨haddition, hrest⟩ := List.forall_mem_cons.1 hadditions
    exact ih (distinctKeys_extend h haddition) hrest

/-! ## Requests read back -/

theorem groupValues_eq_map (groups : List (String × List (String × Request))) :
    groupValues groups = groups.map fun group => (group.1, .object (entryValues group.2)) := by
  induction groups with
  | nil => rfl
  | cons group rest ih =>
    obtain ⟨type, entries⟩ := group
    rw [groupValues, ih, List.map_cons]

theorem entryValues_eq_map (entries : List (String × Request)) :
    entryValues entries = entries.map fun entry => (entry.1, entry.2.toValue) := by
  induction entries with
  | nil => rfl
  | cons entry rest ih =>
    obtain ⟨key, r⟩ := entry
    rw [entryValues, ih, List.map_cons]

/-- The entries of a group as they are written. -/
def writtenGroup (entries : List (String × Request)) : Written :=
  .object (entries.map fun entry => (some entry.1, entry.2.toValue.written))

theorem written_entryValues (entries : List (String × Request)) :
    (Value.object (entryValues entries)).written = writtenGroup entries := by
  rw [Value.written, Value.writtenEntries_eq_map, entryValues_eq_map, List.map_map]
  rfl

theorem written_groupValues (groups : List (String × List (String × Request))) :
    (Value.object (groupValues groups)).written =
      .object (groups.map fun group => (some group.1, writtenGroup group.2)) := by
  simp only [Value.written, Value.writtenEntries_eq_map, groupValues_eq_map, List.map_map,
    Function.comp_def, ← written_entryValues]

variable {levels depth : Nat}

/-- A group is read back if each of its requests is, one level deeper. -/
theorem keyed_entryValues {entries : List (String × Request)} (hkeys : (Keyed.keys entries).Nodup)
    (hdepth : (Value.object (entryValues entries)).nesting ≤ depth)
    (h : ∀ entry ∈ entries, ∀ inner < depth, entry.2.toValue.nesting ≤ inner →
      decodeLevels levels inner entry.2.toValue.written = some entry.2) :
    Decoder.keyed (decodeLevels levels) depth (writtenGroup entries) = some entries := by
  obtain ⟨inner, rfl, hentries⟩ := Value.exists_of_nesting_object_le hdepth
  rw [entryValues_eq_map, List.forall_mem_map] at hentries
  rw [writtenGroup]
  refine Decoder.keyed_object (d := decodeLevels levels) (w := fun r => r.toValue.written) hkeys ?_
  intro entry hentry
  exact h entry hentry inner (Nat.lt_succ_self inner) (hentries entry hentry)

/-- Groups are read back if each of their requests is, two levels deeper. -/
theorem keyed_groupValues {groups : List (String × List (String × Request))}
    (htypes : (Keyed.keys groups).Nodup) (hlabels : ∀ group ∈ groups, (Keyed.keys group.2).Nodup)
    (hdepth : (Value.object (groupValues groups)).nesting ≤ depth)
    (h : ∀ group ∈ groups, ∀ entry ∈ group.2, ∀ inner < depth, entry.2.toValue.nesting ≤ inner →
      decodeLevels levels inner entry.2.toValue.written = some entry.2) :
    Decoder.keyed (.keyed (decodeLevels levels)) depth (Value.object (groupValues groups)).written =
      some groups := by
  obtain ⟨inner, rfl, hgroups⟩ := Value.exists_of_nesting_object_le hdepth
  rw [groupValues_eq_map, List.forall_mem_map] at hgroups
  rw [written_groupValues]
  apply Decoder.keyed_object htypes
  intro group hgroup
  apply keyed_entryValues (hlabels group hgroup) (hgroups group hgroup)
  intro entry hentry innermost hinnermost
  exact h group hgroup entry hentry innermost (Nat.lt_succ_of_lt hinnermost)

/-- All fields of a request are written, so all are read. -/
theorem decodeLevels_object (levels depth : Nat) (name label : String) (args groups : Written) :
    decodeLevels (levels + 1) (depth + 1)
        (.object [(some "name", .string (some name)), (some "alias", .string (some label)),
          (some "args", args), (some "fieldsByTypeName", groups)]) = (do
      let args ← Decoder.keyed .value depth args
      let groups ← Decoder.keyed (.keyed (decodeLevels levels)) depth groups
      return ⟨name, label, args, groups⟩) :=
  rfl

/-- A request is read back if it is not too deep, and more levels of requests are allowed than
of objects. -/
theorem decodeLevels_toValue (h : r.DistinctKeys) (hdepth : r.toValue.nesting ≤ depth)
    (hlevels : depth < levels) : decodeLevels levels depth r.toValue.written = some r := by
  -- By induction on the request: those below it lie one level of requests further down, and
  -- three of objects.
  induction h generalizing levels depth with
  | @mk name label args groups hargs htypes hlabels _ ih =>
    obtain ⟨depth, rfl, hparts⟩ := Value.exists_of_nesting_object_le hdepth
    obtain ⟨levels, rfl⟩ := Nat.exists_eq_add_of_le' (Nat.zero_lt_of_lt hlevels)
    have hread : Decoder.keyed .value depth (Value.object args).written = some args :=
      Value.keyed_value_written hargs (hparts ("args", _) (by simp))
    have hgroups : Decoder.keyed (.keyed (decodeLevels levels)) depth
        (Value.object (groupValues groups)).written = some groups := by
      apply keyed_groupValues htypes hlabels (hparts ("fieldsByTypeName", _) (by simp))
      intro group hgroup entry hentry inner hinner hnesting
      exact ih group hgroup entry hentry hnesting (by omega)
    have hobject := decodeLevels_object levels depth name label (Value.object args).written
      (Value.object (groupValues groups)).written
    rw [hread, hgroups] at hobject
    exact hobject

/-- A request is read back from its JSON form, the order of its parts included, wherever that is
not too deep. -/
def ReadsBack (r : Request) : Prop :=
  ∀ depth, r.toValue.nesting ≤ depth → decode depth r.toValue.written = some r

/-- Every request with distinct keys is read back. -/
theorem DistinctKeys.readsBack (h : r.DistinctKeys) : r.ReadsBack :=
  fun depth hdepth => decodeLevels_toValue h hdepth (Nat.lt_succ_self depth)

/-- **Nothing of a request is lost in its JSON form**: every request that is a map in all its
parts is read back as it was, with the order of its arguments, groups and sub-requests, and so is
all that is built from it by giving it labels, arguments and sub-requests. -/
theorem readsBack_build (h : r.DistinctKeys) :
    r.ReadsBack ∧ ∀ additions : List Addition,
      (∀ addition ∈ additions, addition.DistinctKeys) → (r.build additions).ReadsBack :=
  ⟨h.readsBack, fun _ hadditions => (distinctKeys_build h hadditions).readsBack⟩

/-- A request for a user, with a group that has nothing in it. -/
def bareUser : Request :=
  ⟨"user", "", [], [("Query", [])]⟩

/-- A request for some posts, under a label of its own. -/
def recentPosts : Request :=
  ((ofName "posts").withArg "take" (.int 5)).withLabel "recent"

/-- An argument with an array in it. -/
def whereTagged : Value :=
  .object [("id", .int 1), ("tags", .array [.null])]

/-- What the user is given, in the end something for the empty group. -/
def userAdditions : List Addition :=
  [.label "me", .arg "where" whereTagged, .fields "User" [ofName "id", recentPosts],
    .field "Query" (ofName "now")]

/-- The group that was there stays the first, and all is read back within the nesting of a text. -/
theorem readsBack_build_posts :
    bareUser.build userAdditions = ⟨"user", "me", [("where", whereTagged)],
        [("Query", [("now", ofName "now")]),
          ("User", [("id", ofName "id"), ("recent", recentPosts)])]⟩ ∧
      decode Written.maxDepth bareUser.toValue.written = some bareUser ∧
      decode Written.maxDepth (bareUser.build userAdditions).toValue.written =
        some (bareUser.build userAdditions) := by
  have hbare : bareUser.DistinctKeys := distinctKeys_iff.2
    ⟨.object List.nodup_nil (List.forall_mem_nil _), by decide,
      List.forall_mem_singleton.2 ⟨List.nodup_nil, List.forall_mem_nil _⟩⟩
  have hposts : recentPosts.DistinctKeys :=
    ((distinctKeys_ofName "posts").withArg "take" (.number _)).withLabel "recent"
  have hwhere : whereTagged.DistinctKeys := .object (by decide) (List.forall_mem_cons.2
    ⟨.number _, List.forall_mem_singleton.2 (.array (List.forall_mem_singleton.2 .null))⟩)
  have hfields : ∀ field ∈ [ofName "id", recentPosts], field.DistinctKeys :=
    List.forall_mem_cons.2 ⟨distinctKeys_ofName "id", List.forall_mem_singleton.2 hposts⟩
  have hadditions : ∀ addition ∈ userAdditions, addition.DistinctKeys := by
    simp only [userAdditions, List.forall_mem_cons, List.not_mem_nil, false_implies,
      implies_true, and_true]
    exact ⟨trivial, hwhere, hfields, distinctKeys_ofName "now"⟩
  obtain ⟨hread, hbuilt⟩ := readsBack_build hbare
  exact ⟨rfl, hread _ (by decide), hbuilt _ hadditions _ (by decide)⟩

end Request
end Schematic
