import Schematic.Proofs.Blog
import Schematic.Proofs.KeyPaths
import Schematic.Proofs.PrunedKeys

/-!
# Excluded names

Requests under any label, default fields, the fallback and what a count takes in
are all checked against the exclusions of their model, and so an excluded name is
a key of no selection pruned for it, at any depth. One route is left: a count is
asked for by one name and selected under another, `_count`, and only the first is
checked. `CountsInto` follows this route through the relations of a request, and
`excludedKey_iff_countsInto` says that it is the only one.
-/

namespace Schematic

open Prune

/-- The model that a path of relations leads to. -/
def Schema.modelAt? (schema : Schema) : Model → List String → Option Model
  | model, [] => some model
  | model, step :: path => do
    let declared ← model.field? step
    if declared.isRelation then
      modelAt? schema (← schema.findModel? declared.type) path
    else none

theorem Schema.modelAt?_cons_eq_some_iff {schema : Schema} {model target : Model} {step : String}
    {path : List String} :
    schema.modelAt? model (step :: path) = some target ↔
      ∃ declared next, model.field? step = some declared ∧ declared.isRelation ∧
        schema.findModel? declared.type = some next ∧ schema.modelAt? next path = some target := by
  rw [modelAt?]
  simp only [Option.bind_eq_bind, Option.bind_eq_some_iff]
  constructor
  · rintro ⟨declared, hdeclared, h⟩
    split at h
    · rename_i hrelation
      obtain ⟨next, hnext, htarget⟩ := Option.bind_eq_some_iff.1 h
      exact ⟨declared, next, hdeclared, hrelation, hnext, htarget⟩
    · cases h
  · rintro ⟨declared, next, hdeclared, hrelation, hnext, htarget⟩
    refine ⟨declared, hdeclared, ?_⟩
    rw [if_pos hrelation]
    exact Option.bind_eq_some_iff.2 ⟨next, hnext, htarget⟩

namespace Prune

/-- A request for a count puts the name under the path: its own `_count`, or what
the count takes in. -/
inductive CountsInto (schema : Schema) (options : Options) :
    Model → Request → List String → String → Prop
  | here {model : Model} {request field : Request} (hfield : field ∈ request.fields)
      (hcount : SelectsCount model (options.exclusionsFor model.name request) field) :
      CountsInto schema options model request [] countName
  | counted {model : Model} {request field : Request} {name : String}
      (hfield : field ∈ request.fields)
      (hcount : CountsName model (options.exclusionsFor model.name request) field name) :
      CountsInto schema options model request [countName] name
  | nested {model target : Model} {request field : Request} {declared : Field}
      {path : List String} {name : String} (hfield : field ∈ request.fields)
      (hmeta : ¬ isMeta field.name)
      (hexcluded : field.name ∉ options.exclusionsFor model.name request)
      (hdeclared : model.field? field.name = some declared)
      (hrelation : declared.isRelation) (hfields : ¬ field.isLeaf)
      (htarget : schema.findModel? declared.type = some target)
      (hnested : CountsInto schema options target field path name) :
      CountsInto schema options model request (field.name :: path) name

/-- The name is excluded for the model at the path: for the request itself, or
for every request. -/
def ExcludedAt (options : Options) (model : Model) (request : Request) (path : List String)
    (target : Model) (name : String) : Prop :=
  path = [] ∧ name ∈ options.exclusionsFor model.name request ∨
    ∃ names, Keyed.get? target.name options.excludedFields = some (.fixed names) ∧ name ∈ names

variable {schema : Schema} {options : Options} {model : Model} {excluded : List String}

/-- Nothing in a count is nested. -/
theorem not_isNested_of_mem_count {request : Request} {counts : Selection}
    (hcounts : count options model excluded request = .ok counts) :
    ∀ e ∈ counts.select, e.2.isNested = false := by
  intro e he
  rcases isCounted_of_mem_count hcounts e he with h | ⟨_, h⟩ <;> rw [h] <;> rfl

/-! ## Excluded names come from counts -/

/-- A name excluded for the request is a key of its selection only as the name
of a count. -/
theorem selectsCount_of_excluded {request : Request} {node : Selection} {key : String}
    (hnode : prune schema options model request = .ok node)
    (hexcluded : key ∈ options.exclusionsFor model.name request)
    (hkey : key ∈ Keyed.keys node.select) :
    key = countName ∧ ∃ field ∈ request.fields,
      SelectsCount model (options.exclusionsFor model.name request) field := by
  rw [(prune_eq_ok_iff.1 hnode).2] at hkey
  rcases Selected.mem_keys_mergeEntries.1 hkey with hkey | hkey
  · cases hkey
  · obtain ⟨⟨_, selected⟩, hmem, rfl⟩ := List.mem_map.1 hkey
    rcases of_mem_entries hmem with ⟨field, hfield, hcontributes⟩ | ⟨-, hnot, -⟩
    · rcases hcontributes.selects with ⟨rfl, h, -⟩ | ⟨rfl, h, -⟩ | ⟨rfl, h, -⟩
      · exact absurd hexcluded h.2.1
      · exact absurd hexcluded h.2.1
      · exact ⟨rfl, field, hfield, h⟩
    · exact absurd hexcluded hnot

/-- A key below the top is a key of what some sub-request contributes. -/
theorem exists_contributes_of_hasKeyAt {request : Request} {node : Selection} {step key : String}
    {path : List String} (hnode : prune schema options model request = .ok node)
    (hkey : Selected.HasKeyAt key (step :: path) node.select) :
    ∃ field ∈ request.fields, ∃ select arguments,
      Contributes schema options model (options.exclusionsFor model.name request) field step
        (.nested select arguments) ∧ Selected.HasKeyAt key path select := by
  rw [(prune_eq_ok_iff.1 hnode).2] at hkey
  rcases Selected.HasKeyAt.of_mergeEntries hkey with hkey | ⟨select, arguments, hmem, hkey⟩
  · exact absurd hkey Selected.not_hasKeyAt_nil
  · rcases of_mem_entries hmem with ⟨field, hfield, hcontributes⟩ | ⟨h, -⟩
    · exact ⟨field, hfield, select, arguments, hcontributes, hkey⟩
    · cases h

/-- **Safety.** An excluded name is a key at no depth unless a count puts it
there. -/
theorem countsInto_of_excludedAt {request : Request} :
    ∀ {model : Model} {node : Selection} {path : List String} {target : Model} {key : String},
      prune schema options model request = .ok node →
      schema.modelAt? model path = some target →
      ExcludedAt options model request path target key →
      Selected.HasKeyAt key path node.select →
      CountsInto schema options model request path key := by
  induction request using Request.induction with
  | h request ih =>
    intro model node path target key hnode htarget hexcluded hkey
    cases path with
    | nil =>
      cases htarget
      -- At the top fixed exclusions are those of the request.
      have hexcluded : key ∈ options.exclusionsFor model.name request := by
        rcases hexcluded with ⟨-, h⟩ | ⟨names, hnames, h⟩
        · exact h
        · rwa [Options.exclusionsFor, hnames]
      obtain ⟨rfl, field, hfield, hcount⟩ := selectsCount_of_excluded hnode hexcluded hkey
      exact .here hfield hcount
    | cons step path =>
      -- Requests below differ from this one, so only fixed exclusions go down with them.
      have hfixed : ∃ names, Keyed.get? target.name options.excludedFields = some (.fixed names) ∧
          key ∈ names := hexcluded.resolve_left fun h => nomatch h.1
      obtain ⟨declared, next, hdeclared, hrelation, hnext, hrest⟩ :=
        Schema.modelAt?_cons_eq_some_iff.1 htarget
      obtain ⟨field, hfield, select, arguments, hcontributes, hkey⟩ :=
        exists_contributes_of_hasKeyAt hnode hkey
      generalize hs : Selected.nested select arguments = selected at hcontributes
      cases hcontributes with
      | plain => cases hs
      | relation hmeta hnot hdeclared' hrelation' hfields hnext' hnested hne =>
        cases hs
        obtain rfl : declared = _ := Option.some.inj (hdeclared.symm.trans hdeclared')
        obtain rfl : next = _ := Option.some.inj (hnext.symm.trans hnext')
        exact .nested hfield hmeta hnot hdeclared hrelation hfields hnext
          (ih field hfield hnested hrest (.inr hfixed) hkey)
      | count hmeta hnot hasks hcounts hne =>
        cases hs
        cases path with
        | nil =>
          obtain ⟨hcountable, hcounted⟩ := (mem_keys_count hcounts).1 hkey
          exact .counted hfield ⟨hnot, hasks, hcountable, hcounted⟩
        | cons =>
          obtain ⟨_, _, hmem, -⟩ := hkey
          cases not_isNested_of_mem_count hcounts _ hmem

/-! ## What counts put in stays -/

theorem not_mem_dropLast_of_cons {name step : String} {path : List String}
    (h : name ∉ (step :: path).dropLast) : name ∉ path.dropLast := by
  cases path with
  | nil => exact List.not_mem_nil
  | cons => exact fun hmem => h (List.mem_cons_of_mem _ hmem)

/-- On the way to a key nothing is replaced, unless it leads through `_count`. -/
theorem passable_of_prune {request : Request} :
    ∀ {model : Model} {node : Selection} {path : List String},
      prune schema options model request = .ok node → countName ∉ path.dropLast →
      Selected.Passable path (entries schema options model request) ∧
        Selected.Passable path node.select := by
  induction request using Request.induction with
  | h request ih =>
    intro model node path hnode hpath
    have hentries : Selected.Passable path (entries schema options model request) := by
      cases path with
      | nil => trivial
      | cons step path =>
        rintro ⟨name, selected⟩ hmem rfl
        rcases of_mem_entries hmem with ⟨field, hfield, hcontributes⟩ | ⟨rfl, -⟩
        · cases hcontributes with
          | plain => exact .inl rfl
          | relation _ _ _ _ _ _ hnested _ =>
            exact .inr ⟨_, _, rfl, (ih field hfield hnested (not_mem_dropLast_of_cons hpath)).2⟩
          | count =>
            -- A count may hold arguments, which replace what they meet, but the path ends here.
            refine .inr ⟨_, _, rfl, ?_⟩
            cases path with
            | nil => trivial
            | cons => exact absurd List.mem_cons_self hpath
        · exact .inl rfl
    rw [(prune_eq_ok_iff.1 hnode).2]
    exact ⟨hentries, .mergeEntries Selected.passable_nil hentries⟩

/-- What a sub-request contributes is selected, unless its path leads through
`_count`. -/
theorem Contributes.hasKeyAt {request field : Request} {node : Selection} {step key : String}
    {path : List String} {select : List (String × Selected)} {arguments : Keyed Json.Value}
    (hnode : prune schema options model request = .ok node) (hfield : field ∈ request.fields)
    (hpath : countName ∉ (step :: path).dropLast)
    (h : Contributes schema options model (options.exclusionsFor model.name request) field step
      (.nested select arguments)) (hkey : Selected.HasKeyAt key path select) :
    Selected.HasKeyAt key (step :: path) node.select := by
  have hpassable := (passable_of_prune hnode hpath).1
  rw [(prune_eq_ok_iff.1 hnode).2]
  exact .mergeEntries_right hpassable ⟨select, arguments, h.mem_entries hfield, hkey⟩

/-- **Necessity.** What a count puts in is a key, unless its path leads through a
relation that is called `_count` itself. -/
theorem CountsInto.hasKeyAt {request : Request} {path : List String} {key : String}
    (h : CountsInto schema options model request path key) :
    ∀ {node : Selection}, prune schema options model request = .ok node →
      countName ∉ path.dropLast → Selected.HasKeyAt key path node.select := by
  induction h with
  | here hfield hcount =>
    intro node hnode _
    obtain ⟨hok, rfl⟩ := prune_eq_ok_iff.1 hnode
    obtain ⟨counts, hcontributes⟩ := hcount.contributes (hok _ hfield)
    exact Selected.mem_keys_mergeEntries.2
      (.inr (List.mem_map.2 ⟨_, hcontributes.mem_entries hfield, rfl⟩))
  | counted hfield hcount =>
    intro node hnode hpath
    obtain ⟨counts, hkey, hcontributes⟩ :=
      hcount.contributes ((prune_eq_ok_iff.1 hnode).1 _ hfield)
    exact Contributes.hasKeyAt hnode hfield hpath hcontributes hkey
  | @nested _ _ _ field _ _ _ hfield hmeta hexcluded hdeclared hrelation hfields htarget _ ih =>
    intro node hnode hpath
    obtain ⟨nested, hnested⟩ := exists_prune_of_entry hmeta hexcluded hdeclared hrelation hfields
      htarget ((prune_eq_ok_iff.1 hnode).1 _ hfield)
    have hkey := ih hnested (not_mem_dropLast_of_cons hpath)
    exact Contributes.hasKeyAt hnode hfield hpath
      (.relation hmeta hexcluded hdeclared hrelation hfields htarget hnested
        (Selected.not_isEmpty_of_hasKeyAt hkey)) hkey

/-- **Excluded names leak through counts only.** A name that is excluded for the
model at a path is a key there only if a count puts it there; and it is one if a
count does, unless the path goes on below a relation that is called `_count` itself. -/
theorem excludedKey_iff_countsInto {name : String} {request : Request} {node : Selection}
    {path : List String} {target : Model} {key : String}
    (hmodel : schema.resolveModel? name = some model)
    (hnode : pruneNamed schema options name request = .ok node)
    (htarget : schema.modelAt? model path = some target)
    (hexcluded : ExcludedAt options model request path target key) :
    (Selected.HasKeyAt key path node.select →
      CountsInto schema options model request path key) ∧
    (countName ∉ path.dropLast → CountsInto schema options model request path key →
      Selected.HasKeyAt key path node.select) := by
  rw [pruneNamed, hmodel] at hnode
  exact ⟨countsInto_of_excludedAt hnode htarget hexcluded,
    fun hpath hcounts => hcounts.hasKeyAt hnode hpath⟩

/-- Counts are excluded for posts, and yet the posts of a user come with a count of
their comments. -/
theorem excludedKey_iff_countsInto_blog :
    ExcludedAt Blog.options Blog.user Blog.request ["posts"] Blog.post countName ∧
      Selected.HasKeyAt countName ["posts"] Blog.selection.select ∧
      CountsInto Blog.schema Blog.options Blog.user Blog.request ["posts"] countName := by
  have hmodel : Blog.schema.resolveModel? "User" = some Blog.user := rfl
  have hnode : pruneNamed Blog.schema Blog.options "User" Blog.request = .ok Blog.selection := rfl
  have hexcluded : ExcludedAt Blog.options Blog.user Blog.request ["posts"] Blog.post countName :=
    .inr ⟨_, rfl, by decide⟩
  have hkey : Selected.HasKeyAt countName ["posts"] Blog.selection.select :=
    ⟨_, _, .tail _ (.head _), .tail _ (.head _)⟩
  exact ⟨hexcluded, hkey, (excludedKey_iff_countsInto hmodel hnode rfl hexcluded).1 hkey⟩

end Prune

end Schematic
