import Mathlib.Data.List.Nodup
import Schematic.Proofs.Blog
import Schematic.Proofs.Entries

/-!
# Pruned selections are typed

A pruned selection fits the schema at every depth (`WellTyped`): its keys are
declared on the model of their level, or name its counts or the field that tells
its records apart; plain fields are selected as they are, relations as a whole
or with a selection that fits their target, and counts take in list relations
only. Merging keeps this, entry by entry (`TypedEntry.merge`).

That a schema has no field of its own called `_count` (`CountIsFree`) is needed:
the selection of such a field and the counts would be merged into one.
-/

namespace Schematic

/-- No model declares a field under the name of the counts, or is told apart by one. -/
def Schema.CountIsFree (schema : Schema) : Prop :=
  ∀ model ∈ schema.models, model.field? countName = none ∧ model.idName ≠ some countName

/-- Arguments of a relation: each is one a relation may have, stands once and is
not null. -/
structure TypedArguments (arguments : Keyed Json.Value) : Prop where
  nodup : (Keyed.keys arguments).Nodup
  typed : ∀ argument ∈ arguments, argument.1 ∈ relationArgumentNames ∧ argument.2 ≠ .null

/-- A name that a count has taken in: a list relation, with arguments if there
are any. -/
inductive TypedCount (model : Model) : String → Selected → Prop
  | field {name : String} {declared : Field} (hdeclared : model.field? name = some declared)
      (hlist : declared.isListRelation) : TypedCount model name .field
  | counted {name : String} {declared : Field} {arguments : Keyed Json.Value}
      (hdeclared : model.field? name = some declared) (hlist : declared.isListRelation)
      (hne : arguments ≠ []) (harguments : TypedArguments arguments) :
      TypedCount model name (.counted arguments)

/-- An entry fits a model. -/
inductive TypedEntry (schema : Schema) : Model → String → Selected → Prop
  /-- A declared field: plain, or a relation as a whole. -/
  | field {model : Model} {name : String} {declared : Field}
      (hdeclared : model.field? name = some declared) : TypedEntry schema model name .field
  /-- The field that tells records apart. -/
  | id {model : Model} {name : String} (hid : model.idName = some name) :
      TypedEntry schema model name .field
  /-- A relation with something selected of its target. -/
  | relation {model target : Model} {name : String} {declared : Field}
      {select : List (String × Selected)} {arguments : Keyed Json.Value}
      (hdeclared : model.field? name = some declared) (hrelation : declared.isRelation)
      (htarget : schema.findModel? declared.type = some target)
      (hne : select ≠ []) (hnodup : (Keyed.keys select).Nodup)
      (hselect : ∀ entry ∈ select, TypedEntry schema target entry.1 entry.2)
      (harguments : TypedArguments arguments) :
      TypedEntry schema model name (.nested select arguments)
  /-- Counts of list relations. -/
  | count {model : Model} {select : List (String × Selected)}
      (hne : select ≠ []) (hnodup : (Keyed.keys select).Nodup)
      (hselect : ∀ entry ∈ select, TypedCount model entry.1 entry.2) :
      TypedEntry schema model countName (.nested select [])

/-- A selection fits a model. -/
structure WellTyped (schema : Schema) (model : Model) (node : Selection) : Prop where
  nodup : (Keyed.keys node.select).Nodup
  select : ∀ entry ∈ node.select, TypedEntry schema model entry.1 entry.2
  arguments : TypedArguments node.arguments

/-! ## Arguments -/

/-- Entries found for distinct names, each under its own, have distinct keys. -/
theorem Keyed.nodup_keys_filterMap {α : Type} {f : String → Option (String × α)}
    {names : List String} (hf : ∀ name entry, f name = some entry → entry.1 = name)
    (h : names.Nodup) : (keys (names.filterMap f)).Nodup := by
  rw [keys, List.map_filterMap]
  refine List.Nodup.filterMap (fun name name' key hkey hkey' => ?_) h
  obtain ⟨entry, hentry, rfl⟩ := Option.map_eq_some_iff.1 hkey
  obtain ⟨entry', hentry', hkeys⟩ := Option.map_eq_some_iff.1 hkey'
  rw [← hf name entry hentry, ← hf name' entry' hentry', hkeys]

/-- Of the arguments of a request those are kept that a relation may have. -/
theorem typedArguments_relationArguments (args : Keyed Json.Value) :
    TypedArguments (relationArguments args) where
  nodup := by
    refine Keyed.nodup_keys_filterMap (fun name entry hentry => ?_) (by decide)
    split at hentry <;> cases hentry
    rfl
  typed := by
    intro argument h
    obtain ⟨name, hname, hargument⟩ := List.mem_filterMap.1 h
    split at hargument
    · cases hargument
    · rename_i value hnull _
      cases hargument
      exact ⟨hname, fun h => hnull (h ▸ rfl)⟩
    · cases hargument

/-- The arguments of two entries that are merged are those of a relation. -/
theorem TypedArguments.putAll {arguments more : Keyed Json.Value} (h : TypedArguments arguments)
    (hmore : TypedArguments more) : TypedArguments (Keyed.putAll arguments more) where
  nodup := Keyed.nodup_keys_putAll h.nodup
  typed := Keyed.forall_putAll
    (P := fun name value => name ∈ relationArgumentNames ∧ value ≠ Json.Value.null)
    h.typed hmore.typed

/-! ## Merging -/

theorem TypedCount.merge {model : Model} {name : String} {a b : Selected}
    (ha : TypedCount model name a) (hb : TypedCount model name b) :
    TypedCount model name (a.merge b) := by
  cases hb with
  | field hdeclared hlist =>
    rw [Selected.merge_field]
    split
    · exact ha
    · exact .field hdeclared hlist
  | counted hdeclared hlist hne harguments => exact .counted hdeclared hlist hne harguments

variable {schema : Schema}

/-- The merge of two entries that fit a model fits it: a name has one target, so what is
selected of it fits one model on both sides. -/
theorem TypedEntry.merge (hfree : schema.CountIsFree) {model : Model} {name : String}
    {b : Selected} (hb : TypedEntry schema model name b) :
    model ∈ schema.models → ∀ {a}, TypedEntry schema model name a →
      TypedEntry schema model name (a.merge b) := by
  induction hb with
  | field hdeclared =>
    intro _ a ha
    rw [Selected.merge_field]
    split
    · exact ha
    · exact .field hdeclared
  | id hid =>
    intro _ a ha
    rw [Selected.merge_field]
    split
    · exact ha
    · exact .id hid
  | relation hdeclared hrelation htarget hne hnodup hselect harguments ih =>
    intro hmodel a ha
    cases ha with
    | field => exact .relation hdeclared hrelation htarget hne hnodup hselect harguments
    | id => exact .relation hdeclared hrelation htarget hne hnodup hselect harguments
    | relation hdeclared' _ htarget' hne' hnodup' hselect' harguments' =>
      -- One name leads to one target, so that the two selections fit the same model.
      obtain rfl := Option.some.inj (hdeclared.symm.trans hdeclared')
      obtain rfl := Option.some.inj (htarget.symm.trans htarget')
      have htargetmem := List.mem_of_find?_eq_some htarget
      exact .relation hdeclared hrelation htarget
        (fun h => hne (Selected.mergeEntries_eq_nil_iff.1 h).2)
        (Selected.nodup_keys_mergeEntries hnodup')
        (Selected.forall_mergeEntries (P := TypedEntry schema _) hselect' hselect
          fun entry hentry _ => ih entry hentry htargetmem)
        (harguments'.putAll harguments)
    | count => rw [(hfree _ hmodel).1] at hdeclared; cases hdeclared
  | count hne hnodup hselect =>
    intro hmodel a ha
    -- No field has the name of the counts, so they meet nothing but counts.
    generalize hname : countName = name at ha
    cases ha with
    | field hdeclared => rw [← hname, (hfree _ hmodel).1] at hdeclared; cases hdeclared
    | id hid => exact absurd (hname ▸ hid) (hfree _ hmodel).2
    | relation hdeclared => rw [← hname, (hfree _ hmodel).1] at hdeclared; cases hdeclared
    | count hne' hnodup' hselect' =>
      exact .count (fun h => hne (Selected.mergeEntries_eq_nil_iff.1 h).2)
        (Selected.nodup_keys_mergeEntries hnodup')
        (Selected.forall_mergeEntries (P := TypedCount _) hselect' hselect
          fun entry hentry _ hs => hs.merge (hselect entry hentry))

/-! ## Pruning -/

/-- A count fits its model. -/
theorem typedEntry_count {options : Options} {model : Model} {excluded : List String}
    {request : Request} {counts : Selection}
    (hcounts : Prune.count options model excluded request = .ok counts) (hne : ¬ counts.isEmpty) :
    TypedEntry schema model countName counts.toSelected := by
  have hentries : ∀ entry ∈ request.fields.filterMap
      (Prune.countContribution? options model excluded), TypedCount model entry.1 entry.2 := by
    rintro ⟨name, selected⟩ hentry
    obtain ⟨field, -, hentry⟩ := List.mem_filterMap.1 hentry
    obtain ⟨⟨-, -, declared, hdeclared, hlist⟩, rfl, rfl⟩ :=
      Prune.countContribution?_eq_some_iff.1 hentry
    rw [Prune.countedAs]
    split
    · exact .field hdeclared hlist
    · rename_i hargs
      exact .counted hdeclared hlist hargs (typedArguments_relationArguments _)
  obtain ⟨-, rfl⟩ := Prune.count_eq_ok_iff.1 hcounts
  exact .count (mt List.isEmpty_iff.2 hne) (Selected.nodup_keys_mergeEntries List.nodup_nil)
    (Selected.forall_mergeEntries (P := TypedCount model) (List.forall_mem_nil _) hentries
      fun entry hentry _ hs => hs.merge (hentries entry hentry))

/-- By induction on the request: what is pruned for a model of the schema fits it. -/
theorem wellTyped_of_prune (hfree : schema.CountIsFree) {options : Options} {request : Request} :
    ∀ {model : Model} {node : Selection}, model ∈ schema.models →
      prune schema options model request = .ok node → WellTyped schema model node := by
  induction request using Request.induction with
  | h request ih =>
    intro model node hmodel hnode
    obtain ⟨-, rfl⟩ := Prune.prune_eq_ok_iff.1 hnode
    have hentries : ∀ entry ∈ Prune.entries schema options model request,
        TypedEntry schema model entry.1 entry.2 := by
      rintro ⟨name, selected⟩ hentry
      rcases Prune.of_mem_entries hentry with ⟨field, hfield, hcontributes⟩ | ⟨rfl, -, h | hid⟩
      · cases hcontributes with
        | plain _ _ hdeclared _ => exact .field hdeclared
        | relation _ _ hdeclared hrelation _ htarget hnested hne =>
          have hnested := ih field hfield (List.mem_of_find?_eq_some htarget) hnested
          exact .relation hdeclared hrelation htarget (mt List.isEmpty_iff.2 hne) hnested.nodup
            hnested.select hnested.arguments
        | count _ _ _ hcounts hne => exact typedEntry_count hcounts hne
      · obtain ⟨declared, hdeclared⟩ := Option.isSome_iff_exists.1 h
        exact .field hdeclared
      · exact .id hid
    exact {
      nodup := Selected.nodup_keys_mergeEntries List.nodup_nil
      select := Selected.forall_mergeEntries (P := TypedEntry schema model) (List.forall_mem_nil _)
        hentries fun entry hentry _ => (hentries entry hentry).merge hfree hmodel
      arguments := typedArguments_relationArguments _ }

theorem Schema.mem_models_of_resolveModel? {name : String} {model : Model}
    (h : schema.resolveModel? name = some model) : model ∈ schema.models := by
  rw [resolveModel?, Option.or_eq_some_iff] at h
  rcases h with h | ⟨-, h⟩ <;> exact List.mem_of_find?_eq_some h

/-- **Pruned selections are typed.** Whatever is requested, and with whatever
options, a selection pruned for a model fits it at every depth. -/
theorem wellTyped_pruneNamed {options : Options} {name : String} {model : Model}
    {request : Request} {node : Selection} (hfree : schema.CountIsFree)
    (hmodel : schema.resolveModel? name = some model)
    (hnode : pruneNamed schema options name request = .ok node) :
    WellTyped schema model node := by
  rw [pruneNamed, hmodel] at hnode
  exact wellTyped_of_prune hfree (Schema.mem_models_of_resolveModel? hmodel) hnode

/-- The blog's document loads, and a selection of its users fits them. -/
theorem wellTyped_pruneNamed_blog :
    Schema.ofDocuments [Blog.document] = .ok Blog.schema ∧ Blog.schema.CountIsFree ∧
      WellTyped Blog.schema Blog.user Blog.selection := by
  have hmodel : Blog.schema.resolveModel? "User" = some Blog.user := rfl
  have hnode : pruneNamed Blog.schema Blog.options "User" Blog.request = .ok Blog.selection := rfl
  have hfree : Blog.schema.CountIsFree :=
    List.forall_mem_cons.2 ⟨⟨rfl, by decide⟩, List.forall_mem_cons.2 ⟨⟨rfl, by decide⟩,
      List.forall_mem_cons.2 ⟨⟨rfl, by decide⟩, List.forall_mem_nil _⟩⟩⟩
  exact ⟨rfl, hfree, wellTyped_pruneNamed hfree hmodel hnode⟩

end Schematic
