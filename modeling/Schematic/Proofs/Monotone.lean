import Schematic.Proofs.Uniform

/-!
# Pruning is monotone

Under uniform options the more is requested, the more is always selected and the
less is excluded, the more is selected. More means more paths: an excluded name may
empty a relation and so drop it, a default field may bring it back as a plain field,
and a sub-request under another label may replace a plain field by a nested
selection, but no path to a key is lost by any of this.

The three ways of adding something are one statement (`keepsPaths_of_embedding`): requests
are related by an `Embedding`, under which all that is requested stays requested,
and options by `Options.Below`. It goes by induction on the request, and its step is
that every reason to select a name stays one (`Wanted.mono`).
-/

namespace Schematic

/-! ## Requesting more -/

namespace Request

/-- A further sub-request stands next to others, somewhere in the request. -/
inductive Grows : Request → Request → Prop
  | here {request more added : Request} {before after : List Request}
      (hname : more.name = request.name) (hsibling : request.fields ≠ [])
      (hfields : request.fields = before ++ after)
      (hmore : more.fields = before ++ added :: after) :
      Grows request more
  | within {request more field grown : Request} {before after : List Request}
      (hname : more.name = request.name) (hfields : request.fields = before ++ field :: after)
      (hmore : more.fields = before ++ grown :: after) (hgrows : Grows field grown) :
      Grows request more

/-- Requests are related to requests in which all that is requested stays
requested, and nothing is requested below what had nothing below it. -/
structure Embedding (R : Request → Request → Prop) : Prop where
  leaf : ∀ {r r'}, R r r' → r.isLeaf → r'.isLeaf
  fields : ∀ {r r'}, R r r' → ∀ field ∈ r.fields,
    ∃ field' ∈ r'.fields, field'.name = field.name ∧ R field field'

/-- What has something requested below it keeps something below it. -/
theorem Embedding.not_isLeaf {R : Request → Request → Prop} (hR : Embedding R) {r r' : Request}
    (h : R r r') (hfields : ¬ r.isLeaf) : ¬ r'.isLeaf := by
  rw [isLeaf_iff] at hfields ⊢
  obtain ⟨field, hfield⟩ := List.exists_mem_of_ne_nil _ hfields
  obtain ⟨field', hfield', -⟩ := hR.fields h field hfield
  exact List.ne_nil_of_mem hfield'

/-- Every request is embedded in itself. -/
theorem embedding_eq : Embedding (· = ·) where
  leaf := by
    rintro r _ rfl h
    exact h
  fields := by
    rintro r _ rfl field hfield
    exact ⟨field, hfield, rfl, rfl⟩

theorem Grows.name_eq {r r' : Request} (h : Grows r r') : r'.name = r.name := by
  cases h <;> assumption

/-- A sub-request next to which another is put, or below which one is put, stays. -/
theorem embedding_grows : Embedding fun r r' => r = r' ∨ Grows r r' where
  leaf := by
    rintro r r' (rfl | h) hleaf
    · exact hleaf
    · rw [isLeaf_iff] at hleaf
      cases h with
      | here _ hsibling => exact absurd hleaf hsibling
      | within _ hfields => simp [hfields] at hleaf
  fields := by
    rintro r r' (rfl | h) field hfield
    · exact ⟨field, hfield, rfl, .inl rfl⟩
    · cases h with
      | @here _ _ added before after _ _ hfields hmore =>
        rw [hfields, List.mem_append] at hfield
        refine ⟨field, ?_, rfl, .inl rfl⟩
        rw [hmore, List.mem_append]
        exact hfield.imp_right (List.mem_cons_of_mem added)
      | @within _ _ _ grown before after _ hfields hmore hgrows =>
        rw [hfields, List.mem_append, List.mem_cons] at hfield
        rw [hmore]
        rcases hfield with hfield | rfl | hfield
        · exact ⟨field, List.mem_append_left _ hfield, rfl, .inl rfl⟩
        · exact ⟨grown, List.mem_append_right _ List.mem_cons_self, hgrows.name_eq, .inr hgrows⟩
        · exact ⟨field, List.mem_append_right _ (List.mem_cons_of_mem _ hfield), rfl, .inl rfl⟩

end Request

/-! ## Excluding less and selecting more always -/

namespace Options

/-- The other options exclude at most what these do, and select always at least
what these do. -/
structure Below (options more : Options) : Prop where
  excluded : ∀ model request request',
    more.exclusionsFor model request' ⊆ options.exclusionsFor model request
  defaults : ∀ model request request' name, (name, true) ∈ options.defaultsFor model request →
    (name, true) ∈ more.defaultsFor model request'

/-- Further names are excluded, of any models. -/
structure ExcludesMore (options more : Options) : Prop where
  uniform : more.Uniform
  defaults : more.defaultFields = options.defaultFields
  excluded : ∀ model request,
    options.exclusionsFor model request ⊆ more.exclusionsFor model request

/-- Further fields are selected always, of any models. -/
structure SelectsMore (options more : Options) : Prop where
  uniform : more.Uniform
  excluded : more.excludedFields = options.excludedFields
  defaults : ∀ model request name, (name, true) ∈ options.defaultsFor model request →
    (name, true) ∈ more.defaultsFor model request

variable {options more : Options}

/-- Options that treat all requests alike exclude and select the same whatever is requested. -/
theorem Uniform.below_self (h : options.Uniform) : options.Below options where
  excluded := fun model r r' => by
    rw [h.fixed.exclusionsFor_eq model r' r]
    exact List.Subset.refl _
  defaults := fun model r r' _ hname => h.fixed.defaultsFor_eq model r r' ▸ hname

/-- The options without the further exclusions exclude no more than those with them. -/
theorem ExcludesMore.below (h : options.ExcludesMore more) : more.Below options where
  excluded := fun model r r' => by
    rw [h.uniform.fixed.exclusionsFor_eq model r r']
    exact h.excluded model r'
  defaults := fun model r r' name hname => by
    rw [h.uniform.fixed.defaultsFor_eq model r r', defaultsFor, h.defaults] at hname
    exact hname

/-- The options with the further defaults select no less than those without them. -/
theorem SelectsMore.below (h : options.SelectsMore more) : options.Below more where
  excluded := fun model r r' => by
    rw [h.uniform.fixed.exclusionsFor_eq model r' r, exclusionsFor, h.excluded]
    exact List.Subset.refl _
  defaults := fun model r r' name hname => by
    rw [h.uniform.fixed.defaultsFor_eq model r' r]
    exact h.defaults model r name hname

/-- More is excluded if the names given for a model contain those excluded before. -/
theorem Uniform.excludesMore (h : options.Uniform) {model : String} {names : List String}
    (hnames : ∀ request, options.exclusionsFor model request ⊆ names) :
    options.ExcludesMore (options.withExcludedFields model names) where
  uniform := h.withExcludedFields model names
  defaults := rfl
  excluded := by
    intro other request
    by_cases hother : other = model
    · subst hother
      have hself :
          (options.withExcludedFields other names).exclusionsFor other request = names := by
        simp [exclusionsFor, Options.withExcludedFields, Keyed.put]
      rw [hself]
      exact hnames request
    · simp [exclusionsFor, Options.withExcludedFields, Keyed.put, Keyed.get?_alter_of_ne hother]

/-- More is selected always if fields are given for a model without any. -/
theorem Uniform.selectsMore (h : options.Uniform) {model : String} (names : List String)
    (hnone : Keyed.get? model options.defaultFields = none) :
    options.SelectsMore (options.withDefaultFields model names) where
  uniform := h.withDefaultFields model names
  excluded := rfl
  defaults := by
    intro other request name hname
    by_cases hother : other = model
    · subst hother
      rw [defaultsFor, hnone] at hname
      cases hname
    · rw [defaultsFor] at hname ⊢
      simpa [Options.withDefaultFields, Keyed.put, Keyed.get?_alter_of_ne hother] using hname

end Options

namespace Prune

variable {schema : Schema} {options more : Options} {model : Model}
  {excluded excluded' : List String}

/-! ## Every reason to select a name stays one -/

theorem SelectsPlain.mono {field field' : Request} (hexcluded : excluded' ⊆ excluded)
    (hname : field'.name = field.name) (hleaf : field.isLeaf → field'.isLeaf)
    (h : SelectsPlain model excluded field) : SelectsPlain model excluded' field' := by
  obtain ⟨hmeta, hnot, declared, hdeclared, hplain⟩ := h
  rw [SelectsPlain, hname]
  exact ⟨hmeta, fun hmem => hnot (hexcluded hmem), declared, hdeclared, hplain.imp_left hleaf⟩

theorem CountsName.mono {field field' : Request} {name : String} (hexcluded : excluded' ⊆ excluded)
    (hname : field'.name = field.name)
    (hfields : ∀ counted ∈ field.fields, ∃ counted' ∈ field'.fields, counted'.name = counted.name)
    (h : CountsName model excluded field name) : CountsName model excluded' field' name := by
  obtain ⟨hnot, hasks, ⟨hmeta, hnot', hlist⟩, counted, hcounted, rfl⟩ := h
  obtain ⟨counted', hcounted', hname'⟩ := hfields counted hcounted
  rw [CountsName, hname]
  exact ⟨fun hmem => hnot (hexcluded hmem), hasks,
    ⟨hmeta, fun hmem => hnot' (hexcluded hmem), hlist⟩, counted', hcounted', hname'⟩

variable (schema options more) in
/-- Whatever model the two requests are pruned for, no path to a key is lost on the
way from the one to the other. -/
def KeepsPaths (request request' : Request) : Prop :=
  ∀ {model : Model} {node : Selection}, model ∈ schema.models →
    prune schema options model request = .ok node →
    ∃ node', prune schema more model request' = .ok node' ∧
      ∀ path key, Selected.HasKeyAt key path node.select → Selected.HasKeyAt key path node'.select

/-- A relation stays selected with something of its target, as one path below it stays. -/
theorem SelectsNested.mono {field field' : Request} (hexcluded : excluded' ⊆ excluded)
    (hname : field'.name = field.name) (hleaf : ¬ field.isLeaf → ¬ field'.isLeaf)
    (hkeeps : KeepsPaths schema options more field field')
    (h : SelectsNested schema options model excluded field) :
    SelectsNested schema more model excluded' field' := by
  obtain ⟨hmeta, hnot, declared, hdeclared, hrelation, hfields, target, htarget, nested, hpruned,
    hne⟩ := h
  rcases hprune : prune schema options target field with error | node <;>
    rw [hprune] at hpruned <;> cases hpruned
  obtain ⟨nested', hnested', hpaths⟩ := hkeeps (List.mem_of_find?_eq_some htarget) hprune
  obtain ⟨key, hkey⟩ := Selected.exists_hasKeyAt_of_not_isEmpty hne
  rw [SelectsNested, hname]
  refine ⟨fun hmem => hmeta hmem, fun hmem => hnot (hexcluded hmem), declared, hdeclared, hrelation,
    hleaf hfields, target, htarget, nested', ?_,
    Selected.not_isEmpty_of_hasKeyAt (hpaths [] key hkey)⟩
  rw [hnested']
  rfl

/-- Every reason to want a name stays one. -/
theorem Wanted.mono {request request' : Request} {R : Request → Request → Prop}
    (hR : Request.Embedding R) (hbelow : options.Below more) (hrel : R request request')
    (hkeeps : ∀ field ∈ request.fields, ∀ field', R field field' →
      KeepsPaths schema options more field field') {name : String}
    (h : Wanted schema options model request name) : Wanted schema more model request' name := by
  have hexcluded := hbelow.excluded model.name request request'
  cases h with
  | @requested field hfield hselects =>
    obtain ⟨field', hfield', hname, hrel'⟩ := hR.fields hrel field hfield
    have hselects' := hselects.imp (SelectsPlain.mono hexcluded hname (hR.leaf hrel'))
      (SelectsNested.mono hexcluded hname (hR.not_isLeaf hrel') (hkeeps field hfield field' hrel'))
    exact hname ▸ .requested hfield' hselects'
  | @counted field hfield hselects =>
    obtain ⟨field', hfield', hname, hrel'⟩ := hR.fields hrel field hfield
    obtain ⟨counted, hcounts⟩ := selectsCount_iff_exists_countsName.1 hselects
    have hcounts' := hcounts.mono hexcluded hname fun child hchild =>
      (hR.fields hrel' child hchild).imp fun _ h => ⟨h.1, h.2.1⟩
    exact .counted hfield' (selectsCount_iff_exists_countsName.2 ⟨counted, hcounts'⟩)
  | default hflagged hdeclared hnot =>
    exact .default (hbelow.defaults _ _ _ _ hflagged) hdeclared fun hmem => hnot (hexcluded hmem)

/-- **Monotonicity.** If all that is requested stays requested, no more is excluded
and no less selected always, then no path is lost. -/
theorem keepsPaths_of_embedding {R : Request → Request → Prop} (hR : Request.Embedding R)
    (hbelow : options.Below more) (hoptions : options.Uniform) (hmore : more.Uniform)
    (hfree : schema.CountUndeclared) {request : Request} :
    ∀ {request'}, R request request' → KeepsPaths schema options more request request' := by
  induction request using Request.induction with
  | h request ih =>
    intro request' hrel model node hmodel hnode
    obtain ⟨node', hnode'⟩ :=
      exists_prune_of_permissive schema hmore.permissive model request'
    refine ⟨node', hnode', fun path key hkey => ?_⟩
    cases path with
    | nil =>
      rw [Selected.HasKeyAt, mem_keys_prune_iff hoptions.keep hnode] at hkey
      rw [Selected.HasKeyAt, mem_keys_prune_iff hmore.keep hnode']
      exact hkey.mono hR hbelow hrel fun field hfield _ => ih field hfield
    | cons step path =>
      have hexcluded := hbelow.excluded model.name request request'
      have hpath := countName_not_mem_dropLast hfree hmodel hnode hkey
      obtain ⟨field, hfield, select, arguments, hcontributes, hkey⟩ :=
        exists_contributes_of_hasKeyAt hnode hkey
      obtain ⟨field', hfield', hname, hrel'⟩ := hR.fields hrel field hfield
      generalize hs : Selected.nested select arguments = selected at hcontributes
      cases hcontributes with
      | plain => cases hs
      | relation hmeta hnot hdeclared hrelation hfields htarget hnested _ =>
        cases hs
        obtain ⟨nested', hnested', hpaths⟩ :=
          ih field hfield hrel' (List.mem_of_find?_eq_some htarget) hnested
        have hkey' := hpaths path key hkey
        rw [← hname] at hmeta hnot hdeclared hpath ⊢
        exact Contributes.hasKeyAt hnode' hfield' hpath
          (.relation hmeta (fun hmem => hnot (hexcluded hmem)) hdeclared hrelation
            (hR.not_isLeaf hrel' hfields) htarget hnested' (Selected.not_isEmpty_of_hasKeyAt hkey'))
          hkey'
      | count _ hnot hasks hcounts _ =>
        cases hs
        cases path with
        | nil =>
          obtain ⟨hcountable, hcounted⟩ := (mem_keys_count hcounts).1 hkey
          have hcounts' : CountsName model (more.exclusionsFor model.name request') field' key :=
            CountsName.mono hexcluded hname (fun child hchild =>
              (hR.fields hrel' child hchild).imp fun _ h => ⟨h.1, h.2.1⟩)
              ⟨hnot, hasks, hcountable, hcounted⟩
          obtain ⟨counts', hkey', hcontributes'⟩ :=
            hcounts'.contributes ((prune_eq_ok_iff.1 hnode').1 field' hfield')
          exact Contributes.hasKeyAt hnode' hfield' hpath hcontributes' hkey'
        | cons =>
          obtain ⟨_, _, hmem, -⟩ := hkey
          cases not_isNested_of_mem_count hcounts _ hmem

/-- **Adding never takes away, and excluding never adds.** Excluding further names
adds no path to a selection; selecting further fields always, or requesting a
further field next to another one, takes no path away. -/
theorem pruneNamed_monotone {name : String} {request : Request}
    (hfree : schema.CountUndeclared) (hoptions : options.Uniform)
    (hmodel : schema.resolveModel? name = some model) :
    ∃ node, pruneNamed schema options name request = .ok node ∧
      (∀ more, options.ExcludesMore more →
        ∃ node', pruneNamed schema more name request = .ok node' ∧
          ∀ path key, Selected.HasKeyAt key path node'.select →
            Selected.HasKeyAt key path node.select) ∧
      (∀ more, options.SelectsMore more →
        ∃ node', pruneNamed schema more name request = .ok node' ∧
          ∀ path key, Selected.HasKeyAt key path node.select →
            Selected.HasKeyAt key path node'.select) ∧
      ∀ more, Request.Grows request more →
        ∃ node', pruneNamed schema options name more = .ok node' ∧
          ∀ path key, Selected.HasKeyAt key path node.select →
            Selected.HasKeyAt key path node'.select := by
  simp only [pruneNamed, hmodel]
  have hmem := Schema.mem_models_of_resolveModel? hmodel
  obtain ⟨node, hnode⟩ :=
    exists_prune_of_permissive schema hoptions.permissive model request
  refine ⟨node, hnode, fun more hmore => ?_, fun more hmore => ?_, fun more hgrows => ?_⟩
  · obtain ⟨node', hnode'⟩ :=
      exists_prune_of_permissive schema hmore.uniform.permissive model request
    -- Read backwards: leaving the further names in loses no path.
    obtain ⟨node'', hnode'', hpaths⟩ := keepsPaths_of_embedding Request.embedding_eq hmore.below
      hmore.uniform hoptions hfree rfl hmem hnode'
    obtain rfl : node'' = node := Except.ok.inj (hnode''.symm.trans hnode)
    exact ⟨node', hnode', hpaths⟩
  · exact keepsPaths_of_embedding Request.embedding_eq hmore.below hoptions hmore.uniform hfree rfl
      hmem hnode
  · exact keepsPaths_of_embedding Request.embedding_grows hoptions.below_self hoptions hoptions
      hfree (.inr hgrows) hmem hnode

/-- The posts of the blog's users have titles. They keep them if posts come with
their authors, or if first names are requested as well, and if titles are excluded
nothing comes in their place. -/
theorem pruneNamed_monotone_blog :
    ∃ node, pruneNamed Blog.schema Blog.kept "User" Blog.request = .ok node ∧
      Selected.HasKeyAt "title" ["posts"] node.select ∧
      (∃ node', pruneNamed Blog.schema (Blog.kept.withExcludedFields "Post" ["_count", "title"])
          "User" Blog.request = .ok node' ∧
        ∀ path key, Selected.HasKeyAt key path node'.select →
          Selected.HasKeyAt key path node.select) ∧
      (∃ node', pruneNamed Blog.schema (Blog.kept.withDefaultFields "Post" ["author"])
          "User" Blog.request = .ok node' ∧ Selected.HasKeyAt "title" ["posts"] node'.select) ∧
      ∃ node', pruneNamed Blog.schema Blog.kept "User"
          (Blog.request.withField "User" (.ofName "firstName")) = .ok node' ∧
        Selected.HasKeyAt "title" ["posts"] node'.select := by
  have hmodel : Blog.schema.resolveModel? "User" = some Blog.user := rfl
  have hexcludes : Blog.kept.ExcludesMore
      (Blog.kept.withExcludedFields "Post" ["_count", "title"]) :=
    Blog.uniform_kept.excludesMore fun _ => List.subset_append_left ["_count"] ["title"]
  have hselects : Blog.kept.SelectsMore (Blog.kept.withDefaultFields "Post" ["author"]) :=
    Blog.uniform_kept.selectsMore ["author"] rfl
  have hgrows : Request.Grows Blog.request (Blog.request.withField "User" (.ofName "firstName")) :=
    .here rfl (List.cons_ne_nil _ _) (List.append_nil _).symm rfl
  obtain ⟨node, hnode, hexcluded, hselected, hgrown⟩ :=
    @pruneNamed_monotone Blog.schema Blog.kept Blog.user "User" Blog.request
      Blog.countUndeclared_schema Blog.uniform_kept hmodel
  obtain rfl : node = Blog.keptSelection := Except.ok.inj (hnode.symm.trans rfl)
  have hkey : Selected.HasKeyAt "title" ["posts"] Blog.keptSelection.select :=
    ⟨_, _, .tail _ (.head _), .head _⟩
  obtain ⟨_, hmore, hpaths⟩ := hselected _ hselects
  obtain ⟨_, hmore', hpaths'⟩ := hgrown _ hgrows
  exact ⟨_, hnode, hkey, hexcluded _ hexcludes, ⟨_, hmore, hpaths _ _ hkey⟩,
    _, hmore', hpaths' _ _ hkey⟩

end Prune

end Schematic
