import Mathlib.Data.List.Nodup
import Schematic.Declare.Resolvers
import Schematic.Proofs.Blog
import Schematic.Proofs.Loaded

/-!
# Names in resolver maps

A resolver map lists a member for every field of its output type, and next to each search
for several records the count of what it finds. The names of the counts are made up, and
nothing keeps them apart from those of the fields: a model `UserCount` beside a model
`User` gives a search the name that the count of the other has. If the fields of the type
have distinct names, this is all that can happen (`ResolverFile.nodup_memberNames_iff`).
-/

namespace Schematic

/-! ## Searches -/

namespace OutputField

/-- A field that searches for several records, by its name. -/
def IsSearch (field : OutputField) : Prop :=
  Text.hasStart findManyStart field.name

instance : DecidablePred IsSearch := fun _ => inferInstanceAs (Decidable (_ = true))

/-- A field has the name of a search's count. -/
def NamedAsCount (field search : OutputField) : Prop :=
  search.IsSearch ∧ field.name = search.name ++ "Count"

end OutputField

theorem FieldRole.ofField_eq_findMany_iff {name : String} {type : TypeRole} {parent : OutputRole} :
    ofField name type parent = .findMany ↔ Text.hasStart findManyStart name := by
  unfold ofField ofName
  by_cases hname : Text.hasStart findManyStart name
  · simp [hname]
  · cases type with
    | aggregate model => cases parent.isOperation <;> simp [hname]
    | _ => simp [hname]

/-- In a loaded schema the role of a search goes by the name alone. -/
theorem Schema.LoadedFrom.role_eq_findMany_iff {documents : List Document} {schema : Schema}
    (h : LoadedFrom documents schema) {output : OutputType} (houtput : output ∈ schema.outputTypes)
    {field : OutputField} (hfield : field ∈ output.fields) :
    field.role = .findMany ↔ field.IsSearch := by
  obtain ⟨origin, t, rfl⟩ := h.exists_ofDocument_output houtput
  obtain ⟨f, -, rfl⟩ := List.mem_map.1 hfield
  exact FieldRole.ofField_eq_findMany_iff

namespace ResolverFile

variable {documents : List Document} {schema : Schema} {output : OutputType}

/-! ## Members by what they are for -/

/-- The member for a field. -/
def ownMember (config : Config) (output : OutputType) (field : OutputField) : Member :=
  ⟨field.name, true, false, .resolver (.ofOutput output) (argsName? output field)
    (.value (.ofType config .output field.outputType) field.isNullable)⟩

/-- The member for the count of a search. -/
def countMember (output : OutputType) (search : OutputField) : Member :=
  ⟨search.name ++ "Count", true, false,
    .resolver (.ofOutput output) (argsName? output search) .count⟩

/-- The searches among the fields of an output type. -/
def searches (output : OutputType) : List OutputField :=
  output.fields.filter (·.IsSearch)

/-- The counts stand next to their searches. -/
theorem flatMap_resolverMembers_perm (config : Config) (output : OutputType)
    {fields : List OutputField}
    (hroles : ∀ field ∈ fields, field.role = .findMany ↔ field.IsSearch) :
    (fields.flatMap (resolverMembers config output)).Perm
      (fields.map (ownMember config output) ++
        (fields.filter (·.IsSearch)).map (countMember output)) := by
  induction fields with
  | nil => exact .nil
  | cons field rest ih =>
    obtain ⟨hrole, hrest⟩ := List.forall_mem_cons.1 hroles
    have hperm := ih hrest
    rw [List.flatMap_cons, List.map_cons, List.cons_append]
    by_cases hsearch : field.IsSearch
    · rw [resolverMembers, if_pos (hrole.2 hsearch), List.filter_cons_of_pos (by simpa)]
      exact ((hperm.cons _).trans List.perm_middle.symm).cons _
    · rw [resolverMembers, if_neg (mt hrole.1 hsearch), List.filter_cons_of_neg (by simpa)]
      exact hperm.cons _

/-- A type has a member for each field, and one more for each search. -/
theorem members_perm (config : Config)
    (hroles : ∀ field ∈ output.fields, field.role = .findMany ↔ field.IsSearch) :
    (resolverMap config output).members.Perm
      (output.fields.map (ownMember config output) ++
        (searches output).map (countMember output)) :=
  flatMap_resolverMembers_perm config output hroles

/-! ## Their names -/

/-- The counts of searches with distinct names have distinct names. -/
theorem nodup_countNames (hfields : (output.fields.map (·.name)).Nodup) :
    ((searches output).map (·.name ++ "Count")).Nodup := by
  have hsearches : ((searches output).map (·.name)).Nodup :=
    hfields.sublist (List.filter_sublist.map _)
  have hinjective : Function.Injective (· ++ "Count") := fun s t h => by simpa using h
  have hmap := hsearches.map hinjective
  rwa [List.map_map] at hmap

theorem names_perm (config : Config)
    (hroles : ∀ field ∈ output.fields, field.role = .findMany ↔ field.IsSearch) :
    ((resolverMap config output).members.map (·.name)).Perm
      (output.fields.map (·.name) ++ (searches output).map (·.name ++ "Count")) := by
  have hperm := (members_perm config hroles).map (·.name)
  rwa [List.map_append, List.map_map, List.map_map] at hperm

theorem mem_countNames_iff {name : String} :
    name ∈ (searches output).map (·.name ++ "Count") ↔
      ∃ search ∈ output.fields, search.IsSearch ∧ name = search.name ++ "Count" := by
  rw [List.mem_map]
  constructor
  · rintro ⟨search, h, rfl⟩
    obtain ⟨hsearch, his⟩ := List.mem_filter.1 h
    exact ⟨search, hsearch, of_decide_eq_true his, rfl⟩
  · rintro ⟨search, hsearch, his, rfl⟩
    exact ⟨search, List.mem_filter.2 ⟨hsearch, decide_eq_true his⟩, rfl⟩

/-- **Members share a name only where a field is named as the count of a search.** In
the resolver map of an output type of a loaded schema whose fields have distinct names,
a name that is listed more than once is such a field's. It is listed twice then, once for
the field and once for the count. So all names are distinct just when no field of the type
is named as the count of another. -/
theorem nodup_memberNames_iff (hload : Schema.ofDocuments documents = .ok schema)
    (houtput : output ∈ schema.outputTypes) (hfields : (output.fields.map (·.name)).Nodup)
    (config : Config) :
    resolverMap config output ∈ (ofSchema schema config).resolvers ∧
    (∀ name, 1 < ((resolverMap config output).members.map (·.name)).count name →
      ∃ search ∈ output.fields, ∃ field ∈ output.fields,
        field.NamedAsCount search ∧ field.name = name) ∧
    (∀ search ∈ output.fields, ∀ field ∈ output.fields, field.NamedAsCount search →
      ((resolverMap config output).members.filter (·.name = field.name)).Perm
        [ownMember config output field, countMember output search]) ∧
    (((resolverMap config output).members.map (·.name)).Nodup ↔
      ∀ search ∈ output.fields, ∀ field ∈ output.fields, ¬ field.NamedAsCount search) := by
  have hroles : ∀ field ∈ output.fields, field.role = .findMany ↔ field.IsSearch :=
    fun field hfield =>
      (Schema.loadedFrom_of_ofDocuments hload).role_eq_findMany_iff houtput hfield
  have hcounts := nodup_countNames hfields
  have hnames := names_perm config hroles
  refine ⟨List.mem_map_of_mem houtput, ?once, ?twice, ?distinct⟩
  case once =>
    intro name hname
    rw [hnames.count_eq, List.count_append] at hname
    have hown := List.nodup_iff_count_le_one.1 hfields name
    have hcount := List.nodup_iff_count_le_one.1 hcounts name
    have hmem : name ∈ output.fields.map (·.name) := by
      rw [← List.count_pos_iff]
      omega
    have hmem_counts : name ∈ (searches output).map (·.name ++ "Count") := by
      rw [← List.count_pos_iff]
      omega
    obtain ⟨field, hfield, rfl⟩ := List.mem_map.1 hmem
    obtain ⟨search, hsearch, his, heq⟩ := mem_countNames_iff.1 hmem_counts
    exact ⟨search, hsearch, field, hfield, ⟨his, heq⟩, rfl⟩
  case twice =>
    rintro search hsearch field hfield ⟨his, heq⟩
    have hown : output.fields.filter ((·.name = field.name) ∘ ownMember config output) =
        [field] := filter_of_nodup hfields hfield
    have hcount : (searches output).filter ((·.name = field.name) ∘ countMember output) =
        [search] := by
      rw [heq]
      exact filter_of_nodup hcounts (List.mem_filter.2 ⟨hsearch, decide_eq_true his⟩)
    have hperm := (members_perm config hroles).filter (·.name = field.name)
    rwa [List.filter_append, List.filter_map, List.filter_map, hown, hcount] at hperm
  case distinct =>
    rw [hnames.nodup_iff, List.nodup_append]
    constructor
    · rintro ⟨-, -, hdisjoint⟩ search hsearch field hfield ⟨his, heq⟩
      exact hdisjoint _ (List.mem_map_of_mem hfield) _
        (mem_countNames_iff.2 ⟨search, hsearch, his, rfl⟩) heq
    · intro hnone
      refine ⟨hfields, hcounts, ?_⟩
      rintro name hname _ hcount rfl
      obtain ⟨field, hfield, rfl⟩ := List.mem_map.1 hname
      obtain ⟨search, hsearch, his, heq⟩ := mem_countNames_iff.1 hcount
      exact hnone search hsearch field hfield ⟨his, heq⟩

end ResolverFile

/-! ## A count of users -/

namespace Blog

/-- The document of users, and of how many of them there were at some time. -/
def tallyDocument : Document where
  datamodel :=
    { enums := []
      models := [table "User" [column "firstName" "String"],
        table "UserCount" [column "total" "Int"]]
      composites := [] }
  interface := ⟨⟨[], []⟩, ⟨[⟨"Query", [
    given "findManyUser" "User" [taken "take" "Int" .scalar],
    given "findManyUserCount" "UserCount" []]⟩], []⟩, ⟨[], []⟩⟩
  mappings := none

/-- The search for users as it is loaded. -/
def findUsers : OutputField where
  name := "findManyUser"
  args := [⟨"take", false, false, [⟨"Int", .scalar, false, .scalar⟩]⟩]
  isNullable := false
  outputType := ⟨"User", .outputObject, false, .model⟩
  role := .findMany

/-- The field for their numbers as it is loaded, which is a search as well by its name. -/
def findTallies : OutputField where
  name := "findManyUserCount"
  args := []
  isNullable := false
  outputType := ⟨"UserCount", .outputObject, false, .model⟩
  role := .findMany

/-- The root of queries for both. -/
def tallyQuery : OutputType :=
  ⟨"Query", .library, .operation .query, [findUsers, findTallies]⟩

/-- The schema it loads as. -/
def tallySchema : Schema where
  models := [model "User" [loaded (column "firstName" "String") "First Name"],
    model "UserCount" [loaded (column "total" "Int") "Total"]]
  modelEnums := []
  loadedInputs := []
  loadedOutputs := [tallyQuery]
  loadedEnums := []

end Blog

namespace ResolverFile

open Blog

/-- The search for the counts has the name that is made up for the count of the users, so
that name is listed twice, with arguments and answers that differ. -/
theorem count_listed_twice :
    Schema.ofDocuments [tallyDocument] = .ok tallySchema ∧
    tallyQuery ∈ tallySchema.outputTypes ∧ (tallyQuery.fields.map (·.name)).Nodup ∧
    (ofSchema tallySchema {}).resolvers = [⟨"Query", [
      ⟨"findManyUser", true, false,
        .resolver .none (some "FindManyUserArgs") (.value ⟨.client "User", false⟩ false)⟩,
      ⟨"findManyUserCount", true, false, .resolver .none (some "FindManyUserArgs") .count⟩,
      ⟨"findManyUserCount", true, false,
        .resolver .none none (.value ⟨.client "UserCount", false⟩ false)⟩,
      ⟨"findManyUserCountCount", true, false, .resolver .none none .count⟩]⟩] ∧
    ¬ ((resolverMap {} tallyQuery).members.map (·.name)).Nodup :=
  ⟨rfl, Schema.mem_outputTypes_iff.2 (.head _), by decide, rfl, by decide⟩

/-- The two members of the name, by what they are for. -/
theorem nodup_memberNames_iff_tally :
    ((resolverMap {} tallyQuery).members.filter (·.name = "findManyUserCount")).Perm
      [ownMember {} tallyQuery findTallies, countMember tallyQuery findUsers] ∧
    ¬ ((resolverMap {} tallyQuery).members.map (·.name)).Nodup := by
  have hload : Schema.ofDocuments [tallyDocument] = .ok tallySchema := rfl
  have hquery : tallyQuery ∈ tallySchema.outputTypes := Schema.mem_outputTypes_iff.2 (.head _)
  have hcount : findTallies.NamedAsCount findUsers := ⟨by decide, by decide⟩
  have husers : findUsers ∈ tallyQuery.fields := .head _
  have htallies : findTallies ∈ tallyQuery.fields := .tail _ (.head _)
  obtain ⟨-, -, htwice, hnodup⟩ := nodup_memberNames_iff hload hquery (by decide) {}
  exact ⟨htwice _ husers _ htallies hcount,
    fun h => hnodup.1 h _ husers _ htallies hcount⟩

end ResolverFile

end Schematic
