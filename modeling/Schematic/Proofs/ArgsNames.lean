import Schematic.Proofs.Blog
import Schematic.Proofs.Written

/-!
# Names of argument interfaces

The interface of a field's arguments is named after the type of the field and the
field, with nothing between the two names, and on the roots of operations after the
field alone. So fields of different types can share a name for their arguments
(`ResolverFile.args_clash`). They do just when they overlap
(`ResolverFile.Overlap`), that is, when the name of the one type goes on as the other
field's name begins, and fields of one type never do if their names begin small
(`ResolverFile.nodup_args_iff`).
-/

namespace Schematic

/-! ## Capitals -/

namespace Text

/-- No character of ASCII has several characters for its capital. -/
theorem lookup_eq_none_of_ascii {n : Nat} (h : n < 128) : upperSequences.lookup n = none := by
  have hkeys : ∀ entry ∈ upperSequences, 128 ≤ entry.1 := by decide +kernel
  refine List.lookup_eq_none_iff.2 fun entry hentry => bne_iff_ne.2 fun heq => ?_
  have hle := hkeys entry hentry
  omega

/-- No run but the first one has ASCII characters. -/
theorem find?_tail_eq_none_of_ascii {n : Nat} (h : n < 128) :
    upperRuns.tail.find? (·.holds n) = none := by
  have hfirst : ∀ run ∈ upperRuns.tail, 128 ≤ run.first := by decide +kernel
  refine List.find?_eq_none.2 fun run hrun hholds => ?_
  have hle := hfirst run hrun
  simp only [UpperRun.holds, Bool.and_eq_true, decide_eq_true_eq] at hholds
  omega

/-- In upper case an ASCII character is one character, of which it is the lower case
unless it was in upper case before. -/
theorem toUpper_of_ascii {c : Char} (hascii : c.toNat < 128) (hsmall : ¬ c.isUpper) :
    ∃ d : Char, toUpper c = [d] ∧ d.toLower = c := by
  have hruns : upperRuns = ⟨0x61, 0x7a, 1, -32⟩ :: upperRuns.tail := rfl
  rw [toUpper, lookup_eq_none_of_ascii hascii, hruns, List.find?_cons]
  by_cases hletter : 97 ≤ c.toNat ∧ c.toNat ≤ 122
  · have hlower : ∀ n : Fin 26, (Char.ofNat (((97 + n : Nat) : Int) + -32).toNat).toLower =
        Char.ofNat (97 + n) := by decide
    obtain ⟨n, hn⟩ := Nat.exists_eq_add_of_le hletter.1
    have hholds : UpperRun.holds ⟨0x61, 0x7a, 1, -32⟩ c.toNat = true := by
      simp [UpperRun.holds, hletter, Nat.mod_one]
    simp only [hholds]
    refine ⟨_, rfl, ?_⟩
    rw [hn, hlower ⟨n, by omega⟩, ← hn, Char.ofNat_toNat]
  · have hother : ∀ n : Fin 128, ¬ (97 ≤ n.1 ∧ n.1 ≤ 122) → ¬ (Char.ofNat n).isUpper →
        (Char.ofNat n).toLower = Char.ofNat n := by decide
    have hholds : UpperRun.holds ⟨0x61, 0x7a, 1, -32⟩ c.toNat = false := by
      simp only [UpperRun.holds]
      simpa using fun h h' => absurd ⟨h, h'⟩ hletter
    simp only [hholds, find?_tail_eq_none_of_ascii hascii]
    have hsame := hother ⟨c.toNat, hascii⟩
    simp only [Char.ofNat_toNat] at hsame
    exact ⟨c, rfl, hsame hletter hsmall⟩

/-- The text begins with an ASCII character, and not with a capital. -/
def StartsSmall : List Char → Prop
  | [] => False
  | c :: _ => c.toNat < 128 ∧ ¬ c.isUpper

instance : DecidablePred StartsSmall
  | [] => inferInstanceAs (Decidable False)
  | _ :: _ => inferInstanceAs (Decidable (_ ∧ _))

/-- Texts that begin small can be told apart by their capitalized forms. -/
theorem capitalize_inj {a b : List Char} (ha : StartsSmall a) (hb : StartsSmall b) :
    capitalize a = capitalize b ↔ a = b := by
  refine ⟨fun h => ?_, congrArg capitalize⟩
  match a, b, ha, hb with
  | first :: rest, first' :: rest', ⟨hascii, hsmall⟩, ⟨hascii', hsmall'⟩ =>
    obtain ⟨d, hd, rfl⟩ := toUpper_of_ascii hascii hsmall
    obtain ⟨d', hd', rfl⟩ := toUpper_of_ascii hascii' hsmall'
    rw [capitalize, capitalize, hd, hd'] at h
    cases h
    rfl

end Text

namespace ResolverFile

/-! ## The name of one interface -/

/-- The start of the names of a type's argument interfaces: the name of the type, or
nothing on a root of operations. -/
def argsOwner (output : OutputType) : String :=
  if output.role.isOperation then "" else output.name

/-- The name of a field within the name of its arguments. -/
def argsField (field : OutputField) : String :=
  String.ofList (Text.capitalize field.name.toList)

theorem argsName?_of_args {output : OutputType} {field : OutputField} (h : field.args ≠ []) :
    argsName? output field = some (argsOwner output ++ argsField field ++ "Args") :=
  if_neg (by simpa using h)

/-- What has a name for its arguments takes some. -/
theorem args_ne_nil_of_argsName? {output : OutputType} {field : OutputField} {name : String}
    (h : argsName? output field = some name) : field.args ≠ [] := by
  rintro hargs
  rw [argsName?, hargs] at h
  cases h

/-- The name of one field's type goes on as the other field's name begins, up to where
the name of the one field comes. It need not go on at all: fields of one type overlap
if their names are the same but for the first capital. -/
def Overlap (p q : OutputType × OutputField) : Prop :=
  ∃ more, argsOwner q.1 = argsOwner p.1 ++ more ∧ argsField p.2 = more ++ argsField q.2

/-- Of two ways to cut a text, one cuts it no later than the other. -/
theorem append_eq_append_iff {a b c d : String} :
    a ++ b = c ++ d ↔
      (∃ more, c = a ++ more ∧ b = more ++ d) ∨ ∃ more, a = c ++ more ∧ d = more ++ b := by
  simp only [← String.toList_inj, String.toList_append, List.append_eq_append_iff]
  constructor
  · rintro (⟨more, h⟩ | ⟨more, h⟩)
    · exact .inl ⟨String.ofList more, by simpa using h⟩
    · exact .inr ⟨String.ofList more, by simpa using h⟩
  · rintro (⟨more, h⟩ | ⟨more, h⟩)
    · exact .inl ⟨more.toList, h⟩
    · exact .inr ⟨more.toList, h⟩

/-- Two fields that take arguments share a name for them just when they overlap. -/
theorem argsName?_eq_iff {p q : OutputType × OutputField} (hp : p.2.args ≠ [])
    (hq : q.2.args ≠ []) :
    argsName? p.1 p.2 = argsName? q.1 q.2 ↔ Overlap p q ∨ Overlap q p := by
  rw [argsName?_of_args hp, argsName?_of_args hq, Option.some_inj, String.append_left_inj,
    append_eq_append_iff]
  rfl

/-- Two fields of one type share a name if they have the same name themselves, as long
as the names begin small. -/
theorem argsName?_eq_iff_of_argsOwner_eq {p q : OutputType × OutputField} (hp : p.2.args ≠ [])
    (hq : q.2.args ≠ []) (howner : argsOwner p.1 = argsOwner q.1)
    (hsmall : Text.StartsSmall p.2.name.toList) (hsmall' : Text.StartsSmall q.2.name.toList) :
    argsName? p.1 p.2 = argsName? q.1 q.2 ↔ p.2.name = q.2.name := by
  rw [argsName?_of_args hp, argsName?_of_args hq, Option.some_inj, String.append_left_inj, howner,
    String.append_right_inj, argsField, argsField, String.ofList_inj,
    Text.capitalize_inj hsmall hsmall', String.toList_inj]

/-! ## The names of all interfaces -/

theorem map_name_args (schema : Schema) (config : Config) :
    (ofSchema schema config).args.map (·.name) =
      (outputFields schema).filterMap fun p => argsName? p.1 p.2 := by
  rw [args_ofSchema, List.map_filterMap]
  congr 1
  funext p
  rw [argsInterface?, Option.map_map]
  exact Option.map_id'

/-- **Argument interfaces share a name only where fields overlap.** They are named in
the order of the fields that take arguments, and there are two of one name just when
two of these fields overlap. Fields of one type do not, if their names begin small and
differ. -/
theorem nodup_args_iff (schema : Schema) (config : Config) :
    (ofSchema schema config).args.map (·.name) =
      ((outputFields schema).filterMap fun p => argsName? p.1 p.2) ∧
    (((ofSchema schema config).args.map (·.name)).Nodup ↔
      ((outputFields schema).filter (·.2.args ≠ [])).Pairwise fun p q =>
        ¬ (Overlap p q ∨ Overlap q p)) ∧
    ∀ p ∈ outputFields schema, ∀ q ∈ outputFields schema, p.2.args ≠ [] → q.2.args ≠ [] →
      (argsName? p.1 p.2 = argsName? q.1 q.2 ↔ Overlap p q ∨ Overlap q p) ∧
      (argsOwner p.1 = argsOwner q.1 → Text.StartsSmall p.2.name.toList →
        Text.StartsSmall q.2.name.toList →
        (argsName? p.1 p.2 = argsName? q.1 q.2 ↔ p.2.name = q.2.name)) := by
  refine ⟨map_name_args schema config, ?_, fun p _ q _ hp hq =>
    ⟨argsName?_eq_iff hp hq, argsName?_eq_iff_of_argsOwner_eq hp hq⟩⟩
  rw [map_name_args, List.Nodup, List.pairwise_filterMap, List.pairwise_filter]
  refine List.Pairwise.iff fun p q => ?_
  simp only [decide_eq_true_iff]
  constructor
  · intro h hp hq
    rw [← argsName?_eq_iff hp hq]
    exact fun heq => h _ (argsName?_of_args hp) _ (heq ▸ argsName?_of_args hp) rfl
  · rintro h name hname _ hname' rfl
    have hp : p.2.args ≠ [] := args_ne_nil_of_argsName? hname
    have hq : q.2.args ≠ [] := args_ne_nil_of_argsName? hname'
    exact h hp hq ((argsName?_eq_iff hp hq).1 (hname.trans hname'.symm))

end ResolverFile

/-! ## Two fields that overlap -/

namespace Blog

/-- The posts of a user, a few at a time. -/
def posts : Document.OutputField :=
  given "posts" "Post" [taken "take" "Int" .scalar]

/-- The drafts of a user, behind the first few. -/
def drafts : Document.OutputField :=
  given "drafts" "Post" [taken "skip" "Int" .scalar]

/-- A search for the posts of the user with an email address. -/
def userPosts : Document.OutputField :=
  given "userPosts" "Post" [taken "email" "String" .scalar]

/-- The posts and the drafts of a user, and a search for the posts of a user. -/
def clashOutputs : List Document.OutputType :=
  [⟨"User", [posts, drafts]⟩, ⟨"Query", [userPosts]⟩]

/-- The schema with these output types. -/
def clashSchema : Schema :=
  schemaWith [] clashOutputs []

/-- A field of an output type of the clash as it is loaded, with the type. -/
def clashField (output : String) (fields : List Document.OutputField)
    (field : Document.OutputField) : OutputType × OutputField :=
  let type := OutputType.ofDocument schema.isModel .library ⟨output, fields⟩
  (type, OutputField.ofDocument schema.isModel type.role field)

/-- The posts of a user as they are loaded. -/
def postsOfUser : OutputType × OutputField := clashField "User" [posts, drafts] posts

/-- The drafts of a user as they are loaded. -/
def draftsOfUser : OutputType × OutputField := clashField "User" [posts, drafts] drafts

/-- The search as it is loaded, on the root of queries. -/
def search : OutputType × OutputField := clashField "Query" [userPosts] userPosts

theorem mem_outputFields_postsOfUser : postsOfUser ∈ ResolverFile.outputFields clashSchema :=
  .head _

theorem mem_outputFields_draftsOfUser : draftsOfUser ∈ ResolverFile.outputFields clashSchema :=
  .tail _ (.head _)

theorem mem_outputFields_search : search ∈ ResolverFile.outputFields clashSchema :=
  .tail _ (.tail _ (.head _))

end Blog

namespace ResolverFile

open Blog

/-- The posts of a user and the search for them are fields of types and names that
differ, but there is one name for their arguments, and two interfaces of it. -/
theorem args_clash :
    Schema.ofDocuments [withInterface [] clashOutputs []] = .ok clashSchema ∧
    (∃ p ∈ outputFields clashSchema, ∃ q ∈ outputFields clashSchema,
      p.1.name ≠ q.1.name ∧ p.2.name ≠ q.2.name ∧ p.2.args ≠ [] ∧ q.2.args ≠ [] ∧
        argsName? p.1 p.2 = argsName? q.1 q.2) ∧
    (ofSchema clashSchema {}).args =
      [⟨"UserPostsArgs", [⟨"take", true, false, .shown ⟨.scalar "number", false⟩⟩]⟩,
        ⟨"UserDraftsArgs", [⟨"skip", true, false, .shown ⟨.scalar "number", false⟩⟩]⟩,
        ⟨"UserPostsArgs", [⟨"email", true, false, .shown ⟨.scalar "string", false⟩⟩]⟩] :=
  ⟨rfl, ⟨_, mem_outputFields_postsOfUser, _, mem_outputFields_search, by decide, by decide,
    List.cons_ne_nil _ _, List.cons_ne_nil _ _, rfl⟩, rfl⟩

/-- The name of the search begins with that of the type, so the search overlaps with the
posts. The two fields of the type do not overlap. -/
theorem nodup_args_iff_clash :
    Overlap search postsOfUser ∧
    argsName? postsOfUser.1 postsOfUser.2 = argsName? search.1 search.2 ∧
    ¬ ((ofSchema clashSchema {}).args.map (·.name)).Nodup ∧
    argsName? postsOfUser.1 postsOfUser.2 ≠ argsName? draftsOfUser.1 draftsOfUser.2 := by
  have hposts : postsOfUser.2.args ≠ [] := List.cons_ne_nil _ _
  have hdrafts : draftsOfUser.2.args ≠ [] := List.cons_ne_nil _ _
  have hsearch : search.2.args ≠ [] := List.cons_ne_nil _ _
  have hoverlap : Overlap search postsOfUser := ⟨"User", rfl, rfl⟩
  obtain ⟨-, hnodup, hname⟩ := nodup_args_iff clashSchema {}
  obtain ⟨hposts_search, -⟩ :=
    hname _ mem_outputFields_postsOfUser _ mem_outputFields_search hposts hsearch
  obtain ⟨-, hposts_drafts⟩ :=
    hname _ mem_outputFields_postsOfUser _ mem_outputFields_draftsOfUser hposts hdrafts
  refine ⟨hoverlap, hposts_search.2 (.inr hoverlap), fun h => ?_, fun h => ?_⟩
  · have hpairs := hnodup.1 h
    exact List.rel_of_pairwise_cons hpairs (.tail _ (.head _)) (.inr hoverlap)
  · have hsame : postsOfUser.2.name = draftsOfUser.2.name :=
      (hposts_drafts rfl (by decide) (by decide)).1 h
    exact absurd hsame (by decide)

end ResolverFile

end Schematic
