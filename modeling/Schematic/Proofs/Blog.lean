import Schematic.Schema.Load
import Schematic.Selection.Query

/-!
# A blog

Users with posts, and posts with comments: a document, the schema it loads as, a
request with what it is pruned to, and a query, for statements to be tried on. The
document may come with a query interface (`withInterface`), as generated texts are
made from one.
-/

namespace Schematic.Blog

/-! ## The document -/

/-- A required field that is no relation. -/
def column (name type : String) : Document.Field where
  name := name
  dbName := none
  kind := .scalar
  isList := false
  isRequired := true
  isUnique := false
  isId := false
  isReadOnly := false
  hasDefaultValue := false
  type := type
  relationName := none
  relationFromFields := none
  relationToFields := none
  isGenerated := none
  isUpdatedAt := none
  documentation := none

/-- The field that tells records apart. -/
def key : Document.Field :=
  { column "id" "Int" with isId := true }

/-- A relation to one record. -/
def toOne (name type : String) : Document.Field :=
  { column name type with kind := .object }

/-- A relation to several records. -/
def toMany (name type : String) : Document.Field :=
  { toOne name type with isList := true }

/-- A model of some fields besides its key. -/
def table (name : String) (fields : List Document.Field) : Document.Model where
  name := name
  dbName := none
  fields := key :: fields
  primaryKey := none
  uniqueFields := []
  isGenerated := none
  documentation := none

/-- The document of the blog. -/
def document : Document where
  datamodel :=
    { enums := []
      models := [
        table "User" [column "firstName" "String", column "password" "String",
          toMany "posts" "Post"],
        table "Post" [column "title" "String", toOne "author" "User",
          toMany "comments" "Comment"],
        table "Comment" [column "text" "String", toOne "post" "Post"]]
      composites := [] }
  interface := ⟨⟨[], []⟩, ⟨[], []⟩, ⟨[], []⟩⟩
  mappings := none

/-! ## The schema -/

/-- A field as it is loaded. -/
def loaded (f : Document.Field) (title : String) : Field where
  name := f.name
  type := f.type
  kind := f.kind
  isList := f.isList
  isRequired := true
  updatable := !f.isId
  title := title
  isId := f.isId
  isUnique := false
  relationName := none

/-- A model as it is loaded. -/
def model (name : String) (fields : List Field) : Model where
  name := name
  idName := some "id"
  fields := loaded key "Id" :: fields
  composite := false
  documentation := none
  aliases := []

/-- The model of users as it is loaded. -/
def user : Model :=
  model "User" [loaded (column "firstName" "String") "First Name",
    loaded (column "password" "String") "Password", loaded (toMany "posts" "Post") "Posts"]

/-- The model of posts as it is loaded. -/
def post : Model :=
  model "Post" [loaded (column "title" "String") "Title", loaded (toOne "author" "User") "Author",
    loaded (toMany "comments" "Comment") "Comments"]

/-- The model of comments as it is loaded. -/
def comment : Model :=
  model "Comment" [loaded (column "text" "String") "Text", loaded (toOne "post" "Post") "Post"]

/-- The schema the document loads as. -/
def schema : Schema where
  models := [user, post, comment]
  modelEnums := []
  loadedInputs := []
  loadedOutputs := []
  loadedEnums := []

/-! ## Query interfaces -/

/-- An input field, or an argument, of one type. -/
def taken (name type : String) (location : Location) : Document.InputField where
  name := name
  isRequired := false
  isNullable := false
  inputTypes := [⟨type, location, false⟩]

/-- An output field with some arguments. -/
def given (name type : String) (args : List Document.InputField) : Document.OutputField where
  name := name
  args := args
  isNullable := false
  outputType := ⟨type, .outputObject, false⟩

/-- The document of the blog with a query interface. -/
def withInterface (inputs : List Document.InputType) (outputs : List Document.OutputType)
    (enums : List Document.EnumType) : Document :=
  { document with interface := ⟨⟨inputs, []⟩, ⟨outputs, []⟩, ⟨enums, []⟩⟩ }

/-- The schema that document loads as, if the names are distinct. -/
def schemaWith (inputs : List Document.InputType) (outputs : List Document.OutputType)
    (enums : List Document.EnumType) : Schema :=
  { schema with
    loadedInputs := inputs.map (InputType.ofDocument schema.isModel .library)
    loadedOutputs := outputs.map (OutputType.ofDocument schema.isModel .library)
    loadedEnums := enums.map (EnumType.ofDocument .library) }

/-- A field of the blog's input types as it is loaded, with its type. -/
def loadedField (name type : String) (location : Location) : InputField × TypeRef :=
  (InputField.ofDocument schema.isModel (taken name type location),
    TypeRef.ofDocument schema.isModel ⟨type, location, false⟩)

/-! ## A request -/

/-- Users with their posts under two labels, and how many there are of both
posts and comments. -/
def request : Request :=
  (Request.ofName "findManyUser").withFields "User" [
    .ofName "id",
    (Request.ofName "posts").withFields "Post" [
      .ofName "title",
      (Request.ofName "findManyComment").withField "Post" (.ofName "comments")],
    ((Request.ofName "posts").withLabel "drafts").withField "Post" (.ofName "unknown"),
    (Request.ofName "findManyPost").withField "User" (.ofName "posts"),
    .ofName "password"]

/-- The same, but the titles of posts and the counts of their comments are
requested apart. -/
def splitRequest : Request :=
  (Request.ofName "findManyUser").withFields "User" [
    .ofName "id",
    (Request.ofName "posts").withField "Post" (.ofName "title"),
    ((Request.ofName "posts").withLabel "commented").withField "Post"
      ((Request.ofName "findManyComment").withField "Post" (.ofName "comments")),
    ((Request.ofName "posts").withLabel "drafts").withField "Post" (.ofName "unknown"),
    (Request.ofName "findManyPost").withField "User" (.ofName "posts"),
    .ofName "password"]

/-- First names are always wanted. Passwords are excluded, and for posts, one would
think, so are counts. -/
def options : Options :=
  ((Options.withDefaultFields {} "User" ["firstName"]).withExcludedFields "User"
    ["password"]).withExcludedFields "Post" ["_count"]

/-- The same, but empty selections stay empty. -/
def kept : Options :=
  options.keepEmpty

/-- What the request is pruned to. -/
def selection : Selection where
  select := [
    ("id", .field),
    ("posts", .nested [("title", .field), ("_count", .nested [("comments", .field)] []),
      ("id", .field)] []),
    ("_count", .nested [("posts", .field)] []),
    ("firstName", .field)]
  arguments := []

/-- What it is pruned to if empty selections stay empty: nothing is selected of the
drafts. -/
def keptSelection : Selection where
  select := [
    ("id", .field),
    ("posts", .nested [("title", .field), ("_count", .nested [("comments", .field)] [])] []),
    ("_count", .nested [("posts", .field)] []),
    ("firstName", .field)]
  arguments := []

/-! ## A query -/

/-- Posts with the first posts of their authors. The authors are requested a second
time, with nothing below them. -/
def authorsQuery : Query where
  schema := schema
  request := (Request.ofName "findManyPost").withFields "Post" [
    .ofName "title",
    (Request.ofName "author").withField "User"
      (((Request.ofName "posts").withArg "take" (.int 2)).withField "Post" (.ofName "title")),
    (Request.ofName "author").withLabel "writer"]
  returnType := "Post"
  options := {}

end Schematic.Blog
