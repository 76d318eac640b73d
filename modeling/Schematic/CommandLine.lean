import Schematic.Declare.Library
import Schematic.Declare.Resolvers
import Schematic.Json.Pretty
import Schematic.Request.Json
import Schematic.Selection.Query

/-!
# The command line

Three commands: `types` and `sdl` write the declarations of a schema, `select`
writes the select argument of a request. Which files a command reads and what it
makes of them is decided here; how files are read and written is up to the
caller.
-/

namespace Schematic

/-- A command with its files, given by path. -/
inductive Command where
  | types (documents : List String) (config output : Option String)
  | sdl (documents : List String) (config output : Option String)
  | select (documents : List String) (tree returnType : String) (options : Option String)

/-- Why a command does not succeed. -/
inductive CommandError where
  /-- The arguments are no command. -/
  | usage
  | unreadable (path : String)
  | unwritable (path : String)
  | schema (error : LoadError)
  | config
  | request (path : String)
  | options (path : String)
  | select (error : SelectError)

namespace CommandError

/-- The wording of an error. For faulty arguments there is only the manual. -/
def message : CommandError → Option String
  | usage => none
  | unreadable path => some ("Could not read " ++ path)
  | unwritable path => some ("Could not write " ++ path)
  | schema _ => some "Could not load the DMMF schema"
  | config => some "Invalid generator configuration"
  | request path => some ("Invalid resolve tree in " ++ path)
  | options path => some ("Invalid pruning options in " ++ path)
  | select error => some error.message

end CommandError

/-- What a command puts out. -/
inductive CommandOutput where
  | standard (text : String)
  | file (path text : String)

namespace Command

/-! ## Arguments -/

/-- What an option takes: one value, and only once, or any number of values. -/
structure OptionForm where
  name : String
  many : Bool

/-- The options found among arguments: how often each is named, and its values. -/
structure Found where
  name : String
  times : Nat
  values : List String

/-- The text before and behind the first equals sign. An equals sign right
behind it belongs to it. -/
def splitEquals (cs : List Char) : List Char × Option (List Char) :=
  match cs.dropWhile (· ≠ '=') with
  | [] => (cs, none)
  | _ :: value => (cs.takeWhile (· ≠ '='), some (value.dropWhile (· = '=')))

/-- Counts an option, and adds values to it. -/
def record (found : List Found) (name : String) (values : List String) : List Found :=
  match found with
  | [] => [⟨name, 1, values⟩]
  | f :: rest =>
    if f.name = name then { f with times := f.times + 1, values := f.values ++ values } :: rest
    else f :: record rest name values

/-- Adds a value to an option that has been named. -/
def addValue (found : List Found) (name value : String) : List Found :=
  found.map fun f => if f.name = name then { f with values := f.values ++ [value] } else f

/-- Reads arguments. `open?` is the option that takes the next value. A text with
a dash in front names an option, and a single dash is a value; behind a double
dash there must be nothing, since no command takes anything but options. -/
def readArgs (forms : List OptionForm) (open? : Option OptionForm) (found : List Found) :
    List String → Option (List Found)
  | [] => some found
  | arg :: rest =>
    match arg.toList with
    | ['-', '-'] => if rest.isEmpty then some found else none
    | '-' :: '-' :: cs =>
      let (name, value) := splitEquals (cs.dropWhile (· = '-'))
      match forms.find? (·.name = String.ofList name), value with
      | some form, none => readArgs forms (some form) (record found form.name []) rest
      | some form, some value =>
        readArgs forms none (record found form.name [String.ofList value]) rest
      | none, _ => none
    | '-' :: _ :: _ => none
    | _ =>
      match open? with
      | some form =>
        readArgs forms (if form.many then some form else none) (addValue found form.name arg) rest
      | none => none

/-- Whether every option that is named has a value, and those that take one are
named once. -/
def wellFormed (forms : List OptionForm) (found : List Found) : Bool :=
  found.all fun f => !f.values.isEmpty && (f.times ≤ 1 || forms.any fun o => o.name = f.name && o.many)

/-- The options of arguments. -/
def options? (forms : List OptionForm) (args : List String) : Option (List Found) := do
  let found ← readArgs forms none [] args
  if wellFormed forms found then some found else none

/-- The values of an option. -/
def values (found : List Found) (name : String) : List String :=
  ((found.find? (·.name = name)).map (·.values)).getD []

/-- The values of an option that has to be there. -/
def someValues? (found : List Found) (name : String) : Option (List String) :=
  match values found name with
  | [] => none
  | values => some values

/-- The options of the commands that write declarations. -/
def declareForms : List OptionForm :=
  [⟨"dmmf", true⟩, ⟨"config", false⟩, ⟨"output", false⟩]

/-- The options of the command that writes a select argument. -/
def selectForms : List OptionForm :=
  [⟨"dmmf", true⟩, ⟨"tree", false⟩, ⟨"return-type", false⟩, ⟨"options", false⟩]

/-- The command of arguments. -/
def ofArgs? : List String → Option Command
  | "types" :: args => do
    let found ← options? declareForms args
    return .types (← someValues? found "dmmf") (values found "config").head?
      (values found "output").head?
  | "sdl" :: args => do
    let found ← options? declareForms args
    return .sdl (← someValues? found "dmmf") (values found "config").head?
      (values found "output").head?
  | "select" :: args => do
    let found ← options? selectForms args
    return .select (← someValues? found "dmmf") (← (values found "tree").head?)
      (← (values found "return-type").head?) (values found "options").head?
  | _ => none

/-- The files a command reads, in order. -/
def paths : Command → List String
  | types documents config _ => documents ++ config.toList
  | sdl documents config _ => documents ++ config.toList
  | select documents tree _ options => documents ++ tree :: options.toList

/-! ## Running -/

/-- The text of a file. -/
def file (read : String → Option String) (path : String) : Except CommandError String :=
  match read path with
  | some text => .ok text
  | none => .error (.unreadable path)

/-- The schema of document files. All are read before any is looked into. -/
def loadSchema (read : String → Option String) (documents : List String) :
    Except CommandError Schema := do
  let texts ← documents.mapM (file read)
  match Schema.load texts with
  | .ok schema => return schema
  | .error error => throw (.schema error)

/-- The settings in a file, if there is one. -/
def loadConfig (read : String → Option String) : Option String → Except CommandError Config
  | none => .ok {}
  | some path => do
    match Config.ofText? (← file read path) with
    | some config => return config
    | none => throw .config

/-- The options in a file, if there is one. -/
def loadOptions (read : String → Option String) : Option String → Except CommandError Options
  | none => .ok {}
  | some path => do
    match Options.ofText? (← file read path) with
    | some options => return options
    | none => throw (.options path)

/-- The request in a file. -/
def loadRequest (read : String → Option String) (path : String) : Except CommandError Request := do
  match Request.ofText? (← file read path) with
  | some request => return request
  | none => throw (.request path)

/-- A text, for a file if one is named. -/
def putOut (output : Option String) (text : String) : CommandOutput :=
  match output with
  | some path => .file path text
  | none => .standard text

/-- What a command puts out, given the texts of readable files. -/
def run (read : String → Option String) : Command → Except CommandError CommandOutput
  | types documents config output => do
    let schema ← loadSchema read documents
    let config ← loadConfig read config
    return putOut output (ResolverFile.ofSchema schema config).text
  | sdl documents config output => do
    let schema ← loadSchema read documents
    let config ← loadConfig read config
    return putOut output (LibraryFile.ofSchema schema config).text
  | select documents tree returnType options => do
    let schema ← loadSchema read documents
    let request ← loadRequest read tree
    let options ← loadOptions read options
    match (Query.ofReturnType schema request returnType options).value with
    | .ok value => return .standard (value.pretty ++ "\n")
    | .error error => throw (.select error)

/-- What arguments put out, given the texts of readable files. -/
def runArgs (read : String → Option String) (args : List String) :
    Except CommandError CommandOutput :=
  match ofArgs? args with
  | some command => command.run read
  | none => .error .usage

end Command

end Schematic
