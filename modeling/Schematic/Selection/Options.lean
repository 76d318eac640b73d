import Schematic.Json.Decode
import Schematic.Request.Basic

/-!
# Pruning options

What a caller may say about every model: fields to select always, fields to
select never, and what becomes of fields the model does not declare and of
selections that end up empty. What is always or never selected may depend on
the request that is pruned.
-/

namespace Schematic

open Json (Decoder Fields)

/-- Fields of a model selected without being requested, as far as they are
flagged. -/
inductive DefaultFields where
  | fixed (fields : Keyed Bool)
  | computed (fields : Request → Keyed Bool)

/-- Fields of a model that are never selected. -/
inductive ExcludedFields where
  | fixed (names : List String)
  | computed (names : Request → List String)

/-- What becomes of a selection without fields. -/
inductive EmptySelection where
  /-- It selects the field that tells records apart. -/
  | primaryKey
  /-- It stays as it is. -/
  | keep
  deriving DecidableEq, Repr

/-- The options of pruning; models are given by name. -/
structure Options where
  defaultFields : Keyed DefaultFields := []
  excludedFields : Keyed ExcludedFields := []
  /-- Whether a requested field the model does not declare is an error. -/
  strict : Bool := false
  /-- The model that stands in where a root is none. -/
  fallbackModel : Option String := none
  emptySelection : EmptySelection := .primaryKey

namespace Options

/-- Selects fields of a model always. -/
def withDefaultFields (o : Options) (model : String) (names : List String) : Options :=
  { o with
    defaultFields := Keyed.put o.defaultFields model (.fixed (Keyed.ofPairs (names.map (·, true)))) }

/-- Selects fields of a model never. -/
def withExcludedFields (o : Options) (model : String) (names : List String) : Options :=
  { o with excludedFields := Keyed.put o.excludedFields model (.fixed names) }

/-- Gives the model that stands in for roots that are none. -/
def withFallbackModel (o : Options) (model : String) : Options :=
  { o with fallbackModel := some model }

/-- Makes a requested field that is not declared an error. -/
def rejectUnknown (o : Options) : Options :=
  { o with strict := true }

/-- Lets empty selections be. -/
def keepEmpty (o : Options) : Options :=
  { o with emptySelection := .keep }

/-- The flagged fields of a model for a request. -/
def defaultsFor (o : Options) (model : String) (request : Request) : Keyed Bool :=
  match Keyed.get? model o.defaultFields with
  | some (.fixed fields) => fields
  | some (.computed fields) => fields request
  | none => []

/-- The excluded fields of a model for a request. -/
def exclusionsFor (o : Options) (model : String) (request : Request) : List String :=
  match Keyed.get? model o.excludedFields with
  | some (.fixed names) => names
  | some (.computed names) => names request
  | none => []

/-! ## Reading options -/

/-- The written names of what may become of empty selections. -/
def emptySelectionNames : Keyed EmptySelection :=
  [("primaryKey", .primaryKey), ("keep", .keep)]

/-- Reads options; each may be missing. -/
def decode : Decoder Options := fun depth w => do
  let fields ← Fields.ofWritten?
    ["defaultFields", "excludeFields", "strict", "fallbackModel", "emptySelection"] depth w
  let defaults ← fields.optional "defaultFields" [] (.keyed (.keyed .bool))
  let excluded ← fields.optional "excludeFields" [] (.keyed (.list .string))
  return {
    defaultFields := Keyed.mapValues .fixed defaults
    excludedFields := Keyed.mapValues .fixed excluded
    strict := ← fields.optional "strict" false .bool
    fallbackModel := ← fields.nullable "fallbackModel" .string
    emptySelection := ← fields.optional "emptySelection" .primaryKey (.oneOf emptySelectionNames) }

/-- The options of a JSON text. -/
def ofText? (text : String) : Option Options :=
  decode.ofText? text

end Options

end Schematic
