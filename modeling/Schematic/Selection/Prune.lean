import Schematic.Schema.Basic
import Schematic.Selection.Basic
import Schematic.Selection.Options

/-!
# Pruning

Pruning turns a request into the selection of what a model declares of it. Every
sub-request contributes at most one entry, and the entries are merged in the
order of the requests (`Selection.insertAll`); after them come the default
fields, and an empty selection may fall back to the field that tells records
apart.

What a sub-request contributes depends on what its name is to the model
(`Requested`): a plain field contributes itself, a relation with sub-requests
the selection pruned against its target, unless that is empty, and a name the
model does not declare contributes a count if it asks for one, and nothing or an
error otherwise.
-/

namespace Schematic

/-- Why a request cannot be pruned. -/
inductive SelectError where
  /-- A root has to be a model, and the type is none. -/
  | invalidRoot (type : String)
  /-- A requested field is not declared, and the options forbid that. -/
  | unknownField (model field : String)
  deriving DecidableEq, Repr

namespace SelectError

/-- The wording of an error. -/
def message : SelectError → String
  | invalidRoot type =>
    "`" ++ type ++ "` is not a model of the schema and no fallback model is configured"
  | unknownField model field =>
    "Field `" ++ field ++ "` is not declared on model `" ++ model ++ "`"

end SelectError

/-- The field that holds the counts of relations. -/
def countName : String := "_count"

/-- Whether a name belongs to the query language itself. Such fields are
answered without looking at any data. -/
def isMeta (name : String) : Bool :=
  Text.hasStart "__" name

/-- What a requested name is to a model. -/
inductive Requested where
  /-- A count of relations. -/
  | count
  | declared (field : Field)
  | unknown

namespace Requested

/-- What a name is to a model. Only a name that is not declared asks for a count. -/
def ofName (model : Model) (name : String) : Requested :=
  match model.field? name with
  | some field => .declared field
  | none =>
    if name = countName ∨ FieldRole.ofName name = .findMany then .count else .unknown

end Requested

namespace Prune

/-! ## Counts -/

/-- What one sub-request contributes to a count: a list relation, with its
arguments if it has any. -/
def countEntry (options : Options) (model : Model) (excluded : List String) (field : Request) :
    Except SelectError (Option (String × Selected)) :=
  if isMeta field.name then .ok none
  else match model.field? field.name with
    | some declared =>
      if declared.isListRelation ∧ field.name ∉ excluded then
        match relationArguments field.args with
        | [] => .ok (some (field.name, .field))
        | arguments => .ok (some (field.name, .counted arguments))
      else .ok none
    | none =>
      if options.strict then .error (.unknownField model.name field.name) else .ok none

/-- The count a sub-request asks for. -/
def count (options : Options) (model : Model) (excluded : List String) (request : Request) :
    Except SelectError Selection := do
  let entries ← request.fields.mapM (countEntry options model excluded)
  return Selection.empty.insertAll (entries.filterMap id)

/-- A nested selection contributes under its name, unless it selects nothing. -/
def nestedEntry (name : String) (nested : Selection) : Option (String × Selected) :=
  if nested.isEmpty then none else some (name, nested.toSelected)

/-! ## What is selected without being requested -/

/-- Selects a default field, if it is flagged, declared, and neither excluded nor
selected already. -/
def addDefault (model : Model) (excluded : List String) (s : Selection) (entry : String × Bool) :
    Selection :=
  if entry.2 && !s.contains entry.1 && entry.1 ∉ excluded && (model.field? entry.1).isSome then
    s.insert entry.1 .field
  else s

/-- Selects the field that tells records apart, unless it is excluded. -/
def addId (model : Model) (excluded : List String) (s : Selection) : Selection :=
  match model.idName with
  | some name => if name ∈ excluded then s else s.insert name .field
  | none => s

/-- The selection of a model: the entries the request contributes, the default
fields, and what an empty selection falls back to. -/
def complete (options : Options) (model : Model) (request : Request)
    (entries : List (String × Selected)) : Selection :=
  let excluded := options.exclusionsFor model.name request
  let requested := Selection.insertAll ⟨[], relationArguments request.args⟩ entries
  let s := (options.defaultsFor model.name request).foldl (addDefault model excluded) requested
  if s.isEmpty ∧ options.emptySelection = .primaryKey then addId model excluded s else s

end Prune

/-! ## Requests -/

open Prune in
mutual
/-- The selection of a model that a request comes to. -/
def prune (schema : Schema) (options : Options) (model : Model) :
    Request → Except SelectError Selection
  | ⟨name, label, args, groups⟩ => do
    let request : Request := ⟨name, label, args, groups⟩
    let excluded := options.exclusionsFor model.name request
    let entries ← pruneGroups schema options model excluded groups
    return complete options model request entries
termination_by structural request => request

/-- What the sub-requests on several types contribute. -/
def pruneGroups (schema : Schema) (options : Options) (model : Model) (excluded : List String) :
    List (String × List (String × Request)) → Except SelectError (List (String × Selected))
  | [] => .ok []
  | (_, fields) :: rest => do
    let first ← pruneFields schema options model excluded fields
    let more ← pruneGroups schema options model excluded rest
    return first ++ more
termination_by structural groups => groups

/-- What several sub-requests contribute, in order. -/
def pruneFields (schema : Schema) (options : Options) (model : Model) (excluded : List String) :
    List (String × Request) → Except SelectError (List (String × Selected))
  | [] => .ok []
  | (_, field) :: rest => do
    let first : Option (String × Selected) ←
      if isMeta field.name ∨ field.name ∈ excluded then .ok none
      else match Requested.ofName model field.name with
        | .count => (count options model excluded field).map (nestedEntry countName)
        | .declared declared =>
          if declared.isRelation ∧ ¬ field.isLeaf then
            match schema.findModel? declared.type with
            | some target => (prune schema options target field).map (nestedEntry field.name)
            | none => .ok none
          else .ok (some (field.name, .field))
        | .unknown =>
          if options.strict then .error (.unknownField model.name field.name) else .ok none
    let more ← pruneFields schema options model excluded rest
    return first.toList ++ more
termination_by structural fields => fields
end

/-- Prunes against the model of a name or alias. A name that is none selects
nothing: what belongs to the query language has no model. -/
def pruneNamed (schema : Schema) (options : Options) (name : String) (request : Request) :
    Except SelectError Selection :=
  match schema.resolveModel? name with
  | some model => prune schema options model request
  | none => .ok .empty

/-- Prunes against the model of a name or alias, or else the fallback model. -/
def pruneRoot (schema : Schema) (options : Options) (name : String) (request : Request) :
    Except SelectError Selection :=
  let root := (schema.resolveModel? name).or (options.fallbackModel.bind schema.resolveModel?)
  match root with
  | some model => pruneNamed schema options model.name request
  | none => .error (.invalidRoot name)

/-! ## Requests as they are -/

mutual
/-- The selection a request spells out, whatever the schema declares. -/
def unpruned : Request → Selection
  | ⟨_, _, args, groups⟩ =>
    Selection.insertAll ⟨[], relationArguments args⟩ (unprunedGroups groups)
termination_by structural request => request

/-- What the sub-requests on several types contribute. -/
def unprunedGroups : List (String × List (String × Request)) → List (String × Selected)
  | [] => []
  | (_, fields) :: rest => unprunedFields fields ++ unprunedGroups rest
termination_by structural groups => groups

/-- What several sub-requests contribute, in order. -/
def unprunedFields : List (String × Request) → List (String × Selected)
  | [] => []
  | (_, field) :: rest =>
    let first :=
      if isMeta field.name then []
      else if field.isLeaf then [(field.name, .field)]
      else [(field.name, (unpruned field).toSelected)]
    first ++ unprunedFields rest
termination_by structural fields => fields
end

end Schematic
