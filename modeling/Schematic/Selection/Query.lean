import Schematic.Selection.Aggregate
import Schematic.Selection.Json

/-!
# Queries

A query is a request together with the type its field returns. Its selection is
the select argument of the data layer call that answers it.
-/

namespace Schematic

open Json (Value)

/-- A request for a field of a return type, to be pruned under options. -/
structure Query where
  schema : Schema
  request : Request
  /-- The return type without list and non-null marks. -/
  returnType : String
  options : Options

namespace Query

/-- A type name without list and non-null marks: `[User!]!` is `User`. -/
def bareType (type : String) : String :=
  String.ofList (type.toList.filter fun c => c ≠ '[' ∧ c ≠ ']' ∧ c ≠ '!')

/-- The query for a return type as it is declared. -/
def ofReturnType (schema : Schema) (request : Request) (returnType : String)
    (options : Options) : Query :=
  ⟨schema, request, bareType returnType, options⟩

/-- Whether the return type is an aggregate or group-by result. -/
def isAggregate (q : Query) : Bool :=
  (q.schema.aggregatedModel? q.returnType).isSome

/-- The selection of the whole request. -/
def selection (q : Query) : Except SelectError Selection :=
  match q.schema.aggregatedModel? q.returnType with
  | some model => .ok (Aggregate.select q.options model q.request)
  | none => pruneRoot q.schema q.options q.returnType q.request

/-- The select argument of the whole request. Groups are selected at the top. -/
def value (q : Query) : Except SelectError Value := do
  let selection ← q.selection
  return if q.isAggregate then selection.selectValue else selection.toValue

/-- The select argument of the whole request against another model. -/
def valueAs (q : Query) (model : String) : Except SelectError Value :=
  (pruneRoot q.schema q.options model q.request).map (·.toValue)

/-- The select argument of a part of the request: pruned against a model, or as
it is without one. A path that was not requested has an empty one, and nothing
is laid over that. -/
def valueOf (q : Query) (path : String) (model : Option String) (addition : Option Value) :
    Except SelectError Value :=
  match q.request.descend? path with
  | none => .ok (.object [])
  | some part => do
    let value ← match model with
      | some model => (pruneNamed q.schema q.options model part).map (·.toValue)
      | none => .ok (unpruned part).toValue
    return match addition with
      | some addition => value.merge addition
      | none => value

end Query

end Schematic
