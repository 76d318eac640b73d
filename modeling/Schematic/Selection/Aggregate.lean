import Schematic.Selection.Prune

/-!
# Aggregates

Aggregate and group-by results have their groups (`_count`, `_avg`, ...) beside
the fields grouped by, without a model in between. What they select is decided
by the model they sum up.
-/

namespace Schematic

/-- The model that a return type sums up, if it is an aggregate or group-by
result. -/
def Schema.aggregatedModel? (s : Schema) (returnType : String) : Option Model := do
  let output ← s.findOutput? returnType
  s.findModel? (← output.role.aggregatedModel?)

namespace Aggregate

/-- The member of a count that stands for all records. -/
def allName : String := "_all"

/-- A list with every row of equal neighbours cut down to one of them. -/
def dropRepeats : List String → List String
  | [] => []
  | [last] => [last]
  | first :: second :: rest =>
    if first = second then dropRepeats (second :: rest)
    else first :: dropRepeats (second :: rest)

/-- Whether a model declares a name that is not excluded. -/
def selectable (model : Model) (excluded : List String) (name : String) : Bool :=
  (model.field? name).isSome && name ∉ excluded

/-- The requested members of a group that can be selected. -/
def members (model : Model) (excluded : List String) (group : Request) : List String :=
  dropRepeats <| (group.fields.map (·.name)).filter fun name =>
    selectable model excluded name || (group.name = countName && name = allName)

/-- What a sub-request contributes: a group if its name starts with an
underscore, and a field otherwise. -/
def contribution? (model : Model) (excluded : List String) (field : Request) :
    Option (String × Selected) :=
  if isMeta field.name then none
  else if Text.hasStart "_" field.name then
    match members model excluded field with
    | [] => none
    | names => some (field.name, .group names)
  else if selectable model excluded field.name then some (field.name, .field)
  else none

/-- The selection of an aggregate or group-by result of a model. -/
def select (options : Options) (model : Model) (request : Request) : Selection :=
  let excluded := options.exclusionsFor model.name request
  Selection.empty.insertAll (request.fields.filterMap (contribution? model excluded))

end Aggregate

end Schematic
