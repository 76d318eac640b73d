import Schematic.Document.Basic
import Schematic.Text.Affix

/-!
# Naming rules

Some types and fields have a role that only their names give away:
`AggregateUser`, `UserGroupByOutputType`, `AffectedRowsOutput`, `findManyUser`.
The roles are read off the names once, when a schema is loaded, and all else
looks at the roles.
-/

namespace Schematic

/-- The name of the result of operations on many records. -/
def affectedRowsName : String := "AffectedRowsOutput"

/-- The start of the names of aggregate results. -/
def aggregateStart : String := "Aggregate"

/-- The end of the names of group-by results. -/
def groupByEnd : String := "GroupByOutputType"

/-- The start of the names of operations that find several records. -/
def findManyStart : String := "findMany"

/-- What a referenced type name stands for. -/
inductive TypeRole where
  | scalar
  /-- The aggregate result of a model. -/
  | aggregate (model : String)
  /-- The result of operations on many records. -/
  | affectedRows
  /-- A model, or an enum made from the data model. -/
  | model
  /-- Any other type: one the client library brings along. -/
  | library
  deriving DecidableEq, Repr

namespace TypeRole

/-- The role of a name in a place. Scalars are told by their place alone, and an
aggregate by its name even if a model is called so. -/
def ofName (name : String) (location : Location) (isModel : Bool) : TypeRole :=
  if location = .scalar then .scalar
  else match Text.afterStart? aggregateStart name with
    | some subject => .aggregate subject
    | none =>
      if name = affectedRowsName then .affectedRows
      else if isModel then .model
      else .library

end TypeRole

/-- The two roots of operations. -/
inductive Operation where
  | query
  | mutation
  deriving DecidableEq, Repr

/-- The role of an output type. -/
inductive OutputRole where
  | operation (root : Operation)
  | aggregate (model : String)
  | groupBy (model : String)
  | affectedRows
  | model
  | library
  deriving DecidableEq, Repr

namespace OutputRole

/-- The role of an output type by its name. A group-by result names a model
before its ending, so the ending alone is no group-by result. -/
def ofName (name : String) (isModel : Bool) : OutputRole :=
  if name = "Query" then .operation .query
  else if name = "Mutation" then .operation .mutation
  else if name = affectedRowsName then .affectedRows
  else match Text.afterStart? aggregateStart name with
    | some subject => .aggregate subject
    | none =>
      match Text.beforeEnd? groupByEnd name with
      | some subject =>
        if subject ≠ "" then .groupBy subject else if isModel then .model else .library
      | none => if isModel then .model else .library

/-- Whether the type is a root of operations. -/
def isOperation : OutputRole → Bool
  | operation _ => true
  | _ => false

/-- The model that an aggregate or group-by result sums up. -/
def aggregatedModel? : OutputRole → Option String
  | aggregate subject => some subject
  | groupBy subject => some subject
  | _ => none

end OutputRole

/-- The role of a field of an output type. -/
inductive FieldRole where
  /-- A search for several records, which has a counting companion. -/
  | findMany
  /-- An operation that gives the aggregate result of a model. -/
  | aggregate (model : String)
  | plain
  deriving DecidableEq, Repr

namespace FieldRole

/-- The role a name implies on its own. -/
def ofName (name : String) : FieldRole :=
  if Text.hasStart findManyStart name then .findMany else .plain

/-- The role of a field by its name, its type and the type it belongs to. Only
operations aggregate. -/
def ofField (name : String) (type : TypeRole) (parent : OutputRole) : FieldRole :=
  if ofName name = .findMany then .findMany
  else match type with
    | .aggregate model => if parent.isOperation then .aggregate model else .plain
    | _ => .plain

end FieldRole

end Schematic
