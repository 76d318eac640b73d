import Schematic.Admin.Settings
import Schematic.Admin.Value

/-!
# Mutations

The data and variables of the mutations that record forms and tables send. A
relation is sent as a connection to the record it points to, by the field that
tells the records of its model apart; an update sends only what has changed.
-/

namespace Schematic

open Json (Value)

/-- A record as a form or a table row holds it. -/
abbrev Record := Keyed Value

namespace Mutation

/-- The model of a name. -/
def model (schema : Schema) (name : String) : Except AdminError Model :=
  match schema.findModel? name with
  | some model => .ok model
  | none => .error (.unknownModel name)

theorem model_of_findModel? {schema : Schema} {name : String} {m : Model}
    (h : schema.findModel? name = some m) : model schema name = .ok m := by
  rw [model, h]

/-- The field that tells the records of a model apart. -/
def idField (model : Model) : Except AdminError Field :=
  match model.idField? with
  | some field => .ok field
  | none => .error (.missingIdField model.name)

/-- The entry of a record; a missing one is null. -/
def entry (record : Record) (key : String) : Value :=
  (Keyed.get? key record).getD .null

/-- The connection of a relation to the record in a value. Ids are never wrapped
in a `set`. -/
def connect (schema : Schema) (field : Field) (writing : Writing) (v : Value) :
    Except AdminError Value := do
  let target ← model schema field.type
  let id ← idField target
  let writing := match writing with
    | .create => .create
    | .update _ => .update false
  let key ← FormValue.coerce (some id) writing ((v.member? id.name).getD .null)
  return .object [("connect", .object [(id.name, key)])]

/-! ## Create -/

/-- What an entry of a form adds to the data of a new record. A relation that is
not set adds nothing. -/
def createEntry (schema : Schema) (model : Model) (entry : String × Value) :
    Except AdminError (Option (String × Value)) :=
  let plain := (FormValue.coerce (model.field? entry.1) .create entry.2).map
    fun v => some (entry.1, v)
  match model.field? entry.1 with
  | some field =>
    if field.isRelation then
      if entry.2.isNull then .ok none
      else (connect schema field .create entry.2).map fun v => some (entry.1, v)
    else plain
  | none => plain

/-- The data of a mutation that creates a record. -/
def createData (schema : Schema) (modelName : String) (form : Record) :
    Except AdminError Record := do
  let model ← model schema modelName
  let entries ← form.mapM (createEntry schema model)
  return entries.filterMap id

/-! ## Update -/

/-- Whether the records two values hold differ in an entry, or one lacks it. -/
def differAt (key : String) (a b : Value) : Bool :=
  match a.member? key, b.member? key with
  | some x, some y => !x.same y
  | none, none => false
  | _, _ => true

/-- What has become of a relation: set, cleared, pointed to another record, or
nothing. -/
def updateRelation (schema : Schema) (field : Field) (writing : Writing) (previous v : Value) :
    Except AdminError (Option Value) :=
  match v.isNull, previous.isNull with
  | true, true => .ok none
  | true, false => .ok (some (.object [("disconnect", .bool true)]))
  | false, true => (connect schema field writing v).map some
  | false, false => do
    let id ← idField (← model schema field.type)
    if differAt id.name v previous then
      let connection ← connect schema field writing v
      return some connection
    else return none

/-- What an entry of a record adds to the data of its update: nothing unless its
field is declared, may be updated, and has changed. -/
def updateEntry (schema : Schema) (model : Model) (writing : Writing) (old : Record)
    (entry : String × Value) : Except AdminError (Option (String × Value)) :=
  match (model.field? entry.1).filter (·.updatable) with
  | none => .ok none
  | some field =>
    let previous := Mutation.entry old entry.1
    let changed : Except AdminError (Option Value) :=
      if field.isRelation then updateRelation schema field writing previous entry.2
      else if entry.2.same previous then .ok none
      else (FormValue.coerce (some field) writing entry.2).map some
    changed.map fun v => v.map (entry.1, ·)

/-- The data of a mutation that updates a record; none if nothing has changed. -/
def updateData (schema : Schema) (modelName : String) (old new : Record) (settings : Settings) :
    Except AdminError (Option Record) := do
  let model ← model schema modelName
  let entries ← new.mapM (updateEntry schema model (.update settings.useSet) old)
  return match entries.filterMap id with
    | [] => none
    | data => some data

/-! ## Variables -/

/-- The variables that name one record by its id. -/
def deleteVariables (schema : Schema) (modelName : String) (id : Value) :
    Except AdminError (Keyed Value) := do
  let model ← model schema modelName
  let field ← idField model
  return [("where", .object [(field.name, id)])]

/-- The variables of a mutation that updates a record. -/
def recordVariables (schema : Schema) (modelName : String) (record data : Record) :
    Except AdminError (Keyed Value) := do
  let model ← model schema modelName
  let field ← idField model
  let target ← deleteVariables schema modelName (entry record field.name)
  return Keyed.put target "data" (.object data)

end Mutation

end Schematic
