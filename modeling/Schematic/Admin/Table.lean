import Schematic.Admin.Mutation

/-!
# Tables

Which rows of a model's table are fetched, by which queries, and what is shown
around them.
-/

namespace Schematic

open Json (Value)

/-! ## Pages -/

/-- The window of rows a table shows: so many, after so many others. -/
structure Page where
  take : UInt32
  skip : UInt32
  deriving DecidableEq, Repr

namespace Page

/-- The first page. -/
def first (settings : Settings) : Page :=
  ⟨settings.pageSize, 0⟩

/-- The window of the page at an index, for a size of pages. Rows beyond what
fits into 32 bits are not told apart. -/
def window (size index : UInt32) : Page :=
  ⟨size, UInt32.ofNat (min (size.toNat * index.toNat) (UInt32.size - 1))⟩

/-- Turns to a page: whether the window has changed, so that its rows have to be
fetched, and the window. -/
def fetchMore (page : Page) (size index : UInt32) : Bool × Page :=
  let next := window size index
  (next ≠ page, next)

end Page

/-- The number of pages for so many rows. Pages without rows hold none. -/
def pageCount (total : UInt64) (take : UInt32) : UInt64 :=
  if take = 0 then 0
  else UInt64.ofNat ((total.toNat + take.toNat - 1) / take.toNat)

namespace Table

/-! ## Queries and tabs -/

/-- The queries for the rows of a model's table and for their number. -/
def queries (model : Model) : String × String :=
  let rows := findManyStart ++ model.name
  (rows, rows ++ "Count")

/-- The relations shown below a record's form, each in a tab. -/
def relationTabs (model : Model) : List Field :=
  model.fields.filter fun f => f.isListRelation && f.updatable

/-- The field that points back to the model of a record, which is filled in when
another one is created from its tab. -/
def parentField? (model : Model) (parent : String) : Option Field :=
  model.fields.find? (·.type = parent)

/-! ## Connected rows -/

/-- Whether a row has an id, and this one. -/
def hasId (idName : String) (id : Value) (row : Record) : Bool :=
  match Keyed.get? idName row with
  | some v => v.same id
  | none => false

/-- The rows of a table that picks a related record: the one connected now comes
first, and is not repeated among the others. -/
def connectedRows (model : Model) (connected : Option Record) (rows : List Record) :
    List Record :=
  match connected, model.idName with
  | some (entry :: rest), some idName =>
    let record := entry :: rest
    record :: rows.filter fun row => !hasId idName (Mutation.entry record idName) row
  | _, _ => rows

end Table

end Schematic
