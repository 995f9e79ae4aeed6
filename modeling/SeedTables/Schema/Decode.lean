import SeedTables.Schema.Basic
import SeedTables.Schema.Shape

namespace SeedTables

open Json (Value Members)

/-- The members of a foreign key found so far. -/
structure ForeignKey.Draft where
  table : Option String := none
  column : Option String := none

namespace ForeignKey

def Draft.add (d : Draft) (m : String × Value) : Except ShapeError Draft :=
  if m.1 = "tableName" then
    (Member.fill "tableName" d.table m.2.asString).map fun table => { d with table }
  else if m.1 = "columnName" then
    (Member.fill "columnName" d.column m.2.asString).map fun column => { d with column }
  else .ok d

def Draft.finish (d : Draft) : Except ShapeError ForeignKey := do
  let table ← Member.required "tableName" d.table
  let column ← Member.required "columnName" d.column
  return { table, column }

def ofMembers (ms : Members) : Except ShapeError ForeignKey := do
  (← ms.foldlM Draft.add {}).finish

def ofElements (vs : List Value) : Except ShapeError ForeignKey := do
  let table ← Element.required .foreignKey vs 0 Value.asString
  let column ← Element.required .foreignKey vs 1 Value.asString
  return { table, column }

def ofValue : Value → Except ShapeError ForeignKey :=
  Value.asRecord .foreignKey ofMembers ofElements

end ForeignKey

structure Column.Draft where
  name : Option String := none
  type : Option String := none
  key : Option Bool := none
  nullable : Option (Option Bool) := none
  foreignKey : Option (Option ForeignKey) := none

namespace Column

def Draft.add (d : Draft) (m : String × Value) : Except ShapeError Draft :=
  if m.1 = "columnName" then
    (Member.fill "columnName" d.name m.2.asString).map fun name => { d with name }
  else if m.1 = "type" then
    (Member.fill "type" d.type m.2.asString).map fun type => { d with type }
  else if m.1 = "key" then
    (Member.fill "key" d.key m.2.asBool).map fun key => { d with key }
  else if m.1 = "nullable" then
    (Member.fill "nullable" d.nullable (m.2.asOption Value.asBool)).map fun nullable =>
      { d with nullable }
  else if m.1 = "foreignKey" then
    (Member.fill "foreignKey" d.foreignKey (m.2.asOption ForeignKey.ofValue)).map fun foreignKey =>
      { d with foreignKey }
  else .ok d

def Draft.finish (d : Draft) : Except ShapeError Column := do
  let name ← Member.required "columnName" d.name
  let type ← Member.required "type" d.type
  return {
    name, type
    key := d.key.getD false
    nullable := d.nullable.getD none
    foreignKey := d.foreignKey.getD none }

def ofMembers (ms : Members) : Except ShapeError Column := do
  (← ms.foldlM Draft.add {}).finish

def ofElements (vs : List Value) : Except ShapeError Column := do
  let name ← Element.required .column vs 0 Value.asString
  let type ← Element.required .column vs 1 Value.asString
  let key ← Element.optional vs 2 false Value.asBool
  let nullable ← Element.optional vs 3 none (Value.asOption Value.asBool)
  let foreignKey ← Element.optional vs 4 none (Value.asOption ForeignKey.ofValue)
  return { name, type, key, nullable, foreignKey }

def ofValue : Value → Except ShapeError Column := Value.asRecord .column ofMembers ofElements

end Column

structure Index.Draft where
  name : Option String := none
  unique : Option Bool := none
  fields : Option (List String) := none

namespace Index

def Draft.add (d : Draft) (m : String × Value) : Except ShapeError Draft :=
  if m.1 = "name" then
    (Member.fill "name" d.name m.2.asString).map fun name => { d with name }
  else if m.1 = "unique" then
    (Member.fill "unique" d.unique m.2.asBool).map fun unique => { d with unique }
  else if m.1 = "fields" then
    (Member.fill "fields" d.fields (m.2.asList Value.asString)).map fun fields => { d with fields }
  else .ok d

def Draft.finish (d : Draft) : Except ShapeError Index := do
  let name ← Member.required "name" d.name
  let fields ← Member.required "fields" d.fields
  return { name, unique := d.unique.getD false, fields }

def ofMembers (ms : Members) : Except ShapeError Index := do
  (← ms.foldlM Draft.add {}).finish

def ofElements (vs : List Value) : Except ShapeError Index := do
  let name ← Element.required .index vs 0 Value.asString
  let unique ← Element.optional vs 1 false Value.asBool
  let fields ← Element.required .index vs 2 (Value.asList Value.asString)
  return { name, unique, fields }

def ofValue : Value → Except ShapeError Index := Value.asRecord .index ofMembers ofElements

end Index

structure Schema.Draft where
  table : Option String := none
  columns : Option (List Column) := none
  indexes : Option (List Index) := none
  rows : Option (List Row) := none
  options : Option (Option Value) := none

namespace Schema

/-- The columns may be called `schema` too, but not be given under both names. -/
def Draft.add (d : Draft) (m : String × Value) : Except ShapeError Draft :=
  if m.1 = "tableName" then
    (Member.fill "tableName" d.table m.2.asString).map fun table => { d with table }
  else if m.1 = "columns" ∨ m.1 = "schema" then
    (Member.fill "columns" d.columns (m.2.asList Column.ofValue)).map fun columns =>
      { d with columns }
  else if m.1 = "indexes" then
    (Member.fill "indexes" d.indexes (m.2.asList Index.ofValue)).map fun indexes =>
      { d with indexes }
  else if m.1 = "rows" then
    (Member.fill "rows" d.rows (m.2.asList Value.asRow)).map fun rows => { d with rows }
  else if m.1 = "options" then
    (Member.fill "options" d.options (m.2.asOption .ok)).map fun options => { d with options }
  else .ok d

def Draft.finish (d : Draft) : Except ShapeError Schema := do
  let table ← Member.required "tableName" d.table
  let columns ← Member.required "columns" d.columns
  let rows ← Member.required "rows" d.rows
  return {
    table, columns
    indexes := d.indexes.getD []
    rows
    options := d.options.getD none }

def ofMembers (ms : Members) : Except ShapeError Schema := do
  (← ms.foldlM Draft.add {}).finish

def ofElements (vs : List Value) : Except ShapeError Schema := do
  let table ← Element.required .table vs 0 Value.asString
  let columns ← Element.required .table vs 1 (Value.asList Column.ofValue)
  let indexes ← Element.optional vs 2 [] (Value.asList Index.ofValue)
  let rows ← Element.required .table vs 3 (Value.asList Value.asRow)
  let options ← Element.optional vs 4 none (Value.asOption .ok)
  return { table, columns, indexes, rows, options }

/-- The schema of a document, without a look at what it refers to. -/
def ofValue : Value → Except ShapeError Schema := Value.asRecord .table ofMembers ofElements

end Schema
end SeedTables
