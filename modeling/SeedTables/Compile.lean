import SeedTables.Error
import SeedTables.Statement

namespace SeedTables

structure CompileOptions where
  outputDir : RawPath
  notNull : NotNullRule

/-- The statements of one table: those that define it, and those that index and fill it. -/
structure TableStatements where
  definitions : List Statement
  data : List Statement

def ColumnDef.ofColumn (rule : NotNullRule) (c : Column) : ColumnDef where
  name := c.name
  type := c.type
  primaryKey := c.key
  notNull := rule.holds c
  references := c.foreignKey

/-- The text of a value that is neither an array nor an object. -/
def Json.Value.literalText? : Json.Value → Option String
  | .string s => some s
  | .number n => some n.text
  | .bool b => some (toString b)
  | .null => some "null"
  | .array _ => none
  | .object _ => none

def Literal.ofValue (table : String) (column : Column) (value : Json.Value) :
    Except Error Literal :=
  match column.sqlType? with
  | none => .error (.unsupportedType table column.name column.type)
  | some type =>
    match value.literalText? with
    | none => .error (.unsupportedValue table column.name)
    | some text => .ok (if type.isQuoted then .quoted text else .bare text)

/-- One cell of a row, by the first column of its name. -/
def Literal.ofCell (table : String) (columns : List Column) (cell : String × Json.Value) :
    Except Error Literal :=
  match Column.find? columns cell.1 with
  | none => .error (.unknownColumn table cell.1)
  | some column => ofValue table column cell.2

/-- The insert of a row. Columns and values follow the row's own order. -/
def Insert.ofRow (table : String) (columns : List Column) (row : Row) : Except Error Insert := do
  let values ← row.mapM (Literal.ofCell table columns)
  return { table, columns := row.map Prod.fst, values }

def IndexDef.ofIndex (table : String) (columns : List Column) (index : Index) :
    Except Error IndexDef :=
  match index.fields.find? fun field => !Column.declares columns field with
  | some field => .error (.unknownColumn table field)
  | none => .ok { name := index.name, unique := index.unique, table, fields := index.fields }

namespace Schema

def exportPath (s : Schema) (outputDir : RawPath) : RawPath :=
  outputDir.join (s.table ++ ".parquet")

def definitions (s : Schema) (options : CompileOptions) : List Statement :=
  .createTable s.table (s.columns.map (ColumnDef.ofColumn options.notNull)) ::
    .exportTable s.table (s.exportPath options.outputDir) ::
      if s.hasSequence then [.createSequence s.table] else []

/-- The statements of a table; all of its indexes come before all of its rows. -/
def compile (s : Schema) (options : CompileOptions) : Except Error TableStatements := do
  let indexes ← s.indexes.mapM (IndexDef.ofIndex s.table s.columns)
  let inserts ← s.rows.mapM (Insert.ofRow s.table s.columns)
  return {
    definitions := s.definitions options
    data := indexes.map .createIndex ++ inserts.map .insert }

end Schema
end SeedTables
