import SeedTables.RawPath
import SeedTables.Schema.Basic

namespace SeedTables

structure ColumnDef where
  name : String
  type : String
  primaryKey : Bool
  notNull : Bool
  references : Option ForeignKey
  deriving DecidableEq

/-- A value in a list of values. A quote inside a quoted one is not escaped. -/
inductive Literal where
  | quoted (text : String)
  | bare (text : String)
  deriving DecidableEq

structure IndexDef where
  name : String
  unique : Bool
  table : String
  fields : List String
  deriving DecidableEq

structure Insert where
  table : String
  columns : List String
  values : List Literal
  deriving DecidableEq

inductive Statement where
  | createTable (table : String) (columns : List ColumnDef)
  | exportTable (table : String) (path : RawPath)
  | createSequence (table : String)
  | createIndex (index : IndexDef)
  | insert (row : Insert)
  deriving DecidableEq

/-- The modifiers of a column follow its type in a fixed order. -/
def ColumnDef.text (c : ColumnDef) : String :=
  c.name ++ " " ++ c.type
    ++ (if c.primaryKey then " PRIMARY KEY" else "")
    ++ (if c.notNull then " NOT NULL" else "")
    ++ (match c.references with
        | some key => " REFERENCES " ++ key.table ++ "(" ++ key.column ++ ")"
        | none => "")

def columnList (columns : List ColumnDef) : String :=
  String.intercalate ", " (columns.map ColumnDef.text)

def Literal.text : Literal → String
  | quoted text => "'" ++ text ++ "'"
  | bare text => text

def IndexDef.text (i : IndexDef) : String :=
  "CREATE INDEX " ++ i.name ++ (if i.unique then " UNIQUE" else "") ++ " ON " ++ i.table
    ++ " (" ++ String.intercalate ", " i.fields ++ ");"

def Insert.text (i : Insert) : String :=
  "INSERT INTO " ++ i.table ++ " (" ++ String.intercalate "," i.columns ++ ") values ("
    ++ String.intercalate "," (i.values.map Literal.text) ++ ");"

namespace Statement

def table : Statement → String
  | createTable table _ => table
  | exportTable table _ => table
  | createSequence table => table
  | createIndex index => index.table
  | insert row => row.table

def text : Statement → String
  | createTable table columns => "CREATE TABLE " ++ table ++ " (" ++ columnList columns ++ ");"
  | exportTable table path =>
    "copy (select * from " ++ table ++ ") to '" ++ path.text ++ "' (format 'parquet');"
  | createSequence table => "CREATE SEQUENCE " ++ table ++ "_sequence START 1;"
  | createIndex index => index.text
  | insert row => row.text

inductive Kind where
  | createTable
  | exportTable
  | createSequence
  | createIndex
  | insert
  deriving DecidableEq

def kind : Statement → Kind
  | createTable .. => .createTable
  | exportTable .. => .exportTable
  | createSequence _ => .createSequence
  | createIndex _ => .createIndex
  | insert _ => .insert

/-- The kinds of statements that define a table; the others index it or fill it. -/
def Kind.defines : Kind → Bool
  | createTable | exportTable | createSequence => true
  | createIndex | insert => false

end Statement
end SeedTables
