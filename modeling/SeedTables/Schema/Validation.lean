import SeedTables.Json.Reader
import SeedTables.Schema.Decode

namespace SeedTables

/-- Why nothing can be had from a document: its text is no JSON, or its value has a wrong shape. -/
inductive DocumentFault where
  | unreadable (e : Json.ReadError)
  | misshapen (e : ShapeError)

def DocumentFault.message : DocumentFault → String
  | unreadable e => e.message
  | misshapen e => e.message

inductive SchemaFault where
  | document (fault : DocumentFault)
  | emptyName
  | noColumns
  | repeatedColumn (name : String)
  | emptyRow (position : Nat)
  | undeclaredInRow (position : Nat) (name : String)
  | emptyIndex (index : String)
  | undeclaredInIndex (index field : String)
  | repeatedTable (name : String)
  | described (text : String)

def SchemaFault.message : SchemaFault → String
  | document fault => fault.message
  | emptyName => "tableName is empty"
  | noColumns => "table declares no columns"
  | repeatedColumn name => "column '" ++ name ++ "' is declared twice"
  | emptyRow position => "row " ++ toString position ++ " has no values"
  | undeclaredInRow position name =>
    "row " ++ toString position ++ " references undeclared column '" ++ name ++ "'"
  | emptyIndex index => "index '" ++ index ++ "' has no fields"
  | undeclaredInIndex index field =>
    "index '" ++ index ++ "' references undeclared column '" ++ field ++ "'"
  | repeatedTable name => "table '" ++ name ++ "' is defined more than once"
  | described text => text

namespace Schema

def firstRepeated? (seen : List String) : List String → Option String
  | [] => none
  | name :: names =>
    if name ∈ seen then some name else firstRepeated? (name :: seen) names

/-- A row has values, all of declared columns. -/
def rowFault? (columns : List Column) (position : Nat) (row : Row) : Option SchemaFault :=
  if row.isEmpty then some (.emptyRow position)
  else ((row.map Prod.fst).find? fun name => !Column.declares columns name).map
    (.undeclaredInRow position)

def indexFault? (columns : List Column) (index : Index) : Option SchemaFault :=
  if index.fields.isEmpty then some (.emptyIndex index.name)
  else (index.fields.find? fun field => !Column.declares columns field).map
    (.undeclaredInIndex index.name)

def fault? (s : Schema) : Option SchemaFault :=
  if Text.isBlankText s.table.toList then some .emptyName
  else if s.columns.isEmpty then some .noColumns
  else
    ((firstRepeated? [] (s.columns.map Column.name)).map .repeatedColumn).or <|
      (s.rows.zipIdx.findSome? fun (row, position) => rowFault? s.columns position row).or <|
        s.indexes.findSome? (indexFault? s.columns)

def ofDocument (document : Json.Value) : Except SchemaFault Schema := do
  let s ← (ofValue document).mapError (.document <| .misshapen ·)
  match s.fault? with
  | some fault => throw fault
  | none => return s

def ofText (text : String) : Except SchemaFault Schema := do
  let document ← (Json.Value.ofText text).mapError (.document <| .unreadable ·)
  ofDocument document

end Schema
end SeedTables
