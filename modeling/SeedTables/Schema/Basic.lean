import SeedTables.Json.Value
import SeedTables.SqlType

namespace SeedTables

structure ForeignKey where
  table : String
  column : String
  deriving DecidableEq

/-- A column as declared. The type is kept as written. -/
structure Column where
  name : String
  type : String
  key : Bool := false
  nullable : Option Bool := none
  foreignKey : Option ForeignKey := none
  deriving DecidableEq

namespace Column

def asKey (c : Column) : Column := { c with key := true }

def withNullable (nullable : Bool) (c : Column) : Column := { c with nullable := some nullable }

def referring (table column : String) (c : Column) : Column :=
  { c with foreignKey := some ⟨table, column⟩ }

def sqlType? (c : Column) : Option SqlType := SqlType.ofDeclared? c.type

def find? (columns : List Column) (name : String) : Option Column :=
  columns.find? fun c => c.name = name

def declares (columns : List Column) (name : String) : Bool := (find? columns name).isSome

end Column

structure Index where
  name : String
  unique : Bool := false
  fields : List String
  deriving DecidableEq

abbrev Row := Json.Members

structure Schema where
  table : String
  columns : List Column
  indexes : List Index
  rows : List Row
  /-- Any value asks for a sequence beside the table. -/
  options : Option Json.Value

namespace Schema

def column? (s : Schema) (name : String) : Option Column := Column.find? s.columns name

def hasSequence (s : Schema) : Bool := s.options.isSome

end Schema

inductive NotNullRule where
  /-- `nullable: true` makes a column `NOT NULL`; documents use it for columns without nulls. -/
  | nullableTrue
  /-- `nullable: false` makes a column `NOT NULL`. -/
  | nullableFalse
  deriving DecidableEq

/-- A column that does not say whether it is nullable is never `NOT NULL`. -/
def NotNullRule.holds (rule : NotNullRule) (c : Column) : Bool :=
  match rule with
  | nullableTrue => c.nullable = some true
  | nullableFalse => c.nullable = some false

end SeedTables
