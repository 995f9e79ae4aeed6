import SeedTables.Json.Printer
import SeedTables.Text.Quoted

namespace SeedTables

inductive Record where
  | table
  | column
  | index
  | foreignKey
  deriving DecidableEq

def Record.name : Record → String
  | table => "struct TableSchema"
  | column => "struct ColumnSchema"
  | index => "struct IndexSchema"
  | foreignKey => "struct ForeignKey"

def Record.size : Record → Nat
  | table => 5
  | column => 5
  | index => 3
  | foreignKey => 2

inductive Shape where
  | string
  | boolean
  | sequence
  | map
  | record (r : Record)
  deriving DecidableEq

def Shape.name : Shape → String
  | string => "a string"
  | boolean => "a boolean"
  | sequence => "a sequence"
  | map => "a map"
  | record r => r.name

inductive ShapeError where
  | wrongShape (found : Json.Value) (expected : Shape)
  | missingMember (name : String)
  | repeatedMember (name : String)
  | tooFewElements (length : Nat) (record : Record)
  | tooManyElements (length : Nat)

/-- How a value is named in a message: lists by their kind, other values by what they are. -/
def Json.Value.described : Json.Value → String
  | .null => "null"
  | .bool b => "boolean `" ++ toString b ++ "`"
  | .number (.int n) => "integer `" ++ (Json.Number.int n).text ++ "`"
  | .number (.float negative size) =>
    "floating point `" ++ (Json.Number.float negative size).text ++ "`"
  | .string s => "string " ++ Text.quoted s
  | .array _ => "sequence"
  | .object _ => "map"

def ShapeError.message : ShapeError → String
  | wrongShape found expected =>
    "invalid type: " ++ found.described ++ ", expected " ++ expected.name
  | missingMember name => "missing field `" ++ name ++ "`"
  | repeatedMember name => "duplicate field `" ++ name ++ "`"
  | tooFewElements length record =>
    "invalid length " ++ toString length ++ ", expected " ++ record.name ++ " with "
      ++ toString record.size ++ " elements"
  | tooManyElements length =>
    "invalid length " ++ toString length ++ ", expected fewer elements in array"

namespace Json.Value

def asString : Json.Value → Except ShapeError String
  | .string s => .ok s
  | v => .error (.wrongShape v .string)

def asBool : Json.Value → Except ShapeError Bool
  | .bool b => .ok b
  | v => .error (.wrongShape v .boolean)

def asOption {α : Type} (decode : Json.Value → Except ShapeError α) :
    Json.Value → Except ShapeError (Option α)
  | .null => .ok none
  | v => (decode v).map some

def asList {α : Type} (decode : Json.Value → Except ShapeError α) :
    Json.Value → Except ShapeError (List α)
  | .array vs => vs.mapM decode
  | v => .error (.wrongShape v .sequence)

def asRow : Json.Value → Except ShapeError Members
  | .object ms => .ok ms
  | v => .error (.wrongShape v .map)

/-- A record, from its members by name or from its elements by place. -/
def asRecord {α : Type} (record : Record) (ofMembers : Members → Except ShapeError α)
    (ofElements : List Json.Value → Except ShapeError α) : Json.Value → Except ShapeError α
  | .object ms => ofMembers ms
  | .array vs => do
    let x ← ofElements vs
    if record.size < vs.length then throw (.tooManyElements vs.length)
    return x
  | v => .error (.wrongShape v (.record record))

end Json.Value

/-- A member found for the first time. -/
def Member.fill {α : Type} (name : String) (found : Option α) (value : Except ShapeError α) :
    Except ShapeError (Option α) :=
  match found with
  | some _ => .error (.repeatedMember name)
  | none => value.map some

def Member.required {α : Type} (name : String) : Option α → Except ShapeError α
  | some x => .ok x
  | none => .error (.missingMember name)

def Element.required {α : Type} (record : Record) (vs : List Json.Value) (i : Nat)
    (decode : Json.Value → Except ShapeError α) : Except ShapeError α :=
  match vs[i]? with
  | some v => decode v
  | none => .error (.tooFewElements i record)

/-- The element at a place, or a default behind the end. -/
def Element.optional {α : Type} (vs : List Json.Value) (i : Nat) (default : α)
    (decode : Json.Value → Except ShapeError α) : Except ShapeError α :=
  match vs[i]? with
  | some v => decode v
  | none => .ok default

end SeedTables
