import SeedTables.Text.Blank

namespace SeedTables

inductive SqlType where
  | varchar
  | text
  | integer
  | boolean
  | float
  | decimal
  | date
  | time
  | timestamp
  | interval
  | uuid
  | blob
  | json
  deriving DecidableEq

namespace SqlType

def vocabulary : List (String × SqlType) :=
  [("varchar", varchar),
   ("char", text), ("bpchar", text), ("text", text), ("string", text),
   ("tinyint", integer), ("smallint", integer), ("integer", integer), ("int", integer),
   ("bigint", integer), ("hugeint", integer), ("utinyint", integer), ("usmallint", integer),
   ("uinteger", integer), ("ubigint", integer), ("uhugeint", integer), ("int1", integer),
   ("int2", integer), ("int4", integer), ("int8", integer),
   ("boolean", boolean), ("bool", boolean),
   ("float", float), ("real", float), ("double", float), ("float4", float), ("float8", float),
   ("decimal", decimal), ("numeric", decimal),
   ("date", date),
   ("time", time),
   ("timestamp", timestamp), ("datetime", timestamp), ("timestamptz", timestamp),
   ("timestamp with time zone", timestamp),
   ("interval", interval),
   ("uuid", uuid),
   ("blob", blob), ("bytea", blob),
   ("json", json)]

/-- The text before the first parenthesis, without the blanks around it, in lower case. Only ASCII
letters have a lower case here. -/
def baseName (declared : String) : String :=
  String.ofList ((Text.trim (declared.toList.takeWhile (· ≠ '('))).map Char.toLower)

def ofDeclared? (declared : String) : Option SqlType := vocabulary.lookup (baseName declared)

/-- Values of a varchar stand between quotes; all others are written as they are. -/
def isQuoted (t : SqlType) : Bool := t = varchar

end SqlType
end SeedTables
