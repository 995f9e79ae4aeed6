import SeedTables.Binary64

namespace SeedTables.Json

/-- Whole numbers are exact; other numbers are doubles, zero with its sign. -/
inductive Number where
  | int (n : Int)
  | float (negative : Bool) (size : Binary64)
  deriving DecidableEq

inductive Value where
  | null
  | bool (b : Bool)
  | number (n : Number)
  | string (s : String)
  | array (elements : List Value)
  | object (members : List (String × Value))

abbrev Members := List (String × Value)

namespace Members

/-- Puts a member: at the place of its key if it has one, at the end otherwise. -/
def put (key : String) (value : Value) : Members → Members
  | [] => [(key, value)]
  | m :: rest => if m.1 = key then (key, value) :: rest else m :: put key value rest

def ofList (members : List (String × Value)) : Members :=
  members.foldl (fun ms m => put m.1 m.2 ms) []

end Members
end SeedTables.Json
