import SeedTables.Json.Numeral

namespace SeedTables.Json

/-- A value as a text has it: numbers by their tokens, objects with repeated members. -/
inductive Written where
  | null
  | bool (b : Bool)
  | number (n : Numeral)
  | string (s : String)
  | array (elements : List Written)
  | object (members : List (String × Written))

namespace Written

mutual

def value : Written → Value
  | null => .null
  | bool b => .bool b
  | number n => .number n.number
  | string s => .string s
  | array elements => .array (values elements)
  | object members => .object (Members.ofList (memberValues members))

def values : List Written → List Value
  | [] => []
  | w :: rest => w.value :: values rest

def memberValues : List (String × Written) → List (String × Value)
  | [] => []
  | (key, w) :: rest => (key, w.value) :: memberValues rest

end

end Written
end SeedTables.Json
