import SeedTables.Decimal.Shortest
import SeedTables.Json.Value

namespace SeedTables.Json

/-- Doubles from `0.00001` to below `10^16` are written out. -/
def numberLayout : Layout := ⟨-5, 15⟩

/-- A number's text: its digits, or the shortest decimal that reads back as the double. -/
def Number.text : Number → String
  | int n => toString n
  | float negative size =>
    String.ofList ((if negative then ['-'] else []) ++ size.shortest.render numberLayout)

def escapedChar (c : Char) : List Char :=
  if c = '"' then ['\\', '"']
  else if c = '\\' then ['\\', '\\']
  else if c = '\x08' then ['\\', 'b']
  else if c = '\t' then ['\\', 't']
  else if c = '\n' then ['\\', 'n']
  else if c = '\x0c' then ['\\', 'f']
  else if c = '\r' then ['\\', 'r']
  else if c.toNat < 0x20 then
    ['\\', 'u', '0', '0'] ++ [Nat.digitChar (c.toNat / 16), Nat.digitChar (c.toNat % 16)]
  else [c]

def stringText (s : String) : List Char := '"' :: s.toList.flatMap escapedChar ++ ['"']

mutual

def Value.chars : Value → List Char
  | .null => ['n', 'u', 'l', 'l']
  | .bool true => ['t', 'r', 'u', 'e']
  | .bool false => ['f', 'a', 'l', 's', 'e']
  | .number n => n.text.toList
  | .string s => stringText s
  | .array [] => ['[', ']']
  | .array (v :: vs) => '[' :: v.chars ++ elementChars vs
  | .object [] => ['{', '}']
  | .object ((key, v) :: ms) => '{' :: stringText key ++ ':' :: v.chars ++ memberChars ms

/-- The elements behind the first one, each with its comma, and the closing bracket. -/
def elementChars : List Value → List Char
  | [] => [']']
  | v :: vs => ',' :: v.chars ++ elementChars vs

def memberChars : List (String × Value) → List Char
  | [] => ['}']
  | (key, v) :: ms => ',' :: stringText key ++ ':' :: v.chars ++ memberChars ms

end

def Value.text (v : Value) : String := String.ofList v.chars

end SeedTables.Json
