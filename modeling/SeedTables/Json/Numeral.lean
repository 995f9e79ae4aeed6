import SeedTables.Json.Value

namespace SeedTables.Json

structure ExponentPart where
  negative : Bool
  digits : List Char
  deriving DecidableEq

/-- A number as written. There are no digits behind the point when there is no point. -/
structure NumberToken where
  negative : Bool
  whole : List Char
  fraction : List Char
  exponent : Option ExponentPart
  deriving DecidableEq

def greatestWord : Nat := Nat.pow 2 64 - 1

def greatestPower : Nat := 308

def digitValue (c : Char) : Nat := c.toNat - '0'.toNat

def natural (digits : List Char) : Nat := digits.foldl (fun n d => 10 * n + digitValue d) 0

/-- Appends digits to a number as long as it fits a word; the digits from the first that does not
fit are left. -/
def absorb (n : Nat) : List Char → Nat × List Char
  | [] => (n, [])
  | d :: ds =>
    if 10 * n + digitValue d ≤ greatestWord then absorb (10 * n + digitValue d) ds
    else (n, d :: ds)

def ExponentPart.value (e : ExponentPart) : Int :=
  if e.negative then -(natural e.digits) else natural e.digits

/-- A double times `10^e`, by one rounded multiplication or division where the power is a double,
otherwise by division in steps; `none` beyond the greatest double. -/
def scale? (x : Binary64) (e : Int) : Option Binary64 :=
  if e.natAbs ≤ greatestPower then do
    let power ← Binary64.ofNat? (Nat.pow 10 e.natAbs)
    if 0 ≤ e then x.mul? power else x.div? power
  else if x.mantissa = 0 then some x
  else if 0 < e then none
  else do
    let power ← Binary64.ofNat? (Nat.pow 10 greatestPower)
    let y ← x.div? power
    scale? y (e + greatestPower)
termination_by e.natAbs
decreasing_by simp only [greatestPower] at *; omega

namespace NumberToken

/-- A token of digits alone that fits a word is read as a whole number, a negative one down to
`-2^63`; minus zero is a double. -/
def value? (t : NumberToken) : Option Number :=
  let (word, dropped) := absorb 0 t.whole
  if t.fraction = [] ∧ t.exponent = none ∧ dropped = [] then
    if !t.negative then some (.int word)
    else if 0 < word ∧ word ≤ Nat.pow 2 63 then some (.int (-word))
    else (Binary64.ofNat? word).map (.float true)
  else do
    let (word, left) := absorb word t.fraction
    let shift : Int := dropped.length - (t.fraction.length - left.length : Nat)
    let written := (t.exponent.map ExponentPart.value).getD 0
    let x ← Binary64.ofNat? word
    let size ← scale? x (shift + written)
    return .float t.negative size

end NumberToken

structure Numeral where
  token : NumberToken
  number : Number
  value?_token : token.value? = some number

end SeedTables.Json
