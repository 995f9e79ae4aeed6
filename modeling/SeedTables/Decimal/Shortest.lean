import SeedTables.Binary64

namespace SeedTables

structure Decimal where
  digits : Nat
  exponent : Int
  deriving DecidableEq

namespace Decimal

def value (d : Decimal) : Nat × Nat :=
  let (num, den) := Binary64.ratio 10 d.exponent
  (d.digits * num, den)

def trimZeros (d : Decimal) : Decimal :=
  if h : 0 < d.digits ∧ d.digits % 10 = 0 then trimZeros ⟨d.digits / 10, d.exponent + 1⟩ else d
termination_by d.digits
decreasing_by exact Nat.div_lt_self h.1 (by decide)

end Decimal

namespace Binary64

/-- The numbers that round to a double lie between two bounds, given in quarters of its spacing.
Just above a power of two the numbers below lie twice as close. -/
def lowerBound (x : Binary64) : Binary64 :=
  if x.mantissa = leastNormal ∧ leastExponent < x.exponent then
    ⟨4 * x.mantissa - 1, x.exponent - 2⟩
  else ⟨4 * x.mantissa - 2, x.exponent - 2⟩

def upperBound (x : Binary64) : Binary64 := ⟨4 * x.mantissa + 2, x.exponent - 2⟩

def compareValues (a b : Nat × Nat) : Ordering := compare (a.1 * b.2) (b.1 * a.2)

/-- The bounds themselves round to the double when its mantissa is even. -/
def roundsTo (d : Decimal) (x : Binary64) : Bool :=
  let closed := x.mantissa % 2 = 0
  let low := compareValues x.lowerBound.value d.value
  let high := compareValues d.value x.upperBound.value
  (low = .lt || (closed && low = .eq)) && (high = .lt || (closed && high = .eq))

def scaledUp (x : Binary64) (p : Nat) : Nat := x.value.1 * Nat.pow 10 p / x.value.2

/-- The greatest `e` with `10^e ≤ x`, for a positive double; all of them are above `10^(-324)`. -/
def floorLog10 (x : Binary64) : Int :=
  (Nat.toDigits 10 (x.scaledUp 324)).length - 325

def neighbours (x : Binary64) (e : Int) : Decimal × Decimal :=
  let (a, b) := ratio 10 e
  let q := x.value.1 * b / (x.value.2 * a)
  (⟨q, e⟩, ⟨q + 1, e⟩)

/-- The nearest multiple of `10^e`, an even one on a tie. -/
def nearestMultiple (x : Binary64) (e : Int) : Decimal :=
  let (a, b) := ratio 10 e
  ⟨roundDiv (x.value.1 * b) (x.value.2 * a), e⟩

def onGrid? (x : Binary64) (e : Int) : Option Decimal :=
  let near := x.nearestMultiple e
  let (low, high) := x.neighbours e
  [near, low, high].find? (roundsTo · x)

/-- Tries one digit, two digits, and so on; seventeen are enough for every double. -/
def shortest (x : Binary64) : Decimal :=
  if x.mantissa = 0 then ⟨0, 0⟩
  else
    let top := x.floorLog10
    match (List.range 17).findSome? (fun (n : Nat) => x.onGrid? (top - n)) with
    | some d => d.trimZeros
    | none => x.nearestMultiple (top - 16)

end Binary64

/-- How a decimal is laid out: exponents of the first digit between two bounds are written with a
point among the digits, others after the letter `e`. -/
structure Layout where
  leastPlain : Int
  greatestPlain : Int

namespace Decimal

/-- The decimal's text. A whole number keeps one zero after the point; an exponent has its sign. -/
def render (layout : Layout) (d : Decimal) : List Char :=
  let ds := Nat.toDigits 10 d.digits
  let first := d.exponent + ds.length - 1
  if layout.leastPlain ≤ first ∧ first ≤ layout.greatestPlain then
    if 0 ≤ d.exponent then ds ++ List.replicate d.exponent.toNat '0' ++ ['.', '0']
    else if 0 ≤ first then ds.take (first + 1).toNat ++ '.' :: ds.drop (first + 1).toNat
    else '0' :: '.' :: List.replicate (-first - 1).toNat '0' ++ ds
  else
    let point := if ds.length = 1 then ds else ds.take 1 ++ '.' :: ds.drop 1
    point ++ 'e' :: (if first < 0 then '-' else '+') :: Nat.toDigits 10 first.natAbs

end Decimal
end SeedTables
