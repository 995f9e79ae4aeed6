namespace SeedTables

/-- The number `mantissa · 2^exponent`. -/
structure Binary64 where
  mantissa : Nat
  exponent : Int
  deriving DecidableEq

/-- The quotient of two numbers, rounded to the nearest number, a half to the even one. -/
def roundDiv (num den : Nat) : Nat :=
  let q := num / den
  let r := num % den
  if 2 * r < den then q
  else if den < 2 * r then q + 1
  else if q % 2 = 0 then q else q + 1

namespace Binary64

/-- The spacing of the numbers nearest to zero is `2^leastExponent`. -/
def leastExponent : Int := -1074

def greatestExponent : Int := 971

def leastNormal : Nat := Nat.pow 2 52

def zero : Binary64 := ⟨0, leastExponent⟩

/-- A power as a quotient: `base^e` over one, or one over `base^(-e)`. -/
def ratio (base : Nat) (e : Int) : Nat × Nat := (base.pow e.toNat, base.pow (-e).toNat)

def value (x : Binary64) : Nat × Nat :=
  let (num, den) := ratio 2 x.exponent
  (x.mantissa * num, den)

def floorLog2 (num den : Nat) : Int :=
  let e := (num.log2 : Int) - den.log2
  let (a, b) := ratio 2 e
  if num * b < den * a then e - 1 else e

/-- The double nearest to a quotient; `none` beyond the greatest double. -/
def nearest? (num den : Nat) : Option Binary64 :=
  if num = 0 then some zero
  else
    let e := max leastExponent (floorLog2 num den - 52)
    let (a, b) := ratio 2 e
    let m := roundDiv (num * b) (den * a)
    let x : Binary64 := if m = 2 * leastNormal then ⟨leastNormal, e + 1⟩ else ⟨m, e⟩
    if x.exponent ≤ greatestExponent then some x else none

def ofNat? (n : Nat) : Option Binary64 := nearest? n 1

def mul? (x y : Binary64) : Option Binary64 :=
  nearest? (x.value.1 * y.value.1) (x.value.2 * y.value.2)

def div? (x y : Binary64) : Option Binary64 :=
  nearest? (x.value.1 * y.value.2) (x.value.2 * y.value.1)

end Binary64
end SeedTables
