/-! Finite floating-point numbers of 64 bits, as exact values. A number is a sign, a mantissa below
`2 ^ 53` and a power of two not below `2 ^ (-1074)`; arithmetic takes the exact result and rounds it
to the nearest number, a tie going to the even mantissa. -/

namespace SchemaBindings

/-- The number `± mantissa · 2 ^ exponent`. -/
structure Binary64 where
  negative : Bool
  mantissa : Nat
  exponent : Int
deriving DecidableEq, Repr

namespace Binary64

/-- The least exponent, which zero and the smallest numbers have. -/
def leastExponent : Int := -1074

/-- The greatest exponent of a finite number. -/
def greatestExponent : Int := 971

/-- Zero with a sign. -/
def zero (negative : Bool) : Binary64 := ⟨negative, 0, leastExponent⟩

/-- The quotient by `2 ^ e` as a fraction. -/
def scaledBy (num den : Nat) (e : Int) : Nat × Nat :=
  if e < 0 then (num <<< e.natAbs, den) else (num, den <<< e.natAbs)

/-- The exponent at which the mantissa of `num / den` has 53 bits, or the least one. -/
def exponentOf (num den : Nat) : Int :=
  let e := max ((num.log2 : Int) - den.log2 - 52) leastExponent
  let (n, d) := scaledBy num den e
  if n / d < Nat.pow 2 52 then max (e - 1) leastExponent else e

/-- A quotient rounded to the nearest natural number, ties to even. -/
def roundDiv (num den : Nat) : Nat :=
  let q := num / den
  let twice := 2 * (num % den)
  if twice < den then q else if twice = den then q + q % 2 else q + 1

/-- The number nearest to `± num / den`, if it is finite. -/
def ofRatio? (negative : Bool) (num den : Nat) : Option Binary64 :=
  if num = 0 then some (zero negative)
  else
    let e := exponentOf num den
    let (n, d) := scaledBy num den e
    let m := roundDiv n d
    let (m, e) := if m = Nat.pow 2 53 then (Nat.pow 2 52, e + 1) else (m, e)
    if e > greatestExponent then none
    else if m = 0 then some (zero negative)
    else some ⟨negative, m, e⟩

/-- The magnitude as a fraction. -/
def ratio (x : Binary64) : Nat × Nat :=
  if x.exponent < 0 then (x.mantissa, Nat.pow 2 x.exponent.natAbs)
  else (x.mantissa * Nat.pow 2 x.exponent.natAbs, 1)

/-- The rounded product, if it is finite. -/
def mul? (x y : Binary64) : Option Binary64 :=
  let (a, b) := x.ratio
  let (c, d) := y.ratio
  ofRatio? (x.negative != y.negative) (a * c) (b * d)

/-- The rounded quotient by a number other than zero, if it is finite. -/
def div? (x y : Binary64) : Option Binary64 :=
  let (a, b) := x.ratio
  let (c, d) := y.ratio
  ofRatio? (x.negative != y.negative) (a * d) (b * c)

/-- The rounded power of ten, if it is finite. -/
def pow10? (n : Nat) : Option Binary64 := ofRatio? false (Nat.pow 10 n) 1

/-- The number that `± significand · 10 ^ exponent` reads as. The significand is rounded first, and
then multiplied or divided by rounded powers of ten up to `10 ^ 308`. -/
def ofDecimal? (negative : Bool) (significand : Nat) (exponent : Int) : Option Binary64 := do
  let f ← ofRatio? negative significand 1
  if f.mantissa = 0 then return f
  if exponent > 308 then none
  else if 0 ≤ exponent then
    f.mul? (← pow10? exponent.natAbs)
  else if -308 ≤ exponent then
    f.div? (← pow10? exponent.natAbs)
  else if -616 ≤ exponent then
    let g ← f.div? (← pow10? 308)
    g.div? (← pow10? (exponent + 308).natAbs)
  else
    return zero negative

/-- Whether the number is at least an integer. -/
def atLeast (x : Binary64) (k : Int) : Bool :=
  let (n, d) := x.ratio
  if x.negative then k * (d : Int) ≤ -(n : Int) else k * (d : Int) ≤ (n : Int)

/-- Whether the number is greater than an integer. -/
def above (x : Binary64) (k : Int) : Bool :=
  let (n, d) := x.ratio
  if x.negative then k * (d : Int) < -(n : Int) else k * (d : Int) < (n : Int)

/-- Whether the number is an integer. -/
def isInteger (x : Binary64) : Bool :=
  let (n, d) := x.ratio
  n % d = 0

end Binary64

end SchemaBindings
