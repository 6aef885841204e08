import SchemaBindings.Decimal.Binary64

/-! The shortest decimal that reads back as a floating-point number. Every real number of an
interval around the value rounds to it; for one, two, … digits the two neighbours of the value on
that decimal grid are tried, and the first grid with a hit wins. -/

namespace SchemaBindings.Decimal

/-- The decimal digits of a natural number. -/
def digits (n : Nat) : List Char := Nat.toDigits 10 n

/-- A decimal `d₀.d₁d₂… · 10 ^ exponent`. -/
structure Scientific where
  digits : List Char
  exponent : Int

/-- The exponent of the leading digit of a fraction that is at least `10 ^ (-400)`. -/
def leadingExponent (num den : Nat) : Int :=
  ((digits (num * Nat.pow 10 400 / den)).length : Int) - 401

/-- The reals that round to a number: its value and the two ends, in units of a quarter of the
least step, and whether the ends belong. -/
structure Interval where
  value : Nat
  low : Nat
  high : Nat
  closed : Bool
  unitExponent : Int

/-- Below a power of two the numbers lie twice as close. -/
def Interval.ofBinary (x : Binary64) : Interval where
  value := 4 * x.mantissa
  low := 4 * x.mantissa -
    (if x.mantissa = Nat.pow 2 52 ∧ Binary64.leastExponent < x.exponent then 1 else 2)
  high := 4 * x.mantissa + 2
  closed := x.mantissa % 2 = 0
  unitExponent := x.exponent - 2

/-- `a · 2 ^ e` as a fraction. -/
def binaryFraction (a : Nat) (e : Int) : Nat × Nat :=
  if e < 0 then (a, Nat.pow 2 e.natAbs) else (a * Nat.pow 2 e.natAbs, 1)

/-- `a · 10 ^ e` as a fraction. -/
def decimalFraction (a : Nat) (e : Int) : Nat × Nat :=
  if e < 0 then (a, Nat.pow 10 e.natAbs) else (a * Nat.pow 10 e.natAbs, 1)

/-- Whether `a · 10 ^ k` lies in the interval. -/
def Interval.holds (i : Interval) (a : Nat) (k : Int) : Bool :=
  let (n, d) := decimalFraction a k
  let (l, ld) := binaryFraction i.low i.unitExponent
  let (h, hd) := binaryFraction i.high i.unitExponent
  if i.closed then l * d ≤ n * ld && n * hd ≤ h * d
  else l * d < n * ld && n * hd < h * d

/-- The point on the grid of `n` digits that lies nearest to the value, if it is in the interval.
A tie goes to the even digit. -/
def Interval.onGrid? (i : Interval) (lead : Int) (n : Nat) : Option (Nat × Int) :=
  let k := lead - (n : Int) + 1
  let (v, vd) := binaryFraction i.value i.unitExponent
  let (p, pd) := decimalFraction 1 k
  let below := v * pd / (vd * p)
  let twiceRest := 2 * (v * pd % (vd * p))
  let nearer :=
    if twiceRest < vd * p then below
    else if twiceRest = vd * p then below + below % 2
    else below + 1
  let other := if nearer = below then below + 1 else below
  if i.holds nearer k then some (nearer, k)
  else if i.holds other k then some (other, k)
  else none

/-- The first grid from `n` digits on that has a hit; `steps` grids are tried. -/
def Interval.search (i : Interval) (lead : Int) : (steps n : Nat) → Option (Nat × Int)
  | 0, _ => none
  | steps + 1, n =>
    match i.onGrid? lead n with
    | some hit => some hit
    | none => i.search lead steps (n + 1)

/-- Drops zeros at the end of some digits. -/
def dropTrailingZeros (ds : List Char) : List Char :=
  (ds.reverse.dropWhile (· = '0')).reverse

/-- The decimal of the point that a search ends with. -/
def ofHit : Option (Nat × Int) → Scientific
  | some (a, k) => ⟨dropTrailingZeros (digits a), k + ((digits a).length : Int) - 1⟩
  | none => ⟨['0'], 0⟩

/-- The shortest decimal of a number other than zero. Seventeen digits always suffice. -/
def shortest (x : Binary64) : Scientific :=
  let i := Interval.ofBinary x
  let value := binaryFraction i.value i.unitExponent
  ofHit (i.search (leadingExponent value.1 value.2) 17 1)

/-- How a decimal is written: which exponents of the leading digit are positional, and the mark of
the exponent with the signs that it takes. -/
structure Style where
  leastPositional : Int
  greatestPositional : Int
  mark : String
  plus : String

/-- Positional notation, with at least one digit on either side of the point. -/
def positional (s : Scientific) : List Char :=
  if s.exponent < 0 then
    "0.".toList ++ List.replicate (s.exponent.natAbs - 1) '0' ++ s.digits
  else
    let whole := s.exponent.natAbs + 1
    let padded := s.digits ++ List.replicate (whole - s.digits.length) '0'
    let fraction := s.digits.drop whole
    padded.take whole ++ '.' :: (if fraction.isEmpty then ['0'] else fraction)

/-- Scientific notation, with a point only if a digit follows it. -/
def scientific (style : Style) (s : Scientific) : List Char :=
  let lead := s.digits.take 1
  let rest := s.digits.drop 1
  let sign := if s.exponent < 0 then ['-'] else style.plus.toList
  lead ++ (if rest.isEmpty then [] else '.' :: rest) ++ style.mark.toList ++ sign ++
    digits s.exponent.natAbs

/-- A number as text. -/
def text (style : Style) (x : Binary64) : String :=
  let magnitude :=
    if x.mantissa = 0 then "0.0".toList
    else
      let s := shortest x
      if style.leastPositional ≤ s.exponent ∧ s.exponent ≤ style.greatestPositional then
        positional s
      else scientific style s
  String.ofList (if x.negative then '-' :: magnitude else magnitude)

end SchemaBindings.Decimal
