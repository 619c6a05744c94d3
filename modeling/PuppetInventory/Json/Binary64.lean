/-!
Numbers of double precision in exact arithmetic: rounding of quotients, products with powers of ten,
and the shortest decimal that reads back.
-/

namespace PuppetInventory.Json

/-- The number `significand * 2 ^ exponent`. -/
structure Binary64 where
  significand : Nat
  exponent : Int
deriving Repr, DecidableEq, Inhabited

namespace Binary64

def zero : Binary64 where
  significand := 0
  exponent := 0

def smallestExponent : Int := -1074

def largestExponent : Int := 971

def bitLength (n : Nat) : Nat :=
  if n = 0 then 0 else n.log2 + 1

/-- The quotient rounded to the nearest whole number, a tie to the even one. -/
def roundQuotient (numerator denominator : Nat) : Nat :=
  let quotient := numerator / denominator
  let twice := 2 * (numerator % denominator)
  if twice > denominator ∨ (twice = denominator ∧ quotient % 2 = 1) then quotient + 1 else quotient

/-- The quotient `numerator * 2 ^ -exponent / denominator`, rounded. -/
def scaledQuotient (numerator denominator : Nat) (exponent : Int) : Nat :=
  if exponent ≥ 0 then roundQuotient numerator (denominator <<< exponent.toNat)
  else roundQuotient (numerator <<< (-exponent).toNat) denominator

/-- The nearest number of the format; `none` beyond the largest one. -/
def ofQuotient (numerator denominator : Nat) : Option Binary64 :=
  if numerator = 0 then some zero
  else
    let estimate : Int := (bitLength numerator : Int) - bitLength denominator - 53
    let exponent := max smallestExponent estimate
    let exponent :=
      if scaledQuotient numerator denominator exponent ≥ 1 <<< 53 then exponent + 1 else exponent
    let significand := scaledQuotient numerator denominator exponent
    let rounded : Binary64 :=
      if significand = 1 <<< 53 then ⟨1 <<< 52, exponent + 1⟩ else ⟨significand, exponent⟩
    if rounded.exponent > largestExponent then none else some rounded

def ofNat (n : Nat) : Option Binary64 :=
  ofQuotient n 1

def toQuotient (x : Binary64) : Nat × Nat :=
  if x.exponent ≥ 0 then (x.significand <<< x.exponent.toNat, 1)
  else (x.significand, 1 <<< (-x.exponent).toNat)

def mul (x y : Binary64) : Option Binary64 :=
  let (a, b) := x.toQuotient
  let (c, d) := y.toQuotient
  ofQuotient (a * c) (b * d)

def div (x y : Binary64) : Option Binary64 :=
  let (a, b) := x.toQuotient
  let (c, d) := y.toQuotient
  ofQuotient (a * d) (b * c)

def powerOfTen (power : Nat) : Option Binary64 :=
  ofNat (Nat.pow 10 power)

/-- A decimal number `digits * 10 ^ exponent`. -/
structure Decimal where
  digits : Nat
  exponent : Int
deriving Repr, DecidableEq, Inhabited

/-- Both bounds of the numbers that round to `x`, as numerators over `4 * denominator`, and whether
the bounds themselves round to `x`. -/
structure Interval where
  low : Nat
  value : Nat
  high : Nat
  denominator : Nat
  closed : Bool

def interval (x : Binary64) : Interval :=
  let (numerator, denominator) := ({ x with significand := 1 } : Binary64).toQuotient
  let below :=
    if x.significand = 1 <<< 52 ∧ x.exponent > smallestExponent then 1 else 2
  { low := (4 * x.significand - below) * numerator
    value := 4 * x.significand * numerator
    high := (4 * x.significand + 2) * numerator
    denominator := 4 * denominator
    closed := x.significand % 2 = 0 }

def Interval.contains (bounds : Interval) (numerator scale : Nat) : Bool :=
  let point := numerator * bounds.denominator
  if bounds.closed then bounds.low * scale ≤ point && point ≤ bounds.high * scale
  else bounds.low * scale < point && point < bounds.high * scale

/-- The point of the grid of step `10 ^ step` that lies in the interval and is nearest to its
value; of two equally near points the even one. -/
def Interval.onGrid? (bounds : Interval) (step : Int) : Option Decimal :=
  let up := if step ≥ 0 then Nat.pow 10 step.toNat else 1
  let down := if step ≥ 0 then 1 else Nat.pow 10 (-step).toNat
  let floor := bounds.value * down / (bounds.denominator * up)
  let fits (n : Nat) : Bool := bounds.contains (n * up) down
  let twice := 2 * (bounds.value * down % (bounds.denominator * up))
  let nearUp :=
    twice > bounds.denominator * up ∨ (twice = bounds.denominator * up ∧ floor % 2 = 1)
  if fits floor && fits (floor + 1) then
    some ⟨if nearUp then floor + 1 else floor, step⟩
  else if fits floor then some ⟨floor, step⟩
  else if fits (floor + 1) then some ⟨floor + 1, step⟩
  else none

/-- Tries the grids from a coarse step downwards. -/
def Interval.shortest (bounds : Interval) : Nat → Int → Decimal
  | 0, step => ⟨bounds.value / bounds.denominator, step⟩
  | fuel + 1, step =>
    match bounds.onGrid? step with
    | some decimal => if decimal.digits = 0 then shortest bounds fuel (step - 1) else decimal
    | none => shortest bounds fuel (step - 1)

/-- The shortest decimal that reads back, the nearest of those. -/
def toDecimal (x : Binary64) : Decimal :=
  if x.significand = 0 then ⟨0, 0⟩
  else
    let (numerator, denominator) := x.toQuotient
    let estimate : Int := ((bitLength numerator : Int) - bitLength denominator) * 30103 / 100000 + 2
    x.interval.shortest 24 estimate

end Binary64

end PuppetInventory.Json
