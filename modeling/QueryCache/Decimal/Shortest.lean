import QueryCache.Decimal.Binary64

/-!
# The shortest decimal that reads back

A decimal reads back as a float when it lies among the reals that round to the
float; the two ends of that interval belong to it exactly when the mantissa is
even.  The shortest decimal is the first hit on ever finer grids `10 ^ g`: on
each grid only the two neighbours of the float can be hits.  Of two hits the
nearer one is taken, and `Tie` decides when both are equally near.
-/

namespace QueryCache

/-- A non-negative decimal `digits · 10 ^ exponent`. -/
structure Decimal where
  digits : Nat
  exponent : Int
deriving DecidableEq, Repr

/-- Which of two equally near neighbours is taken. -/
inductive Tie where
  /-- The larger one. -/
  | up
  /-- The one whose last digit is even. -/
  | even
deriving DecidableEq, Repr

namespace Magnitude

/-- The interval of the reals that round to a float, measured in units of a
grid `10 ^ g`: the ends and the value itself are fractions over one common
denominator. -/
structure Interval where
  lower : Nat
  value : Nat
  upper : Nat
  denominator : Nat
  /-- The ends belong to the interval. -/
  closed : Bool
deriving Repr

/-- The interval of `x` in units of `10 ^ g`.  A quarter of the last binary
place is the common unit of the value and the two ends. -/
def interval (x : Magnitude) (g : Int) : Interval :=
  let q := x.exponent - 2
  -- Negative powers go to the denominator, so that both sides stay natural numbers.
  let scale := Nat.pow 2 q.toNat * Nat.pow 10 (-g).toNat
  { lower := (4 * x.mantissa - (if x.narrowBelow then 1 else 2)) * scale
    value := 4 * x.mantissa * scale
    upper := (4 * x.mantissa + 2) * scale
    denominator := Nat.pow 2 (-q).toNat * Nat.pow 10 g.toNat
    closed := x.mantissa % 2 == 0 }

/-- The grid point `d` lies in the interval. -/
def Interval.contains (i : Interval) (d : Nat) : Bool :=
  let p := d * i.denominator
  if i.closed then i.lower ≤ p && p ≤ i.upper else i.lower < p && p < i.upper

/-- The grid point next to the value that lies in the interval, if one does. -/
def Interval.pick (i : Interval) (tie : Tie) : Option Nat :=
  let below := i.value / i.denominator
  let above := below + 1
  match i.contains below && below != 0, i.contains above with
  | false, false => none
  | true, false => some below
  | false, true => some above
  | true, true =>
    match compare (2 * (i.value % i.denominator)) i.denominator, tie with
    | .lt, _ => some below
    | .gt, _ => some above
    | .eq, .up => some above
    | .eq, .even => some (if below % 2 = 0 then below else above)

/-- A power of ten at or above the leading digit of `x`, or one above it. -/
def topGrid (x : Magnitude) : Int :=
  -- `30103 / 100000` is just above the decimal logarithm of two
  ((x.mantissa.log2 : Int) + x.exponent + 1) * 30103 / 100000 + 1

/-- Drops the zeros at the end of the digits. -/
def stripZeros : Nat → Decimal → Decimal
  | 0, d => d
  | n + 1, d =>
    if d.digits % 10 = 0 ∧ d.digits ≠ 0 then stripZeros n ⟨d.digits / 10, d.exponent + 1⟩ else d

/-- The shortest decimal that reads back as `x`.  Seventeen digits always
suffice, so the grids tried below the first one are never used up. -/
def shortest (x : Magnitude) (tie : Tie) : Decimal :=
  let grids := (List.range 22).map fun (n : Nat) => x.topGrid - n
  match grids.findSome? fun g => ((x.interval g).pick tie).map fun d => (⟨d, g⟩ : Decimal) with
  | some d => stripZeros 22 d
  | none => ⟨0, 0⟩

end Magnitude

end QueryCache
