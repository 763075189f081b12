/-!
# Binary64 numbers as bit patterns

A float is kept as its 64 bits, so two floats are equal when their bits are:
`NaN` equals itself and `0.0` differs from `-0.0`.  A finite magnitude is read
as `mantissa · 2 ^ exponent`, together with the width of the gap below it;
both are exact natural and integer numbers.
-/

namespace QueryCache

/-- A double precision float, compared by its bits. -/
structure Binary64 where
  bits : UInt64
deriving DecidableEq, Repr

namespace Binary64

/-- The bits of a machine float. -/
def ofFloat (x : Float) : Binary64 := ⟨x.toBits⟩

/-- The machine float with these bits. -/
def toFloat (x : Binary64) : Float := Float.ofBits x.bits

/-- Two to the fifty-second: the place of the lowest bit of the exponent, and of
the bit of the mantissa that is not stored. -/
def hiddenBit : Nat := 4503599627370496

/-- The eleven bits of the biased exponent. -/
def biased (x : Binary64) : Nat := x.bits.toNat / hiddenBit % 2048

/-- The fifty-two bits of the fraction. -/
def fraction (x : Binary64) : Nat := x.bits.toNat % hiddenBit

/-- The sign bit is set. -/
def isNegative (x : Binary64) : Bool := 2048 * hiddenBit ≤ x.bits.toNat

/-- The exponent bits are all ones and the fraction is not zero. -/
def isNaN (x : Binary64) : Bool := x.biased == 2047 && x.fraction != 0

/-- The exponent bits are all ones and the fraction is zero. -/
def isInfinite (x : Binary64) : Bool := x.biased == 2047 && x.fraction == 0

/-- Neither infinite nor `NaN`. -/
def isFinite (x : Binary64) : Bool := x.biased != 2047

/-- Positive or negative zero. -/
def isZero (x : Binary64) : Bool := x.biased == 0 && x.fraction == 0

end Binary64

/-- The magnitude `mantissa · 2 ^ exponent` of a finite float. -/
structure Magnitude where
  mantissa : Nat
  exponent : Int
  /-- The next smaller float is only half as far away as the next larger one;
  so it is at every power of two above the least normal number. -/
  narrowBelow : Bool
deriving DecidableEq, Repr

/-- The magnitude of a finite float: subnormal numbers lack the hidden bit. -/
def Binary64.magnitude (x : Binary64) : Magnitude :=
  -- The bias is 1023, and the lowest of 52 bits has the weight one.
  if x.biased = 0 then ⟨x.fraction, -1074, false⟩
  else ⟨hiddenBit + x.fraction, (x.biased : Int) - 1075, x.fraction == 0 && 1 < x.biased⟩

end QueryCache
