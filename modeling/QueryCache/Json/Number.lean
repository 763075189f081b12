import QueryCache.Decimal.Binary64
import QueryCache.Json.Syntax

/-!
# What a numeral means

An integer literal is a signed 64-bit number if it fits, else an unsigned one,
else a float; a literal with a point or an exponent is a float, and so is `-0`.

Floats are read by the fast rule: as many digits as fit in 64 bits make the
significand, the rest only move the decimal exponent, and one multiplication
or division by a power of ten gives the value.  Its last place may therefore
differ from the nearest float.  A magnitude beyond the largest float is refused.
-/

namespace QueryCache

/-- A JSON number. -/
inductive Number where
  | int (i : Int64)
  /-- A number above the signed range. -/
  | uint (u : UInt64)
  | float (x : Binary64)
deriving DecidableEq, Repr

namespace Json

/-- The largest 64-bit number. -/
def maxWord : Nat := UInt64.size - 1

/-- Reads digits into the significand while they fit; gives the digits left. -/
def takeSignificand : Nat → List Nat → Nat × List Nat
  | s, [] => (s, [])
  | s, d :: ds => if s * 10 + d ≤ maxWord then takeSignificand (s * 10 + d) ds else (s, d :: ds)

/-- The power of ten as a float. -/
def powerOfTen (n : Nat) : Float := Float.ofScientific 1 false n

/-- `f · 10 ^ exponent`; none when the result is infinite.  Below the table of
powers the value is first divided by the largest power in it. -/
def scale (f : Float) (exponent : Int) : Option Float :=
  if exponent.natAbs ≤ 308 then
    if 0 ≤ exponent then
      let g := f * powerOfTen exponent.natAbs
      if g.isInf then none else some g
    else some (f / powerOfTen exponent.natAbs)
  else if f == 0.0 then some f
  else if 0 ≤ exponent then none
  else scale (f / powerOfTen 308) (exponent + 308)
termination_by (-exponent).toNat
decreasing_by omega

/-- Stated exponents are smaller than this. -/
def exponentBound : Nat := 2147483648

/-- The exponent that the literal states, none when it leaves 32 bits. -/
def statedExponent (negative : Bool) (digits : List Nat) : Option Int :=
  let n : Nat := digits.foldl (fun n d => if exponentBound ≤ n then n else n * 10 + d) 0
  if n < exponentBound then some (if negative then -(n : Int) else (n : Int)) else none

/-- The float of a numeral. -/
def Numeral.toFloat? (n : Numeral) : Option Float := do
  let (whole, dropped) := takeSignificand 0 n.whole
  let (significand, ignored) := takeSignificand whole n.fraction
  let shift : Int := (dropped.length : Int) - ((n.fraction.length - ignored.length : Nat) : Int)
  let magnitude ← match n.exponent with
    | none => scale (UInt64.ofNat significand).toFloat shift
    | some (negative, digits) =>
      match statedExponent negative digits with
      | some e => scale (UInt64.ofNat significand).toFloat (shift + e)
      | none => if negative ∨ significand = 0 then some 0.0 else none
  pure (if n.negative then -magnitude else magnitude)

/-- The number that a numeral stands for; none for a float out of range. -/
def Numeral.value? (n : Numeral) : Option Number :=
  if n.fraction.isEmpty ∧ n.exponent.isNone then
    match takeSignificand 0 n.whole with
    | (m, []) =>
      if n.negative then
        if 0 < m ∧ Int64.minValue.toInt ≤ -(m : Int) then some (.int (Int64.ofInt (-m)))
        else some (.float (.ofFloat (-(UInt64.ofNat m).toFloat)))
      else if (m : Int) ≤ Int64.maxValue.toInt then some (.int (Int64.ofInt m))
      else some (.uint (UInt64.ofNat m))
    | _ => n.toFloat?.map fun f => .float (.ofFloat f)
  else n.toFloat?.map fun f => .float (.ofFloat f)

end Json

end QueryCache
