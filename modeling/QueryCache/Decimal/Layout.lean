import QueryCache.Decimal.Shortest

/-!
# How a float is written

The digits come from the shortest decimal; a `Layout` fixes the rest: when the
digits stand positionally and when an exponent follows, whether an integral
number keeps a point, and the texts of the values that have no digits.
-/

namespace QueryCache

/-- The decisions of a float format. -/
structure Layout where
  /-- Decimal exponents of the leading digit, from this one on, are positional. -/
  plainFrom : Int
  /-- Decimal exponents of the leading digit below this one are positional. -/
  plainBelow : Int
  /-- A positional number without fraction is written with `.0`. -/
  pointZero : Bool
  tie : Tie
  nan : String
  infinity : String

namespace Decimal

/-- The digits of a number, leading digit first. -/
def digitText (n : Nat) : String := String.ofList (Nat.toDigits 10 n)

/-- `n` zeros. -/
def zeros (n : Nat) : String := "".pushn '0' n

/-- The exponent of the leading digit. -/
def leading (d : Decimal) : Int := d.exponent + (digitText d.digits).length - 1

/-- Positional text: the point stands after, inside or before the digits. -/
def positional (d : Decimal) (pointZero : Bool) : String :=
  let text := digitText d.digits
  if 0 ≤ d.exponent then
    text ++ zeros d.exponent.toNat ++ (if pointZero then ".0" else "")
  else
    let places := (-d.exponent).toNat
    if places < text.length then
      String.ofList (text.toList.take (text.length - places)) ++ "." ++
        String.ofList (text.toList.drop (text.length - places))
    else
      "0." ++ zeros (places - text.length) ++ text

/-- Scientific text: one digit before the point and a signed exponent. -/
def scientific (d : Decimal) : String :=
  let exponent := d.leading
  let mark := if 0 ≤ exponent then "e+" else "e-"
  let digits := (digitText d.digits).toList
  String.ofList (digits.take 1) ++ (if digits.length ≤ 1 then "" else ".") ++
    String.ofList (digits.drop 1) ++ mark ++ digitText exponent.natAbs

end Decimal

/-- The text of a float in a layout. -/
def Layout.render (l : Layout) (x : Binary64) : String :=
  if x.isNaN then l.nan
  else
    let magnitude :=
      if x.isInfinite then l.infinity
      else if x.isZero then (if l.pointZero then "0.0" else "0")
      else
        let d := x.magnitude.shortest l.tie
        if l.plainFrom ≤ d.leading ∧ d.leading < l.plainBelow then d.positional l.pointZero
        else d.scientific
    if x.isNegative then "-" ++ magnitude else magnitude

namespace Layout

/-- Floats shown to a reader: always positional, no `.0`, ties go up.  The
exponents of binary64 stay well inside the bounds. -/
def display : Layout where
  plainFrom := -400
  plainBelow := 400
  pointZero := false
  tie := .up
  nan := "NaN"
  infinity := "inf"

/-- Floats in JSON text: positional from `1e-5` up to `1e16`, with a point
always, ties to even.  JSON has no text for a value that is not finite. -/
def json : Layout where
  plainFrom := -5
  plainBelow := 16
  pointZero := true
  tie := .even
  nan := "null"
  infinity := "null"

end Layout

end QueryCache
