/-!
# Lengths of time

A length of time is a whole number of nanoseconds.  It is written in the
largest unit that fits at least once, with the remainder as a fraction without
trailing zeros.
-/

namespace QueryCache

/-- A length of time in nanoseconds. -/
structure Duration where
  nanos : Nat
deriving DecidableEq, Repr

namespace Duration

/-- Whole seconds as a length of time. -/
def ofSeconds (s : Nat) : Duration := ⟨s * 1000000000⟩

/-- The whole seconds. -/
def seconds (d : Duration) : Nat := d.nanos / 1000000000

/-- The nanoseconds beyond the whole seconds. -/
def subsecond (d : Duration) : Nat := d.nanos % 1000000000

/-- No time at all. -/
def isZero (d : Duration) : Bool := d.nanos == 0

/-- `n` in units of `10 ^ places`: the whole part, then the fraction without
trailing zeros. -/
def decimalText (n places : Nat) : String :=
  let whole := toString (n / Nat.pow 10 places)
  let rest := n % Nat.pow 10 places
  if rest = 0 then whole
  else
    let digits := Nat.toDigits 10 rest
    let padded := List.replicate (places - digits.length) '0' ++ digits
    whole ++ "." ++ String.ofList (padded.reverse.dropWhile (· == '0')).reverse

/-- The text of a length of time in its largest fitting unit. -/
def text (d : Duration) : String :=
  if 1000000000 ≤ d.nanos then decimalText d.nanos 9 ++ "s"
  else if 1000000 ≤ d.nanos then decimalText d.nanos 6 ++ "ms"
  else if 1000 ≤ d.nanos then decimalText d.nanos 3 ++ "µs"
  else decimalText d.nanos 0 ++ "ns"

end Duration

end QueryCache
