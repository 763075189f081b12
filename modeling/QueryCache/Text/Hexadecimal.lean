import QueryCache.Decimal.Binary64

/-!
# Hexadecimal text

Numbers in base sixteen with a fixed number of digits, in lower case when
written and in either case when read.
-/

namespace QueryCache

namespace Text

/-- The value of a hexadecimal digit. -/
def hexDigit? (c : Char) : Option Nat :=
  if '0' ≤ c ∧ c ≤ '9' then some (c.toNat - '0'.toNat)
  else if 'a' ≤ c ∧ c ≤ 'f' then some (c.toNat - 'a'.toNat + 10)
  else if 'A' ≤ c ∧ c ≤ 'F' then some (c.toNat - 'A'.toNat + 10)
  else none

/-- A number in exactly `width` digits, if that many digits are given. -/
def ofHex? (width : Nat) (s : String) : Option Nat :=
  if s.length = width then
    s.toList.foldlM (fun n c => (hexDigit? c).map fun d => n * 16 + d) 0
  else none

/-- A number in at least `width` digits. -/
def hex (width n : Nat) : String :=
  let digits := Nat.toDigits 16 n
  String.ofList (List.replicate (width - digits.length) '0' ++ digits)

end Text

namespace Binary64

/-- The bits of a float in sixteen digits. -/
def hex (x : Binary64) : String := Text.hex 16 x.bits.toNat

/-- The float whose bits are given in sixteen digits. -/
def ofHex? (s : String) : Option Binary64 := (Text.ofHex? 16 s).map fun n => ⟨UInt64.ofNat n⟩

end Binary64

end QueryCache
