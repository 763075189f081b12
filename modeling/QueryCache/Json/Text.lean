import QueryCache.Json.Syntax
import QueryCache.Text.Utf8

/-!
# What a string literal means, and how a string is written

Only the quote, the backslash and control characters are escaped when a string
is written.  Reading resolves every escape; half of a surrogate pair has no
meaning, and neither have octets that are not UTF-8.
-/

namespace QueryCache.Json

/-- A hexadecimal digit in lower case. -/
def hexDigit (n : Nat) : Char := Nat.digitChar n

/-- A character inside the quotes of a string literal. -/
def escape (c : Char) : List Char :=
  match c with
  | '"' => ['\\', '"']
  | '\\' => ['\\', '\\']
  | '\x08' => ['\\', 'b']
  | '\x0c' => ['\\', 'f']
  | '\n' => ['\\', 'n']
  | '\r' => ['\\', 'r']
  | '\t' => ['\\', 't']
  | c =>
    if c.toNat < 0x20 then
      ['\\', 'u', '0', '0', hexDigit (c.toNat / 16), hexDigit (c.toNat % 16)]
    else [c]

/-- The literal of a string. -/
def quote (s : String) : String :=
  String.ofList ('"' :: s.toList.flatMap escape ++ ['"'])

/-- The number of a four-digit escape. -/
def unit? (a b c d : UInt8) : Option Nat := do
  let a ← hexValue? a
  let b ← hexValue? b
  let c ← hexValue? c
  let d ← hexValue? d
  pure (((a * 16 + b) * 16 + c) * 16 + d)

/-- The character of a one-letter escape. -/
def shortEscape? (e : UInt8) : Option UInt8 :=
  if e = 0x22 ∨ e = 0x5C ∨ e = 0x2F then some e
  else if e = 0x62 then some 0x08
  else if e = 0x66 then some 0x0C
  else if e = 0x6E then some 0x0A
  else if e = 0x72 then some 0x0D
  else if e = 0x74 then some 0x09
  else none

/-- The octets that a literal stands for, with every escape resolved. -/
def resolve : List UInt8 → Option (List UInt8)
  | [] => some []
  | 0x5C :: 0x75 :: a :: b :: c :: d :: rest =>
    match unit? a b c d with
    | none => none
    | some high =>
      if 0xDC00 ≤ high ∧ high ≤ 0xDFFF then none
      else if 0xD800 ≤ high ∧ high ≤ 0xDBFF then
        match rest with
        | 0x5C :: 0x75 :: a :: b :: c :: d :: rest =>
          match unit? a b c d with
          | none => none
          | some low =>
            if 0xDC00 ≤ low ∧ low ≤ 0xDFFF then
              let code := (high - 0xD800) * 0x400 + (low - 0xDC00) + 0x10000
              (resolve rest).map (String.utf8EncodeChar (Char.ofNat code) ++ ·)
            else none
        | _ => none
      else (resolve rest).map (String.utf8EncodeChar (Char.ofNat high) ++ ·)
  | 0x5C :: e :: rest =>
    match shortEscape? e with
    | some b => (resolve rest).map (b :: ·)
    | none => none
  | b :: rest => (resolve rest).map (b :: ·)

/-- The string that a literal stands for. -/
def text? (raw : List UInt8) : Option String := do
  Text.ofUtf8? (← resolve raw)

end QueryCache.Json
