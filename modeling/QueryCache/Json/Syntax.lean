/-!
# JSON as written

The reader takes octets to a syntax tree that keeps every literal as it was
written: the digits of a number, the octets between the quotes of a string,
the members of an object in order and with duplicates.  What a literal means,
and whether it means anything, is decided by whoever looks at it: a part of a
document that nobody looks at only has to be well formed.

1. octets and blanks
2. literals: numbers and strings
3. the tree and its reader
-/

namespace QueryCache.Json

/-! ## Octets -/

/-- The octet of an ASCII character. -/
abbrev octet (c : Char) : UInt8 := UInt8.ofNat c.toNat

/-- Space, tab, line feed and carriage return. -/
def isBlank (b : UInt8) : Bool := b == 0x20 || b == 0x09 || b == 0x0A || b == 0x0D

/-- The input from its first octet that is not blank. -/
def skipBlanks (input : List UInt8) : List UInt8 := input.dropWhile isBlank

/-- `0` to `9`. -/
def isDigit (b : UInt8) : Bool := 0x30 ≤ b && b ≤ 0x39

/-- The value of a decimal digit. -/
def digitValue (b : UInt8) : Nat := b.toNat - 0x30

/-- The value of a hexadecimal digit in either case. -/
def hexValue? (b : UInt8) : Option Nat :=
  if 0x30 ≤ b ∧ b ≤ 0x39 then some (b.toNat - 0x30)
  else if 0x61 ≤ b ∧ b ≤ 0x66 then some (b.toNat - 0x61 + 10)
  else if 0x41 ≤ b ∧ b ≤ 0x46 then some (b.toNat - 0x41 + 10)
  else none

/-- The rest of the input after a word, if it starts with that word. -/
def afterWord : List UInt8 → List UInt8 → Option (List UInt8)
  | [], input => some input
  | _ :: _, [] => none
  | w :: word, b :: input => if w = b then afterWord word input else none

/-! ## Literals -/

/-- A number as written, each part as its digits. -/
structure Numeral where
  negative : Bool
  whole : List Nat
  /-- The digits after the point; none when there is no point. -/
  fraction : List Nat
  /-- The sign and the digits after the `e`. -/
  exponent : Option (Bool × List Nat)
deriving DecidableEq, Repr

/-- The digits at the start of the input, and the rest. -/
def takeDigits : List UInt8 → List Nat × List UInt8
  | [] => ([], [])
  | b :: rest =>
    if isDigit b then
      let (ds, r) := takeDigits rest
      (digitValue b :: ds, r)
    else ([], b :: rest)

/-- One or more digits. -/
def takeDigits1 (input : List UInt8) : Option (List Nat × List UInt8) :=
  match takeDigits input with
  | ([], _) => none
  | (ds, rest) => some (ds, rest)

/-- The whole part: a zero stands alone. -/
def takeWhole (input : List UInt8) : Option (List Nat × List UInt8) :=
  match takeDigits input with
  | ([], _) => none
  | ([0], rest) => some ([0], rest)
  | (0 :: _, _) => none
  | (ds, rest) => some (ds, rest)

/-- The digits after a point, if there is a point. -/
def takeFraction : List UInt8 → Option (List Nat × List UInt8)
  | 0x2E :: rest => takeDigits1 rest
  | rest => some ([], rest)

/-- The exponent, if there is one. -/
def takeExponent (input : List UInt8) : Option (Option (Bool × List Nat) × List UInt8) :=
  match input with
  | b :: rest =>
    if b = 0x65 ∨ b = 0x45 then
      match rest with
      | 0x2B :: r => (takeDigits1 r).map fun (ds, r) => (some (false, ds), r)
      | 0x2D :: r => (takeDigits1 r).map fun (ds, r) => (some (true, ds), r)
      | r => (takeDigits1 r).map fun (ds, r) => (some (false, ds), r)
    else some (none, b :: rest)
  | [] => some (none, [])

/-- A number at the start of the input. -/
def takeNumeral (input : List UInt8) : Option (Numeral × List UInt8) := do
  let (negative, rest) := match input with
    | 0x2D :: rest => (true, rest)
    | rest => (false, rest)
  let (whole, rest) ← takeWhole rest
  let (fraction, rest) ← takeFraction rest
  let (exponent, rest) ← takeExponent rest
  pure (⟨negative, whole, fraction, exponent⟩, rest)

/-- The octets up to the closing quote, with their escapes, and the rest after
the quote.  Control characters and unknown escapes are refused. -/
def takeString : List UInt8 → Option (List UInt8 × List UInt8)
  | [] => none
  | 0x22 :: rest => some ([], rest)
  | 0x5C :: 0x75 :: a :: b :: c :: d :: rest =>
    if ((hexValue? a).isSome && (hexValue? b).isSome && (hexValue? c).isSome &&
        (hexValue? d).isSome) then
      (takeString rest).map fun (s, r) => (0x5C :: 0x75 :: a :: b :: c :: d :: s, r)
    else none
  | 0x5C :: e :: rest =>
    if e ∈ [0x22, 0x5C, 0x2F, 0x62, 0x66, 0x6E, 0x72, 0x74] then
      (takeString rest).map fun (s, r) => (0x5C :: e :: s, r)
    else none
  | b :: rest =>
    if b < 0x20 ∨ b = 0x5C then none
    else (takeString rest).map fun (s, r) => (b :: s, r)

/-! ## The tree -/

/-- A JSON text as written. -/
inductive Syntax where
  | null
  | bool (b : Bool)
  | number (n : Numeral)
  /-- The octets between the quotes. -/
  | string (raw : List UInt8)
  | array (items : List Syntax)
  /-- The members in order; a name may occur twice. -/
  | object (members : List (List UInt8 × Syntax))
deriving Repr

mutual

/-- A value at the start of the input, after blanks.  The fuel bounds the
number of nested calls; the length of the input is enough. -/
def readValue : Nat → List UInt8 → Option (Syntax × List UInt8)
  | 0, _ => none
  | fuel + 1, input =>
    match skipBlanks input with
    | [] => none
    | 0x22 :: rest => (takeString rest).map fun (s, r) => (.string s, r)
    | 0x5B :: rest =>
      match skipBlanks rest with
      | 0x5D :: r => some (.array [], r)
      | _ => (readItems fuel rest).map fun (items, r) => (.array items, r)
    | 0x7B :: rest =>
      match skipBlanks rest with
      | 0x7D :: r => some (.object [], r)
      | _ => (readMembers fuel rest).map fun (members, r) => (.object members, r)
    | b :: rest =>
      -- one of the three words, or else a number
      if b = 0x6E then (afterWord [0x75, 0x6C, 0x6C] rest).map fun r => (.null, r)
      else if b = 0x74 then (afterWord [0x72, 0x75, 0x65] rest).map fun r => (.bool true, r)
      else if b = 0x66 then (afterWord [0x61, 0x6C, 0x73, 0x65] rest).map fun r => (.bool false, r)
      else (takeNumeral (b :: rest)).map fun (n, r) => (.number n, r)

/-- One or more items up to the closing bracket. -/
def readItems : Nat → List UInt8 → Option (List Syntax × List UInt8)
  | 0, _ => none
  | fuel + 1, input =>
    match readValue fuel input with
    | none => none
    | some (item, rest) =>
      match skipBlanks rest with
      | 0x5D :: r => some ([item], r)
      | 0x2C :: r => (readItems fuel r).map fun (items, r) => (item :: items, r)
      | _ => none

/-- One or more members up to the closing brace. -/
def readMembers : Nat → List UInt8 → Option (List (List UInt8 × Syntax) × List UInt8)
  | 0, _ => none
  | fuel + 1, input =>
    match skipBlanks input with
    | 0x22 :: rest =>
      match takeString rest with
      | none => none
      | some (name, rest) =>
        match skipBlanks rest with
        | 0x3A :: rest =>
          match readValue fuel rest with
          | none => none
          | some (value, rest) =>
            match skipBlanks rest with
            | 0x7D :: r => some ([(name, value)], r)
            | 0x2C :: r =>
              (readMembers fuel r).map fun (members, r) => ((name, value) :: members, r)
            | _ => none
        | _ => none
    | _ => none

end

/-- The tree of a whole text: one value with nothing but blanks around it. -/
def Syntax.read (input : List UInt8) : Option Syntax :=
  match readValue (input.length + 1) input with
  | some (tree, rest) => if (skipBlanks rest).isEmpty then some tree else none
  | none => none

end QueryCache.Json
