import QueryCache.Json.Value

/-!
# Looking into JSON values

Fields of objects, plain contents of values, and objects made of fields.  An
integer may be given as a number or as decimal text, since not every writer of
JSON can write a 64-bit number.
-/

namespace QueryCache.Json

/-! ## Contents -/

/-- The value of a field. -/
def field? (j : Json) (name : String) : Option Json :=
  match j with
  | .object members => (members.find? (·.1 == name)).map Prod.snd
  | _ => none

/-- The value of a field that is present and not null. -/
def given? (j : Json) (name : String) : Option Json :=
  match j.field? name with
  | some .null => none
  | other => other

/-- The string that a value is. -/
def string? : Json → Option String
  | .string s => some s
  | _ => none

/-- The boolean that a value is. -/
def bool? : Json → Option Bool
  | .bool b => some b
  | _ => none

/-- The items of an array. -/
def items? : Json → Option (List Json)
  | .array items => some items
  | _ => none

/-- The members of an object. -/
def members? : Json → Option (List (String × Json))
  | .object members => some members
  | _ => none

/-- The number that one or more decimal digits spell. -/
def decimal? (digits : List Char) : Option Nat :=
  if digits.isEmpty then none
  else
    digits.foldlM (fun n c =>
      if '0' ≤ c ∧ c ≤ '9' then some (n * 10 + (c.toNat - '0'.toNat)) else none) 0

/-- The integer that decimal text spells. -/
def integerText? (s : String) : Option Int :=
  match s.toList with
  | '-' :: digits => (decimal? digits).map fun n => -(n : Int)
  | '+' :: digits => (decimal? digits).map fun n => (n : Int)
  | digits => (decimal? digits).map fun n => (n : Int)

/-- The integer that a value is, as a number or as decimal text. -/
def integer? : Json → Option Int
  | .number (.int i) => some i.toInt
  | .number (.uint u) => some u.toNat
  | .string s => integerText? s
  | _ => none

/-- The integer of a value, between two bounds. -/
def integerIn? (low high : Int) (j : Json) : Option Int := do
  let i ← j.integer?
  if low ≤ i ∧ i ≤ high then some i else none

/-- A signed 64-bit integer. -/
def int64? (j : Json) : Option Int64 :=
  (j.integerIn? Int64.minValue.toInt Int64.maxValue.toInt).map Int64.ofInt

/-- A natural number below `size`. -/
def natural? (size : Nat) (j : Json) : Option Nat :=
  (j.integerIn? 0 (size - 1)).map Int.toNat

/-- A list of octets. -/
def octets? (j : Json) : Option (List UInt8) := do
  (← j.items?).mapM fun x => (x.natural? UInt8.size).map UInt8.ofNat

/-! ## Construction -/

/-- The object with these fields; of two fields of one name the last one counts. -/
def record (fields : List (String × Json)) : Json :=
  .object (fields.foldl (fun members f => insertNamed f.1 f.2 members) [])

/-- A natural number. -/
def ofNat (n : Nat) : Json :=
  if (n : Int) ≤ Int64.maxValue.toInt then .number (.int (Int64.ofNat n))
  else .number (.uint (UInt64.ofNat n))

/-- The value, or null if there is none. -/
def orNull : Option Json → Json
  | some j => j
  | none => .null

end QueryCache.Json
