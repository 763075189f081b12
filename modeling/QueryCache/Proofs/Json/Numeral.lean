import Mathlib
import QueryCache.Json.Number
import QueryCache.Proofs.Text.Utf8

/-!
# Decimal numbers as numerals

A number that is written in decimal is read as one numeral, whatever closes
it: a comma, a bracket, a brace or the end of the text.  The numeral of an
integer has its value as long as the magnitude fits in 64 bits.
-/

namespace QueryCache.Json

/-! ## Digits -/

/-- The octets after a literal do not go on with it. -/
def Closes (rest : List UInt8) : Prop :=
  ∀ b r, rest = b :: r → b = 0x2C ∨ b = 0x5D ∨ b = 0x7D

theorem closes_nil : Closes [] := by
  intro b r h
  cases h

theorem closes_comma (r : List UInt8) : Closes (0x2C :: r) := by
  intro b r' h
  cases h
  exact Or.inl rfl

theorem closes_bracket (r : List UInt8) : Closes (0x5D :: r) := by
  intro b r' h
  cases h
  exact Or.inr (Or.inl rfl)

theorem closes_brace (r : List UInt8) : Closes (0x7D :: r) := by
  intro b r' h
  cases h
  exact Or.inr (Or.inr rfl)

/-- The number that digits spell after a number. -/
def spell (s : Nat) (ds : List Nat) : Nat := ds.foldl (fun n d => n * 10 + d) s

theorem le_spell (s : Nat) (ds : List Nat) : s ≤ spell s ds := by
  induction ds generalizing s with
  | nil => exact le_refl s
  | cons d ds ih =>
    have h : s * 10 + d ≤ spell (s * 10 + d) ds := ih (s * 10 + d)
    have h' : spell s (d :: ds) = spell (s * 10 + d) ds := rfl
    omega

/-- Digits that spell a 64-bit number all go into the significand. -/
theorem takeSignificand_spell {s : Nat} {ds : List Nat} (h : spell s ds ≤ maxWord) :
    takeSignificand s ds = (spell s ds, []) := by
  induction ds generalizing s with
  | nil => rfl
  | cons d ds ih =>
    have hs : spell (s * 10 + d) ds ≤ maxWord := h
    have hd : s * 10 + d ≤ maxWord := le_trans (le_spell _ ds) hs
    rw [takeSignificand, if_pos hd]
    exact ih hs

/-- The octets do not start with a digit. -/
def EndsDigits (rest : List UInt8) : Prop := ∀ b r, rest = b :: r → isDigit b = false

theorem endsDigits_cons {b : UInt8} (hb : isDigit b = false) (r : List UInt8) :
    EndsDigits (b :: r) := by
  rintro _ _ ⟨⟩
  exact hb

theorem Closes.endsDigits {rest : List UInt8} (h : Closes rest) : EndsDigits rest := by
  intro b r heq
  rcases h b r heq with rfl | rfl | rfl <;> decide

/-- The octets of digits are read up to whatever ends them. -/
theorem takeDigits_append {ds : List UInt8} (hd : ∀ b ∈ ds, isDigit b = true) {rest : List UInt8}
    (hr : EndsDigits rest) : takeDigits (ds ++ rest) = (ds.map digitValue, rest) := by
  induction ds with
  | nil =>
    cases rest with
    | nil => rfl
    | cons b r => simp [takeDigits, hr b r rfl]
  | cons b ds ih =>
    have hb : isDigit b = true := hd b List.mem_cons_self
    have ih' := ih fun x hx => hd x (List.mem_cons_of_mem b hx)
    simp [takeDigits, hb, ih']

/-! ## Decimal text -/

/-- The bounds of a digit. -/
theorem toNat_of_mem_toDigits {n : Nat} {c : Char} (h : c ∈ Nat.toDigits 10 n) :
    48 ≤ c.toNat ∧ c.toNat ≤ 57 := by
  have hd : c.isDigit = true := Nat.isDigit_of_mem_toDigits (by decide) (by decide) h
  simp only [Char.isDigit, Bool.and_eq_true, decide_eq_true_eq] at hd
  constructor
  · exact UInt32.le_iff_toNat_le.1 hd.1
  · exact UInt32.le_iff_toNat_le.1 hd.2

/-- The octets of a natural number in decimal. -/
theorem utf8_repr (n : Nat) :
    Text.utf8 n.repr = (Nat.toDigits 10 n).map fun c => UInt8.ofNat c.toNat := by
  rw [Nat.repr_eq_ofList_toDigits]
  refine Text.utf8_ofList_ascii fun c hc => ?_
  have hu := (toNat_of_mem_toDigits hc).2
  omega

theorem isDigit_of_mem_utf8_repr {n : Nat} {b : UInt8} (h : b ∈ Text.utf8 n.repr) :
    isDigit b = true := by
  rw [utf8_repr] at h
  rcases List.mem_map.1 h with ⟨c, hc, rfl⟩
  rcases toNat_of_mem_toDigits hc with ⟨hl, hu⟩
  simp only [isDigit, Bool.and_eq_true, decide_eq_true_eq, UInt8.le_iff_toNat_le,
    UInt8.toNat_ofNat']
  constructor
  · show 48 ≤ c.toNat % 2 ^ 8
    omega
  · show c.toNat % 2 ^ 8 ≤ 57
    omega

/-- The digits of a number spell it. -/
theorem spell_repr (n : Nat) : spell 0 ((Text.utf8 n.repr).map digitValue) = n := by
  have h : (Text.utf8 n.repr).map digitValue =
      (Nat.toDigits 10 n).map fun c => c.toNat - '0'.toNat := by
    rw [utf8_repr, List.map_map]
    apply List.map_congr_left
    intro c hc
    rcases toNat_of_mem_toDigits hc with ⟨hl, hu⟩
    simp only [Function.comp, digitValue, UInt8.toNat_ofNat']
    show c.toNat % 2 ^ 8 - 48 = c.toNat - 48
    omega
  rw [h, spell, List.foldl_map]
  -- core folds `10 * s + d`, the reader `s * 10 + d`
  have h' := Nat.ofDigitChars_ten_toDigits (n := n)
  simp only [Nat.ofDigitChars] at h'
  conv => rhs; rw [← h']
  congr 1
  funext s c
  omega

/-- The first digit of a number is no zero, unless the number is zero. -/
theorem digits_head (n : Nat) :
    (Text.utf8 n.repr).map digitValue = [0] ∨
      ∃ d ds, (Text.utf8 n.repr).map digitValue = d :: ds ∧ d ≠ 0 := by
  induction n using Nat.strong_induction_on with
  | _ n ih =>
    by_cases hn : n < 10
    · -- one digit
      have h : ∀ m < 10, (Text.utf8 (Nat.repr m)).map digitValue = [m] := by
        intro m hm
        rw [utf8_repr, Nat.toDigits_of_lt_base hm]
        revert m
        decide
      rcases Nat.eq_zero_or_pos n with rfl | hpos
      · exact Or.inl (h 0 (by decide))
      · exact Or.inr ⟨n, [], h n hn, by omega⟩
    · -- the first digit of `n` is that of `n / 10`, which is no zero here
      have hsplit : n.repr = (n / 10).repr ++ (n % 10).repr :=
        Nat.repr_eq_repr_append_repr (by omega)
      rw [hsplit, Text.utf8_append, List.map_append]
      rcases ih (n / 10) (by omega) with h | ⟨d, ds, h, hd⟩
      · have hz := spell_repr (n / 10)
        rw [h] at hz
        have : n / 10 = 0 := hz.symm
        omega
      · exact Or.inr ⟨d, _, by rw [h]; rfl, hd⟩

/-! ## Numerals -/

/-- The octets of a numeral, part by part. -/
structure NumeralText where
  negative : Bool
  whole : List UInt8
  fraction : List UInt8 := []
  /-- The sign and the digits of the exponent. -/
  exponent : Option (Bool × List UInt8) := none
  whole_isDigit : ∀ b ∈ whole, isDigit b = true
  /-- A zero stands alone. -/
  whole_head : whole.map digitValue = [0] ∨ ∃ d ds, whole.map digitValue = d :: ds ∧ d ≠ 0
  fraction_isDigit : ∀ b ∈ fraction, isDigit b = true := by simp
  exponent_isDigit : ∀ s ds, exponent = some (s, ds) → ds ≠ [] ∧ ∀ b ∈ ds, isDigit b = true := by
    simp

/-- A fraction after its point; nothing without digits. -/
def fractionText : List UInt8 → List UInt8
  | [] => []
  | b :: ds => 0x2E :: b :: ds

/-- An exponent with its sign. -/
def exponentText : Option (Bool × List UInt8) → List UInt8
  | none => []
  | some (negative, ds) => 0x65 :: (if negative then 0x2D else 0x2B) :: ds

namespace NumeralText

/-- The octets without the sign. -/
def magnitude (t : NumeralText) : List UInt8 :=
  t.whole ++ (fractionText t.fraction ++ exponentText t.exponent)

/-- The whole text. -/
def octets (t : NumeralText) : List UInt8 :=
  if t.negative then 0x2D :: t.magnitude else t.magnitude

/-- What the text is read as. -/
def numeral (t : NumeralText) : Numeral :=
  ⟨t.negative, t.whole.map digitValue, t.fraction.map digitValue,
    t.exponent.map fun e => (e.1, e.2.map digitValue)⟩

end NumeralText

theorem takeDigits1_append {ds : List UInt8} (hd : ∀ b ∈ ds, isDigit b = true) (hne : ds ≠ [])
    {rest : List UInt8} (hr : EndsDigits rest) :
    takeDigits1 (ds ++ rest) = some (ds.map digitValue, rest) := by
  rw [takeDigits1, takeDigits_append hd hr]
  cases ds with
  | nil => exact absurd rfl hne
  | cons b ds => rfl

theorem takeWhole_append {ds : List UInt8} (hd : ∀ b ∈ ds, isDigit b = true)
    (hhead : ds.map digitValue = [0] ∨ ∃ d ds', ds.map digitValue = d :: ds' ∧ d ≠ 0)
    {rest : List UInt8} (hr : EndsDigits rest) :
    takeWhole (ds ++ rest) = some (ds.map digitValue, rest) := by
  rw [takeWhole, takeDigits_append hd hr]
  rcases hhead with hz | ⟨d, ds', hds, hne⟩
  · simp [hz]
  · rw [hds]
    cases d with
    | zero => exact absurd rfl hne
    | succ d => rfl

theorem takeExponent_append {x : Option (Bool × List UInt8)}
    (hx : ∀ s ds, x = some (s, ds) → ds ≠ [] ∧ ∀ b ∈ ds, isDigit b = true) {rest : List UInt8}
    (hr : Closes rest) :
    takeExponent (exponentText x ++ rest) =
      some (x.map fun e => (e.1, e.2.map digitValue), rest) := by
  cases x with
  | none =>
    cases rest with
    | nil => rfl
    | cons b r => rcases hr b r rfl with rfl | rfl | rfl <;> rfl
  | some e =>
    obtain ⟨s, ds⟩ := e
    obtain ⟨hne, hd⟩ := hx s ds rfl
    have h := takeDigits1_append hd hne hr.endsDigits
    cases s with
    | false => simp [exponentText, takeExponent, h]
    | true => simp [exponentText, takeExponent, h]

/-- An exponent does not go on with the digits before it. -/
theorem endsDigits_exponentText (x : Option (Bool × List UInt8)) {rest : List UInt8}
    (hr : Closes rest) : EndsDigits (exponentText x ++ rest) := by
  cases x with
  | none => exact hr.endsDigits
  | some e => exact endsDigits_cons (by decide) _

theorem takeFraction_append {ds : List UInt8} (hd : ∀ b ∈ ds, isDigit b = true)
    (x : Option (Bool × List UInt8)) {rest : List UInt8} (hr : Closes rest) :
    takeFraction (fractionText ds ++ (exponentText x ++ rest)) =
      some (ds.map digitValue, exponentText x ++ rest) := by
  cases ds with
  | nil =>
    cases x with
    | none =>
      cases rest with
      | nil => rfl
      | cons b r => rcases hr b r rfl with rfl | rfl | rfl <;> rfl
    | some e => rfl
  | cons b ds => exact takeDigits1_append hd (List.cons_ne_nil _ _) (endsDigits_exponentText x hr)

namespace NumeralText

/-- The text starts with a digit, after the sign. -/
theorem magnitude_eq_cons (t : NumeralText) :
    ∃ b r, t.magnitude = b :: r ∧ isDigit b = true := by
  cases h : t.whole with
  | nil =>
    rcases t.whole_head with hz | ⟨d, ds, hd, -⟩
    · rw [h] at hz
      cases hz
    · rw [h] at hd
      cases hd
  | cons b r =>
    refine ⟨b, _, by rw [magnitude, h]; rfl, t.whole_isDigit b ?_⟩
    rw [h]
    exact List.mem_cons_self

/-- The text of a numeral is read as that numeral. -/
theorem takeNumeral_octets (t : NumeralText) {rest : List UInt8} (hr : Closes rest) :
    takeNumeral (t.octets ++ rest) = some (t.numeral, rest) := by
  have hends : EndsDigits (fractionText t.fraction ++ (exponentText t.exponent ++ rest)) := by
    cases t.fraction with
    | nil => exact endsDigits_exponentText t.exponent hr
    | cons b ds => exact endsDigits_cons (by decide) _
  have hwhole := takeWhole_append t.whole_isDigit t.whole_head hends
  have hfraction := takeFraction_append t.fraction_isDigit t.exponent hr
  have hexponent := takeExponent_append t.exponent_isDigit hr
  have hsplit : t.magnitude ++ rest =
      t.whole ++ (fractionText t.fraction ++ (exponentText t.exponent ++ rest)) := by
    simp only [magnitude, List.append_assoc]
  cases hsign : t.negative with
  | true =>
    rw [octets, if_pos hsign, List.cons_append, takeNumeral, hsplit]
    simp only [hwhole, hfraction, hexponent, Option.bind_eq_bind, Option.bind_some, numeral, hsign]
    rfl
  | false =>
    -- without a leading minus the reader takes its second equation
    have hstart : ∀ rest', t.magnitude ++ rest = 0x2D :: rest' → False := by
      obtain ⟨b, r, hb, hd⟩ := t.magnitude_eq_cons
      rw [hb]
      rintro rest' ⟨⟩
      revert hd
      decide
    rw [octets, if_neg (by rw [hsign]; decide), takeNumeral.eq_2 _ hstart, hsplit]
    simp only [hwhole, hfraction, hexponent, Option.bind_eq_bind, Option.bind_some, numeral, hsign]
    rfl

end NumeralText

/-- The numeral of an integer. -/
def numeralOf (negative : Bool) (n : Nat) : Numeral :=
  ⟨negative, (Text.utf8 n.repr).map digitValue, [], none⟩

/-- The text of an integer. -/
def integerText (negative : Bool) (n : Nat) : NumeralText where
  negative := negative
  whole := Text.utf8 n.repr
  whole_isDigit _ hb := isDigit_of_mem_utf8_repr hb
  whole_head := digits_head n

theorem octets_integerText (negative : Bool) (n : Nat) : (integerText negative n).octets =
    if negative then 0x2D :: Text.utf8 n.repr else Text.utf8 n.repr := by
  have hmagnitude : (integerText negative n).magnitude = Text.utf8 n.repr := List.append_nil _
  rw [NumeralText.octets, hmagnitude]
  rfl

/-! ## Values -/

theorem value?_numeralOf_false {n : Nat} (h : n ≤ maxWord) :
    (numeralOf false n).value? =
      if (n : Int) ≤ Int64.maxValue.toInt then some (.int (Int64.ofInt n))
      else some (.uint (UInt64.ofNat n)) := by
  have hs : takeSignificand 0 (numeralOf false n).whole = (n, []) := by
    have hle : spell 0 (numeralOf false n).whole ≤ maxWord := by
      rw [numeralOf, spell_repr]
      exact h
    rw [takeSignificand_spell hle, numeralOf, spell_repr]
  rw [Numeral.value?, if_pos ⟨rfl, rfl⟩, hs]
  rfl

theorem value?_numeralOf_true {n : Nat} (hpos : 0 < n) (h : Int64.minValue.toInt ≤ -(n : Int)) :
    (numeralOf true n).value? = some (.int (Int64.ofInt (-n))) := by
  have hmin : Int64.minValue.toInt = -9223372036854775808 := by decide
  have hmax : maxWord = 18446744073709551615 := by decide
  have hs : takeSignificand 0 (numeralOf true n).whole = (n, []) := by
    have hle : spell 0 (numeralOf true n).whole ≤ maxWord := by
      rw [numeralOf, spell_repr]
      omega
    rw [takeSignificand_spell hle, numeralOf, spell_repr]
  rw [Numeral.value?, if_pos ⟨rfl, rfl⟩, hs]
  simp only [numeralOf, if_true]
  rw [if_pos ⟨hpos, h⟩]

end QueryCache.Json
