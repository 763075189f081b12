import Mathlib
import QueryCache.Decimal.Layout
import QueryCache.Proofs.Decimal.Shortest
import QueryCache.Proofs.Json.Numeral

/-!
# Decimals as numerals

A decimal is written with a point, or with one digit before the point and an exponent.  Either
way the text is a numeral, and what the numeral spells is the decimal.

1. the value of a numeral
2. digits
3. texts with a point
4. texts with an exponent
-/

namespace QueryCache

open Json

namespace Json

/-! ## The value of a numeral -/

theorem spell_append (s : Nat) (ds ds' : List Nat) :
    spell s (ds ++ ds') = spell (spell s ds) ds' := List.foldl_append

theorem spell_replicate_zero (s n : Nat) : spell s (List.replicate n 0) = s * 10 ^ n := by
  induction n generalizing s with
  | zero => exact (Nat.mul_one s).symm
  | succ n ih =>
    calc spell s (List.replicate (n + 1) 0) = spell (s * 10) (List.replicate n 0) := rfl
      _ = s * 10 ^ (n + 1) := by rw [ih, Nat.pow_succ, Nat.mul_assoc, Nat.mul_comm 10]

/-- The exponent that is written. -/
def Numeral.power (n : Numeral) : Int :=
  match n.exponent with
  | none => 0
  | some (negative, ds) => if negative then -(spell 0 ds : Int) else spell 0 ds

/-- The number that is written, without its sign. -/
def Numeral.magnitude (n : Numeral) : ℚ :=
  spell 0 (n.whole ++ n.fraction) * 10 ^ (n.power - n.fraction.length)

/-- A sign stands before the text of a numeral, or none. -/
theorem NumeralText.utf8_signed (t : NumeralText) {text : String}
    (h : t.magnitude = Text.utf8 text) (negative : Bool) :
    Text.utf8 (if negative then "-" ++ text else text) =
      { t with negative := negative }.octets := by
  cases negative with
  | false => exact h.symm
  | true =>
    have hminus : Text.utf8 "-" = [0x2D] := by decide +kernel
    rw [if_pos rfl, Text.utf8_append, hminus, ← h]
    rfl

/-- A text is a numeral with a point or an exponent, and stands for a number. -/
def SpellsFloat (text : String) (q : ℚ) : Prop :=
  ∃ t : NumeralText, t.magnitude = Text.utf8 text ∧ (t.fraction ≠ [] ∨ t.exponent ≠ none) ∧
    t.numeral.magnitude = q

/-! ## Digits -/

theorem digitValue_lt {b : UInt8} (hb : isDigit b = true) : digitValue b < 10 := by
  simp only [isDigit, Bool.and_eq_true, decide_eq_true_eq, UInt8.le_iff_toNat_le] at hb
  have h : b.toNat ≤ 57 := hb.2
  rw [digitValue]
  omega

/-- The octets of digits. -/
abbrev octets (cs : List Char) : List UInt8 := cs.map octet

/-- The digits of a positive number: a first one that is no zero, and the others. -/
structure Digits (n : Nat) where
  first : Char
  rest : List Char
  toDigits_eq : Nat.toDigits 10 n = first :: rest
  first_ne : digitValue (octet first) ≠ 0
  spell_eq : spell (digitValue (octet first)) ((octets rest).map digitValue) = n

theorem exists_digits {n : Nat} (hn : 0 < n) : Nonempty (Digits n) := by
  have hspell := spell_repr n
  have hhead := digits_head n
  rw [utf8_repr] at hspell hhead
  cases hc : Nat.toDigits 10 n with
  | nil =>
    rw [hc] at hspell
    exact absurd hspell (Nat.ne_of_lt hn)
  | cons c cs =>
    rw [hc] at hspell hhead
    have hfirst : spell 0 ((octets (c :: cs)).map digitValue) =
        spell (digitValue (octet c)) ((octets cs).map digitValue) := by
      rw [octets, List.map_cons, List.map_cons, spell, List.foldl_cons, Nat.zero_mul, Nat.zero_add]
      rfl
    rw [hfirst] at hspell
    refine ⟨c, cs, hc, ?_, hspell⟩
    -- A zero would stand alone, and spell zero.
    intro hz
    rcases hhead with h | ⟨d, ds, h, hne⟩
    · rw [List.map_cons, List.map_cons] at h
      obtain ⟨-, h⟩ := List.cons.inj h
      rw [octets, h, hz] at hspell
      exact absurd hspell (Nat.ne_of_lt hn)
    · rw [List.map_cons, List.map_cons] at h
      exact hne ((List.cons.inj h).1.symm.trans hz)

namespace Digits

variable {n : Nat} (ds : Digits n)

/-- All digits, the first one included. -/
abbrev all : List Char := ds.first :: ds.rest

theorem mem_toDigits {cs : List Char} (h : cs ⊆ ds.all) : ∀ c ∈ cs, c ∈ Nat.toDigits 10 n := by
  rw [ds.toDigits_eq]
  exact fun c hc => h hc

theorem isDigit_of_mem {cs : List Char} (h : cs ⊆ ds.all) {b : UInt8} (hb : b ∈ octets cs) :
    isDigit b = true := by
  obtain ⟨c, hc, rfl⟩ := List.mem_map.1 hb
  refine isDigit_of_mem_utf8_repr (n := n) ?_
  rw [utf8_repr]
  exact List.mem_map_of_mem (ds.mem_toDigits h c hc)

theorem utf8_ofList {cs : List Char} (h : cs ⊆ ds.all) :
    Text.utf8 (String.ofList cs) = octets cs := by
  refine Text.utf8_ofList_ascii fun c hc => ?_
  have hu := (toNat_of_mem_toDigits (ds.mem_toDigits h c hc)).2
  omega

theorem spell_all : spell 0 ((octets ds.all).map digitValue) = n := by
  refine Eq.trans ?_ ds.spell_eq
  show spell (0 * 10 + digitValue (octet ds.first)) ((octets ds.rest).map digitValue) = _
  rw [Nat.zero_mul, Nat.zero_add]

theorem first_lt : digitValue (octet ds.first) < 10 := by
  have hmem : octet ds.first ∈ octets [ds.first] := List.mem_cons_self
  exact digitValue_lt (ds.isDigit_of_mem (by simp) hmem)

/-- The leading digits make a whole part. -/
theorem head_octets (cs : List Char) : (octets (ds.first :: cs)).map digitValue = [0] ∨
    ∃ v vs, (octets (ds.first :: cs)).map digitValue = v :: vs ∧ v ≠ 0 :=
  .inr ⟨_, _, rfl, ds.first_ne⟩

end Digits

end Json

namespace Decimal

theorem toList_digitText (n : Nat) : (digitText n).toList = Nat.toDigits 10 n :=
  String.toList_ofList

theorem length_digitText (n : Nat) : (digitText n).length = (Nat.toDigits 10 n).length := by
  rw [← String.length_toList, toList_digitText]

/-- The leading digit stands where the exponent and the number of digits put it. -/
theorem leading_eq {d : Decimal} (ds : Digits d.digits) :
    d.leading = d.exponent + ds.rest.length := by
  rw [leading, length_digitText, ds.toDigits_eq, List.length_cons]
  omega

theorem utf8_digitText (n : Nat) :
    Text.utf8 (digitText n) = octets (Nat.toDigits 10 n) := by
  have hrepr : digitText n = n.repr := Nat.repr_eq_ofList_toDigits.symm
  rw [hrepr]
  exact utf8_repr n

/-- Zeros as octets. -/
theorem utf8_zeros (n : Nat) : Text.utf8 (zeros n) = List.replicate n 0x30 := by
  have h : (zeros n).toList = List.replicate n '0' := by
    induction n with
    | zero => rfl
    | succ n ih =>
      show ((zeros n).push '0').toList = _
      rw [String.toList_push, ih, List.replicate_succ']
  rw [← String.ofList_toList (s := zeros n), h, Text.utf8_ofList_ascii, List.map_replicate]
  · rfl
  · intro c hc
    rw [List.eq_of_mem_replicate hc]
    decide

theorem isDigit_of_mem_zeros {n : Nat} {b : UInt8} (h : b ∈ List.replicate n (0x30 : UInt8)) :
    isDigit b = true := by
  rw [List.eq_of_mem_replicate h]
  decide

/-! ## Texts with a point -/

/-- Digits before and after a point, and the number that they spell. -/
structure PointText (text : String) (q : ℚ) where
  whole : List UInt8
  fraction : List UInt8
  utf8_eq : Text.utf8 text = whole ++ 0x2E :: fraction
  whole_isDigit : ∀ b ∈ whole, isDigit b = true
  whole_head : whole.map digitValue = [0] ∨ ∃ d ds, whole.map digitValue = d :: ds ∧ d ≠ 0
  fraction_isDigit : ∀ b ∈ fraction, isDigit b = true
  fraction_ne : fraction ≠ []
  spell_eq : (spell 0 ((whole ++ fraction).map digitValue) : ℚ) = q * 10 ^ fraction.length

namespace PointText

variable {text : String} {q : ℚ} (p : PointText text q)

/-- The numeral that the text is. -/
def numeralText : NumeralText where
  negative := false
  whole := p.whole
  fraction := p.fraction
  whole_isDigit := p.whole_isDigit
  whole_head := p.whole_head
  fraction_isDigit := p.fraction_isDigit
  exponent := none
  exponent_isDigit := nofun

theorem magnitude_numeralText : p.numeralText.magnitude = Text.utf8 text := by
  obtain ⟨b, ds, hfraction⟩ := List.exists_cons_of_ne_nil p.fraction_ne
  have hpoint : fractionText p.fraction = 0x2E :: p.fraction := by
    rw [hfraction]
    rfl
  show p.whole ++ (fractionText p.fraction ++ []) = _
  rw [p.utf8_eq, hpoint, List.append_nil]

include p in
theorem spellsFloat : SpellsFloat text q := by
  refine ⟨p.numeralText, p.magnitude_numeralText, .inl p.fraction_ne, ?_⟩
  have hspell : (spell 0 (p.whole.map digitValue ++ p.fraction.map digitValue) : ℚ) =
      q * 10 ^ p.fraction.length := by
    rw [← List.map_append]
    exact p.spell_eq
  show (spell 0 (p.whole.map digitValue ++ p.fraction.map digitValue) : ℚ) *
    10 ^ (0 - ((p.fraction.map digitValue).length : Int)) = q
  rw [hspell, List.length_map, zero_sub, zpow_neg, zpow_natCast, mul_assoc,
    mul_inv_cancel₀ (by positivity), mul_one]

end PointText

/-- The number zero. -/
def pointText_zero : PointText "0.0" 0 where
  whole := [0x30]
  fraction := [0x30]
  utf8_eq := by decide +kernel
  whole_isDigit b hb := isDigit_of_mem_zeros (n := 1) hb
  whole_head := .inl (by decide)
  fraction_isDigit b hb := isDigit_of_mem_zeros (n := 1) hb
  fraction_ne := by decide
  spell_eq := by
    rw [zero_mul]
    rfl

section Positional

variable {d : Decimal} (ds : Digits d.digits)

/-- Zeros follow the digits, and then a point and one more zero. -/
def pointText_integral (he : 0 ≤ d.exponent) :
    PointText (digitText d.digits ++ zeros d.exponent.toNat ++ ".0") d.value where
  whole := octets ds.all ++ List.replicate d.exponent.toNat 0x30
  fraction := [0x30]
  utf8_eq := by
    have hpoint : Text.utf8 ".0" = [0x2E, 0x30] := by decide +kernel
    rw [Text.utf8_append, Text.utf8_append, utf8_digitText, ds.toDigits_eq, utf8_zeros, hpoint]
  whole_isDigit b hb :=
    (List.mem_append.1 hb).elim (ds.isDigit_of_mem (List.Subset.refl _)) isDigit_of_mem_zeros
  whole_head := .inr ⟨_, _, rfl, ds.first_ne⟩
  fraction_isDigit b hb := isDigit_of_mem_zeros (n := 1) hb
  fraction_ne := by decide
  spell_eq := by
    have hzeros : octets ds.all ++ List.replicate d.exponent.toNat 0x30 ++ [0x30] =
        octets ds.all ++ List.replicate (d.exponent.toNat + 1) 0x30 := by
      rw [List.append_assoc, List.replicate_succ']
    have hexponent : (10 : ℚ) ^ d.exponent = 10 ^ d.exponent.toNat := by
      rw [← zpow_natCast, Int.toNat_of_nonneg he]
    rw [hzeros, List.map_append, spell_append, ds.spell_all, List.map_replicate,
      show digitValue 0x30 = 0 from rfl, spell_replicate_zero, Decimal.value, hexponent]
    push_cast
    rw [pow_succ, List.length_singleton, pow_one, mul_assoc]

/-- The point stands among the digits. -/
def pointText_inside {n : Nat} (hn : n < ds.rest.length)
    (he : d.exponent + ds.rest.length = n) :
    PointText (String.ofList (ds.first :: ds.rest.take n) ++ "." ++
      String.ofList (ds.rest.drop n)) d.value where
  whole := octets (ds.first :: ds.rest.take n)
  fraction := octets (ds.rest.drop n)
  utf8_eq := by
    rw [Text.utf8_append, Text.utf8_append,
      ds.utf8_ofList (List.cons_subset_cons _ (List.take_subset n ds.rest)),
      ds.utf8_ofList (List.Subset.trans (List.drop_subset n ds.rest) (List.subset_cons_self ..))]
    exact List.append_assoc ..
  whole_isDigit b hb :=
    ds.isDigit_of_mem (List.cons_subset_cons _ (List.take_subset n ds.rest)) hb
  whole_head := ds.head_octets _
  fraction_isDigit b hb :=
    ds.isDigit_of_mem (List.Subset.trans (List.drop_subset n ds.rest) (List.subset_cons_self ..)) hb
  fraction_ne := by
    rw [ne_eq, List.map_eq_nil_iff, List.drop_eq_nil_iff]
    omega
  spell_eq := by
    have hall : octets (ds.first :: ds.rest.take n) ++ octets (ds.rest.drop n) = octets ds.all := by
      rw [← List.map_append, List.cons_append, List.take_append_drop]
    have hexponent : d.exponent = -((ds.rest.length - n : Nat) : Int) := by omega
    rw [hall, ds.spell_all, List.length_map, List.length_drop, Decimal.value, hexponent, zpow_neg,
      zpow_natCast, mul_assoc, inv_mul_cancel₀ (by positivity), mul_one]

/-- Zeros stand between the point and the digits. -/
def pointText_fraction (n : Nat) (he : d.exponent + ds.rest.length + 1 = -(n : Int)) :
    PointText ("0." ++ zeros n ++ digitText d.digits) d.value where
  whole := [0x30]
  fraction := List.replicate n 0x30 ++ octets ds.all
  utf8_eq := by
    have hpoint : Text.utf8 "0." = [0x30, 0x2E] := by decide +kernel
    rw [Text.utf8_append, Text.utf8_append, utf8_digitText, ds.toDigits_eq, utf8_zeros, hpoint,
      List.append_assoc]
    rfl
  whole_isDigit b hb := isDigit_of_mem_zeros (n := 1) hb
  whole_head := .inl (by decide)
  fraction_isDigit b hb :=
    (List.mem_append.1 hb).elim isDigit_of_mem_zeros (ds.isDigit_of_mem (List.Subset.refl _))
  fraction_ne := by
    rw [ne_eq, List.append_eq_nil_iff]
    exact fun h => absurd h.2 (List.cons_ne_nil _ _)
  spell_eq := by
    have hzeros : [0x30] ++ (List.replicate n 0x30 ++ octets ds.all) =
        List.replicate (n + 1) 0x30 ++ octets ds.all := rfl
    have hexponent : d.exponent = -((n + (ds.rest.length + 1) : Nat) : Int) := by omega
    rw [hzeros, List.map_append, spell_append, List.map_replicate,
      show digitValue 0x30 = 0 from rfl, spell_replicate_zero, Nat.zero_mul, ds.spell_all,
      List.length_append, List.length_replicate, List.length_map, List.length_cons, Decimal.value,
      hexponent, zpow_neg, zpow_natCast, mul_assoc, inv_mul_cancel₀ (by positivity), mul_one]

include ds in
/-- Positional text has a point, and before it at most one digit more than the leading digit
stands above the ones. -/
theorem exists_pointText_positional : ∃ p : PointText (d.positional true) d.value,
    d.leading < 16 → p.whole.length ≤ 16 := by
  have hplace := leading_eq ds
  have hlength : (digitText d.digits).length = ds.rest.length + 1 := by
    rw [length_digitText, ds.toDigits_eq, List.length_cons]
  generalize htext : d.positional true = text
  unfold positional at htext
  dsimp only at htext
  split at htext
  · rename_i he
    subst htext
    refine ⟨pointText_integral ds he, fun hleading => ?_⟩
    show (octets ds.all ++ List.replicate d.exponent.toNat 0x30).length ≤ 16
    rw [List.length_append, List.length_replicate, List.length_map, List.length_cons]
    omega
  · split at htext
    · rename_i hneg hinside
      have hcut : (digitText d.digits).length - (-d.exponent).toNat =
          ds.rest.length - (-d.exponent).toNat + 1 := by omega
      rw [hcut, toList_digitText, ds.toDigits_eq, List.take_succ_cons, List.drop_succ_cons]
        at htext
      subst htext
      refine ⟨pointText_inside ds (by omega) (by omega), fun hleading => ?_⟩
      show (octets (ds.first :: ds.rest.take (ds.rest.length - (-d.exponent).toNat))).length ≤ 16
      rw [List.length_map, List.length_cons, List.length_take]
      omega
    · rename_i hneg hbefore
      subst htext
      exact ⟨pointText_fraction ds _ (by omega), fun _ => Nat.le_add_left 1 15⟩

end Positional

/-! ## Texts with an exponent -/

section Scientific

variable {d : Decimal} (ds : Digits d.digits)

/-- The sign of the exponent and its digits. -/
def places (d : Decimal) : Bool × List UInt8 :=
  (decide (d.leading < 0), octets (Nat.toDigits 10 d.leading.natAbs))

theorem spell_places (d : Decimal) : spell 0 (d.places.2.map digitValue) = d.leading.natAbs := by
  have hrepr := spell_repr d.leading.natAbs
  rw [utf8_repr] at hrepr
  exact hrepr

theorem isDigit_places (d : Decimal) : d.places.2 ≠ [] ∧ ∀ b ∈ d.places.2, isDigit b = true := by
  constructor
  · exact fun hnil => Nat.toDigits_ne_nil (List.map_eq_nil_iff.1 hnil)
  · intro b hb
    refine isDigit_of_mem_utf8_repr (n := d.leading.natAbs) ?_
    rw [utf8_repr]
    exact hb

/-- One digit, the point and the others if there are any, and the exponent. -/
theorem utf8_scientific : Text.utf8 d.scientific =
    octets [ds.first] ++ (fractionText (octets ds.rest) ++ exponentText (some d.places)) := by
  have hpoint : Text.utf8 (if ds.all.length ≤ 1 then "" else ".") ++ octets ds.rest =
      fractionText (octets ds.rest) := by
    unfold Digits.all
    cases ds.rest with
    | nil => rfl
    | cons c cs => rfl
  have hmark : Text.utf8 (if 0 ≤ d.leading then "e+" else "e-") =
      [0x65, if decide (d.leading < 0) then 0x2D else 0x2B] := by
    rcases lt_or_ge d.leading 0 with hneg | hpos
    · rw [if_neg (by omega), if_pos (decide_eq_true hneg)]
      decide +kernel
    · rw [if_pos hpos, if_neg (by simpa using hpos)]
      decide +kernel
  unfold scientific
  dsimp only
  rw [toList_digitText, ds.toDigits_eq, List.take_succ_cons, List.take_zero, List.drop_succ_cons,
    List.drop_zero, Text.utf8_append, Text.utf8_append, Text.utf8_append, Text.utf8_append,
    utf8_digitText, ds.utf8_ofList (List.cons_subset_cons _ (List.nil_subset _)),
    ds.utf8_ofList (List.subset_cons_self ..), hmark, List.append_assoc, List.append_assoc,
    List.append_assoc, ← List.append_assoc _ (octets ds.rest), hpoint]
  rfl

/-- The numeral of scientific text. -/
def scientificText : NumeralText where
  negative := false
  whole := octets [ds.first]
  fraction := octets ds.rest
  exponent := some d.places
  whole_isDigit _ hb := ds.isDigit_of_mem (List.cons_subset_cons _ (List.nil_subset _)) hb
  whole_head := ds.head_octets []
  fraction_isDigit _ hb := ds.isDigit_of_mem (List.subset_cons_self ..) hb
  exponent_isDigit := by
    rintro _ _ ⟨⟩
    exact isDigit_places d

include ds in
theorem spellsFloat_scientific : SpellsFloat d.scientific d.value := by
  refine ⟨scientificText ds, (utf8_scientific ds).symm, .inr (Option.some_ne_none _), ?_⟩
  have hpower : (scientificText ds).numeral.power = d.leading := by
    show (if decide (d.leading < 0) then -(spell 0 (d.places.2.map digitValue) : Int)
      else (spell 0 (d.places.2.map digitValue) : Int)) = d.leading
    rw [spell_places]
    split
    · rename_i hneg
      have hneg' := of_decide_eq_true hneg
      omega
    · rename_i hpos
      have hpos' : ¬ d.leading < 0 := fun h => hpos (decide_eq_true h)
      omega
  have hall : octets [ds.first] ++ octets ds.rest = octets ds.all := rfl
  rw [Numeral.magnitude, hpower]
  show (spell 0 ((octets [ds.first]).map digitValue ++ (octets ds.rest).map digitValue) : ℚ) *
    10 ^ (d.leading - ((octets ds.rest).map digitValue).length) = d.value
  rw [← List.map_append, hall, ds.spell_all, List.length_map, List.length_map, leading_eq ds,
    add_sub_cancel_right, Decimal.value]

end Scientific

end Decimal

end QueryCache
