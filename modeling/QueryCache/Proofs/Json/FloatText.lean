import Mathlib
import QueryCache.Proofs.Decimal.Product
import QueryCache.Proofs.Decimal.Rounding
import QueryCache.Proofs.Json.DecimalText

/-!
# A finite float is read back

The text that is written for a finite float is a number, and the number is in the range of
the floats, so it is read; which float it is read as is left open here.  A text with few
digits before the point divides by a power of ten, and so does one with a negative exponent.
One with a large exponent multiplies, and the product is finite, since the decimal is at most
half a unit in the last place above the float.

1. significands
2. texts of decimals
3. floats
-/

namespace QueryCache

open Json

namespace Json

/-! ## Significands -/

/-- Each digit multiplies by ten. -/
theorem mul_pow_le_spell (s : Nat) (ds : List Nat) : s * 10 ^ ds.length ≤ spell s ds := by
  induction ds generalizing s with
  | nil => exact le_of_eq (Nat.mul_one s)
  | cons d ds ih =>
    calc s * 10 ^ (ds.length + 1) = s * 10 * 10 ^ ds.length := by ring
      _ ≤ (s * 10 + d) * 10 ^ ds.length := Nat.mul_le_mul_right _ (Nat.le_add_right _ _)
      _ ≤ spell s (d :: ds) := ih _

theorem spell_lt {s : Nat} {ds : List Nat} (h : ∀ d ∈ ds, d < 10) :
    spell s ds < (s + 1) * 10 ^ ds.length := by
  induction ds generalizing s with
  | nil => exact Nat.lt_of_lt_of_eq (Nat.lt_succ_self s) (Nat.mul_one _).symm
  | cons d ds ih =>
    have hd : d < 10 := h d List.mem_cons_self
    calc spell s (d :: ds) < (s * 10 + d + 1) * 10 ^ ds.length :=
          ih fun x hx => h x (List.mem_cons_of_mem d hx)
      _ ≤ (s + 1) * 10 * 10 ^ ds.length := Nat.mul_le_mul_right _ (by omega)
      _ = (s + 1) * 10 ^ (ds.length + 1) := by ring

/-- The significand is spelled by the digits that are taken, and fits in a word. -/
theorem takeSignificand_spec {s : Nat} (hs : s ≤ maxWord) (ds : List Nat) :
    ∃ taken, ds = taken ++ (takeSignificand s ds).2 ∧
      (takeSignificand s ds).1 = spell s taken ∧ spell s taken ≤ maxWord := by
  induction ds generalizing s with
  | nil => exact ⟨[], rfl, rfl, hs⟩
  | cons d ds ih =>
    rw [takeSignificand]
    split
    · rename_i h
      obtain ⟨taken, hds, hspell, hle⟩ := ih h
      exact ⟨d :: taken, by rw [List.cons_append, ← hds], hspell, hle⟩
    · exact ⟨[], rfl, rfl, hs⟩

/-- Without an exponent the significand is scaled by the digits after the point. -/
theorem isSome_toFloat?_of_exponent_none {n : Numeral} (hx : n.exponent = none) {w s : Nat}
    {ignored : List Nat} (hw : takeSignificand 0 n.whole = (w, []))
    (hs : takeSignificand w n.fraction = (s, ignored))
    (h : (scale (UInt64.ofNat s).toFloat
      (0 - ((n.fraction.length - ignored.length : Nat) : Int))).isSome) : n.toFloat?.isSome := by
  obtain ⟨f, hf⟩ := Option.isSome_iff_exists.1 h
  unfold Numeral.toFloat?
  rw [hw]
  dsimp only
  rw [hs, hx]
  dsimp only
  rw [List.length_nil, Nat.cast_zero, hf]
  rfl

/-- With an exponent it is scaled by both; too small an exponent makes the number zero. -/
theorem isSome_toFloat?_of_exponent_some {n : Numeral} {negative : Bool} {ds : List Nat}
    (hx : n.exponent = some (negative, ds)) {w s : Nat} {ignored : List Nat}
    (hw : takeSignificand 0 n.whole = (w, []))
    (hs : takeSignificand w n.fraction = (s, ignored))
    (h : ∀ e, statedExponent negative ds = some e → (scale (UInt64.ofNat s).toFloat
      (0 - ((n.fraction.length - ignored.length : Nat) : Int) + e)).isSome)
    (hnone : statedExponent negative ds = none → negative = true) : n.toFloat?.isSome := by
  unfold Numeral.toFloat?
  rw [hw]
  dsimp only
  rw [hs, hx]
  dsimp only
  rw [List.length_nil, Nat.cast_zero]
  cases he : statedExponent negative ds with
  | none =>
    dsimp only
    rw [if_pos (.inl (hnone he))]
    rfl
  | some e =>
    obtain ⟨f, hf⟩ := Option.isSome_iff_exists.1 (h e he)
    dsimp only
    rw [hf]
    rfl

/-- A number with few digits before the point, and some after it, is divided. -/
theorem isSome_toFloat?_of_short {n : Numeral} (hx : n.exponent = none)
    (hlength : n.whole.length ≤ 16) (hwhole : ∀ d ∈ n.whole, d < 10)
    (hfraction : ∀ d ∈ n.fraction, d < 10) (hne : n.fraction ≠ []) : n.toFloat?.isSome := by
  have hsmall : spell 0 n.whole < 10 ^ 16 := by
    calc spell 0 n.whole < (0 + 1) * 10 ^ n.whole.length := spell_lt hwhole
      _ ≤ 10 ^ 16 := by
        rw [Nat.zero_add, Nat.one_mul]
        exact Nat.pow_le_pow_right (by decide) hlength
  have hword : maxWord = 18446744073709551615 := by decide
  have hw : takeSignificand 0 n.whole = (spell 0 n.whole, []) := takeSignificand_spell (by omega)
  -- The first digit after the point still fits.
  obtain ⟨d, ds, hds⟩ := List.exists_cons_of_ne_nil hne
  have hd : d < 10 := hfraction d (by rw [hds]; exact List.mem_cons_self)
  have hfits : spell 0 n.whole * 10 + d ≤ maxWord := by omega
  obtain ⟨taken, htaken, -, -⟩ := takeSignificand_spec hfits ds
  have hs : takeSignificand (spell 0 n.whole) n.fraction =
      takeSignificand (spell 0 n.whole * 10 + d) ds := by
    rw [hds, takeSignificand, if_pos hfits]
  have hshorter := congrArg List.length htaken
  rw [List.length_append] at hshorter
  refine isSome_toFloat?_of_exponent_none hx hw (hs.trans rfl) (isSome_scale_of_neg _ ?_)
  rw [hds, List.length_cons]
  omega

theorem le_maxWord {d : Nat} (hd : d < 10) : d ≤ maxWord :=
  le_trans (Nat.le_of_lt hd) (by decide)

/-- One digit before the point. -/
theorem takeSignificand_digit {ds : List Nat} {d : Nat} (hds : ds = [d]) (hd : d < 10) :
    takeSignificand 0 ds = (d, []) := by
  rw [hds, takeSignificand, Nat.zero_mul, Nat.zero_add, if_pos (le_maxWord hd)]
  rfl

/-- A negative exponent divides, or makes the number zero. -/
theorem isSome_toFloat?_of_negative {n : Numeral} {d : Nat} {ds : List Nat}
    (hx : n.exponent = some (true, ds)) (hwhole : n.whole = [d]) (hpos : 0 < d) (hd : d < 10) :
    n.toFloat?.isSome := by
  obtain ⟨taken, -, hspell, hle⟩ := takeSignificand_spec (le_maxWord hd) n.fraction
  have hsig : 0 < spell d taken := lt_of_lt_of_le hpos (le_spell d taken)
  refine isSome_toFloat?_of_exponent_some hx (takeSignificand_digit hwhole hd) rfl
    (fun e he => ?_) fun _ => rfl
  have hneg : e ≤ 0 := by
    unfold statedExponent at he
    dsimp only at he
    split at he
    · have heq := Option.some.inj he
      rw [if_pos rfl] at heq
      omega
    · cases he
  rw [hspell]
  refine isSome_scale (by omega) fun k hk => isInf_toFloat_mul hsig hle (by omega) ?_
  obtain rfl : k = 0 := by omega
  calc (spell d taken : ℚ) * 10 ^ 0 ≤ (maxWord : ℚ) := by
        rw [pow_zero, mul_one]
        exact Nat.cast_le.2 hle
    _ ≤ (2 ^ 53 - 5) * 2 ^ (64 : ℤ) := by
        rw [show maxWord = 18446744073709551615 by decide]
        norm_num
    _ ≤ (2 ^ 53 - 5) * 2 ^ (971 : ℤ) :=
        mul_le_mul_of_nonneg_left (zpow_le_zpow_right₀ one_le_two (by decide)) (by norm_num)

/-- A stated exponent within the bound is what its digits spell. -/
theorem statedExponent_false {ds : List Nat} (h : spell 0 ds < exponentBound) :
    statedExponent false ds = some (spell 0 ds : Int) := by
  have hfold : ∀ (ds : List Nat) (s : Nat), spell s ds < exponentBound →
      ds.foldl (fun n d => if exponentBound ≤ n then n else n * 10 + d) s = spell s ds := by
    intro ds
    induction ds with
    | nil => exact fun s _ => rfl
    | cons d ds ih =>
      intro s hs
      have hle := le_spell (s * 10 + d) ds
      have hlt : spell (s * 10 + d) ds < exponentBound := hs
      rw [List.foldl_cons, if_neg (by omega)]
      exact ih _ hs
  unfold statedExponent
  dsimp only
  rw [hfold ds 0 h, if_pos h]
  rfl

/-- A positive exponent multiplies the digits that are taken; the product has to be finite. -/
theorem isSome_toFloat?_of_positive {n : Numeral} {d e : Nat} {ds : List Nat}
    (hx : n.exponent = some (false, ds)) (he : statedExponent false ds = some (e : Int))
    (hle : e ≤ 308) (hwhole : n.whole = [d]) (hd : d < 10)
    (h : ∀ taken ignored, n.fraction = taken ++ ignored → spell d taken ≤ maxWord →
      ∀ k : Nat, (e : Int) = taken.length + k →
        ((UInt64.ofNat (spell d taken)).toFloat * powerOfTen k).isInf = false) :
    n.toFloat?.isSome := by
  obtain ⟨taken, hfraction, hspell, hsig⟩ := takeSignificand_spec (le_maxWord hd) n.fraction
  refine isSome_toFloat?_of_exponent_some hx (takeSignificand_digit hwhole hd) rfl
    (fun e' he' => ?_) fun hnone => by simp [he] at hnone
  rw [he] at he'
  obtain rfl := Option.some.inj he'
  have hlength := congrArg List.length hfraction
  rw [List.length_append] at hlength
  rw [hspell]
  exact isSome_scale (by omega) fun k hk => h taken _ hfraction hsig k (by omega)

end Json

namespace Decimal

/-! ## Texts of decimals -/

/-- The first digits, with as many zeros as digits were left out, are not above the number. -/
theorem scaled_le_value {d : Decimal} {s j k : Nat} (h : s * 10 ^ j ≤ d.digits)
    (hk : (k : Int) = d.exponent + j) : (s : ℚ) * 10 ^ k ≤ d.value := by
  have hcast : (s : ℚ) * 10 ^ j ≤ d.digits := by exact_mod_cast h
  calc (s : ℚ) * 10 ^ k = s * 10 ^ j * 10 ^ d.exponent := by
        rw [← zpow_natCast, hk, zpow_add₀ (by norm_num), zpow_natCast]
        ring
    _ ≤ d.value := mul_le_mul_of_nonneg_right hcast (by positivity)

/-- A number is not below the place of its leading digit. -/
theorem ten_pow_leading_le {d : Decimal} (hd : 0 < d.digits) :
    (10 : ℚ) ^ d.leading ≤ d.value := by
  obtain ⟨ds⟩ := exists_digits hd
  have hle := mul_pow_le_spell (digitValue (octet ds.first)) ((octets ds.rest).map digitValue)
  rw [ds.spell_eq, List.length_map, List.length_map] at hle
  have hone : 10 ^ ds.rest.length ≤ d.digits :=
    le_trans (Nat.le_mul_of_pos_left _ (Nat.pos_of_ne_zero ds.first_ne)) hle
  have hcast : (10 : ℚ) ^ ds.rest.length ≤ d.digits := by exact_mod_cast hone
  calc (10 : ℚ) ^ d.leading = 10 ^ ds.rest.length * 10 ^ d.exponent := by
        rw [leading_eq ds, zpow_add₀ (by norm_num), zpow_natCast]
        ring
    _ ≤ d.value := mul_le_mul_of_nonneg_right hcast (by positivity)

/-- A text is read as a float, whichever sign stands before it. -/
def IsFloatText (text : String) : Prop :=
  ∃ t : NumeralText, t.magnitude = Text.utf8 text ∧ (t.fraction ≠ [] ∨ t.exponent ≠ none) ∧
    ∀ negative, { t.numeral with negative := negative }.toFloat?.isSome

/-- A text with a point, and at most sixteen digits before it, is read as a float. -/
theorem isFloatText_of_short {text : String} {q : ℚ} (p : PointText text q)
    (hlength : p.whole.length ≤ 16) : IsFloatText text := by
  have hvalues : ∀ {bs : List UInt8}, (∀ b ∈ bs, isDigit b = true) →
      ∀ d ∈ bs.map digitValue, d < 10 := by
    intro bs hbs d hd
    obtain ⟨b, hb, rfl⟩ := List.mem_map.1 hd
    exact digitValue_lt (hbs b hb)
  refine ⟨p.numeralText, p.magnitude_numeralText, .inl p.fraction_ne, fun negative => ?_⟩
  refine isSome_toFloat?_of_short rfl ?_ (hvalues p.whole_isDigit) (hvalues p.fraction_isDigit) ?_
  · rw [NumeralText.numeral, List.length_map]
    exact hlength
  · rw [NumeralText.numeral, ne_eq, List.map_eq_nil_iff]
    exact p.fraction_ne

/-- Positional text with a point is read as a float, as long as the leading digit has at most
fifteen others before the point. -/
theorem isFloatText_positional {d : Decimal} (ds : Digits d.digits) (hleading : d.leading < 16) :
    IsFloatText (d.positional true) := by
  obtain ⟨p, hlength⟩ := exists_pointText_positional ds
  exact isFloatText_of_short p (hlength hleading)

/-- A decimal below the bound of the floats has at most 309 digits before the point. -/
theorem leading_le_of_value_le {d : Decimal} (hd : 0 < d.digits)
    (h : d.value ≤ (2 ^ 53 - 5) * 2 ^ (971 : ℤ)) : d.leading ≤ 308 := by
  have hlt : (10 : ℚ) ^ d.leading < 10 ^ (309 : ℤ) := by
    calc (10 : ℚ) ^ d.leading ≤ d.value := ten_pow_leading_le hd
      _ ≤ (2 ^ 53 - 5) * 2 ^ (971 : ℤ) := h
      _ ≤ largest := mul_le_mul_of_nonneg_right (by norm_num) (by positivity)
      _ = ((9007199254740991 * 2 ^ 971 : Nat) : ℚ) := largest_eq
      _ < ((10 ^ 309 : Nat) : ℚ) := Nat.cast_lt.2 (by decide +kernel)
      _ = 10 ^ (309 : ℤ) := by rw [Nat.cast_pow, Nat.cast_ofNat, zpow_ofNat]
  have hexp := (zpow_lt_zpow_iff_right₀ (by norm_num)).1 hlt
  omega

section Scientific

variable {d : Decimal} (ds : Digits d.digits)

/-- The number that scientific text spells is in range if the decimal is small or stays below
the bound. -/
theorem isSome_toFloat?_scientific (h : 0 ≤ d.leading → d.value ≤ (2 ^ 53 - 5) * 2 ^ (971 : ℤ))
    {n : Numeral} (hwhole : n.whole = [digitValue (octet ds.first)])
    (hfraction : n.fraction = (octets ds.rest).map digitValue)
    (hexponent : n.exponent = some (d.places.1, d.places.2.map digitValue)) :
    n.toFloat?.isSome := by
  have hpos : 0 < digitValue (octet ds.first) := Nat.pos_of_ne_zero ds.first_ne
  rcases lt_or_ge d.leading 0 with hneg | hlarge
  · have hsign : d.places.1 = true := decide_eq_true hneg
    rw [hsign] at hexponent
    exact isSome_toFloat?_of_negative hexponent hwhole hpos ds.first_lt
  · have hsign : d.places.1 = false := decide_eq_false (not_lt.2 hlarge)
    have hvalue := h hlarge
    have hd : 0 < d.digits := by
      rw [← ds.spell_eq]
      exact lt_of_lt_of_le hpos (le_spell _ _)
    have hsmall := leading_le_of_value_le hd hvalue
    have hplace := leading_eq ds
    have hstated : statedExponent false (d.places.2.map digitValue) =
        some (d.leading.natAbs : Int) := by
      have hbound : exponentBound = 2147483648 := rfl
      have hspell := spell_places d
      rw [statedExponent_false (by omega), hspell]
    rw [hsign] at hexponent
    refine isSome_toFloat?_of_positive hexponent hstated (by omega) hwhole ds.first_lt ?_
    -- The digits that are taken, scaled, are not above the decimal.
    intro taken ignored hcut htaken k hk
    rw [hfraction] at hcut
    have hlength := congrArg List.length hcut
    rw [List.length_map, List.length_map, List.length_append] at hlength
    have hspell := ds.spell_eq
    rw [hcut, spell_append] at hspell
    have hle := mul_pow_le_spell (spell (digitValue (octet ds.first)) taken) ignored
    rw [hspell] at hle
    have hscaled := scaled_le_value hle (k := k) (by omega)
    exact isInf_toFloat_mul (lt_of_lt_of_le hpos (le_spell _ taken)) htaken (by omega)
      (le_trans hscaled hvalue)

include ds in
/-- Scientific text is read as a float, if the decimal is small or stays below the bound. -/
theorem isFloatText_scientific
    (h : 0 ≤ d.leading → d.value ≤ (2 ^ 53 - 5) * 2 ^ (971 : ℤ)) : IsFloatText d.scientific :=
  ⟨scientificText ds, (utf8_scientific ds).symm, .inr (Option.some_ne_none _),
    fun _ => isSome_toFloat?_scientific ds h rfl rfl rfl⟩

end Scientific

/-! ## Floats -/

/-- The text without digits is read as a float. -/
theorem isFloatText_zero : IsFloatText "0.0" := isFloatText_of_short pointText_zero (by decide)

/-- A decimal is read as a float, if it stays below the bound. -/
theorem isFloatText_of_value_le {d : Decimal} (hd : 0 < d.digits)
    (h : d.value ≤ (2 ^ 53 - 5) * 2 ^ (971 : ℤ)) :
    IsFloatText (if -5 ≤ d.leading ∧ d.leading < 16 then d.positional true else d.scientific) := by
  obtain ⟨ds⟩ := exists_digits hd
  split
  · rename_i hplace
    exact isFloatText_positional ds hplace.2
  · exact isFloatText_scientific ds fun _ => h

end Decimal

namespace Binary64

/-- All but the last few floats stay below the bound. -/
theorem upperEnd_le {x : Magnitude} (hm : x.mantissa < 2 ^ 53) (he : x.exponent ≤ 971)
    (h : x.exponent = 971 → x.mantissa + 5 < 2 ^ 53) :
    x.upperEnd ≤ (2 ^ 53 - 5) * 2 ^ (971 : ℤ) := by
  rcases eq_or_lt_of_le he with heq | hlt
  · have hcast : (x.mantissa : ℚ) + 6 ≤ 2 ^ 53 := by exact_mod_cast h heq
    rw [Magnitude.upperEnd, heq]
    exact mul_le_mul_of_nonneg_right (by linarith) (by positivity)
  · have hcast : (x.mantissa : ℚ) + 1 ≤ 2 ^ 53 := by exact_mod_cast hm
    calc x.upperEnd ≤ 2 ^ 53 * 2 ^ x.exponent :=
          mul_le_mul_of_nonneg_right (by linarith) (by positivity)
      _ ≤ 2 ^ 53 * 2 ^ (970 : ℤ) :=
          mul_le_mul_of_nonneg_left (zpow_le_zpow_right₀ one_le_two (by omega)) (by positivity)
      _ = 2 ^ 52 * 2 ^ (971 : ℤ) := by
          rw [show (971 : ℤ) = 970 + 1 by rfl, zpow_add_one₀ two_ne_zero]
          ring
      _ ≤ (2 ^ 53 - 5) * 2 ^ (971 : ℤ) := mul_le_mul_of_nonneg_right (by norm_num) (by positivity)

end Binary64

end QueryCache
