import Mathlib
import QueryCache.Json.Number

/-!
# Products that stay finite

A float that is read from decimal digits is a product: the significand times a power of
ten.  Each of the three roundings on the way may go up by a unit in the last place, so a
product is finite for certain only a few units below the largest float.

1. rounding
2. normal numbers
3. significands and powers of ten
4. products of the two
5. scaled significands
-/

namespace QueryCache.Json

open Float.Model
open Float.Model.UnpackedFloat

/-! ## Rounding -/

/-- A shift to the right divides the mantissa. -/
theorem mantissa_shiftRight (em : ExtendedMantissa) (k : Nat) :
    (em >>> k).mantissa = em.mantissa / 2 ^ k := by
  induction k with
  | zero => exact (Nat.div_one _).symm
  | succ k ih =>
    show (em >>> k).mantissa / 2 = _
    rw [ih, Nat.div_div_eq_div_mul, Nat.pow_succ]

/-- Rounding goes up by at most one. -/
theorem roundedMantissa_bounds (em : ExtendedMantissa) :
    em.mantissa ≤ em.roundedMantissa ∧ em.roundedMantissa ≤ em.mantissa + 1 := by
  rcases em with ⟨m, r, s⟩
  cases r <;> cases s <;>
    simp [ExtendedMantissa.roundedMantissa, ExtendedMantissa.accuracy,
      Accuracy.roundToNearestEven]
  omega

theorem targetExponent_eq (m : Nat) (e : Int) :
    Format.binary64.targetExponent (totalExponent m e) = max (m.log2 + e - 52) (-1074) := by
  simp only [Format.targetExponent, totalExponent, Format.mantissaBits, Format.minExponent]
  norm_num
  omega

/-- A mantissa that has fifty-three bits stays where it is. -/
theorem shiftToTargetExponent_normal {m : Nat} {e : Int} (hm : m.log2 = 52) (he : -1074 ≤ e) :
    shiftToTargetExponent Format.binary64 m e .exact = (⟨m, false, false⟩, e) := by
  have hshift : (Format.binary64.targetExponent (totalExponent m e) - e).toNat = 0 := by
    rw [targetExponent_eq, hm]
    omega
  simp only [shiftToTargetExponent, shiftToExponent, hshift]
  exact Prod.ext rfl (by simp)

/-- A mantissa of one bit more, all others zero, is shifted by one place. -/
theorem shiftToTargetExponent_carry {e : Int} (he : -1074 ≤ e) :
    shiftToTargetExponent Format.binary64 (2 ^ 53) e .exact = (⟨2 ^ 52, false, false⟩, e + 1) := by
  have hshift : (Format.binary64.targetExponent (totalExponent (2 ^ 53) e) - e).toNat = 1 := by
    rw [targetExponent_eq, Nat.log2_two_pow]
    omega
  simp only [shiftToTargetExponent, shiftToExponent, hshift]
  exact Prod.ext rfl rfl

/-- Rounding shifts, rounds, and shifts again. -/
theorem roundWithAccuracy_of_shifts {m : Nat} {e e₁ e₂ : Int} {em em' : ExtendedMantissa}
    (h₁ : shiftToTargetExponent Format.binary64 m e .exact = (em, e₁))
    (h₂ : shiftToTargetExponent Format.binary64 em.roundedMantissa e₁ .exact = (em', e₂))
    (hpos : 0 < em'.mantissa) (s : Sign) :
    roundWithAccuracy Format.binary64 s m e .exact = .finite s em'.mantissa e₂ hpos := by
  simp only [roundWithAccuracy, h₁, h₂]
  exact dif_neg (Nat.ne_of_gt hpos)

/-- Shifted to fifty-three bits, a mantissa has the hidden bit. -/
theorem div_two_pow_bounds {m k : Nat} (hm : m ≠ 0) (hk : m.log2 = 52 + k) :
    2 ^ 52 ≤ m / 2 ^ k ∧ m / 2 ^ k < 2 ^ 53 := by
  have hlow := Nat.log2_self_le hm
  have hhigh := Nat.lt_log2_self (n := m)
  rw [hk] at hlow hhigh
  rw [Nat.le_div_iff_mul_le (Nat.two_pow_pos k), Nat.div_lt_iff_lt_mul (Nat.two_pow_pos k),
    ← Nat.pow_add, ← Nat.pow_add]
  exact ⟨hlow, lt_of_lt_of_eq hhigh (by congr 1; omega)⟩

/-- A mantissa of at least fifty-three bits is rounded to fifty-three, and goes up by at most
one in the last place; `carry` is one if that makes it one bit longer. -/
theorem roundWithAccuracy_normal {m : Nat} {e : Int} (hm : 52 ≤ m.log2) (he : -1074 ≤ e)
    (s : Sign) : ∃ (r carry : Nat) (hr : 0 < r), r.log2 = 52 ∧ carry ≤ 1 ∧
      r * 2 ^ carry ≤ m / 2 ^ (m.log2 - 52) + 1 ∧
      roundWithAccuracy Format.binary64 s m e .exact =
        .finite s r (e + (m.log2 - 52 : Nat) + carry) hr := by
  obtain ⟨k, hk⟩ : ∃ k, m.log2 = 52 + k := ⟨m.log2 - 52, by omega⟩
  have hpos : m ≠ 0 := fun h => by simp [h] at hm
  have hdiff : m.log2 - 52 = k := by omega
  have hshift : (Format.binary64.targetExponent (totalExponent m e) - e).toNat = k := by
    rw [targetExponent_eq, hk]
    omega
  have hfirst : shiftToTargetExponent Format.binary64 m e .exact =
      ((⟨m, false, false⟩ : ExtendedMantissa) >>> k, e + k) := by
    simp only [shiftToTargetExponent, shiftToExponent, hshift]
    rfl
  obtain ⟨hlow, hhigh⟩ := div_two_pow_bounds hpos hk
  obtain ⟨r, hr⟩ : ∃ r, ((⟨m, false, false⟩ : ExtendedMantissa) >>> k).roundedMantissa = r :=
    ⟨_, rfl⟩
  have hbounds : m / 2 ^ k ≤ r ∧ r ≤ m / 2 ^ k + 1 := by
    have h := roundedMantissa_bounds ((⟨m, false, false⟩ : ExtendedMantissa) >>> k)
    rw [mantissa_shiftRight, hr] at h
    exact h
  rw [hdiff]
  rcases Nat.lt_or_ge r (2 ^ 53) with hlt | hge
  · have hlog : r.log2 = 52 := (Nat.log2_eq_iff (by omega)).2 ⟨by omega, hlt⟩
    have hrpos : 0 < r := by omega
    refine ⟨r, 0, hrpos, hlog, Nat.zero_le 1, by omega, ?_⟩
    have hsecond := shiftToTargetExponent_normal hlog (e := e + k) (by omega)
    rw [← hr] at hsecond
    have hround := roundWithAccuracy_of_shifts hfirst hsecond (by rw [hr]; exact hrpos) s
    simp only [hr] at hround
    simpa using hround
  · -- The last place is carried over all others.
    obtain rfl : r = 2 ^ 53 := by omega
    refine ⟨2 ^ 52, 1, by decide, Nat.log2_two_pow, le_refl 1, by omega, ?_⟩
    have hsecond := shiftToTargetExponent_carry (e := e + k) (by omega)
    rw [← hr] at hsecond
    exact roundWithAccuracy_of_shifts hfirst hsecond (by decide) s

/-! ## Normal numbers -/

/-- A normal number is unpacked as it was packed; here the sign does not count. -/
theorem unpack_pack {s : Sign} {m : Nat} {e : Int} {hm : 0 < m} (hlog : m.log2 = 52)
    (hlow : -1074 ≤ e) (hhigh : e ≤ 971) :
    ∃ s', (Float.Model.pack (.finite s m e hm)).unpack = .finite s' m e hm := by
  obtain ⟨b, hb⟩ : ∃ b : Nat, e + 1075 = b := ⟨(e + 1075).toNat, by omega⟩
  obtain ⟨hm52, hm53⟩ := (Nat.log2_eq_iff (Nat.ne_of_gt hm)).1 hlog
  have hpack : UnpackedFloat.pack Format.binary64 (.finite s m e hm) =
      packComponents Format.binary64 s (BitVec.ofNat 11 b) (BitVec.ofNat 52 m) := by
    have hbiased : (e + (Format.binary64.exponentBias : Int) +
        (Format.binary64.mantissaBitsWithoutImplicit : Int)).toNat = b := by
      show (e + 1023 + 52).toNat = b
      omega
    simp only [UnpackedFloat.pack, hbiased, hlog]
    rw [if_neg (by show ¬ 2 ^ 11 ≤ b + 1; omega)]
    exact if_pos rfl
  have hexponent : (BitVec.ofNat 11 b).toNat = b := by
    rw [BitVec.toNat_ofNat, Nat.mod_eq_of_lt (by omega)]
  have hfinite : BitVec.ofNat 11 b ≠ -1#11 := fun h => by
    have hall := congrArg BitVec.toNat h
    rw [hexponent] at hall
    have : b = 2047 := hall
    omega
  have hnormal : BitVec.ofNat 11 b ≠ 0#11 := fun h => by
    have hzero := congrArg BitVec.toNat h
    rw [hexponent] at hzero
    have : b = 0 := hzero
    omega
  -- The first bit of the mantissa is not stored.
  have hmantissa : (1#1 ++ BitVec.ofNat 52 m).toNat = m := by
    rw [BitVec.toNat_append, ← Nat.shiftLeft_add_eq_or_of_lt (BitVec.ofNat 52 m).isLt,
      BitVec.toNat_ofNat]
    show 2 ^ 52 + m % 2 ^ 52 = m
    omega
  refine ⟨Sign.ofBitVec (unpackSign (packComponents Format.binary64 s (BitVec.ofNat 11 b)
    (BitVec.ofNat 52 m))), ?_⟩
  show UnpackedFloat.unpack Format.binary64 (UnpackedFloat.pack Format.binary64 _) = _
  rw [hpack, UnpackedFloat.unpack]
  simp only [unpackExponent_packComponents, unpackMantissa_packComponents]
  rw [if_neg hfinite, if_neg hnormal]
  congr 1
  show ((BitVec.ofNat 11 b).toNat : Int) - (1023 + 52) = e
  omega

/-- The largest finite float, as a number. -/
def largest : ℚ := (2 ^ 53 - 1) * 2 ^ (971 : ℤ)

theorem largest_eq : largest = ((9007199254740991 * 2 ^ 971 : Nat) : ℚ) := by
  rw [largest, Nat.cast_mul, Nat.cast_pow, Nat.cast_ofNat]
  norm_num

/-- A magnitude below the largest float has at most 1024 bits before the point. -/
theorem log2_add_lt_of_lt_largest {m : Nat} {e : Int} (hm : m ≠ 0)
    (h : (m : ℚ) * 2 ^ e < largest) : (m.log2 : Int) + e < 1024 := by
  have hlow : ((2 ^ m.log2 : Nat) : ℚ) ≤ m := Nat.cast_le.2 (Nat.log2_self_le hm)
  have hpow : (2 : ℚ) ^ ((m.log2 : Int) + e) < 2 ^ (1024 : ℤ) := by
    calc (2 : ℚ) ^ ((m.log2 : Int) + e) = ((2 ^ m.log2 : Nat) : ℚ) * 2 ^ e := by
          rw [zpow_add₀ two_ne_zero, zpow_natCast, Nat.cast_pow, Nat.cast_ofNat]
      _ ≤ m * 2 ^ e := mul_le_mul_of_nonneg_right hlow (by positivity)
      _ < largest := h
      _ < 2 ^ 53 * 2 ^ (971 : ℤ) := mul_lt_mul_of_pos_right (by norm_num) (by positivity)
      _ = 2 ^ (1024 : ℤ) := by rw [← zpow_natCast, ← zpow_add₀ two_ne_zero]; rfl
  exact (zpow_lt_zpow_iff_right₀ one_lt_two).1 hpow

/-- In the last binade below the largest float the quotient does not reach the largest
mantissa. -/
theorem div_lt_of_lt_largest {m k : Nat} {e : Int} (he : e + k = 971)
    (h : (m : ℚ) * 2 ^ e < largest) : m / 2 ^ k < 2 ^ 53 - 1 := by
  rw [Nat.div_lt_iff_lt_mul (Nat.two_pow_pos k)]
  have hscaled : (m : ℚ) * 2 ^ e * 2 ^ (k : ℤ) < (2 ^ 53 - 1) * 2 ^ (971 : ℤ) * 2 ^ (k : ℤ) :=
    mul_lt_mul_of_pos_right h (by positivity)
  rw [mul_assoc, ← zpow_add₀ two_ne_zero, he, mul_right_comm] at hscaled
  have hlt : (m : ℚ) < (2 ^ 53 - 1) * 2 ^ (k : ℤ) := lt_of_mul_lt_mul_right hscaled (by positivity)
  have hcast : (m : ℚ) < ((9007199254740991 * 2 ^ k : Nat) : ℚ) := by
    norm_num at hlt ⊢
    exact hlt
  exact Nat.cast_lt.1 hcast

/-- Going up by one in the last place adds little. -/
theorem round_le {m r carry k : Nat} (h : r * 2 ^ carry ≤ m / 2 ^ k + 1) (hm : 2 ^ (52 + k) ≤ m) :
    (r : ℚ) * 2 ^ carry * 2 ^ k ≤ m * (1 + 1 / 2 ^ 52) := by
  have hquot : r * 2 ^ carry * 2 ^ k ≤ m + 2 ^ k :=
    calc r * 2 ^ carry * 2 ^ k ≤ (m / 2 ^ k + 1) * 2 ^ k := Nat.mul_le_mul_right _ h
      _ = m / 2 ^ k * 2 ^ k + 2 ^ k := by ring
      _ ≤ m + 2 ^ k := Nat.add_le_add_right (Nat.div_mul_le_self m _) _
  have hquot' : (r : ℚ) * 2 ^ carry * 2 ^ k ≤ m + 2 ^ k := by exact_mod_cast hquot
  have hulp : (2 : ℚ) ^ 52 * 2 ^ k ≤ m := by
    rw [← pow_add]
    exact_mod_cast hm
  have hulp' : (2 : ℚ) ^ k ≤ m * (1 / 2 ^ 52) := by
    rw [mul_one_div, le_div_iff₀ (by positivity)]
    linarith
  linarith

/-- An unpacked float is a normal number from one on, and in magnitude at most `v`. -/
def AtMost (u : UnpackedFloat) (v : ℚ) : Prop :=
  ∃ s m e hm, u = .finite s m e hm ∧ m.log2 = 52 ∧ -52 ≤ e ∧ (m : ℚ) * 2 ^ e ≤ v

theorem AtMost.mono {u : UnpackedFloat} {v v' : ℚ} (h : AtMost u v) (hv : v ≤ v') :
    AtMost u v' := by
  obtain ⟨s, m, e, hm, hu, hlog, he, hle⟩ := h
  exact ⟨s, m, e, hm, hu, hlog, he, le_trans hle hv⟩

theorem AtMost.isInf_eq_false {u : UnpackedFloat} {v : ℚ} (h : AtMost u v) : u.isInf = false := by
  obtain ⟨s, m, e, hm, rfl, -⟩ := h
  rfl

/-- A number below the largest float is rounded to a normal number, which is a little larger at
most. -/
theorem atMost_round {m : Nat} {e : Int} {s : Sign} (hm : 52 ≤ m.log2)
    (he : -52 ≤ e + (m.log2 - 52 : Nat)) (he' : -1074 ≤ e) (h : (m : ℚ) * 2 ^ e < largest) :
    AtMost (Float.Model.pack (roundWithAccuracy Format.binary64 s m e .exact)).unpack
      (m * 2 ^ e * (1 + 1 / 2 ^ 52)) := by
  obtain ⟨k, hk⟩ : ∃ k, m.log2 = 52 + k := ⟨m.log2 - 52, by omega⟩
  have hdiff : m.log2 - 52 = k := by omega
  have hpos : m ≠ 0 := fun h => by simp [h] at hm
  have hlow : 2 ^ (52 + k) ≤ m := hk ▸ Nat.log2_self_le hpos
  obtain ⟨r, carry, hr, hrlog, hcarry, hbound, hround⟩ := roundWithAccuracy_normal hm he' s
  rw [hdiff] at he hbound hround
  -- The exponent stays in range: a carry is possible only below the last binade.
  have hexp := log2_add_lt_of_lt_largest hpos h
  have hquot := (div_two_pow_bounds hpos hk).2
  have hr52 := ((Nat.log2_eq_iff (Nat.ne_of_gt hr)).1 hrlog).1
  have hrange : e + k + carry ≤ 971 := by
    rcases Nat.le_one_iff_eq_zero_or_eq_one.1 hcarry with rfl | rfl
    · omega
    · have hbinade : e + k ≠ 971 := fun heq => by
        have hlast := div_lt_of_lt_largest heq h
        omega
      omega
  obtain ⟨s', hunpack⟩ : ∃ s', (Float.Model.pack (.finite s r (e + k + carry) hr)).unpack =
      .finite s' r (e + k + carry) hr := unpack_pack hrlog (by omega) hrange
  refine ⟨s', r, e + k + carry, hr, by rw [hround, hunpack], hrlog, by omega, ?_⟩
  calc (r : ℚ) * 2 ^ (e + k + carry) = r * 2 ^ carry * 2 ^ k * 2 ^ e := by
        rw [zpow_add₀ two_ne_zero, zpow_add₀ two_ne_zero, zpow_natCast, zpow_natCast]
        ring
    _ ≤ m * (1 + 1 / 2 ^ 52) * 2 ^ e :=
        mul_le_mul_of_nonneg_right (round_le hbound hlow) (by positivity)
    _ = m * 2 ^ e * (1 + 1 / 2 ^ 52) := by ring

/-- A product of normal numbers is rounded to a normal number, as long as the bounds of the
factors stay below the largest float. -/
theorem AtMost.mul {x y : UnpackedFloat} {a b : ℚ} (hx : AtMost x a) (hy : AtMost y b)
    (hab : a * b < largest) :
    AtMost (Float.Model.pack (x.mul Format.binary64 y)).unpack (a * b * (1 + 1 / 2 ^ 52)) := by
  obtain ⟨s₁, m₁, e₁, hm₁, rfl, hlog₁, he₁, ha⟩ := hx
  obtain ⟨s₂, m₂, e₂, hm₂, rfl, hlog₂, he₂, hb⟩ := hy
  have hle : ((m₁ * m₂ : Nat) : ℚ) * 2 ^ (e₁ + e₂) ≤ a * b := by
    calc ((m₁ * m₂ : Nat) : ℚ) * 2 ^ (e₁ + e₂) = (m₁ * 2 ^ e₁) * (m₂ * 2 ^ e₂) := by
          rw [zpow_add₀ two_ne_zero, Nat.cast_mul]
          ring
      _ ≤ a * b := mul_le_mul ha hb (by positivity) (le_trans (by positivity) ha)
  have hlog : 104 ≤ (m₁ * m₂).log2 := by
    have hm₁' := ((Nat.log2_eq_iff (Nat.ne_of_gt hm₁)).1 hlog₁).1
    have hm₂' := ((Nat.log2_eq_iff (Nat.ne_of_gt hm₂)).1 hlog₂).1
    have hprod := Nat.mul_le_mul hm₁' hm₂'
    rw [← Nat.pow_add] at hprod
    rw [Nat.le_log2 (Nat.ne_of_gt (Nat.mul_pos hm₁ hm₂))]
    exact hprod
  have hround := atMost_round (s := s₁ * s₂) (e := e₁ + e₂) (by omega) (by omega) (by omega)
    (lt_of_le_of_lt hle hab)
  exact hround.mono (mul_le_mul_of_nonneg_right hle (by positivity))

/-! ## Significands and powers of ten -/

/-- A number is first written with at least fifty-three bits, and then rounded. -/
theorem toModel_toFloat {n i : Nat} (hpos : 0 < n) (hn : n < 2 ^ 64) (hi : i = 52 - n.log2) :
    (UInt64.ofNat n).toFloat.toModel = Float.Model.pack
      (roundWithAccuracy Format.binary64 .positive (n * 2 ^ i) (-i) .exact) := by
  have hnat : (UInt64.ofNat n).toNat = n := by
    rw [UInt64.toNat_ofNat', Nat.mod_eq_of_lt hn]
  show Float.Model.pack (normalize Format.binary64 ((UInt64.ofNat n).toNat : Int) 0 .positive) = _
  have hgt : compare (n : Int) 0 = .gt := compare_gt_iff_gt.2 (by omega)
  have hshift : (-Format.binary64.targetExponent (totalExponent n 0)).toNat = i := by
    rw [targetExponent_eq]
    omega
  rw [hnat, UnpackedFloat.normalize, hgt]
  simp only [UnpackedFloat.round, decreaseExponent, Int.toNat_natCast, Int.zero_sub, hshift,
    Nat.shiftLeft_eq]

/-- A positive word becomes a normal float. -/
theorem atMost_toFloat {n : Nat} (hpos : 0 < n) (hn : n ≤ maxWord) :
    AtMost (UInt64.ofNat n).toFloat.toModel.unpack (n * (1 + 1 / 2 ^ 52)) := by
  have hword : n < 2 ^ 64 := Nat.lt_of_le_of_lt hn (by decide)
  obtain ⟨hlow, hhigh⟩ := (Nat.log2_eq_iff (Nat.ne_of_gt hpos)).1 rfl
  obtain ⟨i, hi⟩ : ∃ i, i = 52 - n.log2 := ⟨_, rfl⟩
  have hlog : (n * 2 ^ i).log2 = n.log2 + i := by
    refine (Nat.log2_eq_iff (Nat.mul_ne_zero (Nat.ne_of_gt hpos) (by positivity))).2 ⟨?_, ?_⟩
    · rw [Nat.pow_add]
      exact Nat.mul_le_mul_right _ hlow
    · rw [Nat.add_right_comm, Nat.pow_add]
      exact Nat.mul_lt_mul_of_pos_right hhigh (Nat.two_pow_pos i)
  have hvalue : ((n * 2 ^ i : Nat) : ℚ) * 2 ^ (-(i : ℤ)) = n := by
    rw [Nat.cast_mul, Nat.cast_pow, Nat.cast_ofNat, mul_assoc, zpow_neg, zpow_natCast,
      mul_inv_cancel₀ (by positivity), mul_one]
  have hbelow : (n : ℚ) < largest := by
    rw [largest_eq]
    exact Nat.cast_lt.2 (lt_trans hword (by decide +kernel))
  have hround := atMost_round (m := n * 2 ^ i) (e := -i) (s := .positive) (by omega) (by omega)
    (by omega) (hvalue.symm ▸ hbelow)
  rw [hvalue] at hround
  rw [toModel_toFloat hpos hword hi]
  exact hround

/-- The table of small powers agrees with the rule for all others. -/
theorem toBits_powerOfTen : ∀ k ∈ List.range 23,
    (powerOfTen k).toBits = (Float.Model.ofScientific 1 k).toBits := by
  decide +kernel

theorem toModel_powerOfTen (k : Nat) : (powerOfTen k).toModel = Float.Model.ofScientific 1 k := by
  by_cases hk : k ≤ 22
  · have hbits := toBits_powerOfTen k (List.mem_range.2 (by omega))
    rcases hx : (powerOfTen k).toModel with ⟨bits, hvalid⟩
    rcases hy : Float.Model.ofScientific 1 k with ⟨bits', hvalid'⟩
    have heq : bits = bits' := by
      rw [Float.toBits, hx, hy] at hbits
      exact hbits
    subst heq
    rfl
  · rw [powerOfTen, Float.ofScientific, dif_neg fun h => hk h.2]
    rfl

/-- A power of ten in the table becomes a normal float. -/
theorem atMost_powerOfTen {k : Nat} (hk : k ≤ 308) :
    AtMost (powerOfTen k).toModel.unpack (10 ^ k * (1 + 1 / 2 ^ 52)) := by
  have hscientific : UnpackedFloat.ofScientific Format.binary64 1 k =
      roundWithAccuracy Format.binary64 (.positive * .positive) (2 ^ 53 * 10 ^ k) (-53) .exact := by
    rw [UnpackedFloat.ofScientific, dif_neg one_ne_zero, if_neg, if_neg, if_pos]
    · rfl
    · omega
    · show ¬ (k : Int) < -(2 ^ 11 + _)
      omega
    · show ¬ (k : Int) > 2 ^ 11
      omega
  have hvalue : ((2 ^ 53 * 10 ^ k : Nat) : ℚ) * 2 ^ (-53 : ℤ) = 10 ^ k := by
    rw [Nat.cast_mul, Nat.cast_pow, Nat.cast_ofNat, Nat.cast_pow, Nat.cast_ofNat]
    norm_num
    ring
  have hbelow : (10 : ℚ) ^ k < largest := by
    rw [largest_eq]
    calc (10 : ℚ) ^ k ≤ 10 ^ 308 := pow_le_pow_right₀ (by norm_num) hk
      _ = ((10 ^ 308 : Nat) : ℚ) := by rw [Nat.cast_pow, Nat.cast_ofNat]
      _ < _ := Nat.cast_lt.2 (by decide +kernel)
  have hlog : 53 ≤ (2 ^ 53 * 10 ^ k).log2 := by
    rw [Nat.le_log2 (by positivity)]
    exact Nat.le_mul_of_pos_right _ (by positivity)
  have hround := atMost_round (e := -53) (s := .positive * .positive) (by omega) (by omega)
    (by omega) (hvalue.symm ▸ hbelow)
  rw [hvalue] at hround
  rw [toModel_powerOfTen]
  show AtMost (Float.Model.pack (UnpackedFloat.ofScientific Format.binary64 1 k)).unpack _
  rw [hscientific]
  exact hround

/-! ## Products of the two -/

/-- A significand times a power of ten is finite if the exact product stays five units in the
last place below the bound of the floats. -/
theorem isInf_toFloat_mul {n k : Nat} (hpos : 0 < n) (hn : n ≤ maxWord) (hk : k ≤ 308)
    (h : (n : ℚ) * 10 ^ k ≤ (2 ^ 53 - 5) * 2 ^ (971 : ℤ)) :
    ((UInt64.ofNat n).toFloat * powerOfTen k).isInf = false := by
  refine AtMost.isInf_eq_false ((atMost_toFloat hpos hn).mul (atMost_powerOfTen hk) ?_)
  calc (n : ℚ) * (1 + 1 / 2 ^ 52) * (10 ^ k * (1 + 1 / 2 ^ 52))
      = n * 10 ^ k * ((1 + 1 / 2 ^ 52) * (1 + 1 / 2 ^ 52)) := by ring
    _ ≤ (2 ^ 53 - 5) * 2 ^ (971 : ℤ) * ((1 + 1 / 2 ^ 52) * (1 + 1 / 2 ^ 52)) :=
        mul_le_mul_of_nonneg_right h (by positivity)
    _ = (2 ^ 53 - 5) * ((1 + 1 / 2 ^ 52) * (1 + 1 / 2 ^ 52)) * 2 ^ (971 : ℤ) := by ring
    _ < (2 ^ 53 - 1) * 2 ^ (971 : ℤ) := mul_lt_mul_of_pos_right (by norm_num) (by positivity)

/-! ## Scaled significands -/

/-- To divide by a power of ten never fails. -/
theorem isSome_scale_of_neg (f : Float) {e : Int} (he : e < 0) : (scale f e).isSome := by
  -- Each division by the last power in the table brings the exponent nearer to zero.
  induction hn : (-e).toNat using Nat.strong_induction_on generalizing f e with
  | _ n ih =>
    rw [scale]
    split
    · rw [if_neg (not_le.2 he)]
      rfl
    · split
      · rfl
      · rw [if_neg (not_le.2 he)]
        exact ih (-(e + 308)).toNat (by omega) _ (by omega) rfl

/-- A significand is scaled by a power of ten in the table if the product is finite. -/
theorem isSome_scale {f : Float} {e : Int} (he : e ≤ 308)
    (hf : ∀ k : Nat, e = k → (f * powerOfTen k).isInf = false) : (scale f e).isSome := by
  rcases lt_or_ge e 0 with hneg | hpos
  · exact isSome_scale_of_neg f hneg
  · have hfinite := hf e.natAbs (by omega)
    rw [scale, if_pos (by omega), if_pos hpos]
    simp [hfinite]

end QueryCache.Json
