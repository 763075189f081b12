import Mathlib
import QueryCache.Proofs.Decimal.Shortest

/-!
# The shortest decimal tells floats apart

A float has a place among the floats of its sign, and the reals that round to it lie between
the midpoints to its two neighbours.  So the intervals of two floats meet at most in a midpoint,
which rounds to only one of them.  The search for the shortest decimal always ends inside the
interval, since its finest grid is finer than half the gap above the float.

1. places
2. the reals that round to a float
3. grids
4. the search ends
5. floats with one decimal
-/

namespace QueryCache

open Binary64 (hiddenBit)

/-! ## Places -/

namespace Magnitude

/-- The magnitude at a place: eleven bits of exponent over fifty-two bits of fraction. -/
def atPlace (n : Nat) : Magnitude :=
  if n / hiddenBit = 0 then ⟨n % hiddenBit, -1074, false⟩
  else ⟨hiddenBit + n % hiddenBit, ((n / hiddenBit : Nat) : Int) - 1075,
    n % hiddenBit == 0 && 1 < n / hiddenBit⟩

/-- The upper end of the interval of the reals that round to a magnitude. -/
def upperEnd (x : Magnitude) : ℚ := (x.mantissa + 1 / 2) * 2 ^ x.exponent

/-- The lower end of the interval of the reals that round to a magnitude. -/
def lowerEnd (x : Magnitude) : ℚ :=
  (x.mantissa - if x.narrowBelow then 1 / 4 else 1 / 2) * 2 ^ x.exponent

theorem lowerEnd_lt_upperEnd (x : Magnitude) : x.lowerEnd < x.upperEnd := by
  refine mul_lt_mul_of_pos_right ?_ (by positivity)
  split <;> linarith

/-- The next place has the next fraction, or else the first one of the next exponent. -/
theorem div_mod_succ (n : Nat) :
    ((n + 1) / hiddenBit = n / hiddenBit ∧ (n + 1) % hiddenBit = n % hiddenBit + 1) ∨
      ((n + 1) / hiddenBit = n / hiddenBit + 1 ∧ (n + 1) % hiddenBit = 0 ∧
        n % hiddenBit + 1 = hiddenBit) := by
  unfold hiddenBit
  omega

/-- The interval of a place begins where that of the place before it ends. -/
theorem lowerEnd_succ (n : Nat) : (atPlace (n + 1)).lowerEnd = (atPlace n).upperEnd := by
  unfold atPlace
  rcases div_mod_succ n with ⟨hdiv, hmod⟩ | ⟨hdiv, hmod, hfraction⟩
  · rw [hdiv, hmod]
    have hmantissa (m : Nat) : ((m + 1 : Nat) : ℚ) - 1 / 2 = m + 1 / 2 := by
      push_cast
      ring
    split
    · rw [lowerEnd, upperEnd, if_neg Bool.false_ne_true, hmantissa]
    · rw [lowerEnd, upperEnd, if_neg (by simp), ← Nat.add_assoc, hmantissa]
  · have hlast : (hiddenBit : ℚ) = (n % hiddenBit : Nat) + 1 := by
      exact_mod_cast hfraction.symm
    rw [hdiv, hmod, if_neg (Nat.succ_ne_zero _)]
    split
    · rename_i hzero
      rw [hzero, lowerEnd, upperEnd, if_neg (by decide)]
      refine congrArg (· * _) ?_
      rw [Nat.add_zero, hlast]
      ring
    · -- The gap grows to twice its width above a power of two.
      rename_i hnormal
      have hnarrow : ((0 == 0 : Bool) && decide (1 < n / hiddenBit + 1)) = true := by
        rw [Bool.and_eq_true, decide_eq_true_iff]
        exact ⟨rfl, Nat.succ_lt_succ (Nat.pos_of_ne_zero hnormal)⟩
      have hexponent : ((n / hiddenBit + 1 : Nat) : Int) - 1075 =
          ((n / hiddenBit : Nat) : Int) - 1075 + 1 := by omega
      rw [lowerEnd, upperEnd, if_pos hnarrow, hexponent, zpow_add_one₀ two_ne_zero]
      push_cast
      rw [hlast]
      ring

theorem upperEnd_strictMono : StrictMono fun n => (atPlace n).upperEnd := by
  refine strictMono_nat_of_lt_succ fun n => ?_
  calc (atPlace n).upperEnd = (atPlace (n + 1)).lowerEnd := (lowerEnd_succ n).symm
    _ < (atPlace (n + 1)).upperEnd := lowerEnd_lt_upperEnd _

theorem mantissa_atPlace_mod_two (n : Nat) : (atPlace n).mantissa % 2 = n % 2 := by
  have hfraction : n % hiddenBit % 2 = n % 2 := by
    unfold hiddenBit
    omega
  unfold atPlace
  split
  · exact hfraction
  · have heven : hiddenBit % 2 = 0 := rfl
    show (hiddenBit + n % hiddenBit) % 2 = n % 2
    rw [Nat.add_mod, heven, Nat.zero_add, Nat.mod_mod, hfraction]

/-! ## The reals that round to a float -/

/-- A number rounds to a magnitude; the ends do if the mantissa is even. -/
def RoundsTo (q : ℚ) (x : Magnitude) : Prop :=
  if x.mantissa % 2 = 0 then x.lowerEnd ≤ q ∧ q ≤ x.upperEnd
  else x.lowerEnd < q ∧ q < x.upperEnd

variable {q : ℚ} {x : Magnitude}

theorem RoundsTo.bounds (h : RoundsTo q x) : x.lowerEnd ≤ q ∧ q ≤ x.upperEnd := by
  unfold RoundsTo at h
  split at h
  · exact h
  · exact ⟨h.1.le, h.2.le⟩

theorem RoundsTo.of_odd (h : RoundsTo q x) (hodd : x.mantissa % 2 = 1) :
    x.lowerEnd < q ∧ q < x.upperEnd := by
  rw [RoundsTo, if_neg (by omega)] at h
  exact h

/-- A number that rounds to a place is not above what rounds to a later one. -/
theorem not_roundsTo_of_lt {n m : Nat} (hlt : n < m) (hn : RoundsTo q (atPlace n)) :
    ¬ RoundsTo q (atPlace m) := by
  intro hm
  obtain ⟨k, rfl⟩ := Nat.exists_eq_succ_of_ne_zero (Nat.ne_of_gt (Nat.zero_lt_of_lt hlt))
  have hlower := hm.bounds.1
  rw [Nat.succ_eq_add_one, lowerEnd_succ] at hlower
  -- The two meet in an end, which they share as neighbours only.
  have hends : (atPlace k).upperEnd ≤ (atPlace n).upperEnd := hlower.trans hn.bounds.2
  obtain rfl : k = n :=
    Nat.le_antisymm (upperEnd_strictMono.le_iff_le.1 hends) (Nat.le_of_lt_succ hlt)
  rcases Nat.mod_two_eq_zero_or_one k with heven | hodd
  · have hmantissa := mantissa_atPlace_mod_two (k + 1)
    have hopen := (hm.of_odd (by rw [hmantissa]; omega)).1
    rw [Nat.succ_eq_add_one, lowerEnd_succ] at hopen
    exact absurd hn.bounds.2 (not_le.2 hopen)
  · have hmantissa := mantissa_atPlace_mod_two k
    exact absurd hlower (not_le.2 (hn.of_odd (by rw [hmantissa, hodd])).2)

/-- A number rounds to one place at most. -/
theorem place_unique {n m : Nat} (hn : RoundsTo q (atPlace n)) (hm : RoundsTo q (atPlace m)) :
    n = m := by
  rcases Nat.lt_trichotomy n m with hlt | heq | hgt
  · exact absurd hm (not_roundsTo_of_lt hlt hn)
  · exact heq
  · exact absurd hn (not_roundsTo_of_lt hgt hm)

/-! ## Grids -/

/-- The common scale of an interval: a quarter of the last place over the unit of the grid. -/
def scale (x : Magnitude) (g : Int) : Nat := 2 ^ (x.exponent - 2).toNat * 10 ^ (-g).toNat

variable {g : Int} {n a : Nat}

/-- A negative power is a fraction. -/
theorem zpow_eq_div (b : ℚ) (e : Int) :
    b ^ e = b ^ e.toNat / b ^ (-e).toNat := by
  rcases Int.le_total 0 e with he | he
  · obtain ⟨n, rfl⟩ := Int.eq_ofNat_of_zero_le he
    simp
  · obtain ⟨n, hn⟩ := Int.eq_ofNat_of_zero_le (Int.neg_nonneg.2 he)
    obtain rfl : e = -n := by omega
    simp

theorem denominator_pos (x : Magnitude) (g : Int) : 0 < (x.interval g).denominator :=
  Nat.mul_pos (Nat.pow_pos (by decide)) (Nat.pow_pos (by decide))

/-- Points of the grid and quarters of the last place have a common denominator. -/
theorem common_denominator (x : Magnitude) (g : Int) : ∃ c : ℚ, 0 < c ∧
    (∀ n : Nat, ((n * (x.interval g).denominator : Nat) : ℚ) = (⟨n, g⟩ : Decimal).value * c) ∧
    ∀ a : Nat, ((a * x.scale g : Nat) : ℚ) = a * 2 ^ (x.exponent - 2) * c := by
  refine ⟨2 ^ (-(x.exponent - 2)).toNat * 10 ^ (-g).toNat, by positivity, fun n => ?_, fun a => ?_⟩
  · rw [Decimal.value, zpow_eq_div 10 g]
    push_cast [interval, Nat.pow_eq]
    field_simp
  · rw [zpow_eq_div 2 (x.exponent - 2)]
    push_cast [scale]
    field_simp

theorem mul_denominator_le_iff : n * (x.interval g).denominator ≤ a * x.scale g ↔
    (⟨n, g⟩ : Decimal).value ≤ a * 2 ^ (x.exponent - 2) := by
  obtain ⟨c, hc, hgrid, hquarters⟩ := common_denominator x g
  rw [← Nat.cast_le (α := ℚ), hgrid, hquarters, mul_le_mul_iff_left₀ hc]

theorem le_mul_denominator_iff : a * x.scale g ≤ n * (x.interval g).denominator ↔
    a * 2 ^ (x.exponent - 2) ≤ (⟨n, g⟩ : Decimal).value := by
  obtain ⟨c, hc, hgrid, hquarters⟩ := common_denominator x g
  rw [← Nat.cast_le (α := ℚ), hgrid, hquarters, mul_le_mul_iff_left₀ hc]

/-- A grid point of the interval rounds to the magnitude. -/
theorem roundsTo_of_contains (hx : 0 < x.mantissa)
    (h : (x.interval g).contains n = true) : RoundsTo (⟨n, g⟩ : Decimal).value x := by
  let quarters := 4 * x.mantissa - if x.narrowBelow then 1 else 2
  have hlower : x.lowerEnd = (quarters : Nat) * 2 ^ (x.exponent - 2) := by
    have hcast : (quarters : ℚ) = 4 * x.mantissa - if x.narrowBelow then 1 else 2 := by
      unfold quarters
      split <;> rw [Nat.cast_sub (by omega)] <;> push_cast <;> rfl
    rw [hcast, lowerEnd, zpow_sub₀ two_ne_zero]
    split <;> ring
  have hupper : x.upperEnd = (4 * x.mantissa + 2 : Nat) * 2 ^ (x.exponent - 2) := by
    rw [upperEnd, zpow_sub₀ two_ne_zero]
    push_cast
    ring
  unfold Interval.contains at h
  unfold RoundsTo
  rw [hlower, hupper]
  split at h
  · rename_i hclosed
    rw [if_pos (by simpa [interval] using hclosed)]
    simp only [Bool.and_eq_true, decide_eq_true_eq] at h
    exact ⟨le_mul_denominator_iff.1 h.1, mul_denominator_le_iff.1 h.2⟩
  · rename_i hopen
    rw [if_neg (by simpa [interval] using hopen)]
    simp only [Bool.and_eq_true, decide_eq_true_eq] at h
    exact ⟨not_le.1 fun hle => absurd (mul_denominator_le_iff.2 hle) (not_le.2 h.1),
      not_le.1 fun hle => absurd (le_mul_denominator_iff.2 hle) (not_le.2 h.2)⟩

/-- The grid point above the value is less than the width of the grid away from it. -/
theorem contains_above (hfine : (x.interval g).denominator < 2 * x.scale g) :
    (x.interval g).contains ((x.interval g).value / (x.interval g).denominator + 1) = true := by
  have hdiv := Nat.div_add_mod (x.interval g).value (x.interval g).denominator
  have hmod := Nat.mod_lt (x.interval g).value (denominator_pos x g)
  have hupper : (x.interval g).upper = (x.interval g).value + 2 * x.scale g := Nat.add_mul ..
  have hlower : (x.interval g).lower ≤ (x.interval g).value :=
    Nat.mul_le_mul_right _ (Nat.sub_le _ _)
  rw [Nat.mul_comm] at hdiv
  have hbounds : (x.interval g).lower < ((x.interval g).value / (x.interval g).denominator + 1) *
      (x.interval g).denominator ∧ ((x.interval g).value / (x.interval g).denominator + 1) *
        (x.interval g).denominator < (x.interval g).upper := by
    rw [Nat.succ_mul, hupper]
    omega
  unfold Interval.contains
  split
  · simp only [Bool.and_eq_true, decide_eq_true_eq]
    exact ⟨hbounds.1.le, hbounds.2.le⟩
  · simp only [Bool.and_eq_true, decide_eq_true_eq]
    exact hbounds

/-- On a grid finer than half the gap above the magnitude a point is picked. -/
theorem isSome_pick (hg : (10 : ℚ) ^ g < 2 ^ (x.exponent - 1)) (tie : Tie) :
    ((x.interval g).pick tie).isSome := by
  refine isSome_pick_of_contains (contains_above ?_) tie
  rw [← not_le, ← Nat.one_mul (x.interval g).denominator, le_mul_denominator_iff, not_le,
    Decimal.value, Nat.cast_one, one_mul]
  refine lt_of_lt_of_eq hg ?_
  rw [show x.exponent - 1 = x.exponent - 2 + 1 by ring, zpow_add_one₀ two_ne_zero]
  push_cast
  ring

/-! ## The search ends -/

/-- A power of ten is below a power of two if the exponents differ enough: ten to the third is
below two to the tenth, and ten to the tenth above two to the thirty-third. -/
theorem ten_zpow_lt_two_zpow {g e : Int} (hpos : 0 ≤ g → 10 * g < 3 * e)
    (hneg : g < 0 → 33 * g < 10 * e) : (10 : ℚ) ^ g < 2 ^ e := by
  rcases lt_or_ge g 0 with hg | hg
  · refine lt_of_pow_lt_pow_left₀ 10 (by positivity) ?_
    calc ((10 : ℚ) ^ g) ^ 10 = ((10 ^ 10)⁻¹) ^ (-g) := by
          rw [inv_zpow', neg_neg, ← zpow_natCast, ← zpow_natCast, zpow_comm]
      _ ≤ ((2 ^ 33)⁻¹) ^ (-g) := zpow_le_zpow_left₀ (by omega) (by positivity) (by norm_num)
      _ = 2 ^ (33 * g) := by rw [inv_zpow', neg_neg, zpow_mul, zpow_ofNat]
      _ < 2 ^ (10 * e) := zpow_lt_zpow_right₀ one_lt_two (hneg hg)
      _ = ((2 : ℚ) ^ e) ^ 10 := by rw [mul_comm, zpow_mul, zpow_ofNat]
  · refine lt_of_pow_lt_pow_left₀ 3 (by positivity) ?_
    calc ((10 : ℚ) ^ g) ^ 3 = (10 ^ 3) ^ g := by
          rw [← zpow_natCast, ← zpow_natCast, zpow_comm]
      _ ≤ (2 ^ 10) ^ g := zpow_le_zpow_left₀ hg (by positivity) (by norm_num)
      _ = 2 ^ (10 * g) := by rw [zpow_mul, zpow_ofNat]
      _ < 2 ^ (3 * e) := zpow_lt_zpow_right₀ one_lt_two (hpos hg)
      _ = ((2 : ℚ) ^ e) ^ 3 := by rw [mul_comm, zpow_mul, zpow_ofNat]

/-- The finest grid that is tried is finer than half the gap above any float. -/
theorem finest_grid_lt (hx : 0 < x.mantissa) (hm : x.mantissa < 2 ^ 53) (hlow : -1074 ≤ x.exponent)
    (hhigh : x.exponent ≤ 971) : (10 : ℚ) ^ (x.topGrid - 21) < 2 ^ (x.exponent - 1) := by
  have hlog : x.mantissa.log2 < 53 := (Nat.log2_lt (Nat.ne_of_gt hx)).2 hm
  refine ten_zpow_lt_two_zpow (fun hg => ?_) fun hg => ?_
  · unfold topGrid at hg ⊢
    omega
  · unfold topGrid at hg ⊢
    omega

/-- The search for the shortest decimal ends, with a decimal that rounds to the float. -/
theorem shortest_roundsTo (hx : 0 < x.mantissa) (hm : x.mantissa < 2 ^ 53)
    (hlow : -1074 ≤ x.exponent) (hhigh : x.exponent ≤ 971) (tie : Tie) :
    0 < (x.shortest tie).digits ∧ RoundsTo (x.shortest tie).value x := by
  unfold shortest
  dsimp only
  split
  · rename_i d hd
    obtain ⟨g, -, hg⟩ := List.exists_of_findSome?_eq_some hd
    obtain ⟨n, hpick, rfl⟩ := Option.map_eq_some_iff.1 hg
    obtain ⟨hpos, hcontains⟩ := pick_spec hpick
    refine ⟨digits_stripZeros_pos hpos, ?_⟩
    rw [value_stripZeros]
    exact roundsTo_of_contains hx hcontains
  · rename_i hnone
    have hfinest := List.findSome?_eq_none_iff.1 hnone (x.topGrid - (21 : Nat))
      (List.mem_map_of_mem (by simp))
    have hpick := isSome_pick (finest_grid_lt hx hm hlow hhigh) tie
    rw [Option.map_eq_none_iff] at hfinest
    have hnat : ((21 : Nat) : Int) = 21 := rfl
    rw [← hnat, hfinest] at hpick
    cases hpick

end Magnitude

/-! ## Floats with one decimal -/

namespace Binary64

/-- The place of a float among those of its sign. -/
def place (x : Binary64) : Nat := x.biased * hiddenBit + x.fraction

theorem fraction_lt (x : Binary64) : x.fraction < hiddenBit := Nat.mod_lt _ (by decide)

theorem magnitude_eq_atPlace (x : Binary64) : x.magnitude = Magnitude.atPlace x.place := by
  have hdiv : x.place / hiddenBit = x.biased := by
    rw [place, Nat.mul_comm, Nat.mul_add_div (by decide), Nat.div_eq_of_lt x.fraction_lt]
    rfl
  have hmod : x.place % hiddenBit = x.fraction := by
    rw [place, Nat.mul_comm, Nat.mul_add_mod, Nat.mod_eq_of_lt x.fraction_lt]
  rw [magnitude, Magnitude.atPlace, hdiv, hmod]

/-- The sign and the place are all there is to a float. -/
theorem eq_of_place {x y : Binary64} (hsign : x.isNegative = y.isNegative)
    (hplace : x.place = y.place) : x = y := by
  have hbits : ∀ z : Binary64,
      z.bits.toNat = (if z.isNegative then 9223372036854775808 else 0) + z.place := by
    intro z
    have hsize : z.bits.toNat < 18446744073709551616 := UInt64.toNat_lt z.bits
    unfold place biased fraction isNegative hiddenBit
    split
    · rename_i h
      have hle := of_decide_eq_true h
      omega
    · rename_i h
      have hlt : ¬ 2048 * 4503599627370496 ≤ z.bits.toNat := fun hle => h (decide_eq_true hle)
      omega
  have heq : x.bits.toNat = y.bits.toNat := by rw [hbits x, hbits y, hsign, hplace]
  cases x
  cases y
  exact congrArg Binary64.mk (UInt64.toNat_inj.1 heq)

/-- The magnitude of a finite float is at most the largest float. -/
theorem magnitude_le {x : Binary64} (hx : x.isFinite = true) :
    x.magnitude.mantissa < 2 ^ 53 ∧ x.magnitude.exponent ≤ 971 := by
  have hbiased : x.biased < 2048 := Nat.mod_lt _ (by decide)
  have hfraction : x.fraction < 4503599627370496 := x.fraction_lt
  have hfinite : x.biased ≠ 2047 := by simpa [isFinite] using hx
  rw [magnitude]
  split
  · exact ⟨lt_trans hfraction (by norm_num), by norm_num⟩
  · constructor
    · show 4503599627370496 + x.fraction < 2 ^ 53
      omega
    · show (x.biased : Int) - 1075 ≤ 971
      omega

theorem neg_le_exponent (x : Binary64) : -1074 ≤ x.magnitude.exponent := by
  rw [magnitude]
  split
  · exact le_rfl
  · show -1074 ≤ (x.biased : Int) - 1075
    omega

theorem mantissa_pos {x : Binary64} (hzero : x.isZero = false) : 0 < x.magnitude.mantissa := by
  rw [magnitude]
  split
  · rename_i hbiased
    refine Nat.pos_of_ne_zero fun hfraction => ?_
    have hfraction' : x.fraction = 0 := hfraction
    rw [isZero, hbiased, hfraction'] at hzero
    cases hzero
  · exact Nat.add_pos_left (by decide) _

/-- The decimal of a finite float that is not zero rounds to the float. -/
theorem shortest_spec {x : Binary64} (hx : x.isFinite = true) (hzero : x.isZero = false)
    (tie : Tie) : 0 < (x.magnitude.shortest tie).digits ∧
      Magnitude.RoundsTo (x.magnitude.shortest tie).value x.magnitude := by
  obtain ⟨hmantissa, hexponent⟩ := magnitude_le hx
  exact Magnitude.shortest_roundsTo (mantissa_pos hzero) hmantissa x.neg_le_exponent hexponent tie

/-- Floats of one sign that a number rounds to are one float. -/
theorem eq_of_roundsTo {x y : Binary64} {q : ℚ} (hsign : x.isNegative = y.isNegative)
    (hx : Magnitude.RoundsTo q x.magnitude) (hy : Magnitude.RoundsTo q y.magnitude) : x = y := by
  rw [magnitude_eq_atPlace] at hx hy
  exact eq_of_place hsign (Magnitude.place_unique hx hy)

end Binary64

end QueryCache
