import Mathlib
import QueryCache.Decimal.Shortest

/-!
# What the search for the shortest decimal picks

The search takes a point of a grid that is no zero and lies in the interval of the reals that
round to the float; to drop the zeros at its end does not change the number.
-/

namespace QueryCache

/-! ## Values -/

/-- The number that a decimal stands for. -/
def Decimal.value (d : Decimal) : ℚ := d.digits * 10 ^ d.exponent

namespace Magnitude

/-- To drop zeros does not change the number. -/
theorem value_stripZeros (n : Nat) (d : Decimal) : (stripZeros n d).value = d.value := by
  induction n generalizing d with
  | zero => rfl
  | succ n ih =>
    rw [stripZeros]
    split
    · rename_i h
      rw [ih, Decimal.value, Decimal.value]
      have hdigits : ((d.digits / 10 : Nat) : ℚ) * 10 = d.digits := by
        exact_mod_cast Nat.div_mul_cancel (Nat.dvd_of_mod_eq_zero h.1)
      rw [zpow_add_one₀ (by norm_num), ← hdigits]
      ring
    · rfl

theorem digits_stripZeros_pos {n : Nat} {d : Decimal} (hd : 0 < d.digits) :
    0 < (stripZeros n d).digits := by
  induction n generalizing d with
  | zero => exact hd
  | succ n ih =>
    rw [stripZeros]
    split
    · rename_i h
      refine ih ?_
      show 0 < d.digits / 10
      omega
    · exact hd

/-! ## The search -/

/-- What is picked is no zero and lies in the interval. -/
theorem pick_spec {i : Interval} {tie : Tie} {n : Nat} (h : i.pick tie = some n) :
    0 < n ∧ i.contains n = true := by
  have hbelow : (i.contains (i.value / i.denominator) && i.value / i.denominator != 0) = true →
      0 < i.value / i.denominator ∧ i.contains (i.value / i.denominator) = true := fun hb => by
    rw [Bool.and_eq_true, bne_iff_ne] at hb
    exact ⟨Nat.pos_of_ne_zero hb.2, hb.1⟩
  have habove : i.contains (i.value / i.denominator + 1) = true →
      0 < i.value / i.denominator + 1 ∧ i.contains (i.value / i.denominator + 1) = true :=
    fun ha => ⟨Nat.succ_pos _, ha⟩
  unfold Interval.pick at h
  dsimp only at h
  split at h
  · cases h
  · rename_i hb ha
    obtain rfl := Option.some.inj h
    exact hbelow hb
  · rename_i hb ha
    obtain rfl := Option.some.inj h
    exact habove ha
  · -- Both neighbours lie in the interval, whichever of them is taken.
    rename_i hb ha
    have hn : n = i.value / i.denominator ∨ n = i.value / i.denominator + 1 := by
      split at h
      · exact .inl (Option.some.inj h).symm
      · exact .inr (Option.some.inj h).symm
      · exact .inr (Option.some.inj h).symm
      · split at h
        · exact .inl (Option.some.inj h).symm
        · exact .inr (Option.some.inj h).symm
    rcases hn with rfl | rfl
    · exact hbelow hb
    · exact habove ha

/-- If the grid point above the value lies in the interval, some point is picked. -/
theorem isSome_pick_of_contains {i : Interval}
    (h : i.contains (i.value / i.denominator + 1) = true) (tie : Tie) : (i.pick tie).isSome := by
  unfold Interval.pick
  dsimp only
  rw [h]
  split
  · rename_i hnone
    cases hnone
  · rfl
  · rfl
  · split
    · rfl
    · rfl
    · rfl
    · split <;> rfl

end Magnitude

end QueryCache
