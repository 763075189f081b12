import Mathlib
import QueryCache.Proofs.Json.FloatText
import QueryCache.Proofs.Value.RoundTrip

/-!
# Which snapshots can be read

A value with a snapshot can be read back, unless it is a float that is not finite: such a
float is written as `null`, and no float is read from that.

1. texts of floats
2. finite floats
3. snapshots
-/

namespace QueryCache

open Json

/-! ## Texts of floats -/

/-- A literal with a point or an exponent stands for a float. -/
theorem Json.value?_of_isSome {n : Numeral} (hn : n.fraction ≠ [] ∨ n.exponent ≠ none)
    (h : n.toFloat?.isSome) : ∃ x, n.value? = some (.float x) := by
  obtain ⟨f, hf⟩ := Option.isSome_iff_exists.1 h
  refine ⟨.ofFloat f, ?_⟩
  have hno : ¬ (n.fraction.isEmpty ∧ n.exponent.isNone) := by
    rw [List.isEmpty_iff, Option.isNone_iff_eq_none]
    exact fun hboth => hn.elim (fun hne => hne hboth.1) fun hne => hne hboth.2
  rw [Numeral.value?, if_neg hno, hf]
  rfl

/-- The text of a float is read, with a sign or without. -/
theorem Decimal.IsFloatText.decode? {text : String} (h : IsFloatText text) (negative : Bool) :
    ∃ y, Data.decode? .f64 (Text.utf8 (if negative then "-" ++ text else text)) =
      some (.f64 y) := by
  obtain ⟨t, htext, hpoint, hfloat⟩ := h
  let signed : NumeralText := { t with negative := negative }
  have hoctets := t.utf8_signed htext negative
  have hparts : signed.numeral.fraction ≠ [] ∨ signed.numeral.exponent ≠ none := by
    refine hpoint.imp (fun hne heq => hne (List.map_eq_nil_iff.1 heq)) fun hne heq => hne ?_
    exact Option.map_eq_none_iff.1 heq
  obtain ⟨y, hy⟩ := value?_of_isSome hparts (hfloat negative)
  have hreads := reads_numeral signed
  refine ⟨y, ?_⟩
  rw [hoctets, Data.decode?, hreads.syntax]
  show ((Syntax.number signed.numeral).float?).map Data.f64 = _
  rw [Syntax.float?, hy]
  rfl

/-! ## Finite floats -/

namespace Binary64

/-- The five floats of largest magnitude are too near to the bound for an estimate, so each is
read by itself. -/
theorem decode?_largest : ∀ i ∈ List.range 5, ∀ sign ∈ [0, 9223372036854775808],
    (Data.decode? .f64 (Text.utf8 (Number.render
      (.float ⟨UInt64.ofNat (sign + (9218868437227405311 - i))⟩)))).isSome := by
  decide +kernel

/-- A float that does not stay below the bound is one of these. -/
theorem eq_largest {x : Binary64} (he : x.magnitude.exponent = 971)
    (hm : 2 ^ 53 ≤ x.magnitude.mantissa + 5) :
    ∃ i ∈ List.range 5, ∃ sign ∈ [0, 9223372036854775808],
      x = ⟨UInt64.ofNat (sign + (9218868437227405311 - i))⟩ := by
  have hbiased : x.biased = x.bits.toNat / 4503599627370496 % 2048 := rfl
  have hfraction : x.fraction = x.bits.toNat % 4503599627370496 := rfl
  have hsize : x.bits.toNat < 18446744073709551616 := UInt64.toNat_lt x.bits
  have hbits : ∀ n, x.bits.toNat = n → x = ⟨UInt64.ofNat n⟩ := by
    rintro _ rfl
    rw [UInt64.ofNat_toNat]
  have hexponent : x.biased = 2046 ∧ 2 ^ 53 ≤ 4503599627370496 + x.fraction + 5 := by
    rw [magnitude] at he hm
    split at he
    · cases he
    · rw [if_neg ‹_›] at hm
      have he' : (x.biased : Int) - 1075 = 971 := he
      exact ⟨by omega, hm⟩
  rcases Nat.lt_or_ge x.bits.toNat 9223372036854775808 with hpos | hneg
  · refine ⟨9218868437227405311 - x.bits.toNat, ?_, 0, List.mem_cons_self, hbits _ ?_⟩
    · rw [List.mem_range]
      omega
    · omega
  · refine ⟨9218868437227405311 - (x.bits.toNat - 9223372036854775808), ?_, _,
      List.mem_cons_of_mem _ List.mem_cons_self, hbits _ ?_⟩
    · rw [List.mem_range]
      omega
    · omega

/-- The text of a finite float is read as a float. -/
theorem decode?_render {x : Binary64} (hx : x.isFinite = true) :
    ∃ y, Data.decode? .f64 (Text.utf8 (Number.render (.float x))) = some (.f64 y) := by
  have hfinite : x.biased ≠ 2047 := by simpa [isFinite] using hx
  have hnan : x.isNaN = false := by simp [isNaN, hfinite]
  have hinfinite : x.isInfinite = false := by simp [isInfinite, hfinite]
  by_cases hlast : x.magnitude.exponent = 971 ∧ 2 ^ 53 ≤ x.magnitude.mantissa + 5
  · obtain ⟨i, hi, sign, hsign, rfl⟩ := eq_largest hlast.1 hlast.2
    obtain ⟨d, hd⟩ := Option.isSome_iff_exists.1 (decode?_largest i hi sign hsign)
    have htype := Data.type_of_decode? hd
    cases d with
    | f64 y => exact ⟨y, hd⟩
    | _ => cases htype
  · obtain ⟨hm, he⟩ := magnitude_le hx
    have hbound := upperEnd_le hm he fun heq => by
      have hnot : ¬ 2 ^ 53 ≤ x.magnitude.mantissa + 5 := fun h => hlast ⟨heq, h⟩
      omega
    rw [Number.render, if_pos hx, Layout.render, hnan, hinfinite]
    cases hzero : x.isZero with
    | true => exact Decimal.isFloatText_zero.decode? x.isNegative
    | false =>
      obtain ⟨hpos, hround⟩ := shortest_spec hx hzero .even
      exact (Decimal.isFloatText_of_value_le hpos (hround.bounds.2.trans hbound)).decode? _

/-- No float is read from the text of one that is not finite. -/
theorem decode?_render_of_not_finite {x : Binary64} (hx : x.isFinite = false) :
    Data.decode? .f64 (Text.utf8 (Number.render (.float x))) = none := by
  rw [Number.render, hx]
  show Data.decode? .f64 (Text.utf8 "null") = none
  rw [Data.decode?, reads_null.syntax]
  rfl

end Binary64

/-! ## Snapshots -/

/-- The value is not a float, or a finite one. -/
def Value.IsFinite (v : Value) : Prop :=
  ∀ a x serializable, v = .data a (.f64 x) serializable → x.isFinite = true

/-- The snapshot of a value can be read exactly if the value is not a float, or a finite one. -/
theorem Value.restore_iff_isFinite {v : Value} {s : Snapshot} (hs : v.toSnapshot = .ok s) :
    (∃ d, s.restore = .ok d) ↔ v.IsFinite := by
  obtain ⟨a, d, text, rfl, htext, rfl⟩ := eq_of_toSnapshot hs
  by_cases hf : d.type = .f64
  · cases d with
    | f64 x =>
      cases htext
      rw [Snapshot.restore]
      constructor
      · rintro ⟨d', hd'⟩ _ _ _ ⟨⟩
        by_contra hx
        have hnone := Binary64.decode?_render_of_not_finite (Bool.eq_false_of_not_eq_true hx)
        rw [Data.type, hnone] at hd'
        cases hd'
      · intro hx
        obtain ⟨y, hy⟩ := Binary64.decode?_render (hx a x true rfl)
        exact ⟨.f64 y, by rw [Data.type, hy]⟩
    | _ => cases hf
  · refine ⟨fun _ => ?_, fun _ => ⟨d, by rw [Snapshot.restore, Data.decode?_encode htext hf]⟩⟩
    rintro _ _ _ ⟨⟩
    exact absurd rfl hf

end QueryCache
