import Mathlib
import QueryCache.Text.Utf8

/-!
# The octets of a text

The octets of a text are those of its characters one after the other, and a
text comes back from its octets.
-/

namespace QueryCache.Text

/-- The octets of a text, character by character. -/
theorem utf8_ofList (l : List Char) :
    utf8 (String.ofList l) = l.flatMap String.utf8EncodeChar := by
  have h : (String.ofList l).toByteArray = (l.flatMap String.utf8EncodeChar).toByteArray :=
    String.toByteArray_ofList
  unfold utf8
  rw [String.toUTF8, h, List.data_toByteArray]

theorem utf8_eq_flatMap (s : String) : utf8 s = s.toList.flatMap String.utf8EncodeChar := by
  conv => lhs; rw [← String.ofList_toList (s := s)]
  exact utf8_ofList s.toList

@[simp]
theorem utf8_append (a b : String) : utf8 (a ++ b) = utf8 a ++ utf8 b := by
  simp only [utf8_eq_flatMap, String.toList_append, List.flatMap_append]

/-- A text comes back from its octets. -/
@[simp]
theorem ofUtf8?_utf8 (s : String) : ofUtf8? (utf8 s) = some s := by
  unfold ofUtf8? utf8
  have h : ByteArray.mk s.toUTF8.data.toList.toArray = s.toUTF8 := by simp
  rw [h]
  simp only [String.fromUTF8?, String.toUTF8_eq_toByteArray, dif_pos s.isValidUTF8]
  rfl

/-! ## ASCII -/

theorem utf8EncodeChar_ascii {c : Char} (h : c.toNat < 0x80) :
    String.utf8EncodeChar c = [UInt8.ofNat c.toNat] := by
  have hs : c.utf8Size = 1 := by
    rw [Char.utf8Size_eq_one_iff, UInt32.le_iff_toNat_le]
    exact Nat.le_of_lt_succ h
  rw [String.utf8EncodeChar_eq_singleton hs]
  rfl

/-- A character of ASCII is one octet. -/
theorem utf8_ofList_ascii {l : List Char} (h : ∀ c ∈ l, c.toNat < 0x80) :
    utf8 (String.ofList l) = l.map fun c => UInt8.ofNat c.toNat := by
  rw [utf8_ofList, List.map_eq_flatMap]
  exact List.flatMap_congr fun c hc => utf8EncodeChar_ascii (h c hc)

end QueryCache.Text
