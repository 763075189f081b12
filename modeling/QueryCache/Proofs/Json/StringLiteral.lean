import Mathlib
import QueryCache.Json.Text
import QueryCache.Proofs.Text.Utf8

/-!
# String literals

A string that is written as a literal is read as one literal, and the literal
stands for the string.  Both follow character by character: the octets of a
written character are taken as a whole, and they resolve to the octets of the
character.
-/

namespace QueryCache.Json

/-- The octets of a character inside a literal. -/
def escapeOctets (c : Char) : List UInt8 := (escape c).flatMap String.utf8EncodeChar

/-- The octets of a string inside a literal. -/
def rawText (s : String) : List UInt8 := s.toList.flatMap escapeOctets

theorem utf8_quote (s : String) : Text.utf8 (quote s) = 0x22 :: (rawText s ++ [0x22]) := by
  have hq : String.utf8EncodeChar '"' = [0x22] := by decide
  rw [quote, Text.utf8_ofList, List.cons_append, List.flatMap_cons, List.flatMap_append, hq,
    List.flatMap_assoc]
  simp only [List.flatMap_cons, List.flatMap_nil, hq]
  rfl

/-! ## Kinds of characters -/

/-- The characters that are written as they are. -/
def IsPlain (c : Char) : Prop := 0x20 ≤ c.toNat ∧ c ≠ '"' ∧ c ≠ '\\'

/-- An octet that goes into a literal as it is. -/
def IsPlainOctet (b : UInt8) : Prop := ¬ b < 0x20 ∧ b ≠ 0x22 ∧ b ≠ 0x5C

theorem isPlainOctet_ofNat {n : Nat} (hl : 0x80 ≤ n) (hu : n < 0x100) :
    IsPlainOctet (UInt8.ofNat n) := by
  have hn : (UInt8.ofNat n).toNat = n := by
    rw [UInt8.toNat_ofNat']
    exact Nat.mod_eq_of_lt hu
  refine ⟨?_, ?_, ?_⟩
  · rw [UInt8.lt_iff_toNat_lt, hn]
    show ¬ n < 32
    omega
  · intro h
    have h' : n = 0x22 := hn.symm.trans (congrArg UInt8.toNat h)
    omega
  · intro h
    have h' : n = 0x5C := hn.symm.trans (congrArg UInt8.toNat h)
    omega

theorem isPlainOctet_of_mem {c : Char} (hc : IsPlain c) {b : UInt8}
    (hb : b ∈ String.utf8EncodeChar c) : IsPlainOctet b := by
  rcases hc with ⟨hlow, hquote, hback⟩
  by_cases hascii : c.toNat < 0x80
  · -- an ASCII character is its own octet, so it is none of the three that are escaped
    rw [Text.utf8EncodeChar_ascii hascii, List.mem_singleton] at hb
    subst hb
    have hinj : ∀ d : Char, d.toNat < 0x80 → UInt8.ofNat c.toNat = UInt8.ofNat d.toNat → c = d := by
      intro d hd h
      have h' := congrArg UInt8.toNat h
      simp only [UInt8.toNat_ofNat'] at h'
      apply Char.toNat_inj.1
      omega
    refine ⟨?_, fun h => hquote (hinj '"' (by decide) h), fun h => hback (hinj '\\' (by decide) h)⟩
    rw [UInt8.lt_iff_toNat_lt, UInt8.toNat_ofNat']
    show ¬ c.toNat % 2 ^ 8 < 32
    omega
  · -- every octet of a longer sequence has its highest bit set
    have hbig : ¬ c.val.toNat ≤ 0x7f := fun h => hascii (Nat.lt_succ_of_le h)
    simp only [String.utf8EncodeChar, if_neg hbig] at hb
    split at hb
    · -- two octets
      simp only [List.mem_cons, List.not_mem_nil, or_false] at hb
      rcases hb with rfl | rfl <;> exact isPlainOctet_ofNat (by omega) (by omega)
    · split at hb
      · -- three octets
        simp only [List.mem_cons, List.not_mem_nil, or_false] at hb
        rcases hb with rfl | rfl | rfl <;> exact isPlainOctet_ofNat (by omega) (by omega)
      · -- four octets
        simp only [List.mem_cons, List.not_mem_nil, or_false] at hb
        rcases hb with rfl | rfl | rfl | rfl <;> exact isPlainOctet_ofNat (by omega) (by omega)

/-! ## Taking a literal -/

theorem takeString_plain {b : UInt8} (hb : IsPlainOctet b) (rest : List UInt8) :
    takeString (b :: rest) = (takeString rest).map fun p => (b :: p.1, p.2) := by
  rcases hb with ⟨hlow, hquote, hback⟩
  rw [takeString.eq_5 b rest hquote (fun _ _ _ _ _ h _ => hback h) (fun _ _ h _ => hback h),
    if_neg (by simp only [hlow, hback, or_self, not_false_eq_true])]

theorem takeString_append_plain {bs : List UInt8} (h : ∀ b ∈ bs, IsPlainOctet b)
    (rest : List UInt8) :
    takeString (bs ++ rest) = (takeString rest).map fun p => (bs ++ p.1, p.2) := by
  induction bs with
  | nil => simp
  | cons b bs ih =>
    have ih' := ih fun x hx => h x (List.mem_cons_of_mem b hx)
    rw [List.cons_append, takeString_plain (h b List.mem_cons_self), ih', Option.map_map]
    rfl

theorem takeString_short {e : UInt8}
    (he : e ∈ [0x22, 0x5C, 0x2F, 0x62, 0x66, 0x6E, 0x72, 0x74]) (rest : List UInt8) :
    takeString (0x5C :: e :: rest) = (takeString rest).map fun p => (0x5C :: e :: p.1, p.2) := by
  have hu : e ≠ 0x75 := by
    rintro rfl
    revert he
    decide
  rw [takeString.eq_4 e rest (fun _ _ _ _ _ h _ => hu h), if_pos he]

theorem takeString_unit {a b c d : UInt8} (ha : (hexValue? a).isSome) (hb : (hexValue? b).isSome)
    (hc : (hexValue? c).isSome) (hd : (hexValue? d).isSome) (rest : List UInt8) :
    takeString (0x5C :: 0x75 :: a :: b :: c :: d :: rest) =
      (takeString rest).map fun p => (0x5C :: 0x75 :: a :: b :: c :: d :: p.1, p.2) := by
  rw [takeString, ha, hb, hc, hd]
  rfl

/-! ## Resolving a literal -/

theorem resolve_plain {b : UInt8} (hb : b ≠ 0x5C) (rest : List UInt8) :
    resolve (b :: rest) = (resolve rest).map (b :: ·) := by
  exact resolve.eq_4 b rest (fun _ _ _ _ _ h _ => hb h) (fun _ _ h _ => hb h)

theorem resolve_append_plain {bs : List UInt8} (h : ∀ b ∈ bs, IsPlainOctet b) (rest : List UInt8) :
    resolve (bs ++ rest) = (resolve rest).map (bs ++ ·) := by
  induction bs with
  | nil => simp
  | cons b bs ih =>
    have ih' := ih fun x hx => h x (List.mem_cons_of_mem b hx)
    rw [List.cons_append, resolve_plain (h b List.mem_cons_self).2.2, ih', Option.map_map]
    rfl

theorem resolve_short {e b : UInt8} (he : shortEscape? e = some b) (rest : List UInt8) :
    resolve (0x5C :: e :: rest) = (resolve rest).map (b :: ·) := by
  have hu : e ≠ 0x75 := by
    rintro rfl
    have hnone : shortEscape? 0x75 = none := by decide
    rw [hnone] at he
    cases he
  rw [resolve.eq_3 e rest (fun _ _ _ _ _ h _ => hu h), he]

theorem resolve_unit {a b c d : UInt8} {n : Nat} (h : unit? a b c d = some n) (hn : n < 0x20)
    (rest : List UInt8) :
    resolve (0x5C :: 0x75 :: a :: b :: c :: d :: rest) =
      (resolve rest).map (String.utf8EncodeChar (Char.ofNat n) ++ ·) := by
  rw [resolve, h]
  -- a control character is no half of a surrogate pair
  have h1 : ¬ (0xDC00 ≤ n ∧ n ≤ 0xDFFF) := by omega
  have h2 : ¬ (0xD800 ≤ n ∧ n ≤ 0xDBFF) := by omega
  simp only [if_neg h1, if_neg h2]

/-! ## Characters -/

/-- A written character is taken as a whole and stands for itself. -/
def ReadsBack (c : Char) : Prop :=
  ∀ rest, takeString (escapeOctets c ++ rest) =
      (takeString rest).map (fun p => (escapeOctets c ++ p.1, p.2)) ∧
    resolve (escapeOctets c ++ rest) = (resolve rest).map (String.utf8EncodeChar c ++ ·)

theorem readsBack_short {c : Char} {e b : UInt8} (hc : escapeOctets c = [0x5C, e])
    (he : e ∈ [0x22, 0x5C, 0x2F, 0x62, 0x66, 0x6E, 0x72, 0x74])
    (hb : shortEscape? e = some b) (hcb : String.utf8EncodeChar c = [b]) : ReadsBack c := by
  intro rest
  rw [hc, hcb]
  exact ⟨takeString_short he rest, resolve_short hb rest⟩

theorem readsBack_plain {c : Char} (hc : IsPlain c) (he : escape c = [c]) : ReadsBack c := by
  intro rest
  have h : escapeOctets c = String.utf8EncodeChar c := by
    rw [escapeOctets, he, List.flatMap_cons, List.flatMap_nil, List.append_nil]
  rw [h]
  exact ⟨takeString_append_plain (fun b hb => isPlainOctet_of_mem hc hb) rest,
    resolve_append_plain (fun b hb => isPlainOctet_of_mem hc hb) rest⟩

/-- A hexadecimal digit is one octet, and it has its value. -/
theorem exists_hexDigit {d : Nat} (h : d < 16) :
    ∃ b, String.utf8EncodeChar (hexDigit d) = [b] ∧ hexValue? b = some d := by
  have hall : ∀ d < 16, (String.utf8EncodeChar (hexDigit d)).map hexValue? = [some d] := by decide
  have hd := hall d h
  rw [List.map_eq_singleton_iff] at hd
  rcases hd with ⟨b, hb, hv⟩
  exact ⟨b, hb, hv⟩

theorem readsBack_unit {c : Char} (hc : c.toNat < 0x20)
    (he : escape c = ['\\', 'u', '0', '0', hexDigit (c.toNat / 16), hexDigit (c.toNat % 16)]) :
    ReadsBack c := by
  intro rest
  rcases exists_hexDigit (d := c.toNat / 16) (by omega) with ⟨x, hx, hxv⟩
  rcases exists_hexDigit (d := c.toNat % 16) (by omega) with ⟨y, hy, hyv⟩
  have h : escapeOctets c = [0x5C, 0x75, 0x30, 0x30, x, y] := by
    have hfixed : ['\\', 'u', '0', '0'].map String.utf8EncodeChar =
        [[0x5C], [0x75], [0x30], [0x30]] := by decide
    simp only [List.map_cons, List.map_nil, List.cons.injEq, and_true] at hfixed
    simp only [escapeOctets, he, List.flatMap_cons, List.flatMap_nil, hfixed, hx, hy]
    rfl
  have hzero : hexValue? 0x30 = some 0 := by decide
  have hunit : unit? 0x30 0x30 x y = some c.toNat := by
    simp only [unit?, hzero, hxv, hyv, Option.bind_eq_bind, Option.bind_some]
    show some (((0 * 16 + 0) * 16 + c.toNat / 16) * 16 + c.toNat % 16) = some c.toNat
    congr 1
    omega
  rw [h]
  constructor
  · exact takeString_unit (by rw [hzero]; rfl) (by rw [hzero]; rfl) (by rw [hxv]; rfl)
      (by rw [hyv]; rfl) rest
  · have hr := resolve_unit hunit hc rest
    rw [Char.ofNat_toNat] at hr
    exact hr

theorem readsBack (c : Char) : ReadsBack c := by
  -- seven characters have a short escape of their own
  by_cases hq : c = '"'
  · subst hq
    exact readsBack_short (e := 0x22) (b := 0x22) (by decide) (by decide) (by decide) (by decide)
  by_cases hb : c = '\\'
  · subst hb
    exact readsBack_short (e := 0x5C) (b := 0x5C) (by decide) (by decide) (by decide) (by decide)
  by_cases h8 : c = '\x08'
  · subst h8
    exact readsBack_short (e := 0x62) (b := 0x08) (by decide) (by decide) (by decide) (by decide)
  by_cases hc : c = '\x0c'
  · subst hc
    exact readsBack_short (e := 0x66) (b := 0x0C) (by decide) (by decide) (by decide) (by decide)
  by_cases hn : c = '\n'
  · subst hn
    exact readsBack_short (e := 0x6E) (b := 0x0A) (by decide) (by decide) (by decide) (by decide)
  by_cases hr : c = '\r'
  · subst hr
    exact readsBack_short (e := 0x72) (b := 0x0D) (by decide) (by decide) (by decide) (by decide)
  by_cases ht : c = '\t'
  · subst ht
    exact readsBack_short (e := 0x74) (b := 0x09) (by decide) (by decide) (by decide) (by decide)
  -- the others are written as a unit when they are control characters, else as they are
  have he : escape c =
      if c.toNat < 0x20 then
        ['\\', 'u', '0', '0', hexDigit (c.toNat / 16), hexDigit (c.toNat % 16)]
      else [c] := by
    rw [escape.eq_def]
    split <;> first | contradiction | rfl
  by_cases hlow : c.toNat < 0x20
  · rw [if_pos hlow] at he
    exact readsBack_unit hlow he
  · rw [if_neg hlow] at he
    exact readsBack_plain ⟨by omega, hq, hb⟩ he

/-! ## Strings -/

/-- The literal ends at its own closing quote. -/
theorem takeString_rawText (s : String) (rest : List UInt8) :
    takeString (rawText s ++ 0x22 :: rest) = some (rawText s, rest) := by
  unfold rawText
  induction s.toList with
  | nil => rfl
  | cons c cs ih =>
    rw [List.flatMap_cons, List.append_assoc, (readsBack c _).1, ih]
    rfl

theorem resolve_rawText (s : String) : resolve (rawText s) = some (Text.utf8 s) := by
  rw [Text.utf8_eq_flatMap]
  unfold rawText
  induction s.toList with
  | nil => rfl
  | cons c cs ih =>
    rw [List.flatMap_cons, (readsBack c _).2, ih]
    rfl

/-- A literal stands for the string that was written. -/
@[simp]
theorem text?_rawText (s : String) : text? (rawText s) = some s := by
  rw [text?, resolve_rawText]
  exact Text.ofUtf8?_utf8 s

end QueryCache.Json
