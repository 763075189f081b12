import Mathlib
import QueryCache.Text.Quoted
import QueryCache.Proofs.Json.Numeral
import QueryCache.Proofs.Json.StringLiteral

/-!
# Compact texts and the trees they are read as

`Reads text tree` says that the reader takes exactly `text` from the input and
makes `tree` of it, whatever closes the text.  Each form of compact text has
its lemma: words, integers, string literals, arrays, and the members of an
object one after the other.
-/

namespace QueryCache.Json

/-! ## Whole values -/

/-- The reader makes a tree of a text, in front of whatever closes it. -/
structure Reads (text : List UInt8) (tree : Syntax) : Prop where
  /-- The text starts with neither a blank nor a closing bracket. -/
  head : ∃ b r, text = b :: r ∧ isBlank b = false ∧ b ≠ 0x5D
  read : ∀ fuel, text.length ≤ fuel → ∀ rest, Closes rest →
    readValue fuel (text ++ rest) = some (tree, rest)

theorem skipBlanks_cons {b : UInt8} (hb : isBlank b = false) (r : List UInt8) :
    skipBlanks (b :: r) = b :: r := by
  rw [skipBlanks, List.dropWhile_cons, hb]
  rfl

/-- The reader takes at least one octet of fuel, since a text is not empty. -/
theorem Reads.of_succ {b : UInt8} {r : List UInt8} {tree : Syntax} (hb : isBlank b = false)
    (hbracket : b ≠ 0x5D)
    (h : ∀ fuel, r.length ≤ fuel → ∀ rest, Closes rest →
      readValue (fuel + 1) (b :: (r ++ rest)) = some (tree, rest)) : Reads (b :: r) tree := by
  refine ⟨⟨b, r, rfl, hb, hbracket⟩, ?_⟩
  intro fuel hf rest hr
  cases fuel with
  | zero => exact absurd hf (Nat.not_succ_le_zero _)
  | succ fuel => exact h fuel (Nat.le_of_succ_le_succ hf) rest hr

/-- A text that is read is read as a whole. -/
theorem Reads.syntax {text : List UInt8} {tree : Syntax} (h : Reads text tree) :
    Syntax.read text = some tree := by
  have hr := h.read (text.length + 1) (Nat.le_succ _) [] closes_nil
  rw [List.append_nil] at hr
  rw [Syntax.read, hr]
  rfl

/-! ## Words and literals -/

theorem reads_null : Reads (Text.utf8 "null") .null := by
  have ht : Text.utf8 "null" = [0x6E, 0x75, 0x6C, 0x6C] := by decide
  rw [ht]
  apply Reads.of_succ (by decide) (by decide)
  intro fuel _ rest _
  rfl

theorem reads_boolean (b : Bool) : Reads (Text.utf8 (Text.boolean b)) (.bool b) := by
  cases b with
  | true =>
    have ht : Text.utf8 (Text.boolean true) = [0x74, 0x72, 0x75, 0x65] := by decide
    rw [ht]
    apply Reads.of_succ (by decide) (by decide)
    intro fuel _ rest _
    rfl
  | false =>
    have ht : Text.utf8 (Text.boolean false) = [0x66, 0x61, 0x6C, 0x73, 0x65] := by decide
    rw [ht]
    apply Reads.of_succ (by decide) (by decide)
    intro fuel _ rest _
    rfl

theorem reads_quote (s : String) : Reads (Text.utf8 (quote s)) (.string (rawText s)) := by
  rw [utf8_quote]
  apply Reads.of_succ (by decide) (by decide)
  intro fuel _ rest _
  have hs := takeString_rawText s rest
  rw [List.append_assoc, List.singleton_append, readValue, skipBlanks_cons (by decide)]
  simp only [hs, Option.map_some]

/-- An octet that starts a number. -/
def StartsNumeral (b : UInt8) : Prop := isDigit b = true ∨ b = 0x2D

theorem StartsNumeral.bounds {b : UInt8} (h : StartsNumeral b) :
    0x2D ≤ b.toNat ∧ b.toNat ≤ 0x39 := by
  rcases h with h | rfl
  · simp only [isDigit, Bool.and_eq_true, decide_eq_true_eq, UInt8.le_iff_toNat_le] at h
    have h1 : (0x30 : UInt8).toNat = 0x30 := rfl
    have h2 : (0x39 : UInt8).toNat = 0x39 := rfl
    omega
  · decide

theorem StartsNumeral.ne {b : UInt8} (h : StartsNumeral b) {x : UInt8}
    (hx : x.toNat < 0x2D ∨ 0x39 < x.toNat) : b ≠ x := by
  have hn := h.bounds
  rintro rfl
  omega

theorem StartsNumeral.isBlank_eq_false {b : UInt8} (h : StartsNumeral b) : isBlank b = false := by
  have hspace : b ≠ 0x20 := h.ne (by decide)
  have htab : b ≠ 0x09 := h.ne (by decide)
  have hfeed : b ≠ 0x0A := h.ne (by decide)
  have hreturn : b ≠ 0x0D := h.ne (by decide)
  simp [isBlank, hspace, htab, hfeed, hreturn]

/-- A text that starts like a number is read by the reader of numbers. -/
theorem readValue_numeral {b : UInt8} (hb : StartsNumeral b) (r : List UInt8) (fuel : Nat) :
    readValue (fuel + 1) (b :: r) = (takeNumeral (b :: r)).map fun (n, r) => (.number n, r) := by
  rw [readValue, skipBlanks_cons hb.isBlank_eq_false]
  -- no string, no array, no object, and none of the three words starts like that
  split
  · rename_i h
    cases h
  · rename_i h
    exact absurd (List.cons.inj h).1 (hb.ne (by decide))
  · rename_i h
    exact absurd (List.cons.inj h).1 (hb.ne (by decide))
  · rename_i h
    exact absurd (List.cons.inj h).1 (hb.ne (by decide))
  · rename_i h
    rcases List.cons.inj h with ⟨rfl, rfl⟩
    rw [if_neg (hb.ne (by decide)), if_neg (hb.ne (by decide)), if_neg (hb.ne (by decide))]

/-- The text of a numeral is read as a number. -/
theorem reads_numeral (t : NumeralText) : Reads t.octets (.number t.numeral) := by
  have hstart : ∃ b r, t.octets = b :: r ∧ StartsNumeral b := by
    obtain ⟨b, r, hb, hd⟩ := t.magnitude_eq_cons
    rw [NumeralText.octets, hb]
    split
    · exact ⟨0x2D, _, rfl, .inr rfl⟩
    · exact ⟨b, r, rfl, .inl hd⟩
  have htake := fun rest (hr : Closes rest) => t.takeNumeral_octets hr
  obtain ⟨b, r, hb, hs⟩ := hstart
  rw [hb] at htake ⊢
  apply Reads.of_succ hs.isBlank_eq_false (hs.ne (by decide))
  intro fuel _ rest hr
  have hn := htake rest hr
  rw [List.cons_append] at hn
  rw [readValue_numeral hs, hn]
  rfl

theorem reads_natural (n : Nat) : Reads (Text.utf8 n.repr) (.number (numeralOf false n)) := by
  have h := reads_numeral (integerText false n)
  rw [octets_integerText] at h
  exact h

/-- The numeral of an integer. -/
def numeralOfInt (i : Int) : Numeral := numeralOf (decide (i < 0)) i.natAbs

theorem reads_int (i : Int) : Reads (Text.utf8 (toString i)) (.number (numeralOfInt i)) := by
  have ht : toString i = Int.repr i := rfl
  rw [ht, numeralOfInt]
  cases i with
  | ofNat n =>
    have hn : ¬ (Int.ofNat n < 0) := by simp
    rw [decide_eq_false hn]
    exact reads_natural n
  | negSucc n =>
    have hneg : Int.negSucc n < 0 := Int.negSucc_lt_zero n
    have hrepr : Text.utf8 (Int.repr (Int.negSucc n)) = 0x2D :: Text.utf8 (n + 1).repr := by
      have he : Int.repr (Int.negSucc n) = "-" ++ (n + 1).repr := rfl
      have hm : Text.utf8 "-" = [0x2D] := by decide
      rw [he, Text.utf8_append, hm]
      rfl
    rw [decide_eq_true hneg, hrepr]
    have h := reads_numeral (integerText true (n + 1))
    rw [octets_integerText] at h
    exact h

/-! ## Arrays -/

/-- Texts, each closed by a comma but the last one. -/
def joined : List (List UInt8) → List UInt8
  | [] => []
  | [text] => text
  | text :: rest => text ++ 0x2C :: joined rest

theorem utf8_intercalate (texts : List String) :
    Text.utf8 (",".intercalate texts) = joined (texts.map Text.utf8) := by
  induction texts with
  | nil => decide
  | cons text rest ih =>
    cases rest with
    | nil => rw [String.intercalate_singleton, List.map_singleton, joined]
    | cons next rest =>
      have hc : Text.utf8 "," = [0x2C] := by decide
      rw [String.intercalate_cons_cons, Text.utf8_append, Text.utf8_append, ih, hc,
        List.append_assoc, List.singleton_append]
      rfl

/-- The items of an array are read one after the other, up to the bracket. -/
theorem readItems_joined {texts : List (List UInt8)} {trees : List Syntax}
    (h : List.Forall₂ Reads texts trees) (hne : texts ≠ []) :
    ∀ fuel, (joined texts).length < fuel → ∀ rest,
      readItems fuel (joined texts ++ 0x5D :: rest) = some (trees, rest) := by
  induction h with
  | nil => exact absurd rfl hne
  | @cons text tree texts trees ht hts ih =>
    intro fuel hf rest
    obtain ⟨fuel, rfl⟩ : ∃ n, fuel = n + 1 := ⟨fuel - 1, by omega⟩
    cases hts with
    | nil =>
      -- the last item is closed by the bracket
      have hr := ht.read fuel (Nat.le_of_lt_succ hf) _ (closes_bracket rest)
      rw [joined, readItems, hr]
      simp only [skipBlanks_cons (b := 0x5D) (by decide)]
    | @cons next _ texts trees _ _ =>
      -- every other item is closed by a comma, and takes fuel for itself
      have hlen : (joined (text :: next :: texts)).length =
          text.length + ((joined (next :: texts)).length + 1) := by
        rw [joined, List.length_append, List.length_cons]
        intro hn
        cases hn
      have hr := ht.read fuel (by omega) _
        (closes_comma (joined (next :: texts) ++ 0x5D :: rest))
      have hi := ih (List.cons_ne_nil _ _) fuel (by omega) rest
      have hj : joined (text :: next :: texts) ++ 0x5D :: rest =
          text ++ 0x2C :: (joined (next :: texts) ++ 0x5D :: rest) := by
        rw [joined, List.append_assoc, List.cons_append]
        intro hn
        cases hn
      rw [hj, readItems, hr]
      simp only [skipBlanks_cons (b := 0x2C) (by decide), hi, Option.map_some]

theorem joined_head {texts : List (List UInt8)} {trees : List Syntax}
    (h : List.Forall₂ Reads texts trees) (hne : texts ≠ []) :
    ∃ b r, joined texts = b :: r ∧ isBlank b = false ∧ b ≠ 0x5D := by
  cases h with
  | nil => exact absurd rfl hne
  | @cons text tree texts trees ht hts =>
    rcases ht.head with ⟨b, r, rfl, hb⟩
    cases texts with
    | nil => exact ⟨b, r, rfl, hb⟩
    | cons next texts => exact ⟨b, r ++ 0x2C :: joined (next :: texts), rfl, hb⟩

/-- An array of texts that are read is read. -/
theorem reads_array {texts : List (List UInt8)} {trees : List Syntax}
    (h : List.Forall₂ Reads texts trees) :
    Reads (0x5B :: (joined texts ++ [0x5D])) (.array trees) := by
  apply Reads.of_succ (by decide) (by decide)
  intro fuel hf rest _
  rw [List.length_append, List.length_singleton] at hf
  rw [List.append_assoc, List.singleton_append, readValue, skipBlanks_cons (by decide)]
  by_cases hne : texts = []
  · -- the bracket comes at once
    subst hne
    cases h
    rfl
  · rcases joined_head h hne with ⟨b, r, hj, hb, hbr⟩
    have hi := readItems_joined h hne fuel (by omega) rest
    rw [hj, List.cons_append] at hi
    simp only [hj, List.cons_append, skipBlanks_cons hb]
    split
    · rename_i hx
      exact absurd (List.cons.inj hx).1 hbr
    · rw [hi]
      rfl

/-! ## Objects -/

/-- The text of a member of an object. -/
def memberText (name : String) (text : List UInt8) : List UInt8 :=
  Text.utf8 (quote name) ++ 0x3A :: text

theorem memberText_append (name : String) (text rest : List UInt8) :
    memberText name text ++ rest = 0x22 :: (rawText name ++ 0x22 :: 0x3A :: (text ++ rest)) := by
  simp [memberText, utf8_quote]

theorem readMembers_last (name : String) {text : List UInt8} {tree : Syntax} (h : Reads text tree)
    {fuel : Nat} (hf : text.length ≤ fuel) (rest : List UInt8) :
    readMembers (fuel + 1) (memberText name text ++ 0x7D :: rest) =
      some ([(rawText name, tree)], rest) := by
  have hr := h.read fuel hf _ (closes_brace rest)
  have hs := takeString_rawText name (0x3A :: (text ++ 0x7D :: rest))
  rw [memberText_append, readMembers]
  simp only [skipBlanks_cons (b := 0x22) (by decide), hs, skipBlanks_cons (b := 0x3A) (by decide),
    hr, skipBlanks_cons (b := 0x7D) (by decide)]

theorem readMembers_cons (name : String) {text : List UInt8} {tree : Syntax} (h : Reads text tree)
    {fuel : Nat} (hf : text.length ≤ fuel) {more rest : List UInt8}
    {members : List (List UInt8 × Syntax)} (hm : readMembers fuel more = some (members, rest)) :
    readMembers (fuel + 1) (memberText name text ++ 0x2C :: more) =
      some ((rawText name, tree) :: members, rest) := by
  have hr := h.read fuel hf _ (closes_comma more)
  have hs := takeString_rawText name (0x3A :: (text ++ 0x2C :: more))
  rw [memberText_append, readMembers]
  simp only [skipBlanks_cons (b := 0x22) (by decide), hs, skipBlanks_cons (b := 0x3A) (by decide),
    hr, skipBlanks_cons (b := 0x2C) (by decide), hm, Option.map_some]

/-- A name with a text that is read; the literal of the name is kept as it is. -/
def ReadsMember (m : String × List UInt8) (t : List UInt8 × Syntax) : Prop :=
  t.1 = rawText m.1 ∧ Reads m.2 t.2

/-- The texts of members, each with its name. -/
abbrev memberTexts (members : List (String × List UInt8)) : List (List UInt8) :=
  members.map fun m => memberText m.1 m.2

/-- The members of an object are read one after the other, up to the brace. -/
theorem readMembers_joined {members : List (String × List UInt8)}
    {trees : List (List UInt8 × Syntax)} (h : List.Forall₂ ReadsMember members trees)
    (hne : members ≠ []) : ∀ fuel, (joined (memberTexts members)).length < fuel → ∀ rest,
      readMembers fuel (joined (memberTexts members) ++ 0x7D :: rest) = some (trees, rest) := by
  induction h with
  | nil => exact absurd rfl hne
  | @cons member tree members trees hm hms ih =>
    obtain ⟨name, text⟩ := member
    obtain ⟨raw, tree⟩ := tree
    obtain ⟨rfl, ht⟩ : raw = rawText name ∧ Reads text tree := hm
    intro fuel hf rest
    obtain ⟨fuel, rfl⟩ : ∃ n, fuel = n + 1 := ⟨fuel - 1, by omega⟩
    have hlength : text.length ≤ (memberText name text).length := by
      rw [memberText, List.length_append, List.length_cons]
      omega
    cases hms with
    | nil =>
      -- the last member is closed by the brace
      have hle : (memberText name text).length ≤ fuel := Nat.le_of_lt_succ hf
      exact readMembers_last name ht (hlength.trans hle) rest
    | @cons next _ members trees _ _ =>
      -- every other member is closed by a comma
      have hjoined : joined (memberTexts ((name, text) :: next :: members)) =
          memberText name text ++ 0x2C :: joined (memberTexts (next :: members)) := by
        rw [memberTexts, List.map_cons, joined]
        rintro ⟨⟩
      rw [hjoined, List.length_append, List.length_cons] at hf
      have hmore := ih (List.cons_ne_nil _ _) fuel (by omega) rest
      rw [hjoined, List.append_assoc, List.cons_append]
      exact readMembers_cons name ht (by omega) hmore

/-- An object whose members are read is read. -/
theorem reads_object {members : List (String × List UInt8)} {trees : List (List UInt8 × Syntax)}
    (h : List.Forall₂ ReadsMember members trees) :
    Reads (0x7B :: (joined (memberTexts members) ++ [0x7D])) (.object trees) := by
  apply Reads.of_succ (by decide) (by decide)
  intro fuel hf rest _
  rw [List.length_append, List.length_singleton] at hf
  rw [List.append_assoc, List.singleton_append, readValue, skipBlanks_cons (by decide)]
  by_cases hne : members = []
  · -- the brace comes at once
    subst hne
    cases h
    rfl
  · have hm := readMembers_joined h hne fuel (by omega) rest
    -- the text of a member starts with a quote
    obtain ⟨r, hr⟩ : ∃ r, joined (memberTexts members) = 0x22 :: r := by
      obtain ⟨⟨name, text⟩, more, rfl⟩ := List.exists_cons_of_ne_nil hne
      cases more with
      | nil => exact ⟨_, (List.append_nil _).symm.trans (memberText_append name text [])⟩
      | cons next more => exact ⟨_, memberText_append name text _⟩
    rw [hr, List.cons_append] at hm
    simp only [hr, List.cons_append, skipBlanks_cons (b := 0x22) (by decide), hm]
    rfl

/-- An object of two members. -/
theorem reads_pair (name₁ name₂ : String) {text₁ text₂ : List UInt8} {tree₁ tree₂ : Syntax}
    (h₁ : Reads text₁ tree₁) (h₂ : Reads text₂ tree₂) :
    Reads (0x7B :: (memberText name₁ text₁ ++ 0x2C :: (memberText name₂ text₂ ++ [0x7D])))
      (.object [(rawText name₁, tree₁), (rawText name₂, tree₂)]) := by
  have hm : List.Forall₂ ReadsMember [(name₁, text₁), (name₂, text₂)]
      [(rawText name₁, tree₁), (rawText name₂, tree₂)] :=
    .cons ⟨rfl, h₁⟩ (.cons ⟨rfl, h₂⟩ .nil)
  simpa [joined] using reads_object hm

end QueryCache.Json
