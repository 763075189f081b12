import Mathlib
import QueryCache.Json.Access
import QueryCache.Proofs.Decimal.Rounding
import QueryCache.Proofs.Json.DecimalText
import QueryCache.Proofs.Json.Reading

/-!
# The compact text of a value tells the value

The text of a JSON value is read as a tree, and the tree keeps everything: integers and floats
differ by the point or the exponent, and two floats of one sign by the decimal, which rounds to
only one of them.

1. numbers
2. values and their trees
3. texts and values
-/

namespace QueryCache

open Json

/-! ## Numbers -/

/-- Unsigned numbers are above the signed range, and floats are finite. -/
def Number.IsStandard : Number → Prop
  | .int _ => True
  | .uint u => Int64.maxValue.toInt < u.toNat
  | .float x => x.isFinite = true

/-- What the numeral of a float tells of it. -/
structure Binary64.Tells (n : Numeral) (x : Binary64) : Prop where
  negative : n.negative = x.isNegative
  parts : n.fraction ≠ [] ∨ n.exponent ≠ none
  magnitude : if x.isZero then n.magnitude = 0
    else 0 < n.magnitude ∧ Magnitude.RoundsTo n.magnitude x.magnitude

namespace Binary64

/-- A numeral tells of one float at most. -/
theorem Tells.eq {n : Numeral} {x y : Binary64} (hx : Tells n x) (hy : Tells n y) : x = y := by
  have hsign : x.isNegative = y.isNegative := hx.negative.symm.trans hy.negative
  have hmagnitude := hx.magnitude
  have hmagnitude' := hy.magnitude
  cases hzero : x.isZero <;> cases hzero' : y.isZero <;>
    simp only [hzero, hzero', if_true, Bool.false_eq_true, if_false] at hmagnitude hmagnitude'
  · exact eq_of_roundsTo hsign hmagnitude.2 hmagnitude'.2
  · exact absurd hmagnitude' hmagnitude.1.ne'
  · exact absurd hmagnitude hmagnitude'.1.ne'
  · have hplace : ∀ z : Binary64, z.isZero = true → z.place = 0 := by
      intro z hz
      rw [isZero, Bool.and_eq_true, beq_iff_eq, beq_iff_eq] at hz
      rw [place, hz.1, hz.2, Nat.zero_mul]
    exact eq_of_place hsign ((hplace x hzero).trans (hplace y hzero').symm)

/-- The text of a finite float without its sign. -/
theorem spellsFloat_magnitude {x : Binary64} (hx : x.isFinite = true) :
    ∃ text q, Number.render (.float x) = (if x.isNegative then "-" ++ text else text) ∧
      SpellsFloat text q ∧
      if x.isZero then q = 0 else 0 < q ∧ Magnitude.RoundsTo q x.magnitude := by
  have hfinite : x.biased ≠ 2047 := by simpa [isFinite] using hx
  have hnan : x.isNaN = false := by simp [isNaN, hfinite]
  have hinfinite : x.isInfinite = false := by simp [isInfinite, hfinite]
  have hrender : Number.render (.float x) = Layout.json.render x := if_pos hx
  cases hzero : x.isZero with
  | true =>
    refine ⟨"0.0", 0, ?_, Decimal.pointText_zero.spellsFloat, rfl⟩
    rw [hrender, Layout.render, hnan, hinfinite, hzero]
    rfl
  | false =>
    obtain ⟨hpos, hround⟩ := shortest_spec hx hzero .even
    have hrender' : Layout.json.render x =
        let d := x.magnitude.shortest .even
        let text := if -5 ≤ d.leading ∧ d.leading < 16 then d.positional true else d.scientific
        if x.isNegative then "-" ++ text else text := by
      rw [Layout.render, hnan, hinfinite, hzero]
      rfl
    generalize x.magnitude.shortest .even = d at hpos hround hrender'
    obtain ⟨ds⟩ := exists_digits hpos
    have hvalue : 0 < d.value := by
      have hcast : (0 : ℚ) < d.digits := by exact_mod_cast hpos
      rw [Decimal.value]
      positivity
    refine ⟨_, d.value, hrender.trans hrender', ?_, hvalue, hround⟩
    split
    · obtain ⟨p, -⟩ := Decimal.exists_pointText_positional ds
      exact p.spellsFloat
    · exact Decimal.spellsFloat_scientific ds

/-- The text of a finite float is a numeral that tells of it. -/
theorem exists_numeralText {x : Binary64} (hx : x.isFinite = true) :
    ∃ t : NumeralText, Text.utf8 (Number.render (.float x)) = t.octets ∧ Tells t.numeral x := by
  obtain ⟨text, q, hrender, ⟨t, htext, hparts, hvalue⟩, hq⟩ := spellsFloat_magnitude hx
  refine ⟨{ t with negative := x.isNegative }, ?_, rfl, ?_, ?_⟩
  · rw [hrender, t.utf8_signed htext]
  · refine hparts.imp (fun hne heq => hne (List.map_eq_nil_iff.1 heq)) fun hne heq => hne ?_
    exact Option.map_eq_none_iff.1 heq
  · have hmagnitude : ({ t with negative := x.isNegative } : NumeralText).numeral.magnitude = q :=
      hvalue
    rw [hmagnitude]
    exact hq

end Binary64

namespace Number

/-- The numeral that a number is written as. -/
def numeral : Number → Numeral
  | .int i => numeralOfInt i.toInt
  | .uint u => numeralOf false u.toNat
  | .float x => ((takeNumeral (Text.utf8 (render (.float x)))).map Prod.fst).getD
      (numeralOf false 0)

theorem numeral_float {x : Binary64} {t : NumeralText}
    (h : Text.utf8 (render (.float x)) = t.octets) : numeral (.float x) = t.numeral := by
  have htake := t.takeNumeral_octets closes_nil
  rw [List.append_nil] at htake
  rw [numeral, h, htake]
  rfl

theorem tells_numeral {x : Binary64} (hx : x.isFinite = true) :
    Binary64.Tells (numeral (.float x)) x := by
  obtain ⟨t, htext, htells⟩ := Binary64.exists_numeralText hx
  rw [numeral_float htext]
  exact htells

/-- The text of a number is read as its numeral. -/
theorem reads_render {n : Number} (hn : n.IsStandard) :
    Reads (Text.utf8 n.render) (.number n.numeral) := by
  cases n with
  | int i => exact reads_int i.toInt
  | uint u => exact reads_natural u.toNat
  | float x =>
    obtain ⟨t, htext, -⟩ := Binary64.exists_numeralText hn
    rw [htext, numeral_float htext]
    exact reads_numeral t

theorem numeralOf_inj {negative negative' : Bool} {n m : Nat}
    (h : numeralOf negative n = numeralOf negative' m) : negative = negative' ∧ n = m := by
  obtain ⟨hsign, hdigits, -, -⟩ := Numeral.mk.inj h
  refine ⟨hsign, ?_⟩
  rw [← spell_repr n, hdigits, spell_repr]

/-- A float has a point or an exponent, and an integer has neither. -/
theorem numeralOf_not_tells {negative : Bool} {n : Nat} {x : Binary64} :
    ¬ Binary64.Tells (numeralOf negative n) x := by
  intro h
  exact h.parts.elim (fun hne => hne rfl) fun hne => hne rfl

/-- Different numbers are written as different numerals. -/
theorem eq_of_numeral {n m : Number} (hn : n.IsStandard) (hm : m.IsStandard)
    (h : n.numeral = m.numeral) : n = m := by
  have hbound : ∀ i : Int64, i.toInt ≤ Int64.maxValue.toInt := fun i => Int64.toInt_le i
  have hmixed : ∀ (i : Int64) (u : UInt64), Int64.maxValue.toInt < u.toNat →
      numeralOfInt i.toInt ≠ numeralOf false u.toNat := by
    intro i u hu heq
    obtain ⟨hsign, habs⟩ := numeralOf_inj heq
    have hpos := of_decide_eq_false hsign
    have hle := hbound i
    omega
  cases n with
  | int i =>
    cases m with
    | int j =>
      obtain ⟨hsign, habs⟩ := numeralOf_inj h
      have hiff := decide_eq_decide.1 hsign
      have heq : i.toInt = j.toInt := by omega
      rw [Int64.toInt_inj.1 heq]
    | uint u => exact absurd h (hmixed i u hm)
    | float x => exact absurd (h ▸ tells_numeral hm) numeralOf_not_tells
  | uint u =>
    cases m with
    | int i => exact absurd h.symm (hmixed i u hn)
    | uint v =>
      obtain ⟨-, heq⟩ := numeralOf_inj h
      rw [UInt64.toNat_inj.1 heq]
    | float x => exact absurd (h ▸ tells_numeral hm) numeralOf_not_tells
  | float x =>
    cases m with
    | int i => exact absurd (h ▸ tells_numeral hn) numeralOf_not_tells
    | uint u => exact absurd (h ▸ tells_numeral hn) numeralOf_not_tells
    | float y =>
      have htells := tells_numeral hn
      rw [h] at htells
      rw [htells.eq (tells_numeral hm)]

end Number

namespace Json

/-! ## Values and their trees -/

mutual

/-- A value as JSON has it, all the way down: its numbers are standard, and the members of an
object stand in the order of their names, each name once. -/
def IsValue : Json → Prop
  | .number n => n.IsStandard
  | .array items => AreValues items
  | .object members => (members.map Prod.fst).Pairwise (· < ·) ∧ HoldValues members
  | .null | .bool _ | .string _ => True

/-- The items are values. -/
def AreValues : List Json → Prop
  | [] => True
  | item :: rest => item.IsValue ∧ AreValues rest

/-- The members hold values. -/
def HoldValues : List (String × Json) → Prop
  | [] => True
  | (_, value) :: rest => value.IsValue ∧ HoldValues rest

end

mutual

/-- The tree of the compact text. -/
def tree : Json → Syntax
  | .null => .null
  | .bool b => .bool b
  | .number n => .number n.numeral
  | .string s => .string (rawText s)
  | .array items => .array (itemTrees items)
  | .object members => .object (memberTrees members)

/-- The trees of the items. -/
def itemTrees : List Json → List Syntax
  | [] => []
  | item :: rest => item.tree :: itemTrees rest

/-- The literals of the names and the trees of the members. -/
def memberTrees : List (String × Json) → List (List UInt8 × Syntax)
  | [] => []
  | (name, value) :: rest => (rawText name, value.tree) :: memberTrees rest

end

theorem utf8_renderMembers (members : List (String × Json)) :
    (renderMembers members).map Text.utf8 =
      memberTexts (members.map fun m => (m.1, Text.utf8 m.2.render)) := by
  have hcolon : Text.utf8 ":" = [0x3A] := by decide
  induction members with
  | nil => rfl
  | cons m members ih =>
    obtain ⟨name, value⟩ := m
    rw [renderMembers, List.map_cons, ih, Text.utf8_append, Text.utf8_append, hcolon,
      List.append_assoc]
    rfl

mutual

/-- The compact text of a value is read as its tree. -/
theorem reads_render : ∀ {j : Json}, j.IsValue → Reads (Text.utf8 j.render) j.tree
  | .null, _ => reads_null
  | .bool b, _ => reads_boolean b
  | .number _, h => Number.reads_render h
  | .string s, _ => reads_quote s
  | .array items, h => by
    have hopen : Text.utf8 "[" = [0x5B] := by decide
    have hclose : Text.utf8 "]" = [0x5D] := by decide
    rw [render, Text.utf8_append, Text.utf8_append, utf8_intercalate, hopen, hclose]
    exact reads_array (reads_items h)
  | .object members, h => by
    have hopen : Text.utf8 "\x7b" = [0x7B] := by decide
    have hclose : Text.utf8 "\x7d" = [0x7D] := by decide
    rw [render, Text.utf8_append, Text.utf8_append, utf8_intercalate, utf8_renderMembers, hopen,
      hclose]
    exact reads_object (reads_members h.2)

theorem reads_items : ∀ {items : List Json}, AreValues items →
    List.Forall₂ Reads ((renderItems items).map Text.utf8) (itemTrees items)
  | [], _ => .nil
  | _ :: _, h => .cons (reads_render h.1) (reads_items h.2)

theorem reads_members : ∀ {members : List (String × Json)}, HoldValues members →
    List.Forall₂ ReadsMember (members.map fun m => (m.1, Text.utf8 m.2.render))
      (memberTrees members)
  | [], _ => .nil
  | (_, _) :: _, h => .cons ⟨rfl, reads_render h.1⟩ (reads_members h.2)

end

theorem rawText_injective : Function.Injective rawText := by
  intro s s' h
  have hs := text?_rawText s
  rw [h, text?_rawText] at hs
  exact (Option.some.inj hs).symm

mutual

/-- The tree of a value tells the value. -/
theorem eq_of_tree : ∀ {a b : Json}, a.IsValue → b.IsValue → a.tree = b.tree → a = b
  | .null, b, _, _, h => by cases b <;> first | rfl | cases h
  | .bool x, b, _, _, h => by
    cases b with
    | bool y => rw [Syntax.bool.inj h]
    | _ => cases h
  | .number n, b, ha, hb, h => by
    cases b with
    | number m => rw [Number.eq_of_numeral ha hb (Syntax.number.inj h)]
    | _ => cases h
  | .string s, b, _, _, h => by
    cases b with
    | string s' => rw [rawText_injective (Syntax.string.inj h)]
    | _ => cases h
  | .array items, b, ha, hb, h => by
    cases b with
    | array items' => rw [eq_of_itemTrees ha hb (Syntax.array.inj h)]
    | _ => cases h
  | .object members, b, ha, hb, h => by
    cases b with
    | object members' => rw [eq_of_memberTrees ha.2 hb.2 (Syntax.object.inj h)]
    | _ => cases h

theorem eq_of_itemTrees : ∀ {as bs : List Json}, AreValues as → AreValues bs →
    itemTrees as = itemTrees bs → as = bs
  | [], bs, _, _, h => by
    cases bs with
    | nil => rfl
    | cons => cases h
  | a :: as, bs, ha, hb, h => by
    cases bs with
    | nil => cases h
    | cons b bs =>
      obtain ⟨hhead, htail⟩ := List.cons.inj h
      rw [eq_of_tree ha.1 hb.1 hhead, eq_of_itemTrees ha.2 hb.2 htail]

theorem eq_of_memberTrees : ∀ {as bs : List (String × Json)}, HoldValues as → HoldValues bs →
    memberTrees as = memberTrees bs → as = bs
  | [], bs, _, _, h => by
    cases bs with
    | nil => rfl
    | cons b bs => cases h
  | (name, a) :: as, bs, ha, hb, h => by
    cases bs with
    | nil => cases h
    | cons b bs =>
      obtain ⟨name', b⟩ := b
      obtain ⟨hhead, htail⟩ := List.cons.inj h
      obtain ⟨hname, hvalue⟩ := Prod.mk.inj hhead
      rw [rawText_injective hname, eq_of_tree ha.1 hb.1 hvalue,
        eq_of_memberTrees ha.2 hb.2 htail]

end

/-! ## Texts and values -/

/-- Different values have different compact texts. -/
theorem render_inj {a b : Json} (ha : a.IsValue) (hb : b.IsValue) (h : a.render = b.render) :
    a = b := by
  have ha' := Reads.syntax (reads_render ha)
  have hb' := Reads.syntax (reads_render hb)
  rw [← h, ha'] at hb'
  exact eq_of_tree ha hb (Option.some.inj hb')

end Json

end QueryCache
