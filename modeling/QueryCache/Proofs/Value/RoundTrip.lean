import Mathlib
import QueryCache.Value.Basic
import QueryCache.Proofs.Json.Reading

/-!
# What a snapshot gives back

Data that can be written are read back as they were.  The exception is the
float: its decimal text stands for the nearest float only up to the last place,
so of a float only the type comes back.
-/

namespace QueryCache

open Json (Syntax Reads)

/-! ## Integers -/

namespace Json

theorem int64?_numeralOfInt (i : Int64) :
    (Syntax.number (numeralOfInt i.toInt)).int64? = some i := by
  have hmin : Int64.minValue.toInt = -9223372036854775808 := by decide
  have hmax : Int64.maxValue.toInt = 9223372036854775807 := by decide
  have hword : maxWord = 18446744073709551615 := by decide
  have hle := Int64.minValue_le_toInt i
  have hge := Int64.toInt_le i
  have hvalue : (numeralOfInt i.toInt).value? = some (.int i) := by
    by_cases hneg : i.toInt < 0
    · have habs : -((i.toInt.natAbs : Nat) : Int) = i.toInt := by omega
      rw [numeralOfInt, decide_eq_true hneg, value?_numeralOf_true (by omega) (by omega), habs,
        Int64.ofInt_toInt]
    · have habs : ((i.toInt.natAbs : Nat) : Int) = i.toInt := by omega
      rw [numeralOfInt, decide_eq_false hneg, value?_numeralOf_false (by omega),
        if_pos (by omega), habs, Int64.ofInt_toInt]
  simp only [Syntax.int64?, Syntax.integerIn?, Syntax.integer?, hvalue, Option.bind_eq_bind,
    Option.bind_some]
  rw [if_pos ⟨by omega, by omega⟩, Option.map_some, Int64.ofInt_toInt]

/-- A natural number of 64 bits is read as itself. -/
theorem integer?_natural {n : Nat} (h : n < UInt64.size) :
    (Syntax.number (numeralOf false n)).integer? = some (n : Int) := by
  have hmax : Int64.maxValue.toInt = 9223372036854775807 := by decide
  have hmin : Int64.minValue.toInt = -9223372036854775808 := by decide
  have hword : maxWord = UInt64.size - 1 := rfl
  rw [Syntax.integer?, value?_numeralOf_false (by omega)]
  by_cases hs : (n : Int) ≤ Int64.maxValue.toInt
  · rw [if_pos hs]
    simp only [Int64.toInt_ofInt_of_le (show -2 ^ 63 ≤ (n : Int) by omega)
      (show (n : Int) < 2 ^ 63 by omega)]
  · rw [if_neg hs]
    simp only [UInt64.toNat_ofNat_of_lt' h]

theorem uint64?_natural (u : UInt64) :
    (Syntax.number (numeralOf false u.toNat)).uint64? = some u := by
  have hu : u.toNat < UInt64.size := u.toNat_lt
  simp only [Syntax.uint64?, Syntax.integerIn?, integer?_natural hu, Option.bind_eq_bind,
    Option.bind_some]
  rw [if_pos ⟨by omega, by omega⟩, Option.map_some, Int.toNat_natCast, UInt64.ofNat_toNat]

theorem uint8?_natural (b : UInt8) :
    (Syntax.number (numeralOf false b.toNat)).uint8? = some b := by
  have hb : b.toNat < 256 := b.toNat_lt
  have hs : UInt64.size = 18446744073709551616 := rfl
  simp only [Syntax.uint8?, Syntax.integerIn?, integer?_natural (n := b.toNat) (by omega),
    Option.bind_eq_bind, Option.bind_some]
  rw [if_pos ⟨by omega, by omega⟩, Option.map_some, Int.toNat_natCast, UInt8.ofNat_toNat]

end Json

/-! ## Arrays and rows -/

namespace Data

theorem reads_arrayText {α : Type} (xs : List α) {text : α → String} {tree : α → Syntax}
    (h : ∀ x, Reads (Text.utf8 (text x)) (tree x)) :
    Reads (Text.utf8 (arrayText (xs.map text))) (.array (xs.map tree)) := by
  have hopen : Text.utf8 "[" = [0x5B] := by decide
  have hclose : Text.utf8 "]" = [0x5D] := by decide
  have hitems : List.Forall₂ Reads ((xs.map text).map Text.utf8) (xs.map tree) := by
    induction xs with
    | nil => exact List.Forall₂.nil
    | cons x xs ih => exact List.Forall₂.cons (h x) ih
  rw [arrayText, Text.utf8_append, Text.utf8_append, hopen, hclose, Json.utf8_intercalate,
    List.singleton_append, List.cons_append]
  exact Json.reads_array hitems

/-- The tree of the text of a row. -/
def rowTree (r : Row) : Syntax :=
  .object [(Json.rawText "id", .number (Json.numeralOfInt r.id.toInt)),
    (Json.rawText "name", .string (Json.rawText r.name))]

theorem reads_rowText (r : Row) : Reads (Text.utf8 (rowText r)) (rowTree r) := by
  have hid : Text.utf8 "\x7b\"id\":" = 0x7B :: (Text.utf8 (Json.quote "id") ++ [0x3A]) := by decide
  have hname : Text.utf8 ",\"name\":" = 0x2C :: (Text.utf8 (Json.quote "name") ++ [0x3A]) := by
    decide
  have hclose : Text.utf8 "\x7d" = [0x7D] := by decide
  have h := Json.reads_pair "id" "name" (Json.reads_int r.id.toInt) (Json.reads_quote r.name)
  have ht : Text.utf8 (rowText r) =
      0x7B :: (Json.memberText "id" (Text.utf8 (toString r.id.toInt)) ++
        0x2C :: (Json.memberText "name" (Text.utf8 (Json.quote r.name)) ++ [0x7D])) := by
    have hint : toString r.id = toString r.id.toInt := rfl
    simp only [rowText, Text.utf8_append, hid, hname, hclose, hint, Json.memberText,
      List.cons_append, List.append_assoc, List.nil_append]
  rw [ht]
  exact h

theorem row?_rowTree (depth : Nat) (r : Row) : (rowTree r).row? (depth + 1) = some r := by
  simp only [rowTree, Syntax.row?, Syntax.rowMembers?, Json.text?_rawText,
    Json.int64?_numeralOfInt, Syntax.string?, Option.bind_eq_bind, Option.bind_some,
    Option.isSome_none, Option.isSome_some, Bool.false_eq_true, if_false]
  rfl

theorem mapM_map_some {α β : Type} {f : β → Option α} {g : α → β} (h : ∀ x, f (g x) = some x)
    (xs : List α) : (xs.map g).mapM f = some xs := by
  induction xs with
  | nil => rfl
  | cons x xs ih =>
    rw [List.map_cons, List.mapM_cons, h, ih]
    rfl

/-! ## All types -/

/-- What the text of a piece of data is read as. -/
theorem data?_of_reads {d : Data} {text : String} {tree : Syntax}
    (hr : Reads (Text.utf8 text) tree) (ht : tree.data? d.type = some d) :
    decode? d.type (Text.utf8 text) = some d := by
  rw [decode?, hr.syntax]
  exact ht

/-- Data that can be written are read back, unless they are a float. -/
theorem decode?_encode {d : Data} {text : String} (h : d.encode = .ok text)
    (hf : d.type ≠ .f64) : decode? d.type (Text.utf8 text) = some d := by
  cases d with
  | string s =>
    cases h
    refine data?_of_reads (Json.reads_quote s) ?_
    rw [type, Syntax.data?, Syntax.string?, Json.text?_rawText]
    rfl
  | i64 i =>
    cases h
    refine data?_of_reads (Json.reads_int i.toInt) ?_
    rw [type, Syntax.data?, Json.int64?_numeralOfInt]
    rfl
  | u64 u =>
    cases h
    refine data?_of_reads (Json.reads_natural u.toNat) ?_
    rw [type, Syntax.data?, Json.uint64?_natural]
    rfl
  | f64 x => exact absurd rfl hf
  | bool b =>
    cases h
    exact data?_of_reads (Json.reads_boolean b) rfl
  | optI64 i =>
    cases i with
    | none =>
      cases h
      exact data?_of_reads Json.reads_null rfl
    | some i =>
      cases h
      refine data?_of_reads (Json.reads_int i.toInt) ?_
      have hi := Json.int64?_numeralOfInt i
      rw [type, Syntax.data?, hi]
      · rfl
      · intro hnull
        cases hnull
  | bytes b =>
    cases h
    refine data?_of_reads (reads_arrayText b fun x => Json.reads_natural x.toNat) ?_
    have hb := mapM_map_some (f := Syntax.uint8?) Json.uint8?_natural b
    simp only [type, Syntax.data?, Syntax.octets?, Json.maxDepth, Syntax.items?,
      Option.bind_eq_bind, Option.bind_some, hb, Option.map_some]
  | row r =>
    cases h
    refine data?_of_reads (reads_rowText r) ?_
    rw [type, Syntax.data?, Json.maxDepth, row?_rowTree]
    rfl
  | rows rs =>
    cases h
    refine data?_of_reads (reads_arrayText rs reads_rowText) ?_
    have hr := mapM_map_some (row?_rowTree 125) rs
    simp only [type, Syntax.data?, Json.maxDepth, Syntax.items?, Option.bind_eq_bind,
      Option.bind_some]
    rw [hr]
    rfl
  | pairMap entries =>
    cases entries with
    | nil =>
      cases h
      decide +kernel
    | cons e rest => cases h

theorem type_of_decode? {t : DataType} {octets : List UInt8} {d : Data}
    (h : decode? t octets = some d) : d.type = t := by
  rw [decode?] at h
  rcases Option.bind_eq_some_iff.1 h with ⟨tree, -, h⟩
  cases t
  all_goals
    simp only [Syntax.data?] at h
  case optI64 =>
    split at h
    · cases h
      rfl
    · rcases Option.map_eq_some_iff.1 h with ⟨_, -, rfl⟩
      rfl
  case rows =>
    rcases Option.bind_eq_some_iff.1 h with ⟨_, -, h⟩
    rcases Option.bind_eq_some_iff.1 h with ⟨_, -, h⟩
    cases h
    rfl
  case pairMap =>
    split at h
    · cases h
      rfl
    · cases h
  all_goals
    rcases Option.map_eq_some_iff.1 h with ⟨_, -, rfl⟩
    rfl

end Data

/-! ## Snapshots -/

/-- What a reader gets from a snapshot of a value: data of the same type, and
the same data unless they are a float. -/
structure Data.IsCopyOf (d' d : Data) : Prop where
  type_eq : d'.type = d.type
  eq : d.type ≠ .f64 → d' = d

/-- Only a serializable value with data has a snapshot: the text of the data,
with their type. -/
theorem Value.eq_of_toSnapshot {v : Value} {s : Snapshot} (hs : v.toSnapshot = .ok s) :
    ∃ a d text, v = .data a d true ∧ d.encode = .ok text ∧ s = ⟨d.type, Text.utf8 text⟩ := by
  cases v with
  | data a d serializable =>
    cases serializable with
    | false => cases hs
    | true =>
      rw [toSnapshot] at hs
      cases he : d.encode with
      | error reason =>
        rw [he] at hs
        cases hs
      | ok text =>
        rw [he] at hs
        cases hs
        exact ⟨a, d, text, rfl, he, rfl⟩
  | snapshot a s => cases hs
  | handle a target => cases hs

/-- A snapshot of a value restores a copy of its data. -/
theorem Value.isCopyOf_of_restore {v : Value} {s : Snapshot} {d' : Data}
    (hs : v.toSnapshot = .ok s) (hr : s.restore = .ok d') :
    ∃ a d, v = .data a d true ∧ d'.IsCopyOf d := by
  rcases eq_of_toSnapshot hs with ⟨a, d, text, rfl, he, rfl⟩
  refine ⟨a, d, rfl, ?_⟩
  rw [Snapshot.restore] at hr
  cases hd : Data.decode? d.type (Text.utf8 text) with
  | none =>
    rw [hd] at hr
    cases hr
  | some d'' =>
    rw [hd] at hr
    cases hr
    constructor
    · exact Data.type_of_decode? hd
    · -- a float may come back rounded, so its text says nothing here
      intro hf
      rw [Data.decode?_encode he hf] at hd
      exact (Option.some.inj hd).symm

/-- A snapshot of data other than a float is restored. -/
theorem Value.restore_toSnapshot {v : Value} {s : Snapshot} (hs : v.toSnapshot = .ok s)
    (hf : s.type ≠ .f64) : ∃ a d, v = .data a d true ∧ s.restore = .ok d := by
  rcases eq_of_toSnapshot hs with ⟨a, d, text, rfl, he, rfl⟩
  refine ⟨a, d, rfl, ?_⟩
  rw [Snapshot.restore, Data.decode?_encode he hf]

/-- Data of the type are always written, and come back as they are.  A float may be no
number, and a map keyed by pairs has no text unless it is empty. -/
def DataType.IsExact (t : DataType) : Prop := t ≠ .f64 ∧ t ≠ .pairMap

theorem Data.encode_of_isExact {d : Data} (hd : d.type.IsExact) : ∃ text, d.encode = .ok text := by
  cases d with
  | optI64 i =>
    cases i with
    | none => exact ⟨_, rfl⟩
    | some i => exact ⟨_, rfl⟩
  | pairMap entries => exact absurd rfl hd.2
  | _ => exact ⟨_, rfl⟩

/-- A value of an exact type has a snapshot, and the snapshot restores its data. -/
theorem Value.toSnapshot_of_isExact {d : Data} (hd : d.type.IsExact) (a : Nat) :
    ∃ s, (Value.data a d true).toSnapshot = .ok s ∧ s.restore = .ok d := by
  obtain ⟨text, htext⟩ := Data.encode_of_isExact hd
  have hs : (Value.data a d true).toSnapshot = .ok ⟨d.type, Text.utf8 text⟩ := by
    rw [toSnapshot, htext]
  refine ⟨_, hs, ?_⟩
  rw [Snapshot.restore, Data.decode?_encode htext hd.1]

end QueryCache
