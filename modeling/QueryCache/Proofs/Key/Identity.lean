import Mathlib
import QueryCache.Entries.Lemmas
import QueryCache.Proofs.Query.Key

/-!
# The identity of a key

A key carries its components together with a running hash and a checksum that
repeat what the components say.  The three are kept up fold by fold, and builders
are copied, frozen and taken up again, so this module follows every history of
such calls: names stand for builders and keys, and beside them runs a record that
knows lists of components only.

1. what a fold leaves in a builder
2. calls on named builders and keys, and their record
3. a run does what its record says
4. the comparison of keys, and looking up by hash first

The main result, `keys_identified`, says that the record is right, that two keys
compare equal exactly if their records are equal, and that a hashed look-up finds
what a comparison of all keys would find.
-/

namespace QueryCache

/-! ## What a fold leaves in a builder -/

namespace KeyBuilder

/-- The hashes of the components, each times its place, which counts from one,
and times the multiplier for every component after it. -/
def weightedHashes (cs : List KeyComponent) : Nat :=
  ((cs.zipIdx 1).map fun p => p.2 * p.1.baseHash.toNat * 37 ^ (cs.length - p.2)).sum

/-- The builder is what folding these components leaves. -/
structure Folds (b : KeyBuilder) (cs : List KeyComponent) : Prop where
  components : b.components = cs
  hashcode : b.hashcode.toNat = (17 * 37 ^ cs.length + weightedHashes cs) % 2 ^ 64
  checksum : b.checksum.toNat = (cs.map (·.baseHash.toNat)).sum % 2 ^ 64

/-- One more component multiplies what is there and adds its own hash times its place. -/
theorem weightedHashes_concat (cs : List KeyComponent) (c : KeyComponent) :
    weightedHashes (cs ++ [c]) =
      37 * weightedHashes cs + (cs.length + 1) * c.baseHash.toNat := by
  have hplaces : ∀ p ∈ cs.zipIdx 1,
      p.2 * p.1.baseHash.toNat * 37 ^ (cs.length + 1 - p.2) =
        37 * (p.2 * p.1.baseHash.toNat * 37 ^ (cs.length - p.2)) := by
    intro p hp
    have hle : p.2 ≤ cs.length := by
      have := List.snd_lt_of_mem_zipIdx hp
      omega
    rw [Nat.succ_sub hle, pow_succ]
    ring
  unfold weightedHashes
  rw [List.zipIdx_append, List.map_append, List.sum_append, List.length_append,
    List.length_singleton, List.map_congr_left hplaces, List.sum_map_mul_left]
  simp [Nat.add_comm 1]

theorem folds_empty : empty.Folds [] := ⟨rfl, rfl, rfl⟩

theorem Folds.update {b : KeyBuilder} {cs : List KeyComponent} (h : b.Folds cs)
    (c : KeyComponent) : (b.update c).Folds (cs ++ [c]) := by
  have hlength : (b.components ++ [c]).length = cs.length + 1 := by
    rw [h.components, List.length_append, List.length_singleton]
  refine ⟨congrArg (· ++ [c]) h.components, ?_, ?_⟩
  · calc (b.update c).hashcode.toNat
        = (37 * b.hashcode.toNat + c.baseHash.toNat * (cs.length + 1)) % 2 ^ 64 := by
          simp only [KeyBuilder.update, hlength, UInt64.toNat_add, UInt64.toNat_mul,
            UInt64.toNat_ofNat', multiplier, UInt64.toNat_ofNat, Nat.add_mod, Nat.mul_mod,
            Nat.mod_mod]
      _ = (37 * (17 * 37 ^ cs.length + weightedHashes cs) +
            c.baseHash.toNat * (cs.length + 1)) % 2 ^ 64 := by
          rw [h.hashcode, Nat.add_mod, Nat.mul_mod, Nat.mod_mod, ← Nat.mul_mod, ← Nat.add_mod]
      _ = _ := by
          rw [weightedHashes_concat, List.length_append, List.length_singleton, pow_succ]
          ring_nf
  · show (b.checksum + c.baseHash).toNat = _
    rw [UInt64.toNat_add, h.checksum, List.map_append, List.sum_append, Nat.mod_add_mod]
    simp

theorem Folds.updateAll {b : KeyBuilder} {cs : List KeyComponent} (h : b.Folds cs)
    (ds : List KeyComponent) : (b.updateAll ds).Folds (cs ++ ds) := by
  induction ds generalizing b cs with
  | nil => rwa [List.append_nil]
  | cons d ds ih =>
    have hstep := ih (h.update d)
    rwa [List.append_assoc] at hstep

/-- Nothing but the components decides what a builder holds. -/
theorem Folds.eq {b b' : KeyBuilder} {cs : List KeyComponent} (h : b.Folds cs)
    (h' : b'.Folds cs) : b = b' := by
  have hhash := UInt64.toNat.inj (h.hashcode.trans h'.hashcode.symm)
  have hsum := UInt64.toNat.inj (h.checksum.trans h'.checksum.symm)
  have hlist := h.components.trans h'.components.symm
  cases b
  cases b'
  simp_all

end KeyBuilder

/-! ## Calls on named builders and keys -/

namespace KeyMaking

/-- What a name stands for. -/
inductive Piece where
  | builder (b : KeyBuilder)
  | key (k : CacheKey)

/-- A call; what it makes gets the name that is given last. -/
inductive Call where
  /-- A builder without components. -/
  | start (x : Nat)
  /-- The null key. -/
  | null (x : Nat)
  | update (x : Nat) (c : KeyComponent)
  | updateAll (x : Nat) (cs : List KeyComponent)
  /-- A copy of a builder or of a key. -/
  | clone (x y : Nat)
  /-- The frozen key of a builder. -/
  | build (x y : Nat)
  /-- A builder that starts from a copy of a key. -/
  | resume (x y : Nat)

/-- The name that a call gives, or whose builder it extends. -/
def Call.target : Call → Nat
  | .start x | .null x | .update x _ | .updateAll x _ => x
  | .clone _ y | .build _ y | .resume _ y => y

/-- What a call makes; a call on a name that stands for nothing of the kind makes nothing. -/
def Call.made (ps : Nat → Option Piece) : Call → Option Piece
  | .start _ => some (.builder .empty)
  | .null _ => some (.key .null)
  | .update x c =>
    match ps x with
    | some (.builder b) => some (.builder (b.update c))
    | _ => none
  | .updateAll x cs =>
    match ps x with
    | some (.builder b) => some (.builder (b.updateAll cs))
    | _ => none
  | .clone x _ => ps x
  | .build x _ =>
    match ps x with
    | some (.builder b) => some (.key b.build)
    | _ => none
  | .resume x _ =>
    match ps x with
    | some (.key k) => k.toBuilder?.map .builder
    | _ => none

/-- What is known of a piece: the components folded so far, in their order. -/
inductive Record where
  | builder (cs : List KeyComponent)
  | key (cs : List KeyComponent)
  | null

/-- What there is to note of what a call makes. -/
def Call.noted (rs : Nat → Option Record) : Call → Option Record
  | .start _ => some (.builder [])
  | .null _ => some .null
  | .update x c =>
    match rs x with
    | some (.builder cs) => some (.builder (cs ++ [c]))
    | _ => none
  | .updateAll x ds =>
    match rs x with
    | some (.builder cs) => some (.builder (cs ++ ds))
    | _ => none
  | .clone x _ => rs x
  | .build x _ =>
    match rs x with
    | some (.builder cs) => some (.key cs)
    | _ => none
  | .resume x _ =>
    match rs x with
    | some (.key cs) => some (.builder cs)
    | _ => none

/-- Gives a name to what was made, if anything was. -/
def give {α : Type} (table : Nat → Option α) (x : Nat) : Option α → Nat → Option α
  | some a => Function.update table x (some a)
  | none => table

/-- The pieces after the calls, from no pieces at all. -/
def pieces (calls : List Call) : Nat → Option Piece :=
  calls.foldl (fun ps call => give ps call.target (call.made ps)) fun _ => none

/-- The record of the calls. -/
def records (calls : List Call) : Nat → Option Record :=
  calls.foldl (fun rs call => give rs call.target (call.noted rs)) fun _ => none

theorem pieces_concat (calls : List Call) (call : Call) :
    pieces (calls ++ [call]) =
      give (pieces calls) call.target (call.made (pieces calls)) :=
  List.foldl_concat ..

theorem records_concat (calls : List Call) (call : Call) :
    records (calls ++ [call]) =
      give (records calls) call.target (call.noted (records calls)) :=
  List.foldl_concat ..

theorem give_some_self {α : Type} (table : Nat → Option α) (x : Nat) (a : α) :
    give table x (some a) x = some a := Function.update_self ..

theorem give_of_ne {α : Type} {table : Nat → Option α} {x y : Nat} (h : y ≠ x)
    (new : Option α) : give table x new y = table y := by
  cases new with
  | none => rfl
  | some a => exact Function.update_of_ne h ..

/-- Calls leave the pieces of all names that they do not give: a frozen key stays
what it is. -/
theorem pieces_append_of_ne {later : List Call} {x : Nat} (calls : List Call)
    (h : ∀ call ∈ later, x ≠ call.target) : pieces (calls ++ later) x = pieces calls x := by
  induction later using List.reverseRecOn with
  | nil => rw [List.append_nil]
  | append_singleton later call ih =>
    rw [← List.append_assoc, pieces_concat, give_of_ne (h call (by simp))]
    exact ih fun c hc => h c (List.mem_append_left _ hc)

/-! ## A run does what its record says -/

/-- A piece is what its record says. -/
inductive Piece.Tells : Piece → Record → Prop
  | builder {b cs} : b.Folds cs → Tells (.builder b) (.builder cs)
  | key {b cs} : b.Folds cs → Tells (.key (.folded b)) (.key cs)
  | null : Tells (.key .null) .null

/-- Every name stands for what its record says, and for nothing if there is no record. -/
def Recorded (ps : Nat → Option Piece) (rs : Nat → Option Record) : Prop :=
  ∀ x, Option.Rel Piece.Tells (ps x) (rs x)

theorem Recorded.give {ps : Nat → Option Piece} {rs : Nat → Option Record} (h : Recorded ps rs)
    (x : Nat) {p : Option Piece} {r : Option Record} (hp : Option.Rel Piece.Tells p r) :
    Recorded (give ps x p) (give rs x r) := by
  rcases hp with hp | _
  · intro y
    rcases eq_or_ne y x with rfl | hne
    · rw [give_some_self, give_some_self]
      exact .some hp
    · rw [give_of_ne hne, give_of_ne hne]
      exact h y
  · exact h

/-- What a call makes is what there is to note of it. -/
theorem Recorded.made {ps : Nat → Option Piece} {rs : Nat → Option Record} (h : Recorded ps rs)
    (call : Call) : Option.Rel Piece.Tells (call.made ps) (call.noted rs) := by
  -- Most calls look at what a name stands for; of the wrong kind they make nothing.
  cases call with
  | start => exact .some (.builder KeyBuilder.folds_empty)
  | null => exact .some .null
  | clone x => exact h x
  | update x c =>
    have hx := h x
    simp only [Call.made, Call.noted]
    generalize ps x = p, rs x = r at hx ⊢
    rcases hx with ⟨⟨hfolds⟩ | ⟨hfolds⟩ | _⟩ | _
    · exact .some (.builder (hfolds.update c))
    all_goals exact .none
  | updateAll x ds =>
    have hx := h x
    simp only [Call.made, Call.noted]
    generalize ps x = p, rs x = r at hx ⊢
    rcases hx with ⟨⟨hfolds⟩ | ⟨hfolds⟩ | _⟩ | _
    · exact .some (.builder (hfolds.updateAll ds))
    all_goals exact .none
  | build x =>
    have hx := h x
    simp only [Call.made, Call.noted]
    generalize ps x = p, rs x = r at hx ⊢
    rcases hx with ⟨⟨hfolds⟩ | ⟨hfolds⟩ | _⟩ | _
    · exact .some (.key hfolds)
    all_goals exact .none
  | resume x =>
    have hx := h x
    simp only [Call.made, Call.noted]
    generalize ps x = p, rs x = r at hx ⊢
    rcases hx with ⟨⟨hfolds⟩ | ⟨hfolds⟩ | _⟩ | _
    · exact .none
    · exact .some (.builder hfolds)
    all_goals exact .none

/-- After any calls the pieces are what the record says. -/
theorem recorded (calls : List Call) : Recorded (pieces calls) (records calls) := by
  induction calls using List.reverseRecOn with
  | nil => exact fun _ => .none
  | append_singleton calls call ih =>
    rw [pieces_concat, records_concat]
    exact ih.give _ (ih.made call)

/-- A key is taken up again by a builder, the components `ds` are folded, and the
builder is frozen. -/
def extension (x y z : Nat) (ds : List KeyComponent) : List Call :=
  [.resume x y, .updateAll y ds, .build y z]

/-- The record of an extended key has the new components behind the old ones. -/
theorem records_extension {calls : List Call} {x : Nat} {cs : List KeyComponent}
    (hx : records calls x = some (.key cs)) (y z : Nat) (ds : List KeyComponent) :
    records (calls ++ extension x y z ds) z = some (.key (cs ++ ds)) := by
  have hsplit : calls ++ extension x y z ds =
      calls ++ [.resume x y] ++ [.updateAll y ds] ++ [.build y z] := by
    simp only [extension, List.append_assoc, List.cons_append, List.nil_append]
  have hresume : records (calls ++ [.resume x y]) y = some (.builder cs) := by
    rw [records_concat, Call.noted, hx]
    exact give_some_self ..
  have hfold : records (calls ++ [.resume x y] ++ [.updateAll y ds]) y =
      some (.builder (cs ++ ds)) := by
    rw [records_concat, Call.noted, hresume]
    exact give_some_self ..
  rw [hsplit, records_concat, Call.noted, hfold]
  exact give_some_self ..

end KeyMaking

/-! ## Comparing keys, and looking up by hash first -/

/-- The test by which keys are compared: null keys are told apart first, then
comes what is cheap to compare, and the components come last. -/
def CacheKey.same (a b : CacheKey) : Bool :=
  if a.isNull || b.isNull then a.isNull && b.isNull
  else a.content.hashcode == b.content.hashcode && a.content.checksum == b.content.checksum &&
    a.count == b.count && a.components == b.components

/-- The test is the equality by which the maps of this library look up. -/
theorem CacheKey.same_iff_eq {a b : CacheKey} : a.same b = true ↔ a = b := by
  cases a with
  | null => cases b <;> simp [same, isNull]
  | folded x =>
    cases b with
    | null => simp [same, isNull]
    | folded y =>
      cases x
      cases y
      simp only [same, isNull, content, count, KeyBuilder.count, components, Bool.or_self,
        Bool.false_eq_true, if_false, Bool.and_eq_true, beq_iff_eq, folded.injEq,
        KeyBuilder.mk.injEq]
      -- Equal lists have equal lengths, so the third comparison decides nothing.
      constructor
      · rintro ⟨⟨⟨hhash, hsum⟩, -⟩, hlist⟩
        exact ⟨hhash, hsum, hlist⟩
      · rintro ⟨hhash, hsum, hlist⟩
        exact ⟨⟨⟨hhash, hsum⟩, congrArg List.length hlist⟩, hlist⟩

/-- A key that some calls make. -/
def CacheKey.Reached (k : CacheKey) : Prop :=
  ∃ calls x, KeyMaking.pieces calls x = some (.key k)

/-- A key that calls make is the null key, or the fold of its components. -/
theorem CacheKey.Reached.null_or_folds {k : CacheKey} (h : k.Reached) :
    k = .null ∨ ∃ b, k = .folded b ∧ b.Folds k.components := by
  rcases h with ⟨calls, x, hx⟩
  have hrecorded := KeyMaking.recorded calls x
  rw [hx] at hrecorded
  generalize KeyMaking.records calls x = r at hrecorded
  rcases hrecorded with ⟨_ | ⟨hfolds⟩ | _⟩
  · refine .inr ⟨_, rfl, ?_⟩
    rwa [components, content, hfolds.components]
  · exact .inl rfl

theorem CacheKey.Reached.eq_iff {a b : CacheKey} (ha : a.Reached) (hb : b.Reached) :
    a = b ↔ (a.isNull = true ∧ b.isNull = true) ∨
      (a.isNull = false ∧ b.isNull = false ∧ a.components = b.components) := by
  rcases ha.null_or_folds with rfl | ⟨x, rfl, hx⟩ <;>
    rcases hb.null_or_folds with rfl | ⟨y, rfl, hy⟩
  · simp [isNull]
  · simp [isNull]
  · simp [isNull]
  · simp only [isNull, Bool.false_eq_true, and_self, true_and, false_or]
    refine ⟨congrArg components, fun hlist => ?_⟩
    rw [← hlist] at hy
    rw [hx.eq hy]

/-- The value under a key in a table that compares the hashes of keys before it
compares keys; `digest` makes the hash from the octets that a key is hashed by. -/
def Entries.lookup {α : Type} (digest : List UInt8 → UInt64) (m : Entries CacheKey α)
    (k : CacheKey) : Option α :=
  (m.toList.find? fun e => digest e.1.hashOctets == digest k.hashOctets && e.1.same k).map Prod.snd

/-- Whichever hash is compared first, no entry is missed and none is confused. -/
theorem Entries.lookup_eq_find? {α : Type} (digest : List UInt8 → UInt64)
    (m : Entries CacheKey α) (k : CacheKey) : m.lookup digest k = m.find? k := by
  have htest : (fun e : CacheKey × α =>
      digest e.1.hashOctets == digest k.hashOctets && e.1.same k) = fun e => decide (e.1 = k) := by
    funext e
    rw [Bool.eq_iff_iff, Bool.and_eq_true, beq_iff_eq, CacheKey.same_iff_eq, decide_eq_true_eq]
    exact ⟨And.right, fun h => ⟨by rw [h], h⟩⟩
  rw [lookup, htest]
  rfl

/-! ## Keys are identified by their components -/

open KeyMaking in
/-- Whatever calls build, copy, freeze and take up again, each name stands for the
fold of the components on its record, and its hash and checksum are the sums over
these components; a key keeps its piece while calls give other names, and extended
by `ds` it equals the key folded from all components at once.  Two keys that calls
make compare equal exactly if both are null or neither is and their components are
equal; the comparison is an equivalence, keys that compare equal are hashed by the
same octets, and looking up by hash first finds what comparing every key finds. -/
theorem keys_identified (calls : List Call) :
    (∀ x, Option.Rel Piece.Tells (pieces calls x) (records calls x)) ∧
    (∀ x later, (∀ call ∈ later, x ≠ call.target) →
      pieces (calls ++ later) x = pieces calls x) ∧
    (∀ x y z cs ds, records calls x = some (.key cs) →
      ∃ k, pieces (calls ++ extension x y z ds) z = some (.key k) ∧
        k.same (.ofComponents (cs ++ ds)) = true) ∧
    (∀ x y, records calls x = some .null → pieces (calls ++ [.resume x y]) = pieces calls) ∧
    (∀ a b : CacheKey, a.Reached → b.Reached →
      (a.same b = true ↔ (a.isNull = true ∧ b.isNull = true) ∨
        (a.isNull = false ∧ b.isNull = false ∧ a.components = b.components))) ∧
    Equivalence (fun a b : CacheKey => a.same b = true) ∧
    (∀ a b : CacheKey, a.same b = true → a.hashOctets = b.hashOctets) ∧
    (∀ (α : Type) (digest : List UInt8 → UInt64) (m : Entries CacheKey α) (k : CacheKey),
      m.lookup digest k = m.find? k) := by
  have hequal : (fun a b : CacheKey => a.same b = true) = Eq := by
    funext a b
    exact propext CacheKey.same_iff_eq
  refine ⟨recorded calls, fun x later h => pieces_append_of_ne calls h, ?_, ?_, ?_,
    hequal ▸ eq_equivalence, fun a b h => by rw [CacheKey.same_iff_eq.1 h],
    fun α => Entries.lookup_eq_find?⟩
  · intro x y z cs ds hx
    have hz := recorded (calls ++ extension x y z ds) z
    rw [records_extension hx] at hz
    generalize pieces (calls ++ extension x y z ds) z = p at hz ⊢
    rcases hz with ⟨_ | ⟨hfolds⟩ | _⟩
    refine ⟨_, rfl, CacheKey.same_iff_eq.2 ?_⟩
    exact congrArg CacheKey.folded (hfolds.eq (KeyBuilder.folds_empty.updateAll (cs ++ ds)))
  · intro x y hx
    have hnull := recorded calls x
    rw [hx] at hnull
    rw [pieces_concat]
    generalize hp : pieces calls x = p at hnull
    rcases hnull with ⟨_ | _ | _⟩
    simp [Call.made, hp, CacheKey.toBuilder?, give]
  · intro a b ha hb
    rw [CacheKey.same_iff_eq]
    exact ha.eq_iff hb

namespace KeyMaking

/-- A key is frozen under the name `2` from one of two copies of a builder; the key
`3` continues the other copy, the key `5` takes the key `2` up again; `6` is null. -/
def copies : List Call :=
  [.start 0, .update 0 .null, .clone 0 1, .build 0 2, .updateAll 1 [.text "a"], .build 1 3,
    .resume 2 4, .update 4 (.text "a"), .build 4 5, .null 6]

end KeyMaking

open KeyMaking in
theorem keys_identified_copies :
    records copies 2 = some (.key [.null]) ∧
    (∃ k, pieces (copies ++ extension 2 7 8 [.text "a"]) 8 = some (.key k) ∧
      k.same (.ofComponents [.null, .text "a"]) = true) ∧
    pieces (copies ++ extension 2 7 8 [.text "a"]) 2 = pieces copies 2 ∧
    records copies 6 = some .null ∧ pieces (copies ++ [.resume 6 7]) = pieces copies ∧
    (∃ a b : CacheKey, pieces copies 3 = some (.key a) ∧ pieces copies 5 = some (.key b) ∧
      a.same b = true ∧ a.hashOctets = b.hashOctets) := by
  obtain ⟨-, hkeeps, hextends, hnull, hsame, -, hoctets, -⟩ := keys_identified copies
  refine ⟨rfl, hextends 2 7 8 [.null] [.text "a"] rfl,
    hkeeps 2 (extension 2 7 8 [.text "a"]) (by decide), rfl, hnull 6 7 rfl, ?_⟩
  have hequal := (hsame _ _ ⟨copies, 3, rfl⟩ ⟨copies, 5, rfl⟩).2 (.inr ⟨rfl, rfl, rfl⟩)
  exact ⟨_, _, rfl, rfl, hequal, hoctets _ _ hequal⟩

end QueryCache
