import Mathlib
import QueryCache.Proofs.Layer.Recency

/-!
# More capacity never loses a hit

The same calls are made on two new caches that evict the least recently used key.  The list of
the smaller one is always a sublist of the list of the larger one, and it is full or the two
are equal.  So a key that leaves the larger list at its end is at the end of the smaller list
too, or not in it at all; and all that the smaller cache stores is stored in the larger one.

1. the lists
2. the caches side by side
3. calls and answers
-/

namespace QueryCache

/-! ## The lists -/

namespace Recency

/-- Two lists, of which the first one has less room: it is part of the second one, and it is
full unless the two are equal. -/
structure PartOf (s s' : Recency) : Prop where
  capacity_le : s.capacity ≤ s'.capacity
  sublist : s.keys.Sublist s'.keys
  full : s.keys = s'.keys ∨ s.keys.length = s.capacity

variable {s s' : Recency} {k : CacheKey}

theorem sublist_dropLast {l l' : List CacheKey} (h : l.Sublist l') :
    l.dropLast.Sublist l'.dropLast := by
  have htail := h.reverse.tail
  rwa [List.tail_reverse, List.tail_reverse, List.reverse_sublist] at htail

theorem PartOf.cons_erase (h : s.PartOf s') (k : CacheKey) :
    (k :: s.keys.erase k).Sublist (k :: s'.keys.erase k) := (h.sublist.erase k).cons_cons k

/-- What leaves the larger list leaves the smaller one too. -/
theorem PartOf.used_sublist (h : s.PartOf s') (hs' : s'.WellFormed) (k : CacheKey) :
    (s.used k).Sublist (s'.used k) := by
  by_cases hroom : (k :: s'.keys.erase k).length ≤ s'.capacity
  · -- nothing leaves the larger list
    rw [used, used, List.take_of_length_le hroom]
    exact (List.take_sublist ..).trans (h.cons_erase k)
  · have hle' := hs'.length_le
    have hk' : k ∉ s'.keys := by
      intro hk'
      apply hroom
      rwa [List.length_cons, List.length_erase_add_one hk']
    have hk : k ∉ s.keys := fun hk => hk' (h.sublist.subset hk)
    rw [List.erase_of_not_mem hk', List.length_cons] at hroom
    rcases h.full with heq | hfull
    · -- the larger list is full, and the smaller one is equal to it
      rw [used, used, heq]
      exact List.take_sublist_take_left h.capacity_le
    · -- both lists are full
      have hlast : s.used k = (k :: s.keys).dropLast := by
        rw [used, List.erase_of_not_mem hk, List.dropLast_eq_take, List.length_cons, hfull,
          Nat.add_sub_cancel]
      have hlast' : s'.used k = (k :: s'.keys).dropLast := by
        rw [used, List.erase_of_not_mem hk', List.dropLast_eq_take, List.length_cons,
          Nat.add_sub_cancel]
        congr 1
        omega
      rw [hlast, hlast']
      exact sublist_dropLast (h.sublist.cons_cons k)

/-- The use of a key keeps the lists side by side. -/
theorem PartOf.used (h : s.PartOf s') (hs' : s'.WellFormed) (k : CacheKey) :
    PartOf { s with keys := s.used k } { s' with keys := s'.used k } := by
  constructor
  · exact h.capacity_le
  · exact h.used_sublist hs' k
  · show s.used k = s'.used k ∨ (s.used k).length = s.capacity
    rw [Recency.used, Recency.used]
    by_cases hroom : (k :: s.keys.erase k).length < s.capacity
    · -- the smaller list is not full, so the two are equal
      have heq : s.keys = s'.keys := by
        rcases h.full with heq | hfull
        · exact heq
        · have hlength := List.le_length_erase (l := s.keys) (a := k)
          rw [List.length_cons] at hroom
          omega
      left
      rw [← heq, List.take_of_length_le hroom.le, List.take_of_length_le]
      exact hroom.le.trans h.capacity_le
    · right
      exact List.length_take_of_le (by omega)

/-- A read that only the larger list knows changes that list alone. -/
theorem PartOf.touch (h : s.PartOf s') (hs : s.WellFormed) (hs' : s'.WellFormed) (k : CacheKey) :
    (s.touch k).PartOf (s'.touch k) := by
  rw [touch_eq hs, touch_eq hs']
  by_cases hk : k ∈ s.keys
  · rw [if_pos hk, if_pos (h.sublist.subset hk)]
    exact h.used hs' k
  · rw [if_neg hk]
    split
    · have hsub := h.sublist.erase k
      rw [List.erase_of_not_mem hk] at hsub
      constructor
      · exact h.capacity_le
      · rw [used_of_mem hs' ‹_›]
        exact hsub.cons k
      · -- the lists differ in the key that is read
        right
        rcases h.full with heq | hfull
        · exact absurd (heq ▸ ‹_›) hk
        · exact hfull
    · exact h

end Recency

/-! ## The caches side by side -/

namespace Lru

open Recency

/-- Two states: what the first one tracks and stores, the second one does too. -/
structure Within (s s' : Recency × Store) : Prop where
  smaller : Tracks s
  larger : Tracks s'
  list : s.1.PartOf s'.1
  stored : ∀ k x, s.2.find? k = some x → s'.2.find? k = some x

variable {s s' : Recency × Store}

theorem within_fresh {n m : Nat} (hn : 1 ≤ n) (hnm : n ≤ m) : Within (fresh n) (fresh m) := by
  constructor
  · exact tracks_fresh hn
  · exact tracks_fresh (hn.trans hnm)
  · exact ⟨hnm, .refl _, .inl rfl⟩
  · intro k x hx
    cases hx

namespace Within

theorem put_stored (h : Within s s') (k : CacheKey) (x : Option Value) {k' : CacheKey}
    {y : Option Value} (hy : (step s (.ask (.put k x))).2.find? k' = some y) :
    (step s' (.ask (.put k x))).2.find? k' = some y := by
  rw [h.smaller.find?_put] at hy
  rw [h.larger.find?_put]
  by_cases hk' : k' ∈ s.1.used k
  · have hsub := (h.list.used_sublist h.larger.wellFormed k).subset hk'
    rw [if_pos hk'] at hy
    rw [if_pos hsub]
    split
    · rwa [if_pos ‹_›] at hy
    · rw [if_neg ‹_›] at hy
      exact h.stored k' y hy
  · rw [if_neg hk'] at hy
    cases hy

/-- The same request keeps the states side by side. -/
theorem step (h : Within s s') (r : Request) : Within (step s (.ask r)) (step s' (.ask r)) := by
  refine ⟨h.smaller.step trivial, h.larger.step trivial, ?_, ?_⟩
  · cases r with
    | put k x =>
      rw [Lru.step, Lru.step, push_snd h.smaller.wellFormed, push_snd h.larger.wellFormed]
      exact h.list.used h.larger.wellFormed k
    | get k => exact h.list.touch h.smaller.wellFormed h.larger.wellFormed k
    | clear => exact ⟨h.list.capacity_le, .refl _, .inl rfl⟩
    | remove k => exact h.list
    | size => exact h.list
    | releaseLock k => exact h.list
  · cases r with
    | put k x => exact fun k' y hy => h.put_stored k x hy
    | remove k =>
      intro k' y hy
      rw [Lru.step, Entries.find?_erase] at hy ⊢
      split at hy
      · cases hy
      · rw [if_neg ‹_›]
        exact h.stored k' y hy
    | clear =>
      intro k' y hy
      cases hy
    | get k => exact h.stored
    | size => exact h.stored
    | releaseLock k => exact h.stored

theorem size_le (h : Within s s') : s.2.size ≤ s'.2.size := by
  have hsub : ∀ k ∈ s.2.keys, k ∈ s'.2.keys := by
    intro k hk
    rw [← Entries.isSome_find?_iff, Option.isSome_iff_exists] at hk ⊢
    obtain ⟨x, hx⟩ := hk
    exact ⟨x, h.stored k x hx⟩
  simpa [Entries.keys, Entries.size] using Entries.size_le_length hsub

end Within

end Lru

/-! ## Calls and answers -/

/-- Of two answers to a request the second one says no less: a value that is found is found by
both, and a number is not smaller. -/
inductive Answer.AtMost : Answer → Answer → Prop where
  | done : AtMost .done .done
  | nothing (found : Option Value) : AtMost (.value none) (.value found)
  | found (v : Value) : AtMost (.value (some v)) (.value (some v))
  | number {a b : Nat} (h : a ≤ b) : AtMost (.number a) (.number b)

namespace Lru

variable {s s' : Recency × Store}

theorem Within.lookup (h : Within s s') (k : CacheKey) :
    Answer.AtMost (.value (s.2.lookup k)) (.value (s'.2.lookup k)) := by
  cases hv : s.2.lookup k with
  | none => exact .nothing _
  | some v =>
    have hfind : s.2.find? k = some (some v) := Option.join_eq_some_iff.1 hv
    have hfind' : s'.2.lookup k = some v := Option.join_eq_some_iff.2 (h.stored k _ hfind)
    rw [hfind']
    exact .found v

theorem Within.answer (h : Within s s') (r : Request) :
    Answer.AtMost (s.2.answer r) (s'.2.answer r) := by
  cases r with
  | put k x => exact .done
  | get k => exact h.lookup k
  | remove k => exact h.lookup k
  | clear => exact .done
  | size => exact .number h.size_le
  | releaseLock k => exact .done

/-- The same calls keep the states side by side, and the larger cache answers no less. -/
theorem Within.run (h : Within s s') (id id' : String) {visits visits' : List Visit}
    (hsame : List.Forall₂ (fun v v' => v.request = v'.request) visits visits') :
    ∃ t t' as bs, (around (Store.cache id)).after s visits = some t ∧
      (around (Store.cache id')).after s' visits' = some t' ∧
      (around (Store.cache id)).answers s visits = some as ∧
      (around (Store.cache id')).answers s' visits' = some bs ∧
      List.Forall₂ Answer.AtMost as bs ∧ Within t t' := by
  induction hsame generalizing s s' with
  | nil => exact ⟨s, s', [], [], rfl, rfl, rfl, rfl, .nil, h⟩
  | @cons v v' rest rest' hv _ ih =>
    have hcall := serve_run id v.request v.caller ⟨v.env, s⟩
    have hcall' := serve_run id' v'.request v'.caller ⟨v'.env, s'⟩
    have hfirst : Answer.AtMost (s.2.answer v.request) (s'.2.answer v'.request) :=
      hv ▸ h.answer v.request
    obtain ⟨t, t', as, bs, ht, ht', has, hbs, hall, hwithin⟩ := ih (h.step v.request)
    rw [hv] at ht' hbs
    refine ⟨t, t', _, _, ?_, ?_, ?_, ?_, .cons hfirst hall, hwithin⟩
    · exact (Cache.after_cons hcall rest).trans ht
    · exact (Cache.after_cons hcall' rest').trans ht'
    · exact (Cache.answers_cons hcall rest).trans (congrArg _ has)
    · exact (Cache.answers_cons hcall' rest').trans (congrArg _ hbs)

/-- The same calls on two new caches that evict the least recently used key, one with at least
the capacity of the other: every call ends well in both, all that the smaller cache stores is
stored with the same value in the larger one, and each answer of the larger cache says no less
than that of the smaller one. -/
theorem more_capacity_never_loses (id id' : String) {n m : Nat} (hn : 1 ≤ n) (hnm : n ≤ m)
    {visits visits' : List Visit}
    (hsame : List.Forall₂ (fun v v' => v.request = v'.request) visits visits') :
    ∃ s s' as bs, (around (Store.cache id)).after (fresh n) visits = some s ∧
      (around (Store.cache id')).after (fresh m) visits' = some s' ∧
      (∀ k x, s.2.find? k = some x → s'.2.find? k = some x) ∧ s.2.size ≤ s'.2.size ∧
      (around (Store.cache id)).answers (fresh n) visits = some as ∧
      (around (Store.cache id')).answers (fresh m) visits' = some bs ∧
      List.Forall₂ Answer.AtMost as bs := by
  obtain ⟨s, s', as, bs, hs, hs', has, hbs, hall, hwithin⟩ := (within_fresh hn hnm).run id id' hsame
  exact ⟨s, s', as, bs, hs, hs', hwithin.stored, hwithin.size_le, has, hbs, hall⟩

/-- Two puts, a read of each key, and the size. -/
def fiveCalls : List Visit :=
  [.put .null (some (.data 0 (.bool true) true)),
    .put (.folded .empty) (some (.data 1 (.bool false) true)), .get .null, .get (.folded .empty),
    .size].map fun r => ⟨⟨"main", []⟩, {}, r⟩

/-- With room for one entry the first value is lost, with room for two it is not. -/
theorem more_capacity_never_loses_two : ∃ as bs,
    (around (Store.cache "users")).answers (fresh 1) fiveCalls = some as ∧
    (around (Store.cache "users")).answers (fresh 2) fiveCalls = some bs ∧
    List.Forall₂ Answer.AtMost as bs ∧
    as = [.done, .done, .value none, .value (some (.data 1 (.bool false) true)), .number 1] ∧
    bs = [.done, .done, .value (some (.data 0 (.bool true) true)),
      .value (some (.data 1 (.bool false) true)), .number 2] := by
  have hsame : List.Forall₂ (fun v v' : Visit => v.request = v'.request) fiveCalls fiveCalls :=
    List.forall₂_same.2 fun v _ => rfl
  obtain ⟨_, _, as, bs, -, -, -, -, has, hbs, hall⟩ :=
    more_capacity_never_loses "users" "users" (n := 1) (m := 2) (by decide) (by decide) hsame
  refine ⟨as, bs, has, hbs, hall, ?_, ?_⟩
  · exact Option.some.inj (has.symm.trans (by rfl))
  · exact Option.some.inj (hbs.symm.trans (by rfl))

end Lru

end QueryCache
