import Mathlib
import QueryCache.Proofs.Layer.Queue

/-!
# What a queue of puts keeps

The layer that evicts the oldest key, around a store, with a capacity `n` that does not change.
The puts since the last clear are numbered from one on; the queue has the keys of the last `n`
of them.  Put number `m` evicts the key of put number `m - n` before it stores its own, however
often that key was put since.  So a key is stored exactly if it was not removed after its last
put, and no put of the key has been followed by `n` others after that last put was made.

1. histories: the puts since the last clear
2. the last put of a key
3. which keys last
4. one request
5. any requests
-/

namespace QueryCache

/-! ## Histories -/

/-- What was asked since the last clear, after one more request. -/
def Request.record (history : List Request) : Request → List Request
  | clear => []
  | r => history ++ [r]

/-- What was asked since the last clear. -/
def sinceClear (requests : List Request) : List Request := requests.foldl Request.record []

/-- The keys of the puts, in order. -/
def putKeys (history : List Request) : List CacheKey := history.filterMap Request.putKey?

/-- The key of a put, by its number: the first put is number one. -/
def putNumber (history : List Request) : Nat → Option CacheKey
  | 0 => none
  | i + 1 => (putKeys history)[i]?

section History

variable {h : List Request} {k k' : CacheKey} {x : Option Value} {r : Request} {j p : Nat}

theorem putKeys_append (h : List Request) (r : Request) :
    putKeys (h ++ [r]) = putKeys h ++ r.putKey?.toList := by
  rw [putKeys, List.filterMap_append, putKeys]
  cases hr : r.putKey? <;> simp [hr]

theorem putKeys_put : putKeys (h ++ [.put k x]) = putKeys h ++ [k] := putKeys_append ..

theorem putNumber_le (hj : putNumber h j = some k) : 1 ≤ j ∧ j ≤ (putKeys h).length := by
  cases j with
  | zero => cases hj
  | succ i =>
    obtain ⟨hi, -⟩ := List.getElem?_eq_some_iff.1 hj
    omega

/-- The keys of the puts after number `m`. -/
theorem mem_drop_putKeys {m : Nat} :
    k ∈ (putKeys h).drop m ↔ ∃ j, m < j ∧ putNumber h j = some k := by
  rw [List.mem_iff_getElem?]
  constructor
  · rintro ⟨i, hi⟩
    rw [List.getElem?_drop] at hi
    exact ⟨m + i + 1, by omega, hi⟩
  · rintro ⟨j, hj, hput⟩
    obtain ⟨i, rfl⟩ := Nat.exists_eq_add_of_lt hj
    refine ⟨i, ?_⟩
    rw [List.getElem?_drop]
    exact hput

theorem putNumber_inj {i : Nat} (hnodup : (putKeys h).Nodup) (hi : putNumber h i = some k)
    (hj : putNumber h j = some k) : i = j := by
  cases i with
  | zero => cases hi
  | succ i =>
    cases j with
    | zero => cases hj
    | succ j =>
      have hlt := (putNumber_le hi).2
      rw [(List.getElem?_inj hlt hnodup).1 (hi.trans hj.symm)]

theorem putNumber_of_putKey?_eq_none (hr : r.putKey? = none) :
    putNumber (h ++ [r]) j = putNumber h j := by
  cases j with
  | zero => rfl
  | succ i => simp [putNumber, putKeys_append, hr]

/-- One more put of another key has the next number. -/
theorem putNumber_put_iff (hne : k' ≠ k) :
    putNumber (h ++ [.put k x]) j = some k' ↔ putNumber h j = some k' := by
  cases j with
  | zero => rfl
  | succ i =>
    rw [putNumber, putNumber, putKeys_put, List.getElem?_append]
    split
    · rfl
    · rename_i hi
      have hnone : (putKeys h)[i]? = none := List.getElem?_eq_none (by omega)
      rw [hnone]
      cases hj : i - (putKeys h).length with
      | zero => simp [Ne.symm hne]
      | succ m => simp

/-! ## The last put of a key -/

/-- The request decides anew whether the key is stored: it is a put or a removal of it. -/
def Request.Replaces (k : CacheKey) : Request → Prop
  | put k' _ => k' = k
  | remove k' => k' = k
  | _ => False

/-- Put number `p` is the last one of the key; it put `x`, and the key was not removed since. -/
def LastPut (h : List Request) (k : CacheKey) (x : Option Value) (p : Nat) : Prop :=
  ∃ before later, h = before ++ .put k x :: later ∧ p = (putKeys before).length + 1 ∧
    ∀ r ∈ later, ¬ r.Replaces k

theorem not_lastPut_nil : ¬ LastPut [] k x p := by
  rintro ⟨before, later, heq, -⟩
  simp at heq

/-- The last put of a key after one more request. -/
theorem lastPut_append : LastPut (h ++ [r]) k x p ↔
    (r = .put k x ∧ p = (putKeys h).length + 1) ∨ (¬ r.Replaces k ∧ LastPut h k x p) := by
  constructor
  · rintro ⟨before, later, heq, hp, hlater⟩
    rcases List.eq_nil_or_concat later with rfl | ⟨later, last, rfl⟩
    · obtain ⟨rfl, hr⟩ := List.append_inj' heq rfl
      exact .inl ⟨List.singleton_inj.1 hr, hp⟩
    · rw [List.concat_eq_append, ← List.cons_append, ← List.append_assoc] at heq
      obtain ⟨rfl, hr⟩ := List.append_inj' heq rfl
      obtain rfl := List.singleton_inj.1 hr
      rw [List.concat_eq_append] at hlater
      right
      constructor
      · exact hlater r (by simp)
      · exact ⟨before, later, rfl, hp, fun r' hr' => hlater r' (by simp [hr'])⟩
  · rintro (⟨rfl, rfl⟩ | ⟨hr, before, later, rfl, hp, hlater⟩)
    · exact ⟨h, [], rfl, rfl, by simp⟩
    · refine ⟨before, later ++ [r], by simp, hp, ?_⟩
      intro r' hr'
      rcases List.mem_append.1 hr' with hr' | hr'
      · exact hlater r' hr'
      · rwa [List.mem_singleton.1 hr']

theorem LastPut.putNumber (hl : LastPut h k x p) : putNumber h p = some k := by
  obtain ⟨before, later, rfl, rfl, -⟩ := hl
  simp [QueryCache.putNumber, putKeys, Request.putKey?]

/-- A key that was put and not removed has a last put. -/
theorem exists_lastPut (hk : k ∈ putKeys h)
    (hr : .remove k ∉ h) : ∃ x p, LastPut h k x p := by
  induction h using List.reverseRecOn with
  | nil => cases hk
  | append_singleton h r ih =>
    by_cases hput : ∃ x, r = .put k x
    · obtain ⟨x, rfl⟩ := hput
      exact ⟨x, _, lastPut_append.2 (.inl ⟨rfl, rfl⟩)⟩
    · have hreplaces : ¬ r.Replaces k := by
        intro hreplaces
        cases r with
        | put k' x =>
          obtain rfl : k' = k := hreplaces
          exact hput ⟨x, rfl⟩
        | remove k' =>
          obtain rfl : k' = k := hreplaces
          exact hr (by simp)
        | _ => exact hreplaces
      have hearlier : k ∈ putKeys h := by
        rw [putKeys_append, List.mem_append] at hk
        rcases hk with hk | hk
        · exact hk
        · cases r with
          | put k' x =>
            have heq : k = k' := by simpa [Request.putKey?] using hk
            exact absurd heq.symm hreplaces
          | _ => cases hk
      obtain ⟨x, p, hl⟩ := ih hearlier fun hmem => hr (by simp [hmem])
      exact ⟨x, p, lastPut_append.2 (.inr ⟨hreplaces, hl⟩)⟩

/-! ## Which keys last -/

/-- The key was not removed after its last put, number `p`, and no put of the key, the last one
or an earlier one, was followed by `n` puts of which the last one came after number `p`. -/
def Lasts (n : Nat) (h : List Request) (k : CacheKey) (x : Option Value) : Prop :=
  ∃ p, LastPut h k x p ∧
    ∀ j, putNumber h j = some k → ¬ (p < j + n ∧ j + n ≤ (putKeys h).length)

variable {n : Nat} {y : Option Value}

theorem not_lasts_nil : ¬ Lasts n [] k x := by
  rintro ⟨p, hl, -⟩
  exact not_lastPut_nil hl

/-- A request that neither puts anything nor removes the key leaves it as it is. -/
theorem lasts_append (hput : r.putKey? = none) (hr : ¬ r.Replaces k) :
    Lasts n (h ++ [r]) k x ↔ Lasts n h k x := by
  have hne : r ≠ .put k x := by
    rintro rfl
    cases hput
  simp [Lasts, lastPut_append, putNumber_of_putKey?_eq_none hput, putKeys_append, hput, hr, hne]

theorem not_lasts_remove : ¬ Lasts n (h ++ [.remove k]) k x := by
  rintro ⟨p, hl, -⟩
  rcases lastPut_append.1 hl with ⟨heq, -⟩ | ⟨hr, -⟩
  · cases heq
  · exact hr rfl

/-- The key that is put is kept with its new value. -/
theorem lasts_put_self : Lasts n (h ++ [.put k y]) k x ↔ x = y := by
  constructor
  · rintro ⟨p, hl, -⟩
    rcases lastPut_append.1 hl with ⟨heq, -⟩ | ⟨hr, -⟩
    · cases heq
      rfl
    · exact absurd rfl hr
  · rintro rfl
    refine ⟨_, lastPut_append.2 (.inl ⟨rfl, rfl⟩), ?_⟩
    intro j _
    rw [putKeys_put, List.length_append, List.length_singleton]
    omega

/-- Another key is kept as before unless it is the key of the put `n` puts ago. -/
theorem lasts_put_ne (hne : k' ≠ k) : Lasts n (h ++ [.put k y]) k' x ↔
    Lasts n h k' x ∧ putNumber (h ++ [.put k y]) ((putKeys h).length + 1 - n) ≠ some k' := by
  have hlast : ∀ p, LastPut (h ++ [.put k y]) k' x p ↔ LastPut h k' x p := by
    intro p
    rw [lastPut_append]
    simp [Request.Replaces, Ne.symm hne]
  have hlength : (putKeys (h ++ [.put k y])).length = (putKeys h).length + 1 := by
    rw [putKeys_put, List.length_append, List.length_singleton]
  constructor
  · rintro ⟨p, hl, hj⟩
    have hl := (hlast p).1 hl
    have hp := putNumber_le hl.putNumber
    refine ⟨⟨p, hl, ?_⟩, ?_⟩
    · intro j hput hover
      have hj := hj j ((putNumber_put_iff hne).2 hput)
      omega
    · intro hput
      have hle := putNumber_le hput
      have hj := hj _ hput
      omega
  · rintro ⟨⟨p, hl, hj⟩, hleaves⟩
    refine ⟨p, (hlast p).2 hl, ?_⟩
    rintro j hput ⟨hlt, hle⟩
    have hj := hj j ((putNumber_put_iff hne).1 hput)
    -- the put that is too long ago is the one that leaves now
    have hnow : j = (putKeys h).length + 1 - n := by omega
    exact hleaves (hnow ▸ hput)

/-- What is kept is among the last `n` keys that were put. -/
theorem Lasts.mem_drop (hn : 1 ≤ n) (hk : Lasts n h k x) :
    k ∈ (putKeys h).drop ((putKeys h).length - n) := by
  obtain ⟨p, hl, hj⟩ := hk
  have hp := hj p hl.putNumber
  have hpos := (putNumber_le hl.putNumber).1
  exact mem_drop_putKeys.2 ⟨p, by omega, hl.putNumber⟩

/-- If different keys were put and none was removed, the last `n` of them are kept. -/
theorem exists_lasts_of_nodup (hnodup : (putKeys h).Nodup) (hr : .remove k ∉ h)
    (hk : k ∈ (putKeys h).drop ((putKeys h).length - n)) : ∃ x, Lasts n h k x := by
  obtain ⟨x, p, hl⟩ := exists_lastPut (List.mem_of_mem_drop hk) hr
  obtain ⟨j, hj, hput⟩ := mem_drop_putKeys.1 hk
  obtain rfl := putNumber_inj hnodup hput hl.putNumber
  refine ⟨x, j, hl, ?_⟩
  intro i hi
  obtain rfl := putNumber_inj hnodup hi hput
  omega

end History

namespace Fifo

/-! ## One request -/

/-- With the capacity `n`, the queue has the last keys that were put, and the store has what is
kept. -/
structure Keeps (n : Nat) (s : Fifo × Store) (h : List Request) : Prop where
  capacity : s.1.capacity = n
  queue : s.1.queue = (putKeys h).drop ((putKeys h).length - n)
  kept : ∀ k x, s.2.find? k = some x ↔ Lasts n h k x

theorem keeps_fresh (n : Nat) : Keeps n (fresh n) [] := by
  constructor
  · rfl
  · simp [fresh, putKeys]
  · intro k x
    simp [fresh, not_lasts_nil]

namespace Keeps

variable {n : Nat} {s : Fifo × Store} {h : List Request}

/-- The key that leaves for a put is the one of the put `n` puts ago. -/
theorem enqueue (hs : Keeps n s h) (hn : 1 ≤ n) (k : CacheKey) (x : Option Value) :
    (s.1.enqueue k).1 = putNumber (h ++ [.put k x]) ((putKeys h).length + 1 - n) ∧
      (s.1.enqueue k).2.queue = (putKeys (h ++ [.put k x])).drop ((putKeys h).length + 1 - n) := by
  have hlength := congrArg List.length hs.queue
  rw [List.length_drop] at hlength
  have hpos : 1 ≤ s.1.capacity := hs.capacity.symm ▸ hn
  rw [putKeys_put]
  obtain ⟨hroom, henqueue⟩ | ⟨oldest, rest, hfull, hqueue, henqueue⟩ := enqueue_cases hpos k
  · -- there were fewer than `n` puts
    rw [hs.capacity] at hroom
    have hfirst : (putKeys h).length + 1 - n = 0 := by omega
    have hall : (putKeys h).length - n = 0 := by omega
    rw [henqueue, hfirst, hs.queue, hall]
    exact ⟨rfl, rfl⟩
  · rw [hs.capacity] at hfull
    have hnext : (putKeys h).length + 1 - n = (putKeys h).length - n + 1 := by omega
    have hsplit : (putKeys h).drop ((putKeys h).length - n) = oldest :: rest :=
      hs.queue.symm.trans hqueue
    have hrest : (putKeys h).drop ((putKeys h).length - n + 1) = rest := by
      rw [← List.tail_drop, hsplit, List.tail_cons]
    have holdest : (putKeys h)[(putKeys h).length - n]? = some oldest := by
      rw [← List.head?_drop, hsplit, List.head?_cons]
    have hlt : (putKeys h).length - n < (putKeys h).length := by omega
    rw [henqueue, hnext, putNumber, putKeys_put, List.getElem?_append_left hlt, holdest,
      List.drop_append_of_le_length hlt, hrest]
    exact ⟨rfl, rfl⟩

theorem put (hs : Keeps n s h) (hn : 1 ≤ n) (k : CacheKey) (x : Option Value) :
    Keeps n (step s (.ask (.put k x))) (h ++ [.put k x]) := by
  obtain ⟨hleaves, hqueue⟩ := hs.enqueue hn k x
  constructor
  · exact capacity_enqueue.trans hs.capacity
  · rw [step, hqueue, putKeys_put, List.length_append, List.length_singleton]
  · intro k' x'
    rw [find?_put, hleaves]
    by_cases hk : k' = k
    · subst hk
      rw [if_pos rfl, lasts_put_self, Option.some_inj, eq_comm]
    · rw [if_neg hk, lasts_put_ne hk, ← hs.kept]
      split
      · simp_all
      · simp_all

/-- A request that puts nothing leaves the queue. -/
theorem skip {r : Request} {s' : Fifo × Store} (hs : Keeps n s h) (hr : r.putKey? = none)
    (hsame : s'.1 = s.1) (hkept : ∀ k x, s'.2.find? k = some x ↔ Lasts n (h ++ [r]) k x) :
    Keeps n s' (h ++ [r]) := by
  constructor
  · rw [hsame, hs.capacity]
  · rw [hsame, hs.queue, putKeys_append, hr, Option.toList_none, List.append_nil]
  · exact hkept

/-- One more request, in the cache and in the history. -/
theorem step (hs : Keeps n s h) (hn : 1 ≤ n) (r : Request) :
    Keeps n (step s (.ask r)) (r.record h) := by
  cases r with
  | put k x => exact hs.put hn k x
  | remove k =>
    refine hs.skip (r := .remove k) rfl rfl ?_
    intro k' x
    rw [Fifo.step, Entries.find?_erase]
    by_cases hk : k' = k
    · subst hk
      simp [not_lasts_remove]
    · rw [if_neg hk, hs.kept, lasts_append (r := .remove k) rfl (Ne.symm hk)]
  | clear =>
    constructor
    · exact hs.capacity
    · simp [Fifo.step, Request.record, putKeys]
    · intro k x
      simp [Fifo.step, Request.record, not_lasts_nil]
  | get k => exact hs.skip rfl rfl fun k' x => (hs.kept k' x).trans (lasts_append rfl id).symm
  | size => exact hs.skip rfl rfl fun k' x => (hs.kept k' x).trans (lasts_append rfl id).symm
  | releaseLock k =>
    exact hs.skip rfl rfl fun k' x => (hs.kept k' x).trans (lasts_append rfl id).symm

/-! ## Any requests -/

theorem run (hs : Keeps n s h) (hn : 1 ≤ n) (requests : List Request) :
    Keeps n (requests.foldl (fun s r => Fifo.step s (.ask r)) s)
      (requests.foldl Request.record h) := by
  induction requests generalizing s h with
  | nil => exact hs
  | cons r rest ih => exact ih (hs.step hn r)

theorem mem_drop (hs : Keeps n s h) (hn : 1 ≤ n) :
    ∀ k ∈ s.2.keys, k ∈ (putKeys h).drop ((putKeys h).length - n) := by
  intro k hk
  rw [← Entries.isSome_find?_iff, Option.isSome_iff_exists] at hk
  obtain ⟨x, hx⟩ := hk
  exact ((hs.kept k x).1 hx).mem_drop hn

theorem size_le (hs : Keeps n s h) (hn : 1 ≤ n) : s.2.size ≤ n := by
  have hlength := Entries.size_le_length (hs.mem_drop hn)
  rw [List.length_drop] at hlength
  omega

/-- If different keys were put and none was removed, the last `n` of them are stored. -/
theorem contents_of_nodup (hs : Keeps n s h) (hn : 1 ≤ n) (hnodup : (putKeys h).Nodup)
    (hr : ∀ k, .remove k ∉ h) :
    (∀ k, k ∈ s.2.keys ↔ k ∈ (putKeys h).drop ((putKeys h).length - n)) ∧
      s.2.size = min (putKeys h).length n := by
  have hmem : ∀ k, k ∈ s.2.keys ↔ k ∈ (putKeys h).drop ((putKeys h).length - n) := by
    intro k
    constructor
    · exact hs.mem_drop hn k
    · intro hk
      obtain ⟨x, hx⟩ := exists_lasts_of_nodup hnodup (hr k) hk
      rw [← Entries.isSome_find?_iff, (hs.kept k x).2 hx]
      rfl
  refine ⟨hmem, ?_⟩
  have hkeys : s.2.keys.Nodup := s.2.nodup
  have hperm := (List.perm_ext_iff_of_nodup hkeys
    (hnodup.sublist (List.drop_sublist ..))).2 hmem
  have hlength := hperm.length_eq
  rw [Entries.keys, List.length_map, List.length_drop] at hlength
  rw [Entries.size, hlength]
  omega

end Keeps

/-- After any calls on a new cache for `n` entries, each of which ends well: a key is stored
with a value exactly if its last put since the last clear, number `p`, put that value, it was
not removed after that, and no put of the key, number `j`, was followed by `n` puts of which
the last one, number `j + n`, came after number `p`.  So no more than `n` entries are stored, a
key that is put is stored, and a read changes nothing; and if different keys were put since the
clear and none was removed, the last `n` of them are stored. -/
theorem stored_iff_recent (id : String) {n : Nat} (hn : 1 ≤ n) (visits : List Visit) :
    ∃ s h, (around (Store.cache id)).after (fresh n) visits = some s ∧
      h = sinceClear (visits.map Visit.request) ∧
      (∀ k x, s.2.find? k = some x ↔ ∃ p, LastPut h k x p ∧
        ∀ j, putNumber h j = some k → ¬ (p < j + n ∧ j + n ≤ (putKeys h).length)) ∧
      s.2.size ≤ n ∧
      (∀ k x c e, ∃ s', (around (Store.cache id)).put k x c ⟨e, s⟩ = .done (.ok ()) ⟨e, s'⟩ ∧
        s'.2.find? k = some x) ∧
      (∀ k c e, (around (Store.cache id)).get k c ⟨e, s⟩ =
        .done (.ok (s.2.lookup k)) ⟨e, s⟩) ∧
      ((putKeys h).Nodup → (∀ k, .remove k ∉ h) →
        (∀ k, k ∈ s.2.keys ↔ k ∈ (putKeys h).drop ((putKeys h).length - n)) ∧
          s.2.size = min (putKeys h).length n) := by
  have hkeeps := (keeps_fresh n).run hn (visits.map Visit.request)
  have hafter := (performs id).cache_after_eq (fresh n) visits
  refine ⟨_, _, hafter, rfl, hkeeps.kept, hkeeps.size_le hn, ?_, ?_, hkeeps.contents_of_nodup hn⟩
  · intro k x c e
    refine ⟨_, put_run id k x c _, ?_⟩
    rw [find?_put, if_pos rfl]
  · intro k c e
    rfl

/-- A key is put twice, and then another one. -/
def putTwice : List Request := [.put .null none, .put .null none, .put (.folded .empty) none]

/-- With room for two, the third put evicts the key of the first one, although that key was put
again in between. -/
theorem stored_iff_recent_putTwice : ∃ s,
    (around (Store.cache "users")).after (fresh 2)
      (putTwice.map fun r => ⟨⟨"main", []⟩, {}, r⟩) = some s ∧
    s.2.size ≤ 2 ∧ s.2.find? .null = none ∧ s.2.find? (.folded .empty) = some none := by
  obtain ⟨s, h, hs, hh, hstored, hsize, -⟩ := stored_iff_recent "users" (n := 2) (by decide)
    (putTwice.map fun r => ⟨⟨"main", []⟩, {}, r⟩)
  obtain rfl : h = putTwice := hh
  have hfirst : putNumber putTwice 1 = some .null := by rfl
  refine ⟨s, hs, hsize, ?_, ?_⟩
  · rw [Option.eq_none_iff_forall_ne_some]
    intro x hx
    obtain ⟨p, hl, hj⟩ := (hstored .null x).1 hx
    have hle : p ≤ 3 := (putNumber_le hl.putNumber).2
    have hthird : p ≠ 3 := by
      rintro rfl
      exact absurd hl.putNumber (by decide)
    exact hj 1 hfirst ⟨by omega, by decide⟩
  · refine (hstored _ _).2 ⟨3, ⟨putTwice.take 2, [], rfl, rfl, by simp⟩, ?_⟩
    intro j hput hover
    have hle : j ≤ 3 := (putNumber_le hput).2
    have hlast : j ≠ 1 := by
      rintro rfl
      exact absurd hput (by decide)
    have hover : j + 2 ≤ 3 := hover.2
    have hpos := (putNumber_le hput).1
    omega

end Fifo

end QueryCache
