import Mathlib
import QueryCache.Entries.Lemmas
import QueryCache.Layer.Lru
import QueryCache.Proofs.Cache.Resizable

/-!
# The order of use

The list of the least recently used layer holds different keys, no more than its capacity.
A key that is used comes to its front, and what is too much leaves at its end.  Removals do
not touch the list, so it may have keys that are not stored; but every key that is stored is
in the list, and what leaves the list leaves the store.

1. the list
2. places in the list
3. calls on the layer around a store
4. the list and the store
-/

namespace QueryCache

namespace Recency

/-! ## The list -/

/-- The list after a key was used: the key comes first, and what is too much leaves. -/
def used (k : CacheKey) (s : Recency) : List CacheKey := (k :: s.keys.erase k).take s.capacity

/-- Different keys, no more of them than the capacity allows. -/
structure WellFormed (s : Recency) : Prop where
  capacity_pos : 1 ≤ s.capacity
  length_le : s.keys.length ≤ s.capacity
  nodup : s.keys.Nodup

variable {s : Recency} {k x : CacheKey}

theorem used_of_mem (h : s.WellFormed) (hk : k ∈ s.keys) : s.used k = k :: s.keys.erase k := by
  have hlength := List.length_erase_add_one hk
  have hle := h.length_le
  apply List.take_of_length_le
  simp only [List.length_cons]
  omega

/-- A read moves its key to the front if the list has it. -/
theorem touch_eq (h : s.WellFormed) (k : CacheKey) :
    s.touch k = if k ∈ s.keys then { s with keys := s.used k } else s := by
  unfold touch
  split
  · rw [used_of_mem h ‹_›]
  · rfl

/-- What a put does to the list: nobody leaves if the list has the key or has room for it,
and else the last one does. -/
theorem push_cases (h : s.WellFormed) (k : CacheKey) :
    (k ∈ s.keys ∧ s.push k = (none, { s with keys := s.used k })) ∨
    (k ∉ s.keys ∧ s.used k = k :: s.keys ∧ s.push k = (none, { s with keys := s.used k })) ∨
    (∃ last, k ∉ s.keys ∧ s.keys = s.keys.dropLast ++ [last] ∧ s.used k = k :: s.keys.dropLast ∧
      s.push k = (some last, { s with keys := s.used k })) := by
  have hle := h.length_le
  have hpos := h.capacity_pos
  by_cases hk : k ∈ s.keys
  · left
    simp [push, hk, used_of_mem h hk]
  · right
    have herase := List.erase_of_not_mem hk
    by_cases hroom : s.keys.length < s.capacity
    · left
      have hused : s.used k = k :: s.keys := by
        rw [used, herase]
        apply List.take_of_length_le
        simp only [List.length_cons]
        omega
      simp [push, hk, hroom, hused]
    · right
      have hne : s.keys ≠ [] := by
        intro hnil
        simp only [hnil, List.length_nil] at hroom
        omega
      have hcapacity : s.capacity = s.keys.length - 1 + 1 := by omega
      have hused : s.used k = k :: s.keys.dropLast := by
        rw [used, herase, hcapacity, List.take_succ_cons, List.dropLast_eq_take]
      refine ⟨s.keys.getLast hne, hk, (List.dropLast_append_getLast hne).symm, hused, ?_⟩
      simp [push, hk, hroom, hused, List.getLast?_eq_getLast_of_ne_nil hne]

/-- A put moves its key to the front, whether or not the list has it. -/
theorem push_snd (h : s.WellFormed) (k : CacheKey) :
    (s.push k).2 = { s with keys := s.used k } := by
  obtain ⟨-, hpush⟩ | ⟨-, -, hpush⟩ | ⟨last, -, -, -, hpush⟩ := push_cases h k <;> rw [hpush]

/-- The key that leaves for another one is not that one. -/
theorem push_fst_ne (h : s.WellFormed) (k : CacheKey) : (s.push k).1 ≠ some k := by
  obtain ⟨-, hpush⟩ | ⟨-, -, hpush⟩ | ⟨last, hk, hkeys, -, hpush⟩ := push_cases h k
  · simp [hpush]
  · simp [hpush]
  · rw [hpush]
    intro heq
    obtain rfl := Option.some.inj heq
    apply hk
    rw [hkeys]
    simp

theorem mem_used_self (h : s.WellFormed) (k : CacheKey) : k ∈ s.used k := by
  obtain ⟨n, hn⟩ := Nat.exists_eq_add_of_le' h.capacity_pos
  simp [used, hn]

/-- Of the other keys of the list those stay that do not leave. -/
theorem mem_used_iff (h : s.WellFormed) (hx : x ∈ s.keys) (hne : x ≠ k) :
    x ∈ s.used k ↔ (s.push k).1 ≠ some x := by
  obtain ⟨hk, hpush⟩ | ⟨-, hused, hpush⟩ | ⟨last, -, hkeys, hused, hpush⟩ := push_cases h k
  · simp [hpush, used_of_mem h hk, h.nodup.mem_erase_iff, hx, hne]
  · simp [hpush, hused, hx]
  · -- the last key of a list of different keys is not among the others
    have hnodup := hkeys ▸ h.nodup
    rw [hkeys] at hx
    simp only [hpush, hused, List.mem_cons, hne, false_or]
    grind

theorem mem_of_mem_used (h : x ∈ s.used k) : x = k ∨ x ∈ s.keys := by
  have hmem := List.mem_of_mem_take h
  rcases List.mem_cons.1 hmem with rfl | hmem
  · exact .inl rfl
  · exact .inr (List.mem_of_mem_erase hmem)

theorem WellFormed.used (h : s.WellFormed) (k : CacheKey) :
    WellFormed { s with keys := s.used k } := by
  constructor
  · exact h.capacity_pos
  · exact List.length_take_le ..
  · apply List.Nodup.sublist (List.take_sublist ..)
    rw [List.nodup_cons, h.nodup.mem_erase_iff]
    exact ⟨fun hk => hk.1 rfl, h.nodup.erase k⟩

theorem WellFormed.touch (h : s.WellFormed) (k : CacheKey) : (s.touch k).WellFormed := by
  rw [touch_eq h]
  split
  · exact h.used k
  · exact h

theorem WellFormed.push (h : s.WellFormed) (k : CacheKey) : (s.push k).2.WellFormed := by
  rw [push_snd h]
  exact h.used k

theorem WellFormed.resize {n : Nat} (h : s.WellFormed) (hn : 1 ≤ n) :
    (s.resize n).2.WellFormed := by
  constructor
  · exact hn
  · exact List.length_take_le ..
  · exact h.nodup.sublist (List.take_sublist ..)

theorem capacity_touch : (s.touch k).capacity = s.capacity := by
  unfold Recency.touch
  split <;> rfl

theorem capacity_push : (s.push k).2.capacity = s.capacity := by
  unfold Recency.push
  split
  · rfl
  · split <;> rfl

/-! ## Places -/

/-- The key is in the list, behind the keys of `front` and no others. -/
def Follows (front : List CacheKey) (k : CacheKey) (l : List CacheKey) : Prop :=
  ∃ back, l = front ++ k :: back

theorem Follows.erase {front l : List CacheKey} (h : Follows front k l) (hne : x ≠ k) :
    Follows (front.erase x) k (l.erase x) := by
  obtain ⟨back, rfl⟩ := h
  by_cases hx : x ∈ front
  · exact ⟨back, List.erase_append_left _ hx⟩
  · refine ⟨back.erase x, ?_⟩
    rw [List.erase_append_right _ hx, List.erase_of_not_mem hx, List.erase_cons_tail]
    simpa using Ne.symm hne

theorem Follows.take {front l : List CacheKey} {n : Nat} (h : Follows front k l)
    (hn : front.length < n) : Follows front k (l.take n) := by
  obtain ⟨back, rfl⟩ := h
  obtain ⟨m, rfl⟩ := Nat.exists_eq_add_of_lt hn
  refine ⟨back.take m, ?_⟩
  rw [List.take_append, List.take_of_length_le (by omega), Nat.add_assoc, Nat.add_sub_cancel_left,
    List.take_succ_cons]

/-- If the key is not among those in front of it, it is in as much of the list as reaches it. -/
theorem Follows.length_lt_of_mem_take {front l : List CacheKey} {n : Nat} (h : Follows front k l)
    (hk : k ∉ front) (hmem : k ∈ l.take n) : front.length < n := by
  obtain ⟨back, rfl⟩ := h
  by_contra hn
  rw [List.take_append_of_le_length (by omega)] at hmem
  exact hk (List.mem_of_mem_take hmem)

theorem Follows.not_mem {front l : List CacheKey} (h : Follows front k l) (hl : l.Nodup) :
    k ∉ front := by
  obtain ⟨back, rfl⟩ := h
  intro hk
  exact (List.disjoint_of_nodup_append hl) hk (List.mem_cons_self)

/-- Another key that is used comes in front of all others. -/
theorem Follows.cons_erase {front l : List CacheKey} (h : Follows front k l) (hne : x ≠ k) :
    Follows (x :: front.erase x) k (x :: l.erase x) := by
  obtain ⟨back, heq⟩ := h.erase hne
  exact ⟨back, by rw [heq, List.cons_append]⟩

theorem follows_used_self (h : s.WellFormed) (k : CacheKey) : Follows [] k (s.used k) := by
  have hpos := h.capacity_pos
  exact Follows.take ⟨_, rfl⟩ hpos

theorem Follows.used {front : List CacheKey} (h : Follows front k s.keys) (hne : x ≠ k)
    (hroom : (x :: front.erase x).length < s.capacity) :
    Follows (x :: front.erase x) k (s.used x) := (h.cons_erase hne).take hroom

/-- If the list has the key at all, then all keys of `ahead` are in front of it. -/
def Trails (ahead : List CacheKey) (k : CacheKey) (l : List CacheKey) : Prop :=
  k ∈ l → ∃ front, Follows front k l ∧ ∀ x ∈ ahead, x ∈ front

/-- Wherever the key is, nothing is said to be in front of it. -/
theorem trails_nil (k : CacheKey) (l : List CacheKey) : Trails [] k l := by
  intro hk
  obtain ⟨front, back, hfront⟩ := List.append_of_mem hk
  exact ⟨front, ⟨back, hfront⟩, fun x hx => (List.not_mem_nil hx).elim⟩

theorem Trails.mono {ahead ahead' l : List CacheKey} (h : Trails ahead k l)
    (hsub : ∀ x ∈ ahead', x ∈ ahead) : Trails ahead' k l := by
  intro hk
  obtain ⟨front, hfollows, hahead⟩ := h hk
  exact ⟨front, hfollows, fun x hx => hahead x (hsub x hx)⟩

theorem Trails.take {ahead l : List CacheKey} (h : Trails ahead k l) (hl : l.Nodup) (n : Nat) :
    Trails ahead k (l.take n) := by
  intro hk
  obtain ⟨front, hfollows, hahead⟩ := h (List.mem_of_mem_take hk)
  have hroom := hfollows.length_lt_of_mem_take (hfollows.not_mem hl) hk
  exact ⟨front, hfollows.take hroom, hahead⟩

/-- Another key that is used is in front of the key from then on. -/
theorem Trails.used {ahead : List CacheKey} (h : Trails ahead k s.keys) (hs : s.WellFormed)
    (hne : x ≠ k) : Trails (x :: ahead) k (s.used x) := by
  apply Trails.take
  · intro hk
    have hmem : k ∈ s.keys := by
      rcases List.mem_cons.1 hk with rfl | hk
      · exact absurd rfl hne
      · exact List.mem_of_mem_erase hk
    obtain ⟨front, hfollows, hahead⟩ := h hmem
    refine ⟨x :: front.erase x, hfollows.cons_erase hne, ?_⟩
    intro y hy
    by_cases hyx : y = x
    · simp [hyx]
    · have hfront := hahead y (by simpa [hyx] using hy)
      simp [hyx, hfront]
  · rw [List.nodup_cons, hs.nodup.mem_erase_iff]
    exact ⟨fun hx => hx.1 rfl, hs.nodup.erase x⟩

/-- A list that has the key has room for all keys in front of it. -/
theorem Trails.card_lt {ahead : List CacheKey} (h : Trails ahead k s.keys) (hs : s.WellFormed)
    (hk : k ∈ s.keys) : ahead.toFinset.card < s.capacity := by
  obtain ⟨front, ⟨back, heq⟩, hahead⟩ := h hk
  have hsub : ahead.toFinset ⊆ front.toFinset := by
    intro x hx
    simpa using hahead x (by simpa using hx)
  have hcard := (Finset.card_le_card hsub).trans (List.toFinset_card_le front)
  have hlength := hs.length_le
  rw [heq, List.length_append, List.length_cons] at hlength
  omega

end Recency

namespace Lru

open Recency

/-! ## Calls -/

/-- The layer around a store. -/
def resizable (id : String) : ResizableCache (Recency × Store) where
  cache := around (Store.cache id)
  setCapacity := setCapacity (Store.cache id)

/-- A new cache with a capacity. -/
def fresh (capacity : Nat) : Recency × Store := ({ capacity }, .empty)

/-- What a request leaves. -/
def step (s : Recency × Store) : ResizableRequest → Recency × Store
  | .ask (.put k x) =>
    ((s.1.push k).2, match (s.1.push k).1 with
      | some eldest => (s.2.insert k x).erase eldest
      | none => s.2.insert k x)
  | .ask (.get k) => (s.1.touch k, s.2)
  | .ask (.remove k) => (s.1, s.2.erase k)
  | .ask .clear => ({ s.1 with keys := [] }, .empty)
  | .ask .size => s
  | .ask (.releaseLock _) => s
  | .resize n => ((s.1.resize n).2, (s.1.resize n).1.foldl Entries.erase s.2)

/-- A put stores its value; then the key leaves that the list gives up. -/
theorem put_run (id : String) (k : CacheKey) (x : Option Value) (c : Caller)
    (w : World (Recency × Store)) : (around (Store.cache id)).put k x c w =
      .done (.ok ()) ⟨w.env, step w.state (.ask (.put k x))⟩ := by
  have hstored : ((Store.cache id).under fun _ : Recency => []).put k x c w =
      .done (.ok ()) ⟨w.env, (w.state.1, w.state.2.insert k x)⟩ := by rfl
  refine (Await.bind_of_done hstored).trans ?_
  have hpushed : (Await.ofOp (Op.updateLayer (Recency.push k)) : CacheCall (Recency × Store) _) c
      ⟨w.env, (w.state.1, w.state.2.insert k x)⟩ = .done (.ok (w.state.1.push k).1)
        ⟨w.env, ((w.state.1.push k).2, w.state.2.insert k x)⟩ := by rfl
  refine (Await.bind_of_done hpushed).trans ?_
  rw [step]
  cases (w.state.1.push k).1 with
  | none => rfl
  | some eldest => rfl

/-- Every call ends at once, with the answer of the store. -/
theorem serve_run (id : String) (r : Request) (c : Caller) (w : World (Recency × Store)) :
    (around (Store.cache id)).serve r c w =
      .done (.ok (w.state.2.answer r)) ⟨w.env, step w.state (.ask r)⟩ := by
  cases r with
  | put k x => exact Await.bind_of_done (put_run id k x c w)
  | get k => rfl
  | remove k => rfl
  | clear => rfl
  | size => rfl
  | releaseLock k => rfl

theorem removeAll_run (id : String) (keys : List CacheKey) (c : Caller)
    (w : World (Recency × Store)) :
    removeAll ((Store.cache id).under fun _ => []) keys c w =
      .done (.ok ()) ⟨w.env, (w.state.1, keys.foldl Entries.erase w.state.2)⟩ := by
  induction keys generalizing w with
  | nil => rfl
  | cons k rest ih => exact ih ⟨w.env, (w.state.1, w.state.2.erase k)⟩

/-- A change of the capacity ends at once too. -/
theorem setCapacity_run (id : String) (n : Nat) (c : Caller) (w : World (Recency × Store)) :
    setCapacity (Store.cache id) n c w = .done (.ok ()) ⟨w.env, step w.state (.resize n)⟩ :=
  removeAll_run id _ c ⟨w.env, ((w.state.1.resize n).2, w.state.2)⟩

theorem performs (id : String) : (resizable id).Performs step where
  ask r c w := ⟨_, serve_run id r c w⟩
  resize := setCapacity_run id

/-! ## The list and the store -/

/-- The list is well formed and has every key that is stored. -/
structure Tracks (s : Recency × Store) : Prop where
  wellFormed : s.1.WellFormed
  tracked : ∀ k ∈ s.2.keys, k ∈ s.1.keys

theorem tracks_fresh {n : Nat} (hn : 1 ≤ n) : Tracks (fresh n) := by
  constructor
  · exact ⟨hn, Nat.zero_le _, List.nodup_nil⟩
  · intro k hk
    cases hk

variable {s : Recency × Store} {k : CacheKey}

/-- A put deletes another key only if that key leaves the list for it. -/
theorem find?_put (s : Recency × Store) (k k' : CacheKey) (x : Option Value) :
    (step s (.ask (.put k x))).2.find? k' =
      if (s.1.push k).1 = some k' then none else if k' = k then some x else s.2.find? k' := by
  rw [step]
  cases (s.1.push k).1 with
  | none => simp
  | some eldest => simp [eq_comm]

namespace Tracks

theorem find?_eq_none (h : Tracks s) (hk : k ∉ s.1.keys) : s.2.find? k = none := by
  rw [Entries.find?_eq_none_iff]
  exact fun hmem => hk (h.tracked k hmem)

/-- After a put that is stored which the list still has. -/
theorem find?_put (h : Tracks s) (k k' : CacheKey) (x : Option Value) :
    (step s (.ask (.put k x))).2.find? k' =
      if k' ∈ s.1.used k then if k' = k then some x else s.2.find? k' else none := by
  rw [Lru.find?_put]
  by_cases hk : k' = k
  · subst hk
    simp [push_fst_ne h.wellFormed, mem_used_self h.wellFormed]
  · by_cases hmem : k' ∈ s.1.keys
    · simp [mem_used_iff h.wellFormed hmem hk, hk]
    · have hnew : k' ∉ s.1.used k := fun hused => (mem_of_mem_used hused).elim hk hmem
      simp [hk, hnew, h.find?_eq_none hmem]

/-- After a change of the capacity that is stored which the list still has. -/
theorem find?_resize (h : Tracks s) (n : Nat) (k : CacheKey) :
    (step s (.resize n)).2.find? k = if k ∈ s.1.keys.take n then s.2.find? k else none := by
  have hsplit := List.take_append_drop n s.1.keys
  have hnodup : (s.1.keys.take n ++ s.1.keys.drop n).Nodup := hsplit.symm ▸ h.wellFormed.nodup
  rw [step, resize, Entries.find?_foldl_erase]
  simp only [List.mem_reverse]
  by_cases htake : k ∈ s.1.keys.take n
  · have hdrop : k ∉ s.1.keys.drop n := List.disjoint_of_nodup_append hnodup htake
    simp [htake, hdrop]
  · by_cases hdrop : k ∈ s.1.keys.drop n
    · simp [htake, hdrop]
    · have hk : k ∉ s.1.keys := by
        rw [← hsplit, List.mem_append]
        tauto
      simp [htake, hdrop, h.find?_eq_none hk]

/-- Every request keeps the list well formed and the store inside it. -/
theorem step {r : ResizableRequest} (h : Tracks s) (hr : r.LeavesRoom) : Tracks (step s r) := by
  cases r with
  | ask r =>
    cases r with
    | put k x =>
      constructor
      · exact h.wellFormed.push k
      · intro k' hk'
        rw [← Entries.isSome_find?_iff, h.find?_put] at hk'
        rw [Lru.step, push_snd h.wellFormed]
        by_contra hnot
        simp [hnot] at hk'
    | get k =>
      constructor
      · exact h.wellFormed.touch k
      · intro k' hk'
        have hmem := h.tracked k' hk'
        rw [Lru.step, touch_eq h.wellFormed]
        split
        · rw [used_of_mem h.wellFormed ‹_›, List.mem_cons, h.wellFormed.nodup.mem_erase_iff]
          tauto
        · exact hmem
    | remove k =>
      constructor
      · exact h.wellFormed
      · intro k' hk'
        exact h.tracked k' (Entries.mem_keys_erase.1 hk').2
    | clear => exact tracks_fresh h.wellFormed.capacity_pos
    | size => exact h
    | releaseLock k => exact h
  | resize n =>
    constructor
    · exact h.wellFormed.resize hr
    · intro k hk
      rw [← Entries.isSome_find?_iff, h.find?_resize] at hk
      show k ∈ s.1.keys.take n
      by_contra hnot
      simp [hnot] at hk

theorem run {requests : List ResizableRequest} (h : Tracks s)
    (hr : ∀ r ∈ requests, r.LeavesRoom) : Tracks (requests.foldl Lru.step s) :=
  List.foldlRecOn requests Lru.step h fun _ hs r hmem => hs.step (hr r hmem)

/-- No more is stored than the capacity allows. -/
theorem size_le (h : Tracks s) : s.2.size ≤ s.1.capacity :=
  (Entries.size_le_length h.tracked).trans h.wellFormed.length_le

end Tracks

theorem capacity_step (s : Recency × Store) (r : ResizableRequest) :
    (step s r).1.capacity = r.capacityFrom s.1.capacity := by
  cases r with
  | ask r =>
    cases r with
    | put k x => exact capacity_push
    | get k => exact capacity_touch
    | _ => rfl
  | resize n => rfl

theorem capacity_run (s : Recency × Store) (requests : List ResizableRequest) :
    (requests.foldl step s).1.capacity = capacityAfter s.1.capacity requests :=
  capacity_foldl (fun s => s.1.capacity) capacity_step s requests

end Lru

end QueryCache
