import Mathlib
import QueryCache.Proofs.Layer.Recency

/-!
# How long a key stays

The layer that evicts the least recently used key, around a store, never holds more than its
capacity.  While the capacity is `n`, a key that was used stays until `n` other keys have been
used after it, and it is gone when `n` other keys have been put after its last use.

1. survival: fewer than `n` keys come in front of the key
2. eviction: `n` keys that were put came in front of it
3. both bounds
-/

namespace QueryCache.Lru

open Recency

variable {s : Recency × Store} {k : CacheKey} {others : Finset CacheKey}

/-! ## Survival -/

/-- The key is stored, and only keys of `others` were used since it was. -/
structure Recent (others : Finset CacheKey) (k : CacheKey) (s : Recency × Store) : Prop where
  stored : k ∈ s.2.keys
  near : ∃ front, Follows front k s.1.keys ∧ ∀ x ∈ front, x ∈ others

/-- The request asks to take the key out of the store. -/
def Discards (k : CacheKey) : ResizableRequest → Prop
  | .ask (.remove k') => k' = k
  | .ask .clear => True
  | _ => False

theorem mem_keys_put (h : Tracks s) {k k' : CacheKey} {x : Option Value} (hk : k' ∈ s.1.used k)
    (hstored : k' = k ∨ k' ∈ s.2.keys) : k' ∈ (step s (.ask (.put k x))).2.keys := by
  rw [← Entries.isSome_find?_iff, h.find?_put, if_pos hk]
  split
  · rfl
  · rw [Entries.isSome_find?_iff]
    tauto

theorem recent_put (h : Tracks s) (others : Finset CacheKey) (k : CacheKey) (x : Option Value) :
    Recent others k (step s (.ask (.put k x))) := by
  constructor
  · exact mem_keys_put h (mem_used_self h.wellFormed k) (.inl rfl)
  · refine ⟨[], ?_, by simp⟩
    rw [step, push_snd h.wellFormed]
    exact follows_used_self h.wellFormed k

theorem recent_get (h : Tracks s) (others : Finset CacheKey) (hk : k ∈ s.2.keys) :
    Recent others k (step s (.ask (.get k))) := by
  constructor
  · exact hk
  · refine ⟨[], ?_, by simp⟩
    rw [step, touch_eq h.wellFormed, if_pos (h.tracked k hk)]
    exact follows_used_self h.wellFormed k

namespace Recent

/-- The use of another key leaves less than the capacity in front of the key. -/
theorem used (hr : Recent others k s) (h : Tracks s) {x : CacheKey} (hx : x ∈ others)
    (hne : x ≠ k) (hroom : others.card < s.1.capacity) :
    ∃ front, Follows front k (s.1.used x) ∧ ∀ y ∈ front, y ∈ others := by
  obtain ⟨front, hfollows, hfront⟩ := hr.near
  have hnodup : front.Nodup := by
    obtain ⟨back, heq⟩ := hfollows
    have hkeys := h.wellFormed.nodup
    rw [heq] at hkeys
    exact hkeys.of_append_left
  have hothers : ∀ y ∈ x :: front.erase x, y ∈ others := by
    intro y hy
    rcases List.mem_cons.1 hy with rfl | hy
    · exact hx
    · exact hfront y (List.mem_of_mem_erase hy)
  -- different keys, all of them among the others
  have hlength : (x :: front.erase x).length ≤ others.card := by
    rw [← List.toFinset_card_of_nodup (List.nodup_cons.2 ⟨hnodup.not_mem_erase, hnodup.erase x⟩)]
    apply Finset.card_le_card
    intro y hy
    exact hothers y (List.mem_toFinset.1 hy)
  exact ⟨_, hfollows.used hne (by omega), hothers⟩

/-- A request that uses no key but the others, and does not discard the key, leaves it. -/
theorem step {r : ResizableRequest} (hr : Recent others k s) (h : Tracks s)
    (hroom : others.card < s.1.capacity) (hused : ∀ x, r.usedKey? = some x → x ≠ k → x ∈ others)
    (hkeeps : ¬ Discards k r) (hcapacity : r.capacityFrom s.1.capacity = s.1.capacity) :
    Recent others k (step s r) := by
  cases r with
  | ask r =>
    cases r with
    | put x y =>
      by_cases hx : x = k
      · subst hx
        exact recent_put h others x y
      · obtain ⟨front, hfollows, hfront⟩ := hr.used h (hused x rfl hx) hx hroom
        constructor
        · apply mem_keys_put h _ (.inr hr.stored)
          obtain ⟨back, heq⟩ := hfollows
          simp [heq]
        · refine ⟨front, ?_, hfront⟩
          rw [Lru.step, push_snd h.wellFormed]
          exact hfollows
    | get x =>
      by_cases hx : x = k
      · subst hx
        exact recent_get h others hr.stored
      · constructor
        · exact hr.stored
        · rw [Lru.step, touch_eq h.wellFormed]
          split
          · exact hr.used h (hused x rfl hx) hx hroom
          · exact hr.near
    | remove x =>
      constructor
      · exact Entries.mem_keys_erase.2 ⟨fun heq => hkeeps heq.symm, hr.stored⟩
      · exact hr.near
    | clear => exact absurd trivial hkeeps
    | size => exact hr
    | releaseLock x => exact hr
  | resize n =>
    -- the capacity is set to what it was, so nothing is too much
    have hn : n = s.1.capacity := hcapacity
    have hall : s.1.keys.take n = s.1.keys :=
      List.take_of_length_le (hn ▸ h.wellFormed.length_le)
    constructor
    · rw [← Entries.isSome_find?_iff, h.find?_resize, hall, if_pos (h.tracked k hr.stored),
        Entries.isSome_find?_iff]
      exact hr.stored
    · rw [Lru.step, resize, hall]
      exact hr.near

/-- A key stays as long as fewer than `n` other keys are used. -/
theorem run {requests : List ResizableRequest} (hr : Recent others k s) (h : Tracks s)
    (hroom : others.card < s.1.capacity)
    (hused : ∀ x ∈ requests.filterMap ResizableRequest.usedKey?, x ≠ k → x ∈ others)
    (hkeeps : ∀ r ∈ requests, ¬ Discards k r) (hcapacity : KeepsCapacity s.1.capacity requests) :
    k ∈ (requests.foldl Lru.step s).2.keys := by
  induction requests generalizing s with
  | nil => exact hr.stored
  | cons r rest ih =>
    have hsame := hcapacity r List.mem_cons_self
    have hnext := (capacity_step s r).trans hsame
    have hstep : Recent others k (Lru.step s r) := by
      apply hr.step h hroom _ (hkeeps r List.mem_cons_self) hsame
      intro x hx
      exact hused x (List.mem_filterMap.2 ⟨r, List.mem_cons_self, hx⟩)
    have hleaves : r.LeavesRoom := by
      cases r with
      | ask r => trivial
      | resize n => exact (show n = s.1.capacity from hsame) ▸ h.wellFormed.capacity_pos
    apply ih hstep (h.step hleaves)
    · rw [hnext]
      exact hroom
    · intro x hx
      obtain ⟨r', hr', hx⟩ := List.mem_filterMap.1 hx
      exact hused x (List.mem_filterMap.2 ⟨r', List.mem_cons_of_mem _ hr', hx⟩)
    · exact fun r' hr' => hkeeps r' (List.mem_cons_of_mem _ hr')
    · rw [hnext]
      exact fun r' hr' => hcapacity r' (List.mem_cons_of_mem _ hr')

end Recent

/-! ## Eviction -/

/-- A request that does not use the key puts its own key in front of it. -/
theorem trails_step {r : ResizableRequest} {ahead : List CacheKey} (h : Tracks s)
    (ht : Trails ahead k s.1.keys) (hr : r.usedKey? ≠ some k) :
    Trails (r.putKey?.toList ++ ahead) k (step s r).1.keys := by
  cases r with
  | ask r =>
    cases r with
    | put x y =>
      rw [step, push_snd h.wellFormed]
      exact ht.used h.wellFormed fun heq => hr (congrArg some heq)
    | get x =>
      rw [step, touch_eq h.wellFormed]
      split
      · have hused := ht.used h.wellFormed fun heq => hr (congrArg some heq)
        exact hused.mono fun y hy => List.mem_cons_of_mem x hy
      · exact ht
    | clear => exact fun hk => (by cases hk)
    | remove x => exact ht
    | size => exact ht
    | releaseLock x => exact ht
  | resize n => exact ht.take h.wellFormed.nodup n

/-- All keys that are put since the last use of a key are in front of it. -/
theorem trails_run {requests : List ResizableRequest} {ahead : List CacheKey} (h : Tracks s)
    (ht : Trails ahead k s.1.keys) (hroom : ∀ r ∈ requests, r.LeavesRoom)
    (hr : ∀ r ∈ requests, r.usedKey? ≠ some k) :
    Trails (requests.filterMap ResizableRequest.putKey? ++ ahead) k
      (requests.foldl step s).1.keys := by
  induction requests generalizing s ahead with
  | nil => exact ht
  | cons r rest ih =>
    have hstep := trails_step h ht (hr r List.mem_cons_self)
    have hrest := ih (h.step (hroom r List.mem_cons_self)) hstep
      (fun r' hr' => hroom r' (List.mem_cons_of_mem _ hr'))
      fun r' hr' => hr r' (List.mem_cons_of_mem _ hr')
    apply hrest.mono
    intro x hx
    rw [List.mem_append, List.mem_filterMap] at hx
    obtain ⟨r', hr', hput⟩ | hx := hx
    · rcases List.mem_cons.1 hr' with rfl | hr'
      · simp [hput]
      · rw [List.mem_append, List.mem_filterMap]
        exact .inl ⟨r', hr', hput⟩
    · simp [hx]

/-! ## Both bounds -/

/-- The request makes a stored key the last one that was used: it is a put of the key, or a
read of it that finds it stored after the calls before. -/
def Refreshes (id : String) (n : Nat) (before : List ResizableVisit) (k : CacheKey) :
    ResizableRequest → Prop
  | .ask (.put k' _) => k' = k
  | .ask (.get k') => k' = k ∧
    ∃ s, (resizable id).after (fresh n) before = some s ∧ k ∈ s.2.keys
  | _ => False

theorem recent_of_refreshes {id : String} {n : Nat} {before : List ResizableVisit}
    {r : ResizableRequest} (hr : Refreshes id n before k r)
    (h : Tracks ((before.map ResizableVisit.request).foldl step (fresh n)))
    (others : Finset CacheKey) :
    Recent others k (step ((before.map ResizableVisit.request).foldl step (fresh n)) r) := by
  cases r with
  | ask r =>
    cases r with
    | put x y =>
      cases hr
      exact recent_put h others _ y
    | get x =>
      obtain ⟨rfl, s, hs, hk⟩ := hr
      rw [(performs id).after_eq] at hs
      cases hs
      exact recent_get h others hk
    | _ => exact hr.elim
  | resize n => exact hr.elim

theorem survives {id : String} {n : Nat} (hn : 1 ≤ n) {before later : List ResizableVisit}
    {v : ResizableVisit} (hroom : ∀ u ∈ before ++ v :: later, u.request.LeavesRoom)
    (hkeeps : KeepsCapacity n ((before ++ v :: later).map ResizableVisit.request))
    (hrefreshes : Refreshes id n before k v.request)
    (hdiscards : ∀ u ∈ later, ¬ Discards k u.request)
    (hcard : ((later.filterMap fun u => u.request.usedKey?).toFinset.erase k).card < n) :
    k ∈ (((before ++ v :: later).map ResizableVisit.request).foldl step (fresh n)).2.keys := by
  have hbefore : Tracks ((before.map ResizableVisit.request).foldl step (fresh n)) := by
    apply (tracks_fresh hn).run
    simp only [List.forall_mem_map]
    exact fun u hu => hroom u (List.mem_append_left _ hu)
  have hrecent := recent_of_refreshes hrefreshes hbefore
    ((later.filterMap fun u => u.request.usedKey?).toFinset.erase k)
  rw [List.map_append, List.map_cons] at hkeeps ⊢
  rw [List.foldl_append, List.foldl_cons]
  have hcapacity : (step ((before.map ResizableVisit.request).foldl step (fresh n))
      v.request).1.capacity = n := by
    have hbase : KeepsCapacity n (before.map ResizableVisit.request) :=
      fun r hr => hkeeps r (by simp [hr])
    rw [capacity_step, capacity_run]
    exact (congrArg v.request.capacityFrom hbase.capacityAfter).trans (hkeeps v.request (by simp))
  apply hrecent.run (hbefore.step (hroom v (by simp)))
  · rw [hcapacity]
    exact hcard
  · intro x hx hne
    rw [List.filterMap_map] at hx
    exact Finset.mem_erase.2 ⟨hne, List.mem_toFinset.2 hx⟩
  · simp only [List.forall_mem_map]
    exact hdiscards
  · rw [hcapacity]
    exact fun r hr => hkeeps r (by simp [hr])

theorem evicted {n : Nat} (hn : 1 ≤ n) {before later : List ResizableVisit}
    (hroom : ∀ u ∈ before ++ later, u.request.LeavesRoom)
    (hkeeps : KeepsCapacity n ((before ++ later).map ResizableVisit.request))
    (hunused : ∀ u ∈ later, u.request.usedKey? ≠ some k)
    (hcard : n ≤ (later.filterMap fun u => u.request.putKey?).toFinset.card) :
    k ∉ (((before ++ later).map ResizableVisit.request).foldl step (fresh n)).2.keys := by
  intro hstored
  have hrooms : ∀ r ∈ (before ++ later).map ResizableVisit.request, r.LeavesRoom := by
    simpa only [List.forall_mem_map] using hroom
  have htracks := (tracks_fresh hn).run hrooms
  have hcapacity := (capacity_run (fresh n) _).trans hkeeps.capacityAfter
  have hbefore : Tracks ((before.map ResizableVisit.request).foldl step (fresh n)) := by
    apply (tracks_fresh hn).run
    exact fun r hr => hrooms r (by simp [hr])
  have hlater : ∀ r ∈ later.map ResizableVisit.request, r.LeavesRoom :=
    fun r hr => hrooms r (by simp [hr])
  have hends := trails_run hbefore (trails_nil k _) hlater (by simpa using hunused)
  rw [List.append_nil, ← List.foldl_append, ← List.map_append, List.filterMap_map] at hends
  have hlt := hends.card_lt htracks.wellFormed (htracks.tracked k hstored)
  rw [hcapacity] at hlt
  exact absurd hcard (Nat.not_le.2 hlt)

/-- After any calls on a new cache for `n` entries, each of which ends well, no more is stored
than the capacity allows, every stored key is in the list, and a put deletes at most one other
key.  While the capacity is `n`: a key that was put, or read while it was stored, and has not
been discarded since, is stored as long as fewer than `n` other keys have been used since; and
a key is not stored if `n` other keys have been put since it was last used. -/
theorem survival_and_eviction (id : String) {n : Nat} (hn : 1 ≤ n) {visits : List ResizableVisit}
    (hroom : ∀ v ∈ visits, v.request.LeavesRoom) :
    ∃ s, (resizable id).after (fresh n) visits = some s ∧
      s.1.capacity = capacityAfter n (visits.map ResizableVisit.request) ∧
      s.2.size ≤ s.1.capacity ∧ (∀ k ∈ s.2.keys, k ∈ s.1.keys) ∧
      (∀ k x c e, ∃ gone s', (resizable id).cache.put k x c ⟨e, s⟩ = .done (.ok ()) ⟨e, s'⟩ ∧
        gone ≠ some k ∧ ∀ k', s'.2.find? k' =
          if gone = some k' then none else if k' = k then some x else s.2.find? k') ∧
      (KeepsCapacity n (visits.map ResizableVisit.request) →
        (∀ before v later k, visits = before ++ v :: later → Refreshes id n before k v.request →
          (∀ u ∈ later, ¬ Discards k u.request) →
          ((later.filterMap fun u => u.request.usedKey?).toFinset.erase k).card < n →
          k ∈ s.2.keys) ∧
        ∀ before later k, visits = before ++ later →
          (∀ u ∈ later, u.request.usedKey? ≠ some k) →
          n ≤ (later.filterMap fun u => u.request.putKey?).toFinset.card → k ∉ s.2.keys) := by
  have hrooms : ∀ r ∈ visits.map ResizableVisit.request, r.LeavesRoom := by
    simpa only [List.forall_mem_map] using hroom
  have htracks := (tracks_fresh hn).run hrooms
  refine ⟨_, (performs id).after_eq _ visits, capacity_run .., htracks.size_le, htracks.tracked,
    ?_, ?_⟩
  · intro k x c e
    exact ⟨_, _, put_run id k x c _, push_fst_ne htracks.wellFormed k, fun k' => find?_put ..⟩
  · intro hkeeps
    constructor
    · rintro before v later k rfl hrefreshes hdiscards hcard
      exact survives hn hroom hkeeps hrefreshes hdiscards hcard
    · rintro before later k rfl hunused hcard
      exact evicted hn hroom hkeeps hunused hcard

/-! ### Two entries -/

/-- A call of the main thread. -/
def asked (r : Request) : ResizableVisit := ⟨⟨"main", []⟩, {}, .ask r⟩

/-- A third key, beside the null key and the key of no components. -/
def thirdKey : CacheKey := (KeyBuilder.empty.update .null).build

/-- Two keys are put, the second one is read, and a third one is put. -/
def fourCalls : List ResizableVisit :=
  [asked (.put (.folded .empty) none), asked (.put .null none), asked (.get .null),
    asked (.put thirdKey none)]

/-- The key that was read stays, and the other one leaves. -/
theorem survival_and_eviction_two : ∃ s, (resizable "users").after (fresh 2) fourCalls = some s ∧
    s.2.size ≤ 2 ∧ .null ∈ s.2.keys ∧ .folded .empty ∉ s.2.keys := by
  have hroom : ∀ v ∈ fourCalls, v.request.LeavesRoom := by
    simp [fourCalls, asked, ResizableRequest.LeavesRoom]
  have hkeeps : KeepsCapacity 2 (fourCalls.map ResizableVisit.request) := by
    simp [KeepsCapacity, fourCalls, asked, ResizableRequest.capacityFrom]
  obtain ⟨s, hs, hcapacity, hsize, -, -, hbounds⟩ :=
    survival_and_eviction "users" (n := 2) (by decide) hroom
  obtain ⟨hsurvives, hevicted⟩ := hbounds hkeeps
  rw [hkeeps.capacityAfter] at hcapacity
  refine ⟨s, hs, hcapacity ▸ hsize, ?_, ?_⟩
  · have hread : Refreshes "users" 2 (fourCalls.take 2) .null (.ask (.get .null)) :=
      ⟨rfl, _, by rfl, by decide⟩
    exact hsurvives (fourCalls.take 2) (asked (.get .null)) [asked (.put thirdKey none)] .null rfl
      hread (by simp [asked, Discards]) (by decide)
  · exact hevicted (fourCalls.take 1) (fourCalls.drop 1) (.folded .empty) rfl
      (by decide)
      (by decide)

end QueryCache.Lru
