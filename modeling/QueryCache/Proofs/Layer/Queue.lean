import Mathlib
import QueryCache.Entries.Lemmas
import QueryCache.Layer.Fifo
import QueryCache.Proofs.Cache.Resizable

/-!
# The queue of puts

The layer that evicts the oldest key, around a store.  Every key that is stored is in the
queue, so the queue bounds what is stored.  A put lets one key go at most: it keeps a queue
within the capacity that is within it already, but a queue that is too long, because the
capacity has become smaller since, stays as long as it is until a clear.

1. calls on the layer around a store
2. the queue and the store
3. puts after changes of the capacity
-/

namespace QueryCache.Fifo

/-! ## Calls -/

/-- The layer around a store. -/
def resizable (id : String) : ResizableCache (Fifo × Store) where
  cache := around (Store.cache id)
  setCapacity := setCapacity

/-- A new cache with a capacity. -/
def fresh (capacity : Nat) : Fifo × Store := ({ capacity }, .empty)

/-- What a request leaves. -/
def step (s : Fifo × Store) : ResizableRequest → Fifo × Store
  | .ask (.put k x) =>
    ((s.1.enqueue k).2, match (s.1.enqueue k).1 with
      | some oldest => (s.2.erase oldest).insert k x
      | none => s.2.insert k x)
  | .ask (.get _) => s
  | .ask (.remove k) => (s.1, s.2.erase k)
  | .ask .clear => ({ s.1 with queue := [] }, .empty)
  | .ask .size => s
  | .ask (.releaseLock _) => s
  | .resize n => ({ s.1 with capacity := n }, s.2)

/-- The key leaves that the queue gives up; then a put stores its value. -/
theorem put_run (id : String) (k : CacheKey) (x : Option Value) (c : Caller)
    (w : World (Fifo × Store)) : (around (Store.cache id)).put k x c w =
      .done (.ok ()) ⟨w.env, step w.state (.ask (.put k x))⟩ := by
  have hqueued : (Await.ofOp (Op.updateLayer (enqueue k)) : CacheCall (Fifo × Store) _) c w =
      .done (.ok (w.state.1.enqueue k).1) ⟨w.env, ((w.state.1.enqueue k).2, w.state.2)⟩ := by rfl
  refine (Await.bind_of_done hqueued).trans ?_
  rw [step]
  cases (w.state.1.enqueue k).1 with
  | none => rfl
  | some oldest => rfl

/-- Every call ends at once, with the answer of the store. -/
theorem serve_run (id : String) (r : Request) (c : Caller) (w : World (Fifo × Store)) :
    (around (Store.cache id)).serve r c w =
      .done (.ok (w.state.2.answer r)) ⟨w.env, step w.state (.ask r)⟩ := by
  cases r with
  | put k x => exact Await.bind_of_done (put_run id k x c w)
  | get k => rfl
  | remove k => rfl
  | clear => rfl
  | size => rfl
  | releaseLock k => rfl

theorem performs (id : String) : (resizable id).Performs step where
  ask r c w := ⟨_, serve_run id r c w⟩
  resize _ _ _ := rfl

/-! ## The queue and the store -/

variable {s : Fifo × Store} {k : CacheKey}

/-- What a put does to the queue: the oldest key leaves if there is no room for one more. -/
theorem enqueue_cases {f : Fifo} (hpos : 1 ≤ f.capacity) (k : CacheKey) :
    (f.queue.length < f.capacity ∧ f.enqueue k = (none, { f with queue := f.queue ++ [k] })) ∨
    ∃ oldest rest, f.capacity ≤ f.queue.length ∧ f.queue = oldest :: rest ∧
      f.enqueue k = (some oldest, { f with queue := rest ++ [k] }) := by
  by_cases hroom : f.queue.length < f.capacity
  · left
    have hfits : ¬ f.capacity < f.queue.length + 1 := by omega
    simp [enqueue, hroom, hfits]
  · right
    obtain ⟨oldest, rest, hqueue⟩ : ∃ oldest rest, f.queue = oldest :: rest := by
      apply List.exists_cons_of_length_pos
      omega
    have hfull : f.capacity < f.queue.length + 1 := by omega
    refine ⟨oldest, rest, by omega, hqueue, ?_⟩
    rw [hqueue, List.length_cons] at hfull
    simp [enqueue, hqueue, hfull]

theorem capacity_enqueue {f : Fifo} : (f.enqueue k).2.capacity = f.capacity := by
  rw [enqueue]
  split <;> rfl

/-- The length of the queue after a put: a queue that is too long does not become shorter. -/
theorem length_enqueue {f : Fifo} (hpos : 1 ≤ f.capacity) (k : CacheKey) :
    (f.enqueue k).2.queue.length = max f.queue.length (min (f.queue.length + 1) f.capacity) := by
  obtain ⟨hroom, henqueue⟩ | ⟨oldest, rest, hfull, hqueue, henqueue⟩ := enqueue_cases hpos k
  · simp only [henqueue, List.length_append, List.length_singleton]
    omega
  · rw [hqueue, List.length_cons] at hfull
    simp only [henqueue, hqueue, List.length_append, List.length_cons, List.length_nil]
    omega

/-- What is found after a put: the value that was put, and nothing under the key that had to
leave. -/
theorem find?_put (s : Fifo × Store) (k k' : CacheKey) (x : Option Value) :
    (step s (.ask (.put k x))).2.find? k' =
      if k' = k then some x else if (s.1.enqueue k).1 = some k' then none else s.2.find? k' := by
  rw [step]
  cases (s.1.enqueue k).1 with
  | none => simp
  | some oldest => simp [eq_comm]

/-- There is room for an entry, and the queue has every key that is stored. -/
structure Queued (s : Fifo × Store) : Prop where
  capacity_pos : 1 ≤ s.1.capacity
  queued : ∀ k ∈ s.2.keys, k ∈ s.1.queue

theorem queued_fresh {n : Nat} (hn : 1 ≤ n) : Queued (fresh n) := by
  constructor
  · exact hn
  · intro k hk
    cases hk

namespace Queued

/-- Every request keeps the store inside the queue. -/
theorem step {r : ResizableRequest} (h : Queued s) (hr : r.LeavesRoom) : Queued (step s r) := by
  cases r with
  | ask r =>
    cases r with
    | put k x =>
      constructor
      · rw [Fifo.step, capacity_enqueue]
        exact h.capacity_pos
      · intro k' hk'
        rw [← Entries.isSome_find?_iff, find?_put] at hk'
        rw [Fifo.step]
        by_cases hk : k' = k
        · obtain ⟨-, henqueue⟩ | ⟨_, _, -, -, henqueue⟩ := enqueue_cases h.capacity_pos k
          · simp [henqueue, hk]
          · simp [henqueue, hk]
        · rw [if_neg hk] at hk'
          obtain ⟨-, henqueue⟩ | ⟨oldest, rest, -, hqueue, henqueue⟩ :=
            enqueue_cases h.capacity_pos k
          · have hstored : k' ∈ s.2.keys := by simpa [henqueue, Entries.isSome_find?_iff] using hk'
            simp [henqueue, h.queued k' hstored]
          · -- the key is not the oldest one, for that one was taken out
            have hne : oldest ≠ k' := by
              rintro rfl
              simp [henqueue] at hk'
            have hstored : k' ∈ s.2.keys := by
              simpa [henqueue, hne, Entries.isSome_find?_iff] using hk'
            have hmem := h.queued k' hstored
            rw [hqueue, List.mem_cons] at hmem
            simp [henqueue, hmem.resolve_left (Ne.symm hne)]
    | remove k =>
      constructor
      · exact h.capacity_pos
      · intro k' hk'
        exact h.queued k' (Entries.mem_keys_erase.1 hk').2
    | clear => exact queued_fresh h.capacity_pos
    | get k => exact h
    | size => exact h
    | releaseLock k => exact h
  | resize n => exact ⟨hr, h.queued⟩

theorem run {requests : List ResizableRequest} (h : Queued s)
    (hr : ∀ r ∈ requests, r.LeavesRoom) : Queued (requests.foldl Fifo.step s) :=
  List.foldlRecOn requests Fifo.step h fun _ hs r hmem => hs.step (hr r hmem)

/-- No more is stored than stands in the queue. -/
theorem size_le (h : Queued s) : s.2.size ≤ s.1.queue.length := Entries.size_le_length h.queued

end Queued

theorem capacity_step (s : Fifo × Store) (r : ResizableRequest) :
    (step s r).1.capacity = r.capacityFrom s.1.capacity := by
  cases r with
  | ask r =>
    cases r with
    | put k x => exact capacity_enqueue
    | _ => rfl
  | resize n => rfl

theorem capacity_run (s : Fifo × Store) (requests : List ResizableRequest) :
    (requests.foldl step s).1.capacity = capacityAfter s.1.capacity requests :=
  capacity_foldl (fun s => s.1.capacity) capacity_step s requests

/-! ## Puts after changes of the capacity -/

theorem length_put (h : Queued s) (k : CacheKey) (x : Option Value) :
    (step s (.ask (.put k x))).1.queue.length =
      max s.1.queue.length (min (s.1.queue.length + 1) s.1.capacity) :=
  length_enqueue h.capacity_pos k

/-- A put keeps within the capacity exactly if the queue was within it before. -/
theorem fits_put_iff (h : Queued s) (k : CacheKey) (x : Option Value) :
    (step s (.ask (.put k x))).2.size ≤ s.1.capacity ∧
      (step s (.ask (.put k x))).1.queue.length ≤ s.1.capacity ↔
        s.1.queue.length ≤ s.1.capacity := by
  have hsize := (h.step (r := .ask (.put k x)) trivial).size_le
  rw [length_put h] at hsize ⊢
  omega

/-- After any calls on a new cache for `n` entries, each of which ends well, a put ends well too.
What is stored then is in the queue, and the queue is longer by one than before if there was
room, and else as long as before.  So both keep within the capacity exactly if the queue was
within it before the put: a queue that a change of the capacity has made too long stays so. -/
theorem bounded_after_put_iff (id : String) {n : Nat} (hn : 1 ≤ n) {visits : List ResizableVisit}
    (hroom : ∀ v ∈ visits, v.request.LeavesRoom) (k : CacheKey) (x : Option Value) (c : Caller)
    (e : Environment) :
    ∃ s s', (resizable id).after (fresh n) visits = some s ∧
      (resizable id).cache.put k x c ⟨e, s⟩ = .done (.ok ()) ⟨e, s'⟩ ∧
      s'.1.capacity = capacityAfter n (visits.map ResizableVisit.request) ∧
      s'.2.size ≤ s'.1.queue.length ∧
      s'.1.queue.length = max s.1.queue.length (min (s.1.queue.length + 1) s'.1.capacity) ∧
      (s'.2.size ≤ s'.1.capacity ∧ s'.1.queue.length ≤ s'.1.capacity ↔
        s.1.queue.length ≤ s'.1.capacity) := by
  have hrooms : ∀ r ∈ visits.map ResizableVisit.request, r.LeavesRoom := by
    simpa only [List.forall_mem_map] using hroom
  have hqueued := (queued_fresh hn).run hrooms
  have hcapacity := capacity_run (fresh n) (visits.map ResizableVisit.request)
  have hafter := (performs id).after_eq (fresh n) visits
  generalize (visits.map ResizableVisit.request).foldl step (fresh n) = s at *
  have hsame : (step s (.ask (.put k x))).1.capacity = s.1.capacity := capacity_step s _
  refine ⟨s, _, hafter, put_run id k x c ⟨e, s⟩, hsame.trans hcapacity,
    (hqueued.step (r := .ask (.put k x)) trivial).size_le, ?_, ?_⟩
  · rw [hsame]
    exact length_put hqueued k x
  · rw [hsame]
    exact fits_put_iff hqueued k x

/-- Two puts, and a change of the capacity to one. -/
def shrunk : List ResizableVisit :=
  [.ask (.put .null none), .ask (.put (.folded .empty) none), .resize 1].map
    fun r => ⟨⟨"main", []⟩, {}, r⟩

theorem leavesRoom_shrunk : ∀ v ∈ shrunk, v.request.LeavesRoom := by
  simp [shrunk, ResizableRequest.LeavesRoom]

/-- The queue that is too long stays as it is. -/
theorem bounded_after_put_iff_shrunk : ∃ s s', (resizable "users").after (fresh 2) shrunk = some s ∧
    (resizable "users").cache.put .null none ⟨"main", []⟩ ⟨{}, s⟩ = .done (.ok ()) ⟨{}, s'⟩ ∧
    s'.1.capacity = 1 ∧ s'.1.queue.length = 2 := by
  obtain ⟨s, s', hs, hput, hcapacity, -, hlength, -⟩ :=
    bounded_after_put_iff "users" (n := 2) (by decide) leavesRoom_shrunk .null none ⟨"main", []⟩ {}
  have hqueue : s.1.queue.length = 2 := by
    cases hs
    rfl
  have hone : s'.1.capacity = 1 := hcapacity
  refine ⟨s, s', hs, hput, hone, ?_⟩
  rw [hlength, hqueue, hone]
  rfl

/-- A change of the capacity counts from the next put on. -/
def ResizeTakesEffect (id : String) : Prop :=
  ∀ n, 1 ≤ n → ∀ visits : List ResizableVisit, (∀ v ∈ visits, v.request.LeavesRoom) →
    ∀ k x c e s s', (resizable id).after (fresh n) visits = some s →
      (resizable id).cache.put k x c ⟨e, s⟩ = .done (.ok ()) ⟨e, s'⟩ →
        s'.2.size ≤ s'.1.capacity ∧ s'.1.queue.length ≤ s'.1.capacity

/-- After the next put there are two entries, where one is allowed. -/
theorem not_resizeTakesEffect : ¬ ResizeTakesEffect "users" := by
  intro h
  have hbounds := h 2 (by decide) shrunk leavesRoom_shrunk .null none ⟨"main", []⟩ {} _ _ rfl rfl
  exact absurd hbounds.1 (by decide)

end QueryCache.Fifo
