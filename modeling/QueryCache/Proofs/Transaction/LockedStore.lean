import Mathlib
import QueryCache.Layer.Blocking
import QueryCache.Proofs.Cache.Operation
import QueryCache.Proofs.Layer.Eviction
import QueryCache.Proofs.Transaction.Buffer

/-!
# A store behind locks

What a layer of locks does around a store, call by call: a read of a key whose
lock is free ends at once, and keeps the lock if it found nothing; a read of a
key that another thread has locked waits, and may fail at its deadline; a put
and a rollback give locks back.

1. locks
2. reads of the locked store
3. reads, commits and rollbacks through a buffer
-/

namespace QueryCache

/-! ## Locks -/

namespace KeyLocks

variable {locks : KeyLocks} {k : CacheKey} {t : Thread}

theorem isFree_iff : locks.isFree k t = true ↔ ∀ t', locks.find? k = some t' → t' = t := by
  unfold isFree
  cases h : locks.find? k with
  | none => simp
  | some holder => simp

theorem find?_acquire (k' : CacheKey) :
    (locks.acquire k t).find? k' = if k' = k then some t else locks.find? k' :=
  Entries.find?_insert ..

theorem find?_release (k' : CacheKey) :
    (locks.release k t).find? k' =
      if k' = k ∧ locks.find? k = some t then none else locks.find? k' := by
  unfold release
  by_cases h : locks.find? k = some t
  · rw [if_pos h, Entries.find?_erase]
    by_cases hk : k' = k
    · rw [if_pos hk, if_pos ⟨hk, h⟩]
    · rw [if_neg hk, if_neg (fun hc => hk hc.1)]
  · rw [if_neg h, if_neg (fun hc => h hc.2)]

/-- The locks after a read: a value found gives the lock back. -/
def afterRead (locks : KeyLocks) (k : CacheKey) (t : Thread) (found : Option Value) : KeyLocks :=
  if found.isSome then (locks.acquire k t).release k t else locks.acquire k t

theorem find?_afterRead (found : Option Value) (k' : CacheKey) :
    (locks.afterRead k t found).find? k' =
      if k' = k then (if found.isSome then none else some t) else locks.find? k' := by
  unfold afterRead
  by_cases hf : found.isSome = true
  · have hself : (locks.acquire k t).find? k = some t := by
      rw [find?_acquire, if_pos rfl]
    rw [if_pos hf, if_pos hf, find?_release, hself, find?_acquire]
    by_cases hk : k' = k
    · rw [if_pos ⟨hk, rfl⟩, if_pos hk]
    · rw [if_neg (fun h => hk h.1), if_neg hk, if_neg hk]
  · rw [if_neg hf, if_neg hf, find?_acquire]

/-- A read of a key whose lock is free for the thread leaves the locks of the others. -/
theorem afterRead_others (hf : locks.isFree k t = true) (found : Option Value) {t' : Thread}
    (ht : t' ≠ t) (k' : CacheKey) :
    (locks.afterRead k t found).find? k' = some t' ↔ locks.find? k' = some t' := by
  rw [find?_afterRead]
  by_cases hk : k' = k
  · -- none of the others had the key
    subst hk
    have hnot : ¬ locks.find? k' = some t' := fun h => ht (isFree_iff.1 hf t' h)
    rw [if_pos rfl]
    split
    · constructor
      · intro h
        cases h
      · intro h
        exact absurd h hnot
    · constructor
      · intro h
        exact absurd (Option.some.inj h).symm ht
      · intro h
        exact absurd h hnot
  · rw [if_neg hk]

/-- A lock after a read is on a key that had none, or was there before. -/
theorem find?_of_afterRead {found : Option Value} {k' : CacheKey} {t' : Thread}
    (h : (locks.afterRead k t found).find? k' = some t') :
    (k' = k ∧ found = none) ∨ locks.find? k' = some t' := by
  rw [find?_afterRead] at h
  by_cases hk : k' = k
  · left
    rw [if_pos hk] at h
    cases found with
    | some v => cases h
    | none => exact ⟨hk, rfl⟩
  · right
    rw [if_neg hk] at h
    exact h

/-- The locks after a thread gave back those of the keys. -/
def releaseAll (locks : KeyLocks) (t : Thread) (keys : List CacheKey) : KeyLocks :=
  keys.foldl (fun l k => l.release k t) locks

theorem find?_releaseAll (keys : List CacheKey) (k' : CacheKey) :
    (locks.releaseAll t keys).find? k' =
      if k' ∈ keys ∧ locks.find? k' = some t then none else locks.find? k' := by
  induction keys generalizing locks with
  | nil => simp [releaseAll]
  | cons k rest ih =>
    have hstep : locks.releaseAll t (k :: rest) = (locks.release k t).releaseAll t rest := rfl
    rw [hstep, ih, find?_release]
    by_cases hk : k' = k
    · subst hk
      by_cases hl : locks.find? k' = some t
      · simp [hl]
      · simp [hl]
    · simp [hk]

end KeyLocks

namespace LockedStore

/-! ## Reads -/

/-- The locks and the store. -/
abbrev Base := KeyLocks × Store

/-- The store behind a layer of locks. -/
def cache (timeout : Option Duration) (id : String) : Cache Base :=
  Blocking.around timeout (Store.cache id)

section Calls

variable (timeout : Option Duration) (id : String) {k : CacheKey} {c : Caller} {e : Environment}
  {b : Buffer} {locks : KeyLocks} {s : Store}

/-- What the layer of locks does with the answer of the store. -/
theorem answer_eq (found : Option Value) :
    (match (.ok found : Except CacheError (Option Value)) with
      | .ok (some v) => do
        .ofOp (Blocking.release k)
        pure (some v)
      | .ok none => pure none
      | .error e => do
        .ofOp (Blocking.release k)
        .ofOp (Op.fail e) : CacheCall Base (Option Value)) c
      ⟨e, (locks.acquire k c.thread, s)⟩ =
    .done (.ok found) ⟨e, (locks.afterRead k c.thread found, s)⟩ := by
  cases found with
  | some v => rfl
  | none => rfl

/-- A read of a key whose lock is free for the thread ends at once. -/
theorem cache_get_of_isFree (hf : locks.isFree k c.thread = true) :
    (cache timeout id).get k c ⟨e, (locks, s)⟩ =
      .done (.ok (s.lookup k)) ⟨e, (locks.afterRead k c.thread (s.lookup k), s)⟩ := by
  have hacquire : Blocking.acquire timeout id k c ⟨e, (locks, s)⟩ =
      .done (.ok ()) ⟨e, (locks.acquire k c.thread, s)⟩ := if_pos hf
  show (Blocking.acquire timeout id k c ⟨e, (locks, s)⟩).bind _ c = _
  rw [hacquire]
  exact answer_eq (s.lookup k)

/-- The end of a read that waited for a lock: if the lock is free by then, it
ends like a read that did not wait, and else with an error. -/
def endOfWait (timeout : Option Duration) (id : String) (k : CacheKey) (t : Thread)
    (w : World Base) : Outcome CacheError Base (Option Value) :=
  if w.state.1.isFree k t then
    .done (.ok (w.state.2.lookup k))
      ⟨w.env, (w.state.1.afterRead k t (w.state.2.lookup k), w.state.2)⟩
  else .done (.error (.lockTimeout id k (timeout.getD ⟨0⟩))) w

/-- A read of a key that another thread has locked waits, and touches nothing. -/
theorem cache_get_of_not_isFree (hf : ¬ locks.isFree k c.thread = true) :
    ∃ wait resume, (cache timeout id).get k c ⟨e, (locks, s)⟩ =
        .waiting ⟨e, (locks, s)⟩ wait resume ∧
      (∀ w, wait.ready w = w.state.1.isFree k c.thread) ∧
      ∀ c' w, c'.thread = c.thread → resume c' w = endOfWait timeout id k c.thread w := by
  have hacquire : Blocking.acquire timeout id k c ⟨e, (locks, s)⟩ = _ := if_neg hf
  have hget : (cache timeout id).get k c ⟨e, (locks, s)⟩ =
      (Blocking.acquire timeout id k c ⟨e, (locks, s)⟩).bind _ c := rfl
  rw [hacquire] at hget
  refine ⟨_, _, hget, fun w => rfl, ?_⟩
  rintro c' ⟨e', locks', s'⟩ hc'
  unfold endOfWait
  dsimp only
  by_cases hf' : locks'.isFree k c.thread = true
  · -- the lock was given back in time
    have hready : Blocking.isReady k c'.thread ⟨e', (locks', s')⟩ = true := by
      rw [hc']
      exact hf'
    rw [if_pos hready, if_pos hf', ← hc']
    exact answer_eq (s'.lookup k)
  · -- the deadline came first
    have hready : ¬ Blocking.isReady k c'.thread ⟨e', (locks', s')⟩ = true := by
      rw [hc']
      exact hf'
    rw [if_neg hready, if_neg hf']
    rfl

/-! ## Calls through a buffer -/

/-- A read through a buffer, of a key whose lock is free for the thread. -/
theorem get_of_isFree (hf : locks.isFree k c.thread = true) :
    Buffer.get (cache timeout id) k c ⟨e, (b, (locks, s))⟩ =
      .done (.ok (if b.clearPending then none else s.lookup k))
        ⟨e, (b.afterGet k (s.lookup k),
          (locks.afterRead k c.thread (s.lookup k), s))⟩ := by
  have hget := cache_get_of_isFree timeout id (e := e) (s := s)
    (c := (Focus.second Buffer.held).caller (b, (locks, s)) c) hf
  have hstep : Buffer.get (cache timeout id) k c ⟨e, (b, (locks, s))⟩ =
      (((cache timeout id).get k ((Focus.second Buffer.held).caller (b, (locks, s)) c)
        ⟨e, (locks, s)⟩).widen (Focus.second Buffer.held) (b, (locks, s))).bind _ c := rfl
  rw [hstep, hget, ← b.clearPending_afterGet k (s.lookup k)]
  rfl

/-- The rest of a read through a buffer that waits for the lock of a key: it goes
on when the lock is free, like a read that starts then, and fails at its
deadline if it is not. -/
structure Awaits (timeout : Option Duration) (id : String) (k : CacheKey) (t : Thread)
    (wait : Wait (Buffer × Base))
    (resume : Caller → World (Buffer × Base) →
      Outcome CacheError (Buffer × Base) (Option Value)) : Prop where
  ready : ∀ w, wait.ready w = w.state.2.1.isFree k t
  free : ∀ c e b locks s, c.thread = t → locks.isFree k t = true →
    resume c ⟨e, (b, (locks, s))⟩ =
      .done (.ok (if b.clearPending then none else s.lookup k))
        ⟨e, (b.afterGet k (s.lookup k), (locks.afterRead k t (s.lookup k), s))⟩
  late : ∀ c e b locks s, c.thread = t → ¬ locks.isFree k t = true →
    resume c ⟨e, (b, (locks, s))⟩ =
      .done (.error (.lockTimeout id k (timeout.getD ⟨0⟩))) ⟨e, (b, (locks, s))⟩

/-- A read through a buffer of a key that another thread has locked waits. -/
theorem get_of_not_isFree (hf : ¬ locks.isFree k c.thread = true) :
    ∃ wait resume, Buffer.get (cache timeout id) k c ⟨e, (b, (locks, s))⟩ =
        .waiting ⟨e, (b, (locks, s))⟩ wait resume ∧
      Awaits timeout id k c.thread wait resume := by
  obtain ⟨wait, resume, hget, hready, hresume⟩ := cache_get_of_not_isFree timeout id
    (e := e) (s := s)
    (c := (Focus.second Buffer.held).caller (b, (locks, s)) c) hf
  have hstep : Buffer.get (cache timeout id) k c ⟨e, (b, (locks, s))⟩ =
      (((cache timeout id).get k ((Focus.second Buffer.held).caller (b, (locks, s)) c)
        ⟨e, (locks, s)⟩).widen (Focus.second Buffer.held) (b, (locks, s))).bind _ c := rfl
  rw [hget] at hstep
  refine ⟨_, _, hstep, ?_, ?_, ?_⟩
  · intro w
    exact hready _
  · intro c' e' b' locks' s' hc' hf'
    have hend := (hresume ((Focus.second Buffer.held).caller (b', (locks', s')) c')
      ⟨e', (locks', s')⟩ hc').trans (if_pos hf')
    show ((resume _ ⟨e', (locks', s')⟩).widen _ _).bind _ c' = _
    rw [hend, ← b'.clearPending_afterGet k (s'.lookup k)]
    rfl
  · intro c' e' b' locks' s' hc' hf'
    have hend := (hresume ((Focus.second Buffer.held).caller (b', (locks', s')) c')
      ⟨e', (locks', s')⟩ hc').trans (if_neg hf')
    show ((resume _ ⟨e', (locks', s')⟩).widen _ _).bind _ c' = _
    rw [hend]
    rfl

/-- A single put of a commit gives the lock of its key back. -/
theorem run_put (x : Option Value) :
    (Buffer.SharedCall.put k x).run (Buffer.shared (cache timeout id)) c
        ⟨e, (b, (locks, s))⟩ =
      .done (.ok ()) ⟨e, (b, (locks.release k c.thread, s.insert k x))⟩ := rfl

theorem releaseAll_eq (keys : List CacheKey) :
    Buffer.releaseAll (cache timeout id) keys c ⟨e, (b, (locks, s))⟩ =
      (.ok (), ⟨e, (b, (locks.releaseAll c.thread keys, s))⟩) := by
  induction keys generalizing locks with
  | nil => rfl
  | cons key rest ih =>
    have hstep : Buffer.releaseAll (cache timeout id) (key :: rest) c ⟨e, (b, (locks, s))⟩ =
        Buffer.releaseAll (cache timeout id) rest c
          ⟨e, (b, (locks.release key c.thread, s))⟩ := rfl
    rw [hstep, ih]
    rfl

/-- A rollback gives the locks of the missed keys back. -/
theorem rollback_eq :
    Buffer.rollback (cache timeout id) c ⟨e, (b, (locks, s))⟩ =
      (.ok (), ⟨e, (.empty, (locks.releaseAll c.thread b.misses, s))⟩) := by
  have hstep : Buffer.rollback (cache timeout id) c ⟨e, (b, (locks, s))⟩ =
      Op.bind (Buffer.releaseAll (cache timeout id) b.misses)
        (fun _ => Op.modifyLayer fun _ => .empty) c ⟨e, (b, (locks, s))⟩ := rfl
  rw [hstep, Op.bind, releaseAll_eq]
  rfl

end Calls

end LockedStore

end QueryCache
