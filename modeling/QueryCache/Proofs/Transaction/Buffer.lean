import Mathlib
import QueryCache.Cache.Pool
import QueryCache.Entries.Lemmas
import QueryCache.Transaction.Buffer

/-!
# What the calls of a commit do to a store

The calls of a commit, made one after the other on a store, have an effect that
can be told key by key: a buffered write wins, then the absence of a missed
key, then the clear.  The order of the missed keys makes no difference.

1. calls on a store
2. the effect of a plan
3. the operations of a buffer over a plain store
-/

namespace QueryCache.Buffer

/-! ## Calls on a store -/

namespace SharedCall

/-- The store after a call. -/
def apply (s : Store) : SharedCall → Store
  | clear => .empty
  | put k x => s.insert k x

/-- The store after calls in order. -/
def applyAll (s : Store) (calls : List SharedCall) : Store := calls.foldl apply s

theorem applyAll_append (s : Store) (calls more : List SharedCall) :
    applyAll s (calls ++ more) = applyAll (applyAll s calls) more := List.foldl_append

/-- Puts under distinct keys. -/
theorem find?_applyAll_puts (writes : List (CacheKey × Option Value))
    (h : (writes.map Prod.fst).Nodup) (s : Store) (k : CacheKey) :
    (applyAll s (writes.map fun e => .put e.1 e.2)).find? k =
      match (writes.find? (·.1 = k)).map Prod.snd with
      | some x => some x
      | none => s.find? k := by
  induction writes generalizing s with
  | nil => rfl
  | cons e rest ih =>
    rw [List.map_cons, List.nodup_cons] at h
    have hstep : applyAll s ((e :: rest).map fun e => SharedCall.put e.1 e.2) =
        applyAll (s.insert e.1 e.2) (rest.map fun e => SharedCall.put e.1 e.2) := rfl
    rw [hstep, ih h.2]
    by_cases hk : e.1 = k
    · -- no later put is under the key, so this one stays
      subst hk
      have hrest : rest.find? (fun x => decide (x.1 = e.1)) = none := by
        rw [List.find?_eq_none]
        intro x hx
        have hne : x.1 ≠ e.1 := fun heq => h.1 (heq ▸ List.mem_map_of_mem hx)
        simpa using hne
      simp [hrest]
    · have hk' : ¬ k = e.1 := fun heq => hk heq.symm
      simp [hk, hk']

/-- Absences under any keys. -/
theorem find?_applyAll_absences (keys : List CacheKey) (s : Store) (k : CacheKey) :
    (applyAll s (keys.map (.put · none))).find? k = if k ∈ keys then some none else s.find? k := by
  induction keys generalizing s with
  | nil => rfl
  | cons key rest ih =>
    have hstep : applyAll s ((key :: rest).map (SharedCall.put · none)) =
        applyAll (s.insert key none) (rest.map (SharedCall.put · none)) := rfl
    rw [hstep, ih, Entries.find?_insert]
    by_cases hk : k ∈ rest
    · rw [if_pos hk, if_pos (List.mem_cons_of_mem _ hk)]
    · rw [if_neg hk]
      by_cases he : k = key
      · rw [if_pos he, if_pos (by rw [he]; exact List.mem_cons_self)]
      · rw [if_neg he, if_neg]
        intro hm
        rcases List.mem_cons.1 hm with hm | hm
        · exact he hm
        · exact hk hm

end SharedCall

/-! ## The effect of a plan -/

open SharedCall (applyAll)

/-- The store after a commit, key by key. -/
theorem find?_applyAll_planWith (b : Buffer) (misses : List CacheKey) (s : Store) (k : CacheKey) :
    (applyAll s (b.planWith misses)).find? k =
      match b.writes.find? k with
      | some x => some x
      | none =>
        if k ∈ misses then some none
        else if b.clearPending then none
        else s.find? k := by
  have hclear : (applyAll s (if b.clearPending then [.clear] else [])).find? k =
      if b.clearPending then none else s.find? k := by
    cases b.clearPending with
    | true => rfl
    | false => rfl
  rw [planWith, SharedCall.applyAll_append, SharedCall.applyAll_append,
    SharedCall.find?_applyAll_absences, SharedCall.find?_applyAll_puts _ b.writes.nodup, hclear]
  have hw : (b.writes.toList.find? (·.1 = k)).map Prod.snd = b.writes.find? k := rfl
  have hmem : k ∈ misses.filter (fun k => !b.writes.contains k) ↔
      k ∈ misses ∧ b.writes.find? k = none := by
    rw [List.mem_filter, Entries.contains_eq_isSome_find?]
    simp
  rw [hw]
  cases hx : b.writes.find? k with
  | some x =>
    -- a written key gets no absence
    rw [if_neg]
    rw [hmem, hx]
    simp
  | none =>
    by_cases hm : k ∈ misses
    · rw [if_pos (hmem.2 ⟨hm, hx⟩), if_pos hm]
    · rw [if_neg (fun h => hm (hmem.1 h).1), if_neg hm]

/-! ## A buffer over a plain store -/

section Pool

variable (id : String) {i : Nat} {p : Pool} {e : Environment} {c : Caller}

theorem storeAt_setStore (hi : i < p.stores.length) (s : Store) :
    (p.setStore i s).storeAt i = s := by
  simp [Pool.storeAt, Pool.setStore, List.getD, hi]

theorem storeAt_setStore_ne {j : Nat} (hij : i ≠ j) (s : Store) :
    (p.setStore i s).storeAt j = p.storeAt j := by
  simp [Pool.storeAt, Pool.setStore, List.getD, List.getElem?_set_ne hij]

theorem setStore_setStore (s s' : Store) : (p.setStore i s).setStore i s' = p.setStore i s' := by
  simp [Pool.setStore]

theorem length_setStore (s : Store) : (p.setStore i s).stores.length = p.stores.length := by
  simp [Pool.setStore]

theorem setStore_storeAt (hi : i < p.stores.length) : p.setStore i (p.storeAt i) = p := by
  simp [Pool.storeAt, Pool.setStore, List.getD, hi]

/-- A call on the store of a pool. -/
theorem run_store (call : SharedCall) (b : Buffer) :
    call.run (shared (Pool.cache ⟨id, i, []⟩)) c ⟨e, (b, p)⟩ =
      .done (.ok ()) ⟨e, (b, p.setStore i (call.apply (p.storeAt i)))⟩ := by
  cases call with
  | clear => rfl
  | put k x => rfl

/-- Calls on the store of a pool, one after the other. -/
theorem runAll_store (hi : i < p.stores.length) (calls : List SharedCall) (b : Buffer) :
    SharedCall.runAll (shared (Pool.cache ⟨id, i, []⟩)) calls c ⟨e, (b, p)⟩ =
      .done (.ok ()) ⟨e, (b, p.setStore i (applyAll (p.storeAt i) calls))⟩ := by
  induction calls generalizing p with
  | nil =>
    have hp : p.setStore i (applyAll (p.storeAt i) []) = p := setStore_storeAt hi
    rw [hp]
    rfl
  | cons call rest ih =>
    have hstep : SharedCall.runAll (shared (Pool.cache ⟨id, i, []⟩)) (call :: rest) c ⟨e, (b, p)⟩ =
        (call.run (shared (Pool.cache ⟨id, i, []⟩)) c ⟨e, (b, p)⟩).bind
          (fun _ => SharedCall.runAll (shared (Pool.cache ⟨id, i, []⟩)) rest) c := rfl
    rw [hstep, run_store]
    -- The pool has as many stores after the call as before.
    have hi' : i < (p.setStore i (call.apply (p.storeAt i))).stores.length := by
      rwa [length_setStore]
    have hrest := ih hi'
    rw [storeAt_setStore hi, setStore_setStore] at hrest
    exact hrest

theorem commitWith_store (hi : i < p.stores.length) (order : Buffer → List CacheKey) (b : Buffer) :
    commitWith order (Pool.cache ⟨id, i, []⟩) c ⟨e, (b, p)⟩ =
      .done (.ok ())
        ⟨e, (empty, p.setStore i (applyAll (p.storeAt i) (b.planWith (order b))))⟩ := by
  have hstep : commitWith order (Pool.cache ⟨id, i, []⟩) c ⟨e, (b, p)⟩ =
      (SharedCall.runAll (shared (Pool.cache ⟨id, i, []⟩)) (b.planWith (order b)) c
        ⟨e, (b, p)⟩).bind (fun _ => Await.ofOp (Op.modifyLayer fun _ => empty)) c := rfl
  rw [hstep, runAll_store id hi]
  rfl

theorem releaseAll_store (hi : i < p.stores.length) (keys : List CacheKey) (b : Buffer) :
    releaseAll (Pool.cache ⟨id, i, []⟩) keys c ⟨e, (b, p)⟩ = (.ok (), ⟨e, (b, p)⟩) := by
  induction keys with
  | nil => rfl
  | cons key rest ih =>
    have hstep : releaseAll (Pool.cache ⟨id, i, []⟩) (key :: rest) c ⟨e, (b, p)⟩ =
        releaseAll (Pool.cache ⟨id, i, []⟩) rest c
          ⟨e, (b, p.setStore i (p.storeAt i))⟩ := rfl
    rw [hstep, setStore_storeAt hi, ih]

theorem rollback_store (hi : i < p.stores.length) (b : Buffer) :
    rollback (Pool.cache ⟨id, i, []⟩) c ⟨e, (b, p)⟩ = (.ok (), ⟨e, (empty, p)⟩) := by
  have hstep : rollback (Pool.cache ⟨id, i, []⟩) c ⟨e, (b, p)⟩ =
      Op.bind (releaseAll (Pool.cache ⟨id, i, []⟩) b.misses)
        (fun _ => Op.modifyLayer fun _ => empty) c ⟨e, (b, p)⟩ := rfl
  rw [hstep, Op.bind, releaseAll_store id hi]
  rfl

/-- The buffer after a read that found a value or none. -/
def afterGet (b : Buffer) (k : CacheKey) (found : Option Value) : Buffer :=
  if found.isNone then b.miss k else b

@[simp]
theorem mem_misses_miss (b : Buffer) (k k' : CacheKey) :
    k' ∈ (b.miss k).misses ↔ k' = k ∨ k' ∈ b.misses := by
  unfold miss
  by_cases hk : k ∈ b.misses
  · rw [if_pos hk]
    constructor
    · exact Or.inr
    · rintro (rfl | h)
      · exact hk
      · exact h
  · rw [if_neg hk]
    simp [or_comm]

theorem nodup_misses_miss {b : Buffer} (h : b.misses.Nodup) (k : CacheKey) :
    (b.miss k).misses.Nodup := by
  unfold miss
  by_cases hk : k ∈ b.misses
  · rw [if_pos hk]
    exact h
  · rw [if_neg hk]
    exact List.nodup_append.2 ⟨h, List.nodup_singleton k, by
      rintro x hx y hy rfl
      rw [List.mem_singleton.1 hy] at hx
      exact hk hx⟩

@[simp]
theorem writes_miss (b : Buffer) (k : CacheKey) : (b.miss k).writes = b.writes := by
  unfold miss
  split
  · rfl
  · rfl

@[simp]
theorem clearPending_miss (b : Buffer) (k : CacheKey) :
    (b.miss k).clearPending = b.clearPending := by
  unfold miss
  split
  · rfl
  · rfl

theorem writes_afterGet (b : Buffer) (k : CacheKey) (found : Option Value) :
    (b.afterGet k found).writes = b.writes := by
  unfold afterGet
  split
  · exact b.writes_miss k
  · rfl

theorem clearPending_afterGet (b : Buffer) (k : CacheKey) (found : Option Value) :
    (b.afterGet k found).clearPending = b.clearPending := by
  unfold afterGet
  split
  · exact b.clearPending_miss k
  · rfl

theorem get_store (hi : i < p.stores.length) (k : CacheKey) (b : Buffer) :
    get (Pool.cache ⟨id, i, []⟩) k c ⟨e, (b, p)⟩ =
      .done (.ok (if b.clearPending then none else (p.storeAt i).lookup k))
        ⟨e, (b.afterGet k ((p.storeAt i).lookup k), p)⟩ := by
  have hstep : get (Pool.cache ⟨id, i, []⟩) k c ⟨e, (b, p)⟩ =
      .done (.ok (if (b.afterGet k ((p.storeAt i).lookup k)).clearPending then none
        else (p.storeAt i).lookup k))
        ⟨e, (b.afterGet k ((p.storeAt i).lookup k), p.setStore i (p.storeAt i))⟩ := rfl
  rw [hstep, clearPending_afterGet, setStore_storeAt hi]

end Pool

end QueryCache.Buffer
