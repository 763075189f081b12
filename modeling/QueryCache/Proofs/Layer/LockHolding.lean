import Mathlib
import QueryCache.Layer.Blocking
import QueryCache.Proofs.Cache.Interference
import QueryCache.Proofs.Transaction.LockedStore

/-!
# The locks that a thread has

For each call on a cache behind a layer of locks: how many locks the calling
thread can have after it.  A read adds the lock of its key if it misses, and
no lock else; a put and a release take the lock of their key away, also when
they fail; a clear changes nothing.  Other threads go on while a call waits,
and whatever the cache below does makes no difference.

1. the contract
2. the layer of locks
3. caches as parts of a larger state
-/

namespace QueryCache

variable {σ τ : Type}

/-! ## The contract -/

/-- The locks after a read, if these were the locks before. -/
def keysAfterGet (keys : Set CacheKey) (k : CacheKey) :
    Except CacheError (Option Value) → Set CacheKey
  | .ok none => insert k keys
  | _ => keys

/-- What the calls of a thread amid others do to its locks.  `within`: the
thread has the locks of these keys at most. -/
structure Locking (others : σ → σ → Prop) (t : Thread) (within : Set CacheKey → σ → Prop)
    (d : Cache σ) : Prop where
  mono : ∀ {keys keys' s}, within keys s → keys ⊆ keys' → within keys' s
  get : ∀ keys k, (d.get k).HoareAmid others t (within keys)
    fun r s => within (keysAfterGet keys k r) s
  put : ∀ keys k x, (d.put k x).HoareAmid others t (within keys) fun _ s => within (keys \ {k}) s
  clear : ∀ keys, d.clear.HoareAmid others t (within keys) fun _ s => within keys s
  releaseLock : ∀ keys k, (Await.ofOp (d.releaseLock k)).HoareAmid others t (within keys)
    fun _ s => within (keys \ {k}) s

/-! ## The layer of locks -/

namespace Blocking

/-- The thread has the locks of these keys at most. -/
def Within (t : Thread) (keys : Set CacheKey) (s : KeyLocks × σ) : Prop :=
  ∀ k, s.1.find? k = some t → k ∈ keys

/-- The locks of the thread are the same. -/
def Spares (t : Thread) (s s' : KeyLocks × σ) : Prop :=
  ∀ k, s'.1.find? k = some t ↔ s.1.find? k = some t

variable {t : Thread} {keys : Set CacheKey} {k : CacheKey} {s s' : KeyLocks × σ}

theorem Within.mono {keys' : Set CacheKey} (h : Within t keys s) (hkeys : keys ⊆ keys') :
    Within t keys' s := fun k hk => hkeys (h k hk)

theorem Within.spared (h : Within t keys s) (hs : Spares t s s') : Within t keys s' :=
  fun k hk => h k ((hs k).1 hk)

theorem Within.acquire (h : Within t keys s) (x : σ) :
    Within t (insert k keys) (s.1.acquire k t, x) := by
  intro k' hk'
  have hfind : (s.1.acquire k t).find? k' = some t := hk'
  rw [KeyLocks.find?_acquire] at hfind
  by_cases hk : k' = k
  · exact .inl hk
  · rw [if_neg hk] at hfind
    exact .inr (h k' hfind)

theorem Within.release (h : Within t keys s) (x : σ) :
    Within t (keys \ {k}) (s.1.release k t, x) := by
  intro k' hk'
  have hfind : (s.1.release k t).find? k' = some t := hk'
  rw [KeyLocks.find?_release] at hfind
  by_cases hk : k' = k ∧ s.1.find? k = some t
  · rw [if_pos hk] at hfind
    cases hfind
  · rw [if_neg hk] at hfind
    refine ⟨h k' hfind, ?_⟩
    intro heq
    cases heq
    exact hk ⟨rfl, hfind⟩

/-! ### Parts of calls -/

/-- A call on the cache below changes no lock. -/
theorem below_within {ε α : Type} (m : Await ε σ α) :
    ((Focus.second fun _ : KeyLocks => []).await m).HoareAmid (Spares t) t (Within t keys)
      fun _ => Within t keys := by
  have htrue : m.HoareAmid (fun _ _ => True) t (fun _ => True) fun _ _ => True := by
    intro c w _ _
    generalize m c w = o
    induction o with
    | done r w => trivial
    | waiting w wait resume ih => exact fun c w' _ _ _ => ih c w'
  have hfocus : ((Focus.second fun _ : KeyLocks => []).await m).HoareAmid (Spares t) t
      (fun s => Within t keys s ∧ True) fun _ s => Within t keys s ∧ True :=
    htrue.focus (fun _ _ _ => rfl) (fun _ _ h => h) fun _ _ h hs => ⟨h.spared hs, trivial⟩
  exact hfocus.mono (fun _ h => ⟨h, trivial⟩) fun _ _ h => h.1

theorem release_within {ε : Type} :
    (Await.ofOp (release k : Op ε (KeyLocks × σ) Unit)).HoareAmid (Spares t) t (Within t keys)
      fun r s => r = .ok () ∧ Within t (keys \ {k}) s := by
  refine .ofOp ?_
  rintro c w rfl hw
  exact ⟨rfl, hw.release w.state.2⟩

/-- The end of a call that gives its lock back. -/
theorem release_then_within {ε α : Type} (r : Except ε α) :
    (do .ofOp (release k); .ofOp (Op.ofExcept r) : Await ε (KeyLocks × σ) α).HoareAmid (Spares t) t
      (Within t keys) fun r' s => r' = r ∧ Within t (keys \ {k}) s := by
  refine .bind_ok release_within (.ofOp ?_)
  intro c w _ hw
  exact ⟨rfl, hw⟩

/-- A thread that gets a lock has this one more. -/
theorem acquire_within (timeout : Option Duration) (id : String) :
    (acquire timeout id k : CacheCall (KeyLocks × σ) Unit).HoareAmid (Spares t) t (Within t keys)
      fun r s => r = .ok () ∧ Within t (insert k keys) s ∨
        (∃ e, r = .error e) ∧ Within t keys s := by
  rintro c w rfl hw
  unfold acquire
  split
  · exact .inl ⟨rfl, hw.acquire w.state.2⟩
  · rintro c' w' hc' hs -
    have hw' : Within c'.thread keys w'.state := by
      rw [hc']
      exact hw.spared hs
    dsimp only
    split
    · rw [← hc']
      exact .inl ⟨rfl, hw'.acquire w'.state.2⟩
    · rw [← hc']
      exact .inr ⟨⟨_, rfl⟩, hw'⟩

/-! ### Calls -/

theorem insert_sdiff_subset : insert k keys \ {k} ⊆ keys := by
  rintro k' ⟨hk' | hk', hne⟩
  · exact absurd hk' hne
  · exact hk'

variable (timeout : Option Duration) (d : Cache σ)

theorem get_within :
    ((around timeout d).get k).HoareAmid (Spares t) t (Within t keys)
      fun r => Within t (keysAfterGet keys k r) := by
  refine .bind (acquire_within timeout d.id) ?_ ?_
  · intro u
    have hbelow : ((Focus.second fun _ : KeyLocks => []).await (d.get k)).HoareAmid (Spares t) t
        (Within t (insert k keys)) fun _ => Within t (insert k keys) := below_within (d.get k)
    refine .bind_result (hbelow.mono ?_ fun _ _ h => h) ?_
    · rintro s (⟨-, h⟩ | ⟨⟨e, he⟩, -⟩)
      · exact h
      · cases he
    · intro r
      -- Unless it missed, the read gives its lock back.
      have hend : (do .ofOp (release k); .ofOp (Op.ofExcept r) :
          CacheCall (KeyLocks × σ) (Option Value)).HoareAmid (Spares t) t
            (Within t (insert k keys)) fun r' s => r' = r ∧ Within t (insert k keys \ {k}) s :=
        release_then_within r
      match r with
      | .ok none => exact .pure fun s h => h
      | .ok (some v) =>
        refine hend.mono (fun _ h => h) ?_
        rintro r' s ⟨rfl, h⟩
        exact h.mono insert_sdiff_subset
      | .error e =>
        refine hend.mono (fun _ h => h) ?_
        rintro r' s ⟨rfl, h⟩
        exact h.mono insert_sdiff_subset
  · rintro e s (⟨he, -⟩ | ⟨-, h⟩)
    · cases he
    · exact h

theorem put_within (x : Option Value) :
    ((around timeout d).put k x).HoareAmid (Spares t) t (Within t keys)
      fun _ => Within t (keys \ {k}) := by
  refine .bind_result (below_within (d.put k x)) ?_
  intro r
  exact (release_then_within r).mono (fun _ h => h) fun _ _ h => h.2

theorem releaseLock_within :
    (Await.ofOp ((around timeout d).releaseLock k)).HoareAmid (Spares t) t (Within t keys)
      fun _ => Within t (keys \ {k}) :=
  .ofOp_bind (.bind_ok release_within (below_within (.ofOp (d.releaseLock k))))

/-- Whatever the cache below does. -/
theorem locking_around : Locking (Spares t) t (Within t) (around timeout d) where
  mono := Within.mono
  get _ _ := get_within timeout d
  put _ _ x := put_within timeout d x
  clear _ := below_within d.clear
  releaseLock _ _ := releaseLock_within timeout d

end Blocking

/-! ## Parts of a larger state -/

/-- The contract holds for a cache as a part of a larger state, around which the
rest is as the others leave it. -/
theorem Locking.within {others : σ → σ → Prop} {others' : τ → τ → Prop} {t : Thread}
    {within : Set CacheKey → σ → Prop} {d : Cache σ} (h : Locking others t within d)
    {f : Focus τ σ} {rest : τ → Prop} (hget : ∀ s x, rest s → f.get (f.set x s) = x)
    (hset : ∀ s x, rest s → rest (f.set x s))
    (hothers : ∀ s s', rest s → others' s s' → rest s' ∧ others (f.get s) (f.get s')) :
    Locking others' t (fun keys s => rest s ∧ within keys (f.get s)) (d.within f) where
  mono hs hkeys := ⟨hs.1, h.mono hs.2 hkeys⟩
  get keys k := (h.get keys k).focus hget hset hothers
  put keys k x := (h.put keys k x).focus hget hset hothers
  clear keys := (h.clear keys).focus hget hset hothers
  releaseLock keys k := (h.releaseLock keys k).focus hget hset hothers

end QueryCache
