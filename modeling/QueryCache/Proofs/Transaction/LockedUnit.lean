import Mathlib
import QueryCache.Proofs.Layer.LockHolding
import QueryCache.Proofs.Transaction.GuardedUnit

/-!
# Locks that a unit of work leaves behind

One thread works on shared caches behind locks, through one unit of work, while
other threads go on.  After every call, each lock that the thread has is that of
a key which the buffer for the cache has as missed, whatever failed.  So a
commit that succeeds leaves no lock behind, and a rollback leaves none in any
case.

1. rollbacks in any order
2. a buffer over a cache with locks
3. the buffers of a unit
4. commit and rollback
5. many caches with locks
6. no lock is left behind
-/

namespace QueryCache

/-! ## Rollbacks in any order -/

namespace Buffer

variable {σ : Type}

/-- Gives the locks of the missed keys back in the order that `order` gives, and
empties the buffer. -/
def rollbackWith (order : Buffer → List CacheKey) (d : Cache σ) : CacheOp (Buffer × σ) Unit := do
  let b ← Op.layer
  releaseAll d (order b)
  Op.modifyLayer fun _ => empty

end Buffer

namespace UnitOfWork

variable {ρ σ : Type}

/-- Rolls back the buffers for the ids in order, the missed keys of each in the
order that `misses` gives. -/
def rollbackAllWith (misses : Buffer → List CacheKey) (caches : ρ → Cache σ) :
    List (String × ρ) → CacheOp (UnitOfWork ρ × σ) Unit
  | [] => pure ()
  | (id, r) :: rest => do
    (focus id).run (Buffer.rollbackWith misses (caches r))
    rollbackAllWith misses caches rest

/-- Rolls back every buffer, in the order that `order` gives. -/
def rollbackWith (order : UnitOfWork ρ → List (String × ρ)) (misses : Buffer → List CacheKey)
    (caches : ρ → Cache σ) : CacheOp (UnitOfWork ρ × σ) Unit := do
  let u ← Op.layer
  rollbackAllWith misses caches (order u)
  renew

theorem rollbackAllWith_misses (caches : ρ → Cache σ) (list : List (String × ρ)) :
    rollbackAllWith Buffer.misses caches list = rollbackAll caches list := by
  induction list with
  | nil => rfl
  | cons entry rest ih =>
    rw [rollbackAllWith, rollbackAll, ih]
    rfl

/-- The rollback of a unit takes the buffers and the keys as they were touched. -/
theorem rollbackWith_touched (caches : ρ → Cache σ) :
    rollbackWith touched Buffer.misses caches = rollback caches := by
  unfold rollbackWith rollback
  simp only [rollbackAllWith_misses]

end UnitOfWork

/-! ## A buffer over a cache with locks -/

/-- The own part of a state is the same, and the others did what they may. -/
def Beside {lam σ : Type} (others : σ → σ → Prop) (s s' : lam × σ) : Prop :=
  s'.1 = s.1 ∧ others s.2 s'.2

namespace Buffer

variable {σ : Type} {others : σ → σ → Prop} {t : Thread} {within : Set CacheKey → σ → Prop}
  {d : Cache σ}

/-- The keys for which a read found nothing. -/
def missed (b : Buffer) : Set CacheKey := fun k => k ∈ b.misses

theorem missed_miss (b : Buffer) (k : CacheKey) : (b.miss k).missed = insert k b.missed := by
  ext k'
  exact b.mem_misses_miss k k'

theorem missed_empty : empty.missed = ∅ := by
  ext k
  exact List.mem_nil_iff k

/-- The thread has no locks but those of missed keys. -/
def Covered (within : Set CacheKey → σ → Prop) (s : Buffer × σ) : Prop := within s.1.missed s.2

theorem locking_shared (h : Locking others t within d) (b : Buffer) :
    Locking (Beside others) t (fun keys s => s.1 = b ∧ within keys s.2) (shared d) := by
  refine Locking.within (f := Focus.second held) h ?_ ?_ ?_
  · intro s x _
    rfl
  · intro s x hb
    exact hb
  · rintro s s' hb ⟨heq, hs⟩
    exact ⟨heq.trans hb, hs⟩

theorem layer_covered (b : Buffer) :
    (Await.ofOp Op.layer : CacheCall (Buffer × σ) Buffer).HoareAmid (Beside others) t
      (fun s => s.1 = b ∧ within b.missed s.2)
      fun r s => r = .ok b ∧ s.1 = b ∧ within b.missed s.2 := by
  refine .ofOp ?_
  rintro c ⟨e, b', y⟩ _ ⟨rfl, hy⟩
  exact ⟨rfl, rfl, hy⟩

/-- A read that misses notes the key, so its lock is that of a missed key. -/
theorem get_covered (h : Locking others t within d) (b : Buffer) (k : CacheKey) :
    (get d k).HoareAmid (Beside others) t (fun s => s.1 = b ∧ within b.missed s.2)
      fun _ => Covered within := by
  refine .bind ((locking_shared h b).get b.missed k) ?_ ?_
  · intro found
    refine .ofOp ?_
    rintro c ⟨e, b', y⟩ _ ⟨rfl, hy⟩
    cases found with
    | none =>
      show within (b'.miss k).missed y
      rw [missed_miss]
      exact hy
    | some v => exact hy
  · rintro e ⟨_, y⟩ ⟨rfl, hy⟩
    exact hy

/-- The keys that the calls put something under. -/
def putKeys (calls : List SharedCall) : Set CacheKey := fun k => ∃ x, SharedCall.put k x ∈ calls

theorem putKeys_nil : putKeys [] = ∅ := by
  ext k
  exact iff_of_false (fun ⟨_, hx⟩ => List.not_mem_nil hx) (Set.notMem_empty k)

theorem putKeys_clear (calls : List SharedCall) : putKeys (.clear :: calls) = putKeys calls := by
  ext k
  exact exists_congr fun x => by simp

theorem putKeys_put (k : CacheKey) (x : Option Value) (calls : List SharedCall) :
    putKeys (.put k x :: calls) = {k} ∪ putKeys calls := by
  ext k'
  constructor
  · rintro ⟨x', hx'⟩
    rcases List.mem_cons.1 hx' with hx' | hx'
    · cases hx'
      exact .inl rfl
    · exact .inr ⟨x', hx'⟩
  · rintro (rfl | ⟨x', hx'⟩)
    · exact ⟨x, List.mem_cons_self⟩
    · exact ⟨x', List.mem_cons_of_mem _ hx'⟩

/-- Calls that all succeed give back the locks of the keys they put something under. -/
theorem runAll_within (h : Locking others t within d) (b : Buffer) (keys : Set CacheKey)
    (calls : List SharedCall) :
    (SharedCall.runAll (shared d) calls).HoareAmid (Beside others) t
      (fun s => s.1 = b ∧ within keys s.2)
      fun r s => s.1 = b ∧ within keys s.2 ∧ (r = .ok () → within (keys \ putKeys calls) s.2) := by
  have hshared := locking_shared h b
  induction calls generalizing keys with
  | nil =>
    refine .pure ?_
    rintro s ⟨hb, hs⟩
    rw [putKeys_nil, Set.sdiff_empty]
    exact ⟨hb, hs, fun _ => hs⟩
  | cons call rest ih =>
    cases call with
    | clear =>
      rw [putKeys_clear]
      refine .bind (hshared.clear keys) (fun _ => ih keys) ?_
      rintro e s ⟨hb, hs⟩
      exact ⟨hb, hs, nofun⟩
    | put k x =>
      rw [putKeys_put, ← Set.sdiff_sdiff]
      refine .bind (hshared.put keys k x) ?_ ?_
      · intro _
        refine (ih (keys \ {k})).mono (fun _ hs => hs) ?_
        rintro r s ⟨hb, hs, hok⟩
        exact ⟨hb, h.mono hs Set.sdiff_subset, hok⟩
      · rintro e s ⟨hb, hs⟩
        exact ⟨hb, h.mono hs Set.sdiff_subset, nofun⟩

/-- A commit puts something under every missed key. -/
theorem missed_subset_putKeys (b : Buffer) {misses : List CacheKey} (hm : misses.Perm b.misses) :
    b.missed ⊆ putKeys (b.planWith misses) := by
  intro k hk
  have hmem : k ∈ misses := hm.mem_iff.2 hk
  unfold planWith
  cases hw : b.writes.find? k with
  | some x =>
    refine ⟨x, List.mem_append_left _ (List.mem_append_right _ ?_)⟩
    exact List.mem_map.2 ⟨(k, x), Entries.mem_of_find? hw, rfl⟩
  | none =>
    refine ⟨none, List.mem_append_right _ ?_⟩
    refine List.mem_map.2 ⟨k, List.mem_filter.2 ⟨hmem, ?_⟩, rfl⟩
    rw [Entries.contains_eq_isSome_find?, hw]
    rfl

/-- The buffer was emptied, or the call failed and kept it. -/
def EmptiedOrKept (b : Buffer) (x : Except CacheError Unit) (b' : Buffer) : Prop :=
  b' = .empty ∨ (x ≠ .ok () ∧ b' = b)

theorem EmptiedOrKept.emptied_or_eq {b b' : Buffer} {x : Except CacheError Unit}
    (h : b.EmptiedOrKept x b') : b' = .empty ∨ b' = b := h.imp_right And.right

theorem EmptiedOrKept.emptied_of_ok {b b' : Buffer} (h : b.EmptiedOrKept (.ok ()) b') :
    b' = .empty := h.resolve_right fun hkept => hkept.1 rfl

/-- A commit gives back the locks of the missed keys, or fails and keeps the buffer. -/
theorem commitWith_covered (h : Locking others t within d) {order : Buffer → List CacheKey}
    (ho : ∀ b, (order b).Perm b.misses) (b : Buffer) :
    (commitWith order d).HoareAmid (Beside others) t (fun s => s.1 = b ∧ within b.missed s.2)
      fun x s => Covered within s ∧ EmptiedOrKept b x s.1 := by
  refine .bind_ok (layer_covered b) (.bind (runAll_within h b b.missed _) ?_ ?_)
  · intro _
    refine .ofOp ?_
    rintro c ⟨e, b', y⟩ _ ⟨rfl, -, hok⟩
    have hnone : within empty.missed y := by
      refine h.mono (hok rfl) ?_
      rintro k ⟨hk, hnot⟩
      exact absurd (missed_subset_putKeys b' (ho b') hk) hnot
    exact ⟨hnone, .inl rfl⟩
  · rintro e ⟨_, y⟩ ⟨rfl, hy, -⟩
    exact ⟨hy, .inr ⟨nofun, rfl⟩⟩

theorem releaseAll_within (h : Locking others t within d) (b : Buffer) (keys : Set CacheKey)
    (list : List CacheKey) :
    (Await.ofOp (releaseAll d list)).HoareAmid (Beside others) t
      (fun s => s.1 = b ∧ within keys s.2)
      fun r s => r = .ok () ∧ s.1 = b ∧ within (keys \ {k | k ∈ list}) s.2 := by
  have hshared := locking_shared h b
  induction list generalizing keys with
  | nil =>
    refine .pure ?_
    rintro s ⟨hb, hs⟩
    exact ⟨rfl, hb, h.mono hs fun k hk => ⟨hk, List.not_mem_nil⟩⟩
  | cons k rest ih =>
    have hkeys : keys \ {k' | k' ∈ k :: rest} = (keys \ {k}) \ {k' | k' ∈ rest} := by
      rw [Set.sdiff_sdiff]
      congr 1
      ext k'
      exact List.mem_cons
    rw [hkeys]
    exact .ofOp_bind_result (hshared.releaseLock keys k) fun _ => ih (keys \ {k})

/-- A rollback gives back the locks of the missed keys, also if that fails. -/
theorem rollbackWith_covered (h : Locking others t within d) {order : Buffer → List CacheKey}
    (ho : ∀ b, (order b).Perm b.misses) (b : Buffer) :
    (Await.ofOp (rollbackWith order d)).HoareAmid (Beside others) t
      (fun s => s.1 = b ∧ within b.missed s.2)
      fun r s => r = .ok () ∧ Covered within s ∧ s.1 = .empty := by
  refine .ofOp_bind (.bind_ok (layer_covered b) (.ofOp_bind ?_))
  refine .bind_ok (releaseAll_within h b b.missed (order b)) (.ofOp ?_)
  rintro c ⟨e, b', y⟩ _ ⟨rfl, hy⟩
  refine ⟨rfl, h.mono hy ?_, rfl⟩
  rintro k ⟨hk, hnot⟩
  exact absurd ((ho b').mem_iff.2 hk) hnot

end Buffer

/-! ## The buffers of a unit -/

/-- Calls on each of many caches do to the locks of a thread what they should,
and leave its locks in the others.  `bounded`: in each cache the thread has the
locks of these keys at most. -/
structure LockingFamily {ρ σ : Type} [DecidableEq ρ] (others : σ → σ → Prop) (t : Thread)
    (bounded : (ρ → Set CacheKey) → σ → Prop) (caches : ρ → Cache σ) : Prop where
  each : ∀ bound r,
    Locking others t (fun keys => bounded (Function.update bound r keys)) (caches r)
  spared : ∀ {bound s s'}, bounded bound s → others s s' → bounded bound s'
  /-- No two caches have the same id. -/
  ids : Function.Injective fun r => (caches r).id

/-- Caches with locks, each of them on a part of its own of a larger state. -/
theorem LockingFamily.of_parts {ρ σ : Type} [DecidableEq ρ] {T : ρ → Type} {others : σ → σ → Prop}
    {t : Thread} {own : ∀ r, T r → T r → Prop} {within : ∀ r, Set CacheKey → T r → Prop}
    {d : ∀ r, Cache (T r)} (f : ∀ r, Focus σ (T r))
    (hd : ∀ r, Locking (own r) t (within r) (d r))
    (hspared : ∀ r {keys x x'}, within r keys x → own r x x' → within r keys x')
    (hget : ∀ r s x, (f r).get ((f r).set x s) = x)
    (hset : ∀ r r' s x, r' ≠ r → (f r').get ((f r).set x s) = (f r').get s)
    (hothers : ∀ r s s', others s s' → own r ((f r).get s) ((f r).get s'))
    (hids : Function.Injective fun r => (d r).id) :
    LockingFamily others t (fun bound s => ∀ r, within r (bound r) ((f r).get s))
      fun r => (d r).within (f r) where
  ids := hids
  spared h hs r := hspared r (h r) (hothers r _ _ hs)
  each bound r := by
    have hr : Locking others t (fun keys s => (∀ r', r' ≠ r → within r' (bound r') ((f r').get s)) ∧
        within r keys ((f r).get s)) ((d r).within (f r)) := by
      refine Locking.within (f := f r) (hd r) (fun s x _ => hget r s x) ?_ ?_
      · intro s x h r' hr'
        rw [hset r r' s x hr']
        exact h r' hr'
      · intro s s' h hs
        exact ⟨fun r' hr' => hspared r' (h r' hr') (hothers r' s s' hs), hothers r s s' hs⟩
    -- The bound for all caches is one for this cache and one for the others.
    have hsplit : (fun (keys : Set CacheKey) (s : σ) => ∀ r', within r'
        (Function.update bound r keys r') ((f r').get s)) =
        fun keys s => (∀ r', r' ≠ r → within r' (bound r') ((f r').get s)) ∧
          within r keys ((f r).get s) := by
      funext keys s
      rw [and_comm]
      exact propext (Function.forall_update_iff bound fun r' keys' =>
        within r' keys' ((f r').get s))
    rw [hsplit]
    exact hr

/-- Caches with locks below a layer of their own. -/
theorem LockingFamily.under {ρ σ lam : Type} [DecidableEq ρ] {others : σ → σ → Prop} {t : Thread}
    {bounded : (ρ → Set CacheKey) → σ → Prop} {caches : ρ → Cache σ}
    (h : LockingFamily others t bounded caches) (held : lam → List Value) :
    LockingFamily (Beside others) t (fun bound s => bounded bound s.2)
      fun r => (caches r).under held where
  ids := h.ids
  spared hs hothers := h.spared hs hothers.2
  each bound r := by
    have hr : Locking (Beside others) t
        (fun keys (s : lam × σ) => True ∧ bounded (Function.update bound r keys) s.2)
        ((caches r).under held) :=
      Locking.within (f := Focus.second held) (h.each bound r) (fun _ _ _ => rfl)
        (fun _ _ h => h) fun _ _ h hs => ⟨h, hs.2⟩
    simpa only [true_and] using hr

namespace UnitOfWork

variable {ρ σ : Type} {caches : ρ → Cache σ}

/-- Every buffer is that of the cache which has its id. -/
def Filed (caches : ρ → Cache σ) (u : UnitOfWork ρ) : Prop :=
  ∀ id r b, u.buffers.find? id = some (r, b) → (caches r).id = id

/-- The keys that the unit missed in a cache. -/
def missed (caches : ρ → Cache σ) (u : UnitOfWork ρ) (r : ρ) : Set CacheKey :=
  (u.buffer (caches r).id).missed

/-- A unit differs from another one in the buffer for this cache at most. -/
structure DiffersAt (caches : ρ → Cache σ) (r : ρ) (u u' : UnitOfWork ρ) : Prop where
  own : ∃ b, u'.buffers.find? (caches r).id = some (r, b)
  others : ∀ id, id ≠ (caches r).id → u'.buffers.find? id = u.buffers.find? id

variable {u u' : UnitOfWork ρ} {r : ρ} {b : Buffer}

theorem DiffersAt.setBuffer (h : DiffersAt caches r u u') (b : Buffer) :
    DiffersAt caches r u (u'.setBuffer (caches r).id b) := by
  obtain ⟨b', hb'⟩ := h.own
  constructor
  · exact ⟨b, by rw [find?_setBuffer u' hb', if_pos rfl]⟩
  · intro id hid
    rw [find?_setBuffer u' hb', if_neg hid]
    exact h.others id hid

theorem DiffersAt.filed (h : DiffersAt caches r u u') (hu : Filed caches u) : Filed caches u' := by
  obtain ⟨b, hb⟩ := h.own
  intro id r' b' hb'
  by_cases hid : id = (caches r).id
  · rw [hid, hb] at hb'
    cases hb'
    exact hid.symm
  · rw [h.others id hid] at hb'
    exact hu id r' b' hb'

theorem DiffersAt.missed [DecidableEq ρ] (h : DiffersAt caches r u u')
    (hids : Function.Injective fun r => (caches r).id) :
    missed caches u' = Function.update (missed caches u) r (missed caches u' r) := by
  funext r'
  by_cases hr : r' = r
  · rw [hr, Function.update_self]
  · have hid : (caches r').id ≠ (caches r).id := fun heq => hr (hids heq)
    rw [Function.update_of_ne hr, UnitOfWork.missed, UnitOfWork.missed, buffer, buffer,
      h.others _ hid]

theorem Filed.track_fst (hu : Filed caches u) (hids : Function.Injective fun r => (caches r).id) :
    (u.track r (caches r).id).1 = r := by
  unfold track
  cases h : u.buffers.find? (caches r).id with
  | some e => exact hids (hu _ e.1 e.2 h)
  | none => rfl

theorem Filed.differsAt_edit (hu : Filed caches u)
    (hids : Function.Injective fun r => (caches r).id) (f : Buffer → Buffer) :
    DiffersAt caches r u (u.edit r (caches r).id f) := by
  constructor
  · exact ⟨_, by rw [find?_edit, if_pos rfl, hu.track_fst hids]⟩
  · intro id hid
    rw [find?_edit, if_neg hid]

theorem Filed.differsAt_track (hu : Filed caches u)
    (hids : Function.Injective fun r => (caches r).id) :
    DiffersAt caches r u (u.track r (caches r).id).2 := by
  constructor
  · exact ⟨_, by rw [find?_track, if_pos rfl, hu.track_fst hids]⟩
  · intro id hid
    rw [find?_track, if_neg hid]

/-! ### Buffers that a commit or a rollback empties -/

/-- The list names caches that were touched. -/
def Touched (u : UnitOfWork ρ) (list : List (String × ρ)) : Prop :=
  ∀ e ∈ list, ∃ b, u.buffers.find? e.1 = some (e.2, b)

theorem DiffersAt.touched (h : DiffersAt caches r u u')
    (hb : u.buffers.find? (caches r).id = some (r, b)) {list : List (String × ρ)}
    (hlist : Touched u list) : Touched u' list := by
  intro e he
  obtain ⟨b', hb'⟩ := hlist e he
  by_cases hid : e.1 = (caches r).id
  · obtain ⟨b'', hb''⟩ := h.own
    rw [hid, hb] at hb'
    cases hb'
    exact ⟨b'', by rw [hid, hb'']⟩
  · exact ⟨b', by rw [h.others _ hid, hb']⟩

theorem touched_of_perm {order : List (String × ρ)} (ho : order.Perm u.touched) :
    Touched u order := by
  intro e he
  obtain ⟨x, hx, rfl⟩ := List.mem_map.1 (ho.mem_iff.1 he)
  exact ⟨x.2.2, Entries.find?_of_mem hx⟩

/-- Some buffers were emptied, and the others are as before. -/
def Emptied (u u' : UnitOfWork ρ) : Prop :=
  ∀ id, u'.buffer id = .empty ∨ u'.buffer id = u.buffer id

theorem Emptied.trans {u'' : UnitOfWork ρ} (h : Emptied u u') (h' : Emptied u' u'') :
    Emptied u u'' := by
  intro id
  rcases h' id with h' | h'
  · exact .inl h'
  · rw [h']
    exact h id

theorem Emptied.empty_of_empty (h : Emptied u u') {id : String} (hid : u.buffer id = .empty) :
    u'.buffer id = .empty := by
  rcases h id with h | h
  · exact h
  · rw [h, hid]

theorem DiffersAt.emptied (h : DiffersAt caches r u u')
    (hb : u'.buffer (caches r).id = .empty ∨ u'.buffer (caches r).id = u.buffer (caches r).id) :
    Emptied u u' := by
  intro id
  by_cases hid : id = (caches r).id
  · rw [hid]
    exact hb
  · right
    rw [buffer, buffer, h.others id hid]

/-- Emptying the touched buffers empties all, for the others were empty before. -/
theorem empty_of_touched {order : List (String × ρ)} (ho : order.Perm u.touched)
    (h : Emptied u u') (hall : ∀ e ∈ order, u'.buffer e.1 = .empty) (id : String) :
    u'.buffer id = .empty := by
  cases hb : u.buffers.find? id with
  | none => exact h.empty_of_empty (buffer_of_find?_none u hb)
  | some e => exact hall (id, e.1) (ho.mem_iff.2 (List.mem_map_of_mem (Entries.mem_of_find? hb)))

/-! ### Calls that touch no cache -/

variable {others : σ → σ → Prop} {t : Thread} {bounded : (ρ → Set CacheKey) → σ → Prop}

/-- The thread has no locks but those of missed keys. -/
def Covered (bounded : (ρ → Set CacheKey) → σ → Prop) (caches : ρ → Cache σ)
    (s : UnitOfWork ρ × σ) : Prop :=
  Filed caches s.1 ∧ bounded (missed caches s.1) s.2

theorem layer_covered {y : σ} (h : Covered bounded caches (u, y)) :
    (Await.ofOp Op.layer : CacheCall (UnitOfWork ρ × σ) (UnitOfWork ρ)).HoareAmid (Beside others) t
      (fun s => s = (u, y)) fun x s => x = .ok u ∧ s.1 = u ∧ Covered bounded caches s := by
  refine .ofOp ?_
  rintro c ⟨e, s⟩ - rfl
  exact ⟨rfl, rfl, h⟩

variable (caches others t bounded) in
theorem renew_covered :
    (Await.ofOp renew : CacheCall (UnitOfWork ρ × σ) Unit).HoareAmid (Beside others) t
      (fun s => Covered bounded caches s ∧ ∀ id, s.1.buffer id = .empty)
      fun x s => x = .ok () ∧ Covered bounded caches s ∧ ∀ id, s.1.buffer id = .empty := by
  refine .ofOp ?_
  rintro c ⟨e, u, y⟩ - ⟨hs, hu⟩
  exact ⟨rfl, hs, hu⟩

/-! ### Calls on one buffer -/

variable [DecidableEq ρ]

/-- A change of one buffer that keeps its missed keys. -/
theorem Covered.differsAt {y : σ} (h : Covered bounded caches (u, y))
    (hids : Function.Injective fun r => (caches r).id) (hdiff : DiffersAt caches r u u')
    (hmissed : missed caches u' r = missed caches u r) : Covered bounded caches (u', y) := by
  refine ⟨hdiff.filed h.1, ?_⟩
  rw [hdiff.missed hids, hmissed, Function.update_eq_self]
  exact h.2

/-- A call on the buffer for a touched cache. -/
theorem await_focus_covered {α : Type} (hl : LockingFamily others t bounded caches)
    (hb : u.buffers.find? (caches r).id = some (r, b)) {m : CacheCall (Buffer × σ) α}
    {P : Except CacheError α → Buffer → Prop}
    (hm : m.HoareAmid (Beside others) t
      (fun s => s.1 = b ∧ bounded (Function.update (missed caches u) r b.missed) s.2)
      fun x s => Buffer.Covered (fun keys => bounded (Function.update (missed caches u) r keys)) s ∧
        P x s.1) :
    ((focus (caches r).id).await m).HoareAmid (Beside others) t
      (fun s => s.1 = u ∧ Covered bounded caches s)
      fun x s => Covered bounded caches s ∧ DiffersAt caches r u s.1 ∧
        P x (s.1.buffer (caches r).id) := by
  -- Around the buffer, the unit stays as it was.
  have hget (s : UnitOfWork ρ × σ) (x : Buffer × σ)
      (h : Filed caches u ∧ DiffersAt caches r u s.1) :
      (focus (caches r).id).get ((focus (caches r).id).set x s) = x := by
    obtain ⟨b₁, hb₁⟩ := h.2.own
    show ((s.1.setBuffer (caches r).id x.1).buffer (caches r).id, x.2) = x
    rw [buffer_setBuffer s.1 hb₁, if_pos rfl]
  have hset (s : UnitOfWork ρ × σ) (x : Buffer × σ)
      (h : Filed caches u ∧ DiffersAt caches r u s.1) :
      Filed caches u ∧ DiffersAt caches r u ((focus (caches r).id).set x s).1 :=
    ⟨h.1, h.2.setBuffer x.1⟩
  have hothers (s s' : UnitOfWork ρ × σ) (h : Filed caches u ∧ DiffersAt caches r u s.1)
      (hs : Beside others s s') : (Filed caches u ∧ DiffersAt caches r u s'.1) ∧
        Beside others ((focus (caches r).id).get s) ((focus (caches r).id).get s') := by
    refine ⟨?_, congrArg (·.buffer (caches r).id) hs.1, hs.2⟩
    rw [hs.1]
    exact h
  refine (hm.focus hget hset hothers).mono ?_ ?_
  · rintro s ⟨rfl, hfiled, hs⟩
    have hbuffer : s.1.buffer (caches r).id = b := buffer_of_find? _ hb
    refine ⟨⟨hfiled, ⟨b, hb⟩, fun _ _ => rfl⟩, hbuffer, ?_⟩
    have hself : b.missed = missed caches s.1 r := by rw [missed, hbuffer]
    rw [hself, Function.update_eq_self]
    exact hs
  · rintro x s ⟨⟨hfiled, hdiff⟩, hs, hgood⟩
    refine ⟨⟨hdiff.filed hfiled, ?_⟩, hdiff, hgood⟩
    rw [hdiff.missed hl.ids]
    exact hs

/-! ## Reads and writes -/

theorem get_covered (hl : LockingFamily others t bounded caches) (r : ρ) (k : CacheKey) :
    (get caches r k).HoareAmid (Beside others) t (Covered bounded caches)
      fun _ => Covered bounded caches := by
  refine .of_state ?_
  rintro ⟨u, y⟩ h
  have hdiff : DiffersAt caches r u (u.track r (caches r).id).2 := h.1.differsAt_track hl.ids
  have htracked : (u.track r (caches r).id).2.buffers.find? (caches r).id =
      some (r, u.buffer (caches r).id) := by
    rw [find?_track, if_pos rfl, h.1.track_fst hl.ids]
  have hcovered : Covered bounded caches ((u.track r (caches r).id).2, y) := by
    refine h.differsAt hl.ids hdiff ?_
    rw [missed, buffer_track, missed]
  -- The cache is touched, then the read goes to its buffer.
  have htrack : (Await.ofOp (Op.updateLayer (track r (caches r).id)) :
      CacheCall (UnitOfWork ρ × σ) ρ).HoareAmid (Beside others) t (fun s => s = (u, y))
      fun x s => x = .ok r ∧ s.1 = (u.track r (caches r).id).2 ∧ Covered bounded caches s := by
    refine .ofOp ?_
    rintro c ⟨e, s⟩ - rfl
    exact ⟨congrArg Except.ok (h.1.track_fst hl.ids), rfl, hcovered⟩
  have hget := await_focus_covered hl htracked (P := fun _ _ => True)
    ((Buffer.get_covered (hl.each _ r) _ k).mono (fun _ hs => hs) fun _ _ hs => ⟨hs, trivial⟩)
  exact .bind_ok htrack (hget.mono (fun _ hs => hs) fun _ _ hs => hs.1)

theorem put_covered (hl : LockingFamily others t bounded caches) (r : ρ) (k : CacheKey)
    (x : Option Value) :
    (Await.ofOp (put caches r k x)).HoareAmid (Beside others) t (Covered bounded caches)
      fun _ => Covered bounded caches := by
  refine .ofOp ?_
  rintro c ⟨e, u, y⟩ - h
  rw [put_eq]
  refine h.differsAt hl.ids (h.1.differsAt_edit hl.ids _) ?_
  rw [missed, buffer_edit, if_pos rfl]
  rfl

theorem clear_covered (hl : LockingFamily others t bounded caches) (r : ρ) :
    (Await.ofOp (clear caches r)).HoareAmid (Beside others) t (Covered bounded caches)
      fun _ => Covered bounded caches := by
  refine .ofOp ?_
  rintro c ⟨e, u, y⟩ - h
  rw [clear_eq]
  refine h.differsAt hl.ids (h.1.differsAt_edit hl.ids _) ?_
  rw [missed, buffer_edit, if_pos rfl]
  rfl

/-! ## Commit and rollback -/

/-- One buffer after the other: what each step does to its buffer, the whole list does. -/
theorem each_covered (hl : LockingFamily others t bounded caches)
    (step : ρ → CacheCall (Buffer × σ) Unit)
    (all : List (String × ρ) → CacheCall (UnitOfWork ρ × σ) Unit) (hnil : all [] = pure ())
    (hcons : ∀ id r rest, all ((id, r) :: rest) = do (focus id).await (step r); all rest)
    (ends : Except CacheError Unit → Prop) (hends : ends (.ok ()))
    (hstep : ∀ r {within : Set CacheKey → σ → Prop}, Locking others t within (caches r) → ∀ b,
      (step r).HoareAmid (Beside others) t (fun s => s.1 = b ∧ within b.missed s.2)
        fun x s => Buffer.Covered within s ∧ b.EmptiedOrKept x s.1 ∧ ends x)
    {list : List (String × ρ)} (hlist : Touched u list) :
    (all list).HoareAmid (Beside others) t (fun s => s.1 = u ∧ Covered bounded caches s)
      fun x s => Covered bounded caches s ∧ Emptied u s.1 ∧
        (x = .ok () → ∀ e ∈ list, s.1.buffer e.1 = .empty) ∧ ends x := by
  induction list generalizing u with
  | nil =>
    rw [hnil]
    refine .pure ?_
    rintro s ⟨rfl, hs⟩
    exact ⟨hs, fun _ => .inr rfl, fun _ e he => absurd he List.not_mem_nil, hends⟩
  | cons entry rest ih =>
    obtain ⟨id, r⟩ := entry
    obtain ⟨b, hb⟩ := hlist (id, r) List.mem_cons_self
    have htail : Touched u rest := fun e he => hlist e (List.mem_cons_of_mem _ he)
    have hbuffer : u.buffer id = b := buffer_of_find? u hb
    rw [hcons]
    refine .of_state ?_
    rintro ⟨u, y⟩ ⟨rfl, hcovered⟩
    obtain rfl : (caches r).id = id := hcovered.1 id r b hb
    have hfirst := await_focus_covered hl hb
      (P := fun x b' => b.EmptiedOrKept x b' ∧ ends x) (hstep r (hl.each (missed caches u) r) b)
    refine .bind (hfirst.mono ?_ fun _ _ hs => hs) ?_ ?_
    · rintro s rfl
      exact ⟨rfl, hcovered⟩
    · intro _
      refine .of_state ?_
      rintro ⟨u₁, y₁⟩ ⟨hcovered₁, hdiff, hleft, -⟩
      rw [← hbuffer] at hleft
      refine (ih (hdiff.touched hb htail)).mono ?_ ?_
      · rintro s rfl
        exact ⟨rfl, hcovered₁⟩
      · rintro x s ⟨hs, hemptied, hall, hx⟩
        refine ⟨hs, (hdiff.emptied hleft.emptied_or_eq).trans hemptied, ?_, hx⟩
        intro hok e he
        rcases List.mem_cons.1 he with rfl | he
        · exact hemptied.empty_of_empty hleft.emptied_of_ok
        · exact hall hok e he
    · rintro e s ⟨hs, hdiff, hleft, hx⟩
      rw [← hbuffer] at hleft
      exact ⟨hs, hdiff.emptied hleft.emptied_or_eq, nofun, hx⟩

variable {order : UnitOfWork ρ → List (String × ρ)} {misses : Buffer → List CacheKey}

/-- A commit that succeeds empties every buffer; whatever fails, each lock stays
that of a missed key. -/
theorem commitWith_covered (hl : LockingFamily others t bounded caches)
    (ho : ∀ u, (order u).Perm u.touched) (hm : ∀ b, (misses b).Perm b.misses) :
    (commitWith order misses caches).HoareAmid (Beside others) t (Covered bounded caches)
      fun x s => Covered bounded caches s ∧ (x = .ok () → ∀ id, s.1.buffer id = .empty) := by
  refine .of_state ?_
  rintro ⟨u, y⟩ hcovered
  have hstep : ∀ r {within : Set CacheKey → σ → Prop}, Locking others t within (caches r) → ∀ b,
      (Buffer.commitWith misses (caches r)).HoareAmid (Beside others) t
        (fun s => s.1 = b ∧ within b.missed s.2)
        fun x s => Buffer.Covered within s ∧ b.EmptiedOrKept x s.1 ∧ True := by
    intro r within h b
    refine (Buffer.commitWith_covered h hm b).mono (fun _ hs => hs) ?_
    rintro x s ⟨hs, hleft⟩
    exact ⟨hs, hleft, trivial⟩
  have hall := each_covered hl (fun r => Buffer.commitWith misses (caches r))
    (commitAll misses caches) rfl (fun _ _ _ => rfl) (fun _ => True) trivial hstep
    (touched_of_perm (ho u))
  refine .bind_ok (layer_covered hcovered) (.bind hall ?_ ?_)
  · intro _
    refine (renew_covered caches others t bounded).mono ?_ ?_
    · rintro s ⟨hs, hemptied, hempty, -⟩
      exact ⟨hs, empty_of_touched (ho u) hemptied (hempty rfl)⟩
    · rintro x s ⟨-, hs, hempty⟩
      exact ⟨hs, fun _ => hempty⟩
  · rintro e s ⟨hs, -, -, -⟩
    exact ⟨hs, nofun⟩

/-- A rollback succeeds and empties every buffer, whatever fails. -/
theorem rollbackWith_covered (hl : LockingFamily others t bounded caches)
    (ho : ∀ u, (order u).Perm u.touched) (hm : ∀ b, (misses b).Perm b.misses) :
    (Await.ofOp (rollbackWith order misses caches)).HoareAmid (Beside others) t
      (Covered bounded caches)
      fun x s => x = .ok () ∧ Covered bounded caches s ∧ ∀ id, s.1.buffer id = .empty := by
  refine .of_state ?_
  rintro ⟨u, y⟩ hcovered
  have hstep : ∀ r {within : Set CacheKey → σ → Prop}, Locking others t within (caches r) → ∀ b,
      (Await.ofOp (Buffer.rollbackWith misses (caches r))).HoareAmid (Beside others) t
        (fun s => s.1 = b ∧ within b.missed s.2)
        fun x s => Buffer.Covered within s ∧ b.EmptiedOrKept x s.1 ∧ x = .ok () := by
    intro r within h b
    refine (Buffer.rollbackWith_covered h hm b).mono (fun _ hs => hs) ?_
    rintro x s ⟨hx, hs, hempty⟩
    exact ⟨hs, .inl hempty, hx⟩
  have hall := each_covered hl (fun r => Await.ofOp (Buffer.rollbackWith misses (caches r)))
    (fun list => Await.ofOp (rollbackAllWith misses caches list)) rfl
    (fun _ _ _ => Await.ofOp_bind _ _) (fun x => x = .ok ()) rfl hstep (touched_of_perm (ho u))
  refine .ofOp_bind (.bind_ok (layer_covered hcovered) (.ofOp_bind ?_))
  refine .bind_ok (a := ()) (hall.mono (fun _ hs => hs) ?_) (renew_covered caches others t bounded)
  rintro x s ⟨hs, hemptied, hempty, hx⟩
  exact ⟨hx, hs, empty_of_touched (ho u) hemptied (hempty hx)⟩

omit [DecidableEq ρ] in
/-- Where nothing is buffered, the thread has no lock. -/
theorem Covered.unlocked {s : UnitOfWork ρ × σ} (h : Covered bounded caches s)
    (hempty : ∀ id, s.1.buffer id = .empty) : bounded (fun _ => ∅) s.2 := by
  have hmissed : missed caches s.1 = fun _ => ∅ := by
    funext r
    rw [missed, hempty, Buffer.missed_empty]
  rw [← hmissed]
  exact h.2

end UnitOfWork

end QueryCache
