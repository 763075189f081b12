import Mathlib
import QueryCache.Proofs.Cache.Guarded
import QueryCache.Proofs.Transaction.UnitOfWork

/-!
# Units of work over a guarded cache

All units of work share one cache that holds good values only, unless it is
hidden from the unit that runs: that unit has asked for a clear, and until its
commit nobody relies on what the cache holds.  A unit that puts good values
gets good values, and its commit leaves a cache that holds good values only,
hidden before or not.

1. a buffer as a part of its unit
2. a buffer over a guarded cache
3. what a unit buffers
4. reads and writes
5. commit and rollback
-/

namespace QueryCache

variable {σ : Type}

/-! ## A buffer as a part of its unit -/

namespace UnitOfWork

variable {ρ : Type} {u : UnitOfWork ρ} {id : String} {r : ρ} {b₀ : Buffer}

theorem setBuffer_setBuffer (h : u.buffers.find? id = some (r, b₀)) (b b' : Buffer) :
    (u.setBuffer id b).setBuffer id b' = u.setBuffer id b' := by
  have hset : (u.setBuffer id b).buffers.find? id = some (r, b) := by
    rw [find?_setBuffer u h, if_pos rfl]
  rw [setBuffer, hset]
  unfold setBuffer
  rw [h]
  show { u with buffers := (u.buffers.insert id (r, b)).insert id (r, b') } = _
  rw [Entries.insert_insert]

theorem lawfulAt_focus (h : u.buffers.find? id = some (r, b₀)) (y : σ) :
    (focus id : Focus (UnitOfWork ρ × σ) (Buffer × σ)).LawfulAt (u, y) := by
  constructor
  · intro hpost
    rcases hpost with ⟨b, y'⟩
    show ((u.setBuffer id b).buffer id, y') = (b, y')
    rw [buffer_setBuffer u h, if_pos rfl]
  · rintro ⟨b, y₁⟩ ⟨b', y₂⟩
    show ((u.setBuffer id b).setBuffer id b', y₂) = (u.setBuffer id b', y₂)
    rw [setBuffer_setBuffer h]

variable {ε α : Type} {pre : σ → Prop}

/-- A call on the buffer for a touched cache. -/
theorem await_focus_hoare {m : Await ε (Buffer × σ) α}
    {post : Except ε α → UnitOfWork ρ × σ → Prop} (h : u.buffers.find? id = some (r, b₀))
    (hm : m.Hoare (fun s => s.1 = b₀ ∧ pre s.2) fun res s => post res (u.setBuffer id s.1, s.2)) :
    ((focus id).await m).Hoare (fun s => s.1 = u ∧ pre s.2) post := by
  rintro t ⟨e, _, y⟩ ⟨rfl, hy⟩
  refine Await.Meets.focus (lawfulAt_focus h y) ?_
  exact hm t _ ⟨buffer_of_find? _ h, hy⟩

theorem run_focus_hoare {m : Op ε (Buffer × σ) α}
    {post : Except ε α → UnitOfWork ρ × σ → Prop} (h : u.buffers.find? id = some (r, b₀))
    (hm : m.Hoare (fun s => s.1 = b₀ ∧ pre s.2) fun res s => post res (u.setBuffer id s.1, s.2)) :
    ((focus id).run m).Hoare (fun s => s.1 = u ∧ pre s.2) post := by
  rintro t ⟨e, _, y⟩ ⟨rfl, hy⟩
  refine Op.Meets.focus ?_
  exact hm t _ ⟨buffer_of_find? _ h, hy⟩

end UnitOfWork

/-! ## A buffer over a guarded cache -/

namespace Buffer

variable {d : Cache σ} {copies : Bool} {holds : (CacheKey → Value → Prop) → σ → Prop}
  {good : CacheKey → Value → Prop}

/-- A read gives nothing while a clear is pending, and else a good value. -/
theorem get_guarded {d : Cache σ} (hd : Guarded d copies holds) (b : Buffer) (k : CacheKey)
    (hcopied : Copied copies good) :
    (get d k).Hoare (fun s => s.1 = b ∧ holds good s.2) fun r s =>
      holds good s.2 ∧ s.1.writes = b.writes ∧ s.1.clearPending = b.clearPending ∧
        ∀ v, r = .ok (some v) → b.clearPending = false ∧ good k v := by
  refine Await.Hoare.bind ((hd.under held (· = b)).get k hcopied) ?_ ?_
  · intro found
    refine Await.Hoare.ofOp (Op.Hoare.updateLayer ?_)
    intro s h
    rcases h with ⟨⟨hb, hs⟩, hfound⟩
    have hread := hfound found rfl
    show holds good s.2 ∧ (s.1.afterGet k found).writes = b.writes ∧
      (s.1.afterGet k found).clearPending = b.clearPending ∧
      ∀ v, Except.ok (if (s.1.afterGet k found).clearPending then none else found) =
        .ok (some v) → b.clearPending = false ∧ good k v
    rw [hb, writes_afterGet, clearPending_afterGet]
    refine ⟨hs, rfl, rfl, ?_⟩
    intro v hv
    cases hpending : b.clearPending with
    | true =>
      rw [hpending, if_pos rfl] at hv
      cases hv
    | false =>
      rw [hpending, if_neg Bool.false_ne_true] at hv
      cases hv
      exact ⟨rfl, hread v rfl⟩
  · intro e s h
    rcases h with ⟨⟨rfl, hs⟩, -⟩
    refine ⟨hs, rfl, rfl, ?_⟩
    intro v h
    cases h

/-- The call puts nothing but a good value. -/
def SharedCall.IsGood (copies : Bool) (good : CacheKey → Value → Prop) : SharedCall → Prop
  | clear => True
  | put k x => Storable copies x ∧ ∀ v, x = some v → good k v

theorem runAll_guarded (hd : Guarded d copies holds) {calls : List SharedCall}
    (hcalls : ∀ call ∈ calls, call.IsGood copies good) :
    (SharedCall.runAll d calls).Hoare (holds good) fun r s => r = .ok () ∧ holds good s := by
  induction calls with
  | nil => exact Await.Hoare.pure fun s hs => ⟨rfl, hs⟩
  | cons call rest ih =>
    have hrest := ih fun c hc => hcalls c (List.mem_cons_of_mem _ hc)
    have hcall : (call.run d).Hoare (holds good) fun r s => r = .ok () ∧ holds good s := by
      have hgood := hcalls call List.mem_cons_self
      cases call with
      | clear => exact hd.clear good
      | put k x => exact hd.put k x hgood.1 hgood.2
    exact Await.Hoare.bind_ok hcall hrest

/-- The writes of a commit are good if what the buffer holds is good. -/
theorem isGood_of_writes {b : Buffer} (misses : List CacheKey)
    (hstorable : ∀ k v, good k v → Storable copies (some v))
    (hwrites : ∀ k v, b.writes.find? k = some (some v) → good k v) :
    ∀ call ∈ b.writes.toList.map (fun e => SharedCall.put e.1 e.2) ++
      (misses.filter fun k => !b.writes.contains k).map (SharedCall.put · none),
      call.IsGood copies good := by
  intro call hcall
  rcases List.mem_append.1 hcall with h | h
  · -- a buffered write
    rcases List.mem_map.1 h with ⟨⟨k, x⟩, hx, rfl⟩
    have hgood : ∀ v, x = some v → good k v := by
      rintro v rfl
      exact hwrites k v (Entries.find?_of_mem hx)
    refine ⟨?_, hgood⟩
    intro hc v hv
    exact hstorable k v (hgood v hv) hc v rfl
  · -- the absence of a missed key
    rcases List.mem_map.1 h with ⟨k, -, rfl⟩
    refine ⟨storable_none _, ?_⟩
    intro v heq
    cases heq

/-- A commit of good values succeeds and leaves good values only, if there were
good values only before or a clear is pending. -/
theorem commitWith_guarded (hd : Guarded d copies holds) (b : Buffer)
    (order : Buffer → List CacheKey) {before : CacheKey → Value → Prop}
    (hstorable : ∀ k v, good k v → Storable copies (some v))
    (hwrites : ∀ k v, b.writes.find? k = some (some v) → good k v)
    (hbefore : b.clearPending = false → ∀ k v, before k v → good k v) :
    (commitWith order d).Hoare (fun s => s.1 = b ∧ holds before s.2) fun r s =>
      r = .ok () ∧ s.1 = .empty ∧ holds good s.2 := by
  have hd' := hd.under held (· = b)
  have hwritten := runAll_guarded hd' (isGood_of_writes (order b) hstorable hwrites)
  have hplan : (SharedCall.runAll (shared d) (b.planWith (order b))).Hoare
      (fun s => s.1 = b ∧ holds before s.2) fun r s => r = .ok () ∧ s.1 = b ∧ holds good s.2 := by
    unfold planWith
    rw [List.append_assoc]
    cases hpending : b.clearPending with
    | true =>
      -- the clear comes first, and leaves nothing that is not good
      exact Await.Hoare.bind_ok (hd'.clear good) hwritten
    | false =>
      refine hwritten.mono ?_ fun _ _ hs => hs
      intro s h
      rcases h with ⟨hb, hs⟩
      exact ⟨hb, hd.mono hs (hbefore hpending)⟩
  refine Await.Hoare.bind_layer (Await.Hoare.bind_ok hplan ?_)
  exact Await.Hoare.ofOp (Op.Hoare.modifyLayer fun s hs => ⟨rfl, rfl, hs.2⟩)

theorem releaseAll_guarded (hd : Guarded d copies holds) (keys : List CacheKey) :
    (releaseAll d keys).Hoare (fun s => holds good s.2) fun r s => r = .ok () ∧ holds good s.2 := by
  induction keys with
  | nil => exact Op.Hoare.pure fun s hs => ⟨rfl, hs⟩
  | cons k rest ih =>
    have hrelease : ((shared d).releaseLock k).Hoare (fun s => True ∧ holds good s.2)
        fun _ s => True ∧ holds good s.2 :=
      (hd.under held fun _ => True).releaseLock k
    refine Op.Hoare.bind_result (hrelease.mono (fun _ hs => ⟨trivial, hs⟩) fun _ _ hs => hs.2) ?_
    intro _
    exact ih

/-- The locks are given back, whether or not that succeeds. -/
theorem rollback_guarded (hd : Guarded d copies holds) :
    (rollback d).Hoare (fun s => holds good s.2) fun r s =>
      r = .ok () ∧ s.1 = .empty ∧ holds good s.2 := by
  refine Op.Hoare.bind_layer ?_
  intro l
  have hrelease : (releaseAll d l.misses).Hoare (fun s => s.1 = l ∧ holds good s.2)
      fun r s => r = .ok () ∧ holds good s.2 :=
    (releaseAll_guarded hd l.misses).mono (fun _ hs => hs.2) fun _ _ hs => hs
  refine Op.Hoare.bind_ok hrelease ?_
  exact Op.Hoare.modifyLayer fun s hs => ⟨rfl, rfl, hs⟩

end Buffer

/-! ## What a unit buffers -/

namespace UnitOfWork

/-- The unit has touched no cache but the shared one and buffers good values
only; if the shared cache is hidden, a clear is pending. -/
structure Buffers (good : CacheKey → Value → Prop) (id : String) (hidden : Bool)
    (u : UnitOfWork Unit) : Prop where
  only : ∀ id' x, u.buffers.find? id' = some x → id' = id
  writes : ∀ k v, (u.buffer id).writes.find? k = some (some v) → good k v
  pending : hidden = true → (u.buffer id).clearPending = true

namespace Buffers

variable {good : CacheKey → Value → Prop} {id : String} {hidden : Bool} {u : UnitOfWork Unit}

/-- A unit without buffers. -/
theorem of_empty (h : u.buffers = .empty) : Buffers good id false u := by
  have hbuffer : u.buffer id = .empty := by
    apply buffer_of_find?_none
    rw [h]
    rfl
  refine ⟨?_, ?_, ?_⟩
  · intro id' x hx
    rw [h] at hx
    cases hx
  · intro k v hv
    rw [hbuffer] at hv
    cases hv
  · intro hh
    cases hh

theorem mono {good' : CacheKey → Value → Prop} {hidden' : Bool} (h : Buffers good id hidden u)
    (hgood : ∀ k v, good k v → good' k v) (hhidden : hidden' = true → hidden = true) :
    Buffers good' id hidden' u :=
  ⟨h.only, fun k v hv => hgood k v (h.writes k v hv), fun hh => h.pending (hhidden hh)⟩

/-- Without a pending clear the shared cache is not hidden. -/
theorem visible (h : Buffers good id hidden u) (hclear : (u.buffer id).clearPending = false) :
    hidden = false := by
  cases hh : hidden with
  | true => cases (h.pending hh).symm.trans hclear
  | false => rfl

/-- Only the buffers matter. -/
theorem congr {u' : UnitOfWork Unit} (h : Buffers good id hidden u) (hu : u'.buffers = u.buffers) :
    Buffers good id hidden u' := by
  have hbuffer : u'.buffer id = u.buffer id := by
    unfold buffer
    rw [hu]
  refine ⟨?_, ?_, ?_⟩
  · rw [hu]
    exact h.only
  · rw [hbuffer]
    exact h.writes
  · rw [hbuffer]
    exact h.pending

/-- The buffer for the shared cache is another one. -/
theorem edit {good' : CacheKey → Value → Prop} {hidden' : Bool} (h : Buffers good id hidden u)
    (f : Buffer → Buffer)
    (hwrites : ∀ k v, (f (u.buffer id)).writes.find? k = some (some v) → good' k v)
    (hpending : hidden' = true → (f (u.buffer id)).clearPending = true) :
    Buffers good' id hidden' (u.edit () id f) := by
  have hbuffer : (u.edit () id f).buffer id = f (u.buffer id) := by
    rw [buffer_edit, if_pos rfl]
  refine ⟨?_, ?_, ?_⟩
  · intro id' x hx
    rw [find?_edit] at hx
    by_cases hid : id' = id
    · exact hid
    · rw [if_neg hid] at hx
      exact h.only id' x hx
  · rw [hbuffer]
    exact hwrites
  · rw [hbuffer]
    exact hpending

theorem write (h : Buffers good id hidden u) {k : CacheKey} {v : Value} (hv : good k v) :
    Buffers good id hidden (u.edit () id (·.write k (some v))) := by
  refine h.edit _ ?_ h.pending
  intro k' v' hfind
  have hfound : (if k' = k then some (some v) else (u.buffer id).writes.find? k') =
      some (some v') := by
    rw [← Entries.find?_insert]
    exact hfind
  by_cases hk : k' = k
  · rw [if_pos hk] at hfound
    cases hfound
    rw [hk]
    exact hv
  · rw [if_neg hk] at hfound
    exact h.writes k' v' hfound

/-- A requested clear drops the writes and hides the shared cache. -/
theorem requestClear (h : Buffers good id hidden u) :
    Buffers noneGood id true (u.edit () id Buffer.requestClear) := by
  refine h.edit _ ?_ fun _ => rfl
  intro k v hv
  cases hv

/-- To touch the shared cache makes no difference. -/
theorem track (h : Buffers good id hidden u) : Buffers good id hidden (u.track () id).2 := by
  refine ⟨?_, ?_, ?_⟩
  · intro id' x hx
    rw [find?_track] at hx
    by_cases hid : id' = id
    · exact hid
    · rw [if_neg hid] at hx
      exact h.only id' x hx
  · rw [buffer_track]
    exact h.writes
  · rw [buffer_track]
    exact h.pending

/-- The missed keys do not matter. -/
theorem replace (h : Buffers good id hidden u) {b : Buffer}
    (hwrites : b.writes = (u.buffer id).writes)
    (hpending : b.clearPending = (u.buffer id).clearPending) :
    Buffers good id hidden (u.edit () id fun _ => b) := by
  refine h.edit _ ?_ ?_
  · rw [hwrites]
    exact h.writes
  · rw [hpending]
    exact h.pending

end Buffers

/-! ## Reads and writes -/

/-- Values that are good, or any values while the shared cache is hidden. -/
def unlessHidden (hidden : Bool) (good : CacheKey → Value → Prop) : CacheKey → Value → Prop :=
  fun k v => hidden = false → good k v

/-- The unit buffers values of its own kind, and the shared cache holds good
values unless it is hidden. -/
def Working (holds : (CacheKey → Value → Prop) → σ → Prop) (own good : CacheKey → Value → Prop)
    (id : String) (hidden : Bool) (s : UnitOfWork Unit × σ) : Prop :=
  Buffers own id hidden s.1 ∧ holds (unlessHidden hidden good) s.2

variable {caches : Unit → Cache σ} {copies : Bool}
  {holds : (CacheKey → Value → Prop) → σ → Prop} {own good : CacheKey → Value → Prop}
  {hidden : Bool}

theorem put_working {k : CacheKey} {v : Value} (hv : own k v) :
    (put caches () k (some v)).Hoare (Working holds own good (caches ()).id hidden)
      (Keeping (Working holds own good (caches ()).id hidden) fun _ => True) := by
  rintro t ⟨e, u, y⟩ ⟨hu, hy⟩ c _
  rw [put_eq]
  exact ⟨⟨hu.write hv, hy⟩, fun _ _ => trivial⟩

/-- From the request of a clear on the shared cache may be hidden. -/
theorem clear_working :
    (clear caches ()).Hoare (Working holds own good (caches ()).id hidden) fun r s =>
      r = .ok () ∧ Buffers noneGood (caches ()).id true s.1 ∧
        holds (unlessHidden hidden good) s.2 := by
  rintro t ⟨e, u, y⟩ ⟨hu, hy⟩ c _
  rw [clear_eq]
  exact ⟨rfl, hu.requestClear, hy⟩

theorem get_working (hd : Guarded (caches ()) copies holds) (hcopied : Copied copies good)
    (k : CacheKey) :
    (get caches () k).Hoare (Working holds own good (caches ()).id hidden)
      (Keeping (Working holds own good (caches ()).id hidden) fun found =>
        ∀ v, found = some v → good k v) := by
  rintro t ⟨e, u, y⟩ ⟨hu, hy⟩
  refine Await.Meets.bind_updateLayer ?_
  have htracked : (u.track () (caches ()).id).2.buffers.find? (caches ()).id =
      some ((), u.buffer (caches ()).id) := by
    rw [find?_track, if_pos rfl]
  -- While the cache is hidden nothing is known of its values, nor of their copies.
  have hcopied' : Copied copies (unlessHidden hidden good) := by
    intro k v u' e e' hk hserved hh
    exact hcopied k v u' e e' (hk hh) hserved
  refine (await_focus_hoare htracked ?_) t _ ⟨rfl, hy⟩
  refine (Buffer.get_guarded hd _ k hcopied').mono (fun _ hs => hs) ?_
  rintro r ⟨b, y'⟩ ⟨hy', hwrites, hpending, hfound⟩
  refine ⟨⟨hu.replace hwrites hpending, hy'⟩, ?_⟩
  rintro found rfl v rfl
  -- A value was given, so no clear is pending, and the cache is not hidden.
  rcases hfound v rfl with ⟨hclear, hv⟩
  exact hv (hu.visible hclear)

/-! ## Commit and rollback -/

/-- The unit has touched the shared cache or no cache at all. -/
theorem Buffers.touched_cases {id : String} {u : UnitOfWork Unit} (h : Buffers good id hidden u) :
    (u.touched = [] ∧ u.buffer id = .empty) ∨
      u.touched = [(id, ())] ∧ ∃ b, u.buffers.find? id = some ((), b) := by
  have hids : ∀ x ∈ u.buffers.toList, x.1 = id := by
    intro x hx
    exact h.only x.1 x.2 (Entries.find?_of_mem hx)
  have hnodup := u.buffers.nodup
  cases hlist : u.buffers.toList with
  | nil =>
    refine .inl ⟨by rw [touched, hlist]; rfl, buffer_of_find?_none u ?_⟩
    rw [Entries.find?, hlist]
    rfl
  | cons x rest =>
    rw [hlist] at hids hnodup
    have hx : x.1 = id := hids x List.mem_cons_self
    cases rest with
    | nil =>
      refine .inr ⟨?_, x.2.2, ?_⟩
      · rw [touched, hlist]
        show [(x.1, ())] = [(id, ())]
        rw [hx]
      · rw [← hx]
        exact Entries.find?_of_mem (by rw [hlist]; exact List.mem_cons_self)
    | cons y rest =>
      -- Two buffers would have the same id.
      have hy : y.1 = id := hids y (List.mem_cons_of_mem _ List.mem_cons_self)
      rw [List.map_cons, List.map_cons, List.nodup_cons] at hnodup
      exact absurd (by rw [hx, hy]; exact List.mem_cons_self) hnodup.1

/-- The unit goes on with an empty buffer. -/
theorem Buffers.emptied {id : String} {u : UnitOfWork Unit} (h : Buffers good id hidden u)
    {b : Buffer} (hb : u.buffers.find? id = some ((), b)) :
    Buffers noneGood id false (u.setBuffer id .empty) := by
  refine ⟨?_, ?_, ?_⟩
  · intro id' x hx
    rw [find?_setBuffer u hb] at hx
    by_cases hid : id' = id
    · exact hid
    · rw [if_neg hid] at hx
      exact h.only id' x hx
  · intro k v hv
    rw [buffer_setBuffer u hb, if_pos rfl] at hv
    cases hv
  · intro hh
    cases hh

/-- A unit with an empty buffer has nothing in it. -/
theorem Buffers.of_buffer_empty {id : String} {u : UnitOfWork Unit} (h : Buffers good id hidden u)
    (hb : u.buffer id = .empty) : Buffers noneGood id false u := by
  refine ⟨h.only, ?_, ?_⟩
  · intro k v hv
    rw [hb] at hv
    cases hv
  · intro hh
    cases hh

/-- Nothing is buffered, and the shared cache holds values of a kind only. -/
def Ended (holds : (CacheKey → Value → Prop) → σ → Prop) (good : CacheKey → Value → Prop)
    (id : String) (s : UnitOfWork Unit × σ) : Prop :=
  Buffers noneGood id false s.1 ∧ holds good s.2

theorem renew_ended {id : String} : (renew : CacheOp (UnitOfWork Unit × σ) Unit).Hoare
    (Ended holds good id) fun r s => r = .ok () ∧ Ended holds good id s :=
  Op.Hoare.modifyLayer fun _ hs => ⟨rfl, hs.1.congr rfl, hs.2⟩

/-- A commit succeeds.  After it nothing is buffered, and the shared cache holds
good values only, whether or not it was hidden. -/
theorem commit_working (hd : Guarded (caches ()) copies holds) (hown : ∀ k v, own k v → good k v)
    (hstorable : ∀ k v, good k v → Storable copies (some v)) :
    (commit caches).Hoare (Working holds own good (caches ()).id hidden) fun r s =>
      r = .ok () ∧ Ended holds good (caches ()).id s := by
  rintro t ⟨e, u, y⟩ ⟨hu, hy⟩
  have hbefore : (u.buffer (caches ()).id).clearPending = false →
      ∀ k v, unlessHidden hidden good k v → good k v := by
    intro hclear k v hv
    exact hv (hu.visible hclear)
  have hall : (commitAll Buffer.misses caches u.touched).Hoare
      (fun s => s.1 = u ∧ holds (unlessHidden hidden good) s.2) fun r s =>
        r = .ok () ∧ Ended holds good (caches ()).id s := by
    rcases hu.touched_cases with ⟨htouched, hempty⟩ | ⟨htouched, b, hb⟩
    · -- nothing to commit, and nothing was hidden
      rw [htouched]
      refine Await.Hoare.pure ?_
      intro s h
      rcases h with ⟨rfl, hs⟩
      refine ⟨rfl, hu.of_buffer_empty hempty, hd.mono hs (hbefore ?_)⟩
      rw [hempty]
      rfl
    · -- one buffer to commit
      rw [htouched]
      rw [buffer_of_find? u hb] at hbefore
      have hwrites : ∀ k v, b.writes.find? k = some (some v) → good k v := by
        intro k v hv
        rw [← buffer_of_find? u hb] at hv
        exact hown k v (hu.writes k v hv)
      have hcommit := Buffer.commitWith_guarded hd b Buffer.misses hstorable hwrites hbefore
      have hfirst : ((focus (caches ()).id).await
          (Buffer.commitWith Buffer.misses (caches ()))).Hoare
          (fun s => s.1 = u ∧ holds (unlessHidden hidden good) s.2) fun r s =>
            r = .ok () ∧ Ended holds good (caches ()).id s := by
        refine await_focus_hoare hb (hcommit.mono (fun _ hs => hs) ?_)
        rintro r ⟨b', y'⟩ ⟨hr, rfl, hy'⟩
        exact ⟨hr, hu.emptied hb, hy'⟩
      exact Await.Hoare.bind_ok hfirst (Await.Hoare.pure fun s hs => ⟨rfl, hs⟩)
  have hrun : (commitAll Buffer.misses caches u.touched >>= fun _ => Await.ofOp renew).Hoare
      (fun s => s.1 = u ∧ holds (unlessHidden hidden good) s.2) fun r s =>
        r = .ok () ∧ Ended holds good (caches ()).id s :=
    Await.Hoare.bind_ok hall (Await.Hoare.ofOp renew_ended)
  exact Await.Meets.bind_ofOp fun _ _ => hrun t ⟨e, u, y⟩ ⟨rfl, hy⟩

/-- After a rollback nothing is buffered, and the shared cache is as it was. -/
theorem rollback_working (hd : Guarded (caches ()) copies holds) :
    (rollback caches).Hoare (Working holds own good (caches ()).id hidden) fun r s =>
      r = .ok () ∧ Ended holds (unlessHidden hidden good) (caches ()).id s := by
  rintro t ⟨e, u, y⟩ ⟨hu, hy⟩
  have hall : (rollbackAll caches u.touched).Hoare
      (fun s => s.1 = u ∧ holds (unlessHidden hidden good) s.2) fun r s =>
        r = .ok () ∧ Ended holds (unlessHidden hidden good) (caches ()).id s := by
    rcases hu.touched_cases with ⟨htouched, hempty⟩ | ⟨htouched, b, hb⟩
    · rw [htouched]
      refine Op.Hoare.pure ?_
      intro s h
      rcases h with ⟨rfl, hs⟩
      exact ⟨rfl, hu.of_buffer_empty hempty, hs⟩
    · rw [htouched]
      have hfirst : ((focus (caches ()).id).run (Buffer.rollback (caches ()))).Hoare
          (fun s => s.1 = u ∧ holds (unlessHidden hidden good) s.2) fun r s =>
            r = .ok () ∧ Ended holds (unlessHidden hidden good) (caches ()).id s := by
        refine run_focus_hoare hb ((Buffer.rollback_guarded hd).mono (fun _ hs => hs.2) ?_)
        rintro r ⟨b', y'⟩ ⟨hr, rfl, hy'⟩
        exact ⟨hr, hu.emptied hb, hy'⟩
      exact Op.Hoare.bind_ok hfirst (Op.Hoare.pure fun s hs => ⟨rfl, hs⟩)
  have hrun : (rollbackAll caches u.touched >>= fun _ => renew).Hoare
      (fun s => s.1 = u ∧ holds (unlessHidden hidden good) s.2) fun r s =>
        r = .ok () ∧ Ended holds (unlessHidden hidden good) (caches ()).id s :=
    Op.Hoare.bind_ok hall renew_ended
  exact hrun t ⟨e, u, y⟩ ⟨rfl, hy⟩

end UnitOfWork

end QueryCache
