import Mathlib
import QueryCache.Proofs.Transaction.Buffer
import QueryCache.Transaction.UnitOfWork

/-!
# Units of work over plain stores

The shared caches are the stores of a pool, each under an id of its own.  Every
operation of a unit of work is then a function of its buffers and the stores,
and comes to its end without an error.

1. buffers by id
2. the operations on one cache
3. commit and rollback
-/

namespace QueryCache.UnitOfWork

/-! ## Buffers by id -/

section Buffers

variable {ρ : Type} (u : UnitOfWork ρ)

theorem buffer_of_find? {id : String} {r : ρ} {b : Buffer}
    (h : u.buffers.find? id = some (r, b)) : u.buffer id = b := by
  rw [buffer, h]

theorem buffer_of_find?_none {id : String} (h : u.buffers.find? id = none) :
    u.buffer id = .empty := by
  rw [buffer, h]

theorem find?_setBuffer {id : String} {r : ρ} {b₀ : Buffer} (h : u.buffers.find? id = some (r, b₀))
    (b : Buffer) (id' : String) :
    (u.setBuffer id b).buffers.find? id' =
      if id' = id then some (r, b) else u.buffers.find? id' := by
  rw [setBuffer, h]
  exact Entries.find?_insert ..

theorem buffer_setBuffer {id : String} {r : ρ} {b₀ : Buffer} (h : u.buffers.find? id = some (r, b₀))
    (b : Buffer) (id' : String) :
    (u.setBuffer id b).buffer id' = if id' = id then b else u.buffer id' := by
  rw [buffer, find?_setBuffer u h]
  by_cases hid : id' = id
  · rw [if_pos hid, if_pos hid]
  · rw [if_neg hid, if_neg hid]
    rfl

/-- The buffer of a unit is set to what it was. -/
theorem setBuffer_buffer (id : String) : u.setBuffer id (u.buffer id) = u := by
  rw [setBuffer]
  cases h : u.buffers.find? id with
  | none => rfl
  | some e =>
    rcases e with ⟨r, b⟩
    rw [buffer_of_find? u h]
    show { u with buffers := u.buffers.insert id (r, b) } = u
    rw [Entries.insert_of_find? h]

/-- The unit after a change of the buffer for a cache, which is touched thereby. -/
def edit (r : ρ) (id : String) (f : Buffer → Buffer) : UnitOfWork ρ :=
  (u.track r id).2.setBuffer id (f (u.buffer id))

theorem find?_track (r : ρ) (id id' : String) :
    (u.track r id).2.buffers.find? id' =
      if id' = id then some ((u.track r id).1, u.buffer id) else u.buffers.find? id' := by
  unfold track
  cases h : u.buffers.find? id with
  | some e =>
    rcases e with ⟨first, b⟩
    by_cases hid : id' = id
    · subst hid
      rw [if_pos rfl, h, buffer_of_find? u h]
    · rw [if_neg hid]
  | none =>
    rw [buffer_of_find?_none u h]
    exact Entries.find?_insert ..

theorem find?_edit (r : ρ) (id : String) (f : Buffer → Buffer) (id' : String) :
    (u.edit r id f).buffers.find? id' =
      if id' = id then some ((u.track r id).1, f (u.buffer id)) else u.buffers.find? id' := by
  have h : (u.track r id).2.buffers.find? id = some ((u.track r id).1, u.buffer id) := by
    rw [find?_track, if_pos rfl]
  rw [edit, find?_setBuffer _ h]
  by_cases hid : id' = id
  · rw [if_pos hid, if_pos hid]
  · rw [if_neg hid, if_neg hid, find?_track, if_neg hid]

theorem buffer_edit (r : ρ) (id : String) (f : Buffer → Buffer) (id' : String) :
    (u.edit r id f).buffer id' = if id' = id then f (u.buffer id) else u.buffer id' := by
  rw [buffer, find?_edit]
  by_cases hid : id' = id
  · rw [if_pos hid, if_pos hid]
  · rw [if_neg hid, if_neg hid]
    rfl

theorem buffer_track (r : ρ) (id : String) : (u.track r id).2.buffer id = u.buffer id := by
  refine buffer_of_find? _ (r := (u.track r id).1) ?_
  rw [find?_track, if_pos rfl]

variable {σ : Type} {caches : ρ → Cache σ} {c : Caller} {e : Environment} {y : σ}

theorem put_eq (r : ρ) (k : CacheKey) (x : Option Value) : put caches r k x c ⟨e, (u, y)⟩ =
    (.ok (), ⟨e, (u.edit r (caches r).id (·.write k x), y)⟩) := by
  rw [edit, ← buffer_track u r]
  rfl

theorem clear_eq (r : ρ) : clear caches r c ⟨e, (u, y)⟩ =
    (.ok (), ⟨e, (u.edit r (caches r).id Buffer.requestClear, y)⟩) := by
  rw [edit, ← buffer_track u r]
  rfl

end Buffers

/-! ## Stores under distinct ids -/

/-- The cache is the plain store of a pool at the place of its id. -/
structure IsStore (ids : List String) (r : CacheRef) : Prop where
  plain : r.layers = []
  place : ids[r.store]? = some r.id

/-- Every buffer of the unit belongs to the store that has its id. -/
def Tracks (ids : List String) (u : UnitOfWork CacheRef) : Prop :=
  ∀ id r b, u.buffers.find? id = some (r, b) → IsStore ids r ∧ r.id = id

section Stores

variable {ids : List String} {u : UnitOfWork CacheRef} {p : Pool} {r : CacheRef}

theorem IsStore.lt (hr : IsStore ids r) (hp : p.stores.length = ids.length) :
    r.store < p.stores.length := by
  rw [hp]
  exact (List.getElem?_eq_some_iff.1 hr.place).1

theorem IsStore.id_cache (hr : IsStore ids r) : (Pool.cache r).id = r.id := by
  cases r with
  | mk id i layers =>
    obtain rfl : layers = [] := hr.plain
    rfl

/-- With distinct ids the id says which store it is. -/
theorem IsStore.eq_of_id (hids : ids.Nodup) {r' : CacheRef} (hr : IsStore ids r)
    (hr' : IsStore ids r') (h : r.id = r'.id) : r = r' := by
  rcases List.getElem?_eq_some_iff.1 hr.place with ⟨hlt, heq⟩
  rcases List.getElem?_eq_some_iff.1 hr'.place with ⟨hlt', heq'⟩
  have hstore : r.store = r'.store :=
    (List.Nodup.getElem_inj_iff hids).1 (heq.trans (h.trans heq'.symm))
  cases r with
  | mk id store layers =>
    cases r' with
    | mk id' store' layers' =>
      obtain rfl : layers = [] := hr.plain
      obtain rfl : layers' = [] := hr'.plain
      obtain rfl : id = id' := h
      obtain rfl : store = store' := hstore
      rfl

theorem IsStore.store_ne (hids : ids.Nodup) {r' : CacheRef} (hr : IsStore ids r)
    (hr' : IsStore ids r') (h : r ≠ r') : r.store ≠ r'.store := by
  intro hs
  apply h
  apply hr.eq_of_id hids hr'
  have hplace := hr.place
  rw [hs, hr'.place] at hplace
  exact (Option.some.inj hplace).symm

theorem Tracks.track_fst (hids : ids.Nodup) (hu : Tracks ids u) (hr : IsStore ids r) :
    (u.track r r.id).1 = r := by
  unfold track
  cases h : u.buffers.find? r.id with
  | some e =>
    rcases e with ⟨first, b⟩
    rcases hu r.id first b h with ⟨hfirst, hid⟩
    exact hfirst.eq_of_id hids hr hid
  | none => rfl

theorem Tracks.edit (hids : ids.Nodup) (hu : Tracks ids u) (hr : IsStore ids r)
    (f : Buffer → Buffer) : Tracks ids (u.edit r r.id f) := by
  intro id r' b h
  rw [find?_edit, hu.track_fst hids hr] at h
  by_cases hid : id = r.id
  · rw [if_pos hid] at h
    rcases Prod.mk.inj (Option.some.inj h) with ⟨rfl, -⟩
    exact ⟨hr, hid.symm⟩
  · rw [if_neg hid] at h
    exact hu id r' b h

/-! ## The operations on one cache -/

variable {c : Caller} {e : Environment}

/-- A read gives what the store has, unless a clear is pending. -/
theorem get_store (hids : ids.Nodup) (hp : p.stores.length = ids.length) (hu : Tracks ids u)
    (hr : IsStore ids r) (k : CacheKey) :
    get Pool.cache r k c ⟨e, (u, p)⟩ =
      .done (.ok (if (u.buffer r.id).clearPending then none else (p.storeAt r.store).lookup k))
        ⟨e, (u.edit r r.id (·.afterGet k ((p.storeAt r.store).lookup k)), p)⟩ := by
  have hlt := hr.lt hp
  have hfirst := hu.track_fst hids hr
  cases r with
  | mk id i layers =>
    obtain rfl : layers = [] := hr.plain
    have hstep : get Pool.cache ⟨id, i, []⟩ k c ⟨e, (u, p)⟩ =
        ((focus id).await (Buffer.get (Pool.cache (u.track ⟨id, i, []⟩ id).1) k)) c
          ⟨e, ((u.track ⟨id, i, []⟩ id).2, p)⟩ := rfl
    have hget := Buffer.get_store id (e := e) hlt k ((u.track ⟨id, i, []⟩ id).2.buffer id)
      (c := (focus id).caller ((u.track ⟨id, i, []⟩ id).2, p) c)
    rw [hstep, hfirst]
    show (Buffer.get (Pool.cache ⟨id, i, []⟩) k _ ⟨e, (_, p)⟩).widen (focus id) _ = _
    rw [hget, buffer_track]
    rfl

theorem put_store (hr : IsStore ids r) (k : CacheKey) (x : Option Value) :
    put Pool.cache r k x c ⟨e, (u, p)⟩ =
      (.ok (), ⟨e, (u.edit r r.id (·.write k x), p)⟩) := by
  rw [put_eq, hr.id_cache]

theorem clear_store (hr : IsStore ids r) :
    clear Pool.cache r c ⟨e, (u, p)⟩ = (.ok (), ⟨e, (u.edit r r.id Buffer.requestClear, p)⟩) := by
  rw [clear_eq, hr.id_cache]

/-! ## Commit and rollback -/

/-- The contents of a store after the buffer of its id was committed. -/
def committed (u : UnitOfWork CacheRef) (misses : Buffer → List CacheKey) (p : Pool)
    (r : CacheRef) : Store :=
  Buffer.SharedCall.applyAll (p.storeAt r.store)
    ((u.buffer r.id).planWith (misses (u.buffer r.id)))

/-- The list names touched caches, each once. -/
structure Touches (u : UnitOfWork CacheRef) (order : List (String × CacheRef)) : Prop where
  nodup : (order.map Prod.fst).Nodup
  touched : ∀ e ∈ order, ∃ b, u.buffers.find? e.1 = some (e.2, b)

theorem Tracks.setBuffer (hu : Tracks ids u) {id : String} {b₀ : Buffer}
    (hb : u.buffers.find? id = some (r, b₀)) (b : Buffer) : Tracks ids (u.setBuffer id b) := by
  intro id' r' b' h
  rw [find?_setBuffer u hb] at h
  by_cases hid : id' = id
  · rw [if_pos hid] at h
    rcases Prod.mk.inj (Option.some.inj h) with ⟨rfl, -⟩
    rw [hid]
    exact hu id r b₀ hb
  · rw [if_neg hid] at h
    exact hu id' r' b' h

theorem Touches.tail {entry : String × CacheRef} {rest : List (String × CacheRef)}
    (ho : Touches u (entry :: rest)) (b : Buffer) : Touches (u.setBuffer entry.1 b) rest := by
  rcases ho.touched entry List.mem_cons_self with ⟨b₀, hb⟩
  have hnodup := List.nodup_cons.1 ho.nodup
  refine ⟨hnodup.2, ?_⟩
  intro e' he'
  rcases ho.touched e' (List.mem_cons_of_mem _ he') with ⟨b', hb'⟩
  have hne : e'.1 ≠ entry.1 := by
    intro heq
    apply hnodup.1
    show entry.1 ∈ rest.map Prod.fst
    rw [← heq]
    exact List.mem_map_of_mem he'
  exact ⟨b', by rw [find?_setBuffer u hb, if_neg hne, hb']⟩

/-- Emptying a first buffer and then those of a list empties those of the longer list. -/
theorem buffer_emptied {id : String} {b₀ : Buffer} (hb : u.buffers.find? id = some (r, b₀))
    (rest : List String) (id' : String) :
    (if id' ∈ rest then .empty else (u.setBuffer id .empty).buffer id') =
      if id' ∈ id :: rest then .empty else u.buffer id' := by
  rw [buffer_setBuffer u hb]
  by_cases hmem : id' ∈ rest
  · rw [if_pos hmem, if_pos (List.mem_cons_of_mem _ hmem)]
  · rw [if_neg hmem]
    by_cases hid : id' = id
    · rw [if_pos hid, if_pos (by rw [hid]; exact List.mem_cons_self)]
    · rw [if_neg hid, if_neg (List.not_mem_cons_of_ne_of_not_mem hid hmem)]

/-- What a commit of the buffers in a list leaves: the buffers in the list are
empty and have had their effect, the others and their stores are as before. -/
structure CommitLeaves (ids : List String) (misses : Buffer → List CacheKey)
    (order : List (String × CacheRef)) (u : UnitOfWork CacheRef) (p : Pool)
    (u' : UnitOfWork CacheRef) (p' : Pool) : Prop where
  tracks : Tracks ids u'
  length : p'.stores.length = p.stores.length
  buffer : ∀ id, u'.buffer id = if id ∈ order.map Prod.fst then .empty else u.buffer id
  store : ∀ r, IsStore ids r → p'.storeAt r.store =
    if r.id ∈ order.map Prod.fst then u.committed misses p r else p.storeAt r.store

theorem commitAll_store (hids : ids.Nodup) (misses : Buffer → List CacheKey)
    {order : List (String × CacheRef)} (hp : p.stores.length = ids.length) (hu : Tracks ids u)
    (ho : Touches u order) :
    ∃ u' p', commitAll misses Pool.cache order c ⟨e, (u, p)⟩ = .done (.ok ()) ⟨e, (u', p')⟩ ∧
      CommitLeaves ids misses order u p u' p' := by
  induction order generalizing u p with
  | nil =>
    refine ⟨u, p, rfl, hu, rfl, ?_, ?_⟩
    · intro id
      rfl
    · intro r _
      rfl
  | cons entry rest ih =>
    rcases entry with ⟨id, r⟩
    rcases ho.touched (id, r) List.mem_cons_self with ⟨b, hb⟩
    rcases hu id r b hb with ⟨hr, hid⟩
    obtain rfl : r.id = id := hid
    have hlt := hr.lt hp
    -- The first buffer of the list is committed, then the rest of the list.
    let u₁ := u.setBuffer r.id .empty
    let p₁ := p.setStore r.store (u.committed misses p r)
    have hfirst : commitAll misses Pool.cache ((r.id, r) :: rest) c ⟨e, (u, p)⟩ =
        commitAll misses Pool.cache rest c ⟨e, (u₁, p₁)⟩ := by
      cases r with
      | mk id i layers =>
        obtain rfl : layers = [] := hr.plain
        have hcommit := Buffer.commitWith_store id (e := e) hlt misses (u.buffer id)
          (c := (focus id).caller (u, p) c)
        show ((Buffer.commitWith misses (Pool.cache ⟨id, i, []⟩) _ ⟨e, (u.buffer id, p)⟩).widen
          (focus id) _).bind _ c = _
        rw [hcommit]
        rfl
    have hnodup := List.nodup_cons.1 ho.nodup
    have hp₁ : p₁.stores.length = ids.length := (Buffer.length_setStore _).trans hp
    have hu₁ : Tracks ids u₁ := hu.setBuffer hb .empty
    have ho₁ : Touches u₁ rest := ho.tail .empty
    rcases ih hp₁ hu₁ ho₁ with ⟨u', p', hrun, hleaves⟩
    refine ⟨u', p', hfirst.trans hrun, hleaves.tracks, ?_, ?_, ?_⟩
    · rw [hleaves.length]
      exact Buffer.length_setStore _
    · intro id
      rw [hleaves.buffer]
      exact buffer_emptied hb _ id
    · intro r' hr'
      rw [hleaves.store r' hr', List.map_cons]
      by_cases heq : r' = r
      · -- the store that was committed first, which the rest does not touch
        subst heq
        rw [if_neg hnodup.1, if_pos List.mem_cons_self]
        exact Buffer.storeAt_setStore hlt _
      · -- any other store still has its own contents and its own buffer
        have hid : r'.id ≠ r.id := fun h => heq (hr'.eq_of_id hids hr h)
        have hstore : p₁.storeAt r'.store = p.storeAt r'.store :=
          Buffer.storeAt_setStore_ne (hr.store_ne hids hr' (Ne.symm heq)) _
        have hbuffer : u₁.buffer r'.id = u.buffer r'.id := by
          rw [buffer_setBuffer u hb, if_neg hid]
        have hcommitted : u₁.committed misses p₁ r' = u.committed misses p r' := by
          rw [committed, committed, hstore, hbuffer]
        rw [hcommitted, hstore]
        by_cases hmem : r'.id ∈ rest.map Prod.fst
        · rw [if_pos hmem, if_pos (List.mem_cons_of_mem _ hmem)]
        · rw [if_neg hmem, if_neg (List.not_mem_cons_of_ne_of_not_mem hid hmem)]

/-- The touched caches, in any order. -/
theorem touches_of_perm {order : List (String × CacheRef)} (ho : order.Perm u.touched) :
    Touches u order := by
  have hkeys : u.touched.map Prod.fst = u.buffers.toList.map Prod.fst := by
    rw [touched, List.map_map]
    rfl
  constructor
  · rw [(ho.map Prod.fst).nodup_iff, hkeys]
    exact u.buffers.nodup
  · intro entry hentry
    rcases List.mem_map.1 ((ho.mem_iff).1 hentry) with ⟨x, hx, rfl⟩
    refine ⟨x.2.2, ?_⟩
    exact Entries.find?_of_mem hx

theorem mem_touched_of_perm {order : List (String × CacheRef)} (ho : order.Perm u.touched)
    (id : String) : id ∈ order.map Prod.fst ↔ (u.buffers.find? id).isSome := by
  have hkeys : u.touched.map Prod.fst = u.buffers.keys := by
    rw [touched, List.map_map]
    rfl
  rw [(ho.map Prod.fst).mem_iff, hkeys, Entries.isSome_find?_iff]

/-- Emptying the touched buffers empties all: the others were empty before. -/
theorem buffer_emptied_of_perm {order : List (String × CacheRef)} (ho : order.Perm u.touched)
    (id : String) : (if id ∈ order.map Prod.fst then .empty else u.buffer id) = .empty := by
  split
  · rfl
  · rename_i hnot
    rw [mem_touched_of_perm ho] at hnot
    exact buffer_of_find?_none u (Option.not_isSome_iff_eq_none.1 hnot)

/-- A commit of the whole unit, with the buffers and their missed keys in any
order, empties every buffer. -/
theorem commitWith_store (hids : ids.Nodup) (hp : p.stores.length = ids.length)
    (hu : Tracks ids u) {order : UnitOfWork CacheRef → List (String × CacheRef)}
    (ho : (order u).Perm u.touched) {misses : Buffer → List CacheKey}
    (hm : ∀ b, (misses b).Perm b.misses) :
    ∃ u' p', commitWith order misses Pool.cache c ⟨e, (u, p)⟩ = .done (.ok ()) ⟨e, (u', p')⟩ ∧
      Tracks ids u' ∧ p'.stores.length = p.stores.length ∧ (∀ id, u'.buffer id = .empty) ∧
      ∀ r, IsStore ids r → p'.storeAt r.store = u.committed misses p r := by
  obtain ⟨u', p', hrun, hleaves⟩ := commitAll_store (c := c) (e := e) hids misses hp hu
    (touches_of_perm ho)
  refine ⟨{ u' with unit := u'.unit + 1 }, p', ?_, hleaves.tracks, hleaves.length, ?_, ?_⟩
  · show ((commitAll misses Pool.cache (order u) c ⟨e, (u, p)⟩).bind _ c) = _
    rw [hrun]
    rfl
  · intro id
    exact (hleaves.buffer id).trans (buffer_emptied_of_perm ho id)
  · intro r hr
    rw [hleaves.store r hr]
    split
    · rfl
    · rename_i hnot
      -- An untouched buffer is empty, and its commit does nothing.
      rw [mem_touched_of_perm ho] at hnot
      have hnone : misses .empty = [] := (hm .empty).eq_nil
      rw [committed, buffer_of_find?_none u (Option.not_isSome_iff_eq_none.1 hnot), hnone]
      rfl

theorem rollbackAll_store {order : List (String × CacheRef)}
    (hp : p.stores.length = ids.length) (hu : Tracks ids u) (ho : Touches u order) :
    ∃ u', rollbackAll Pool.cache order c ⟨e, (u, p)⟩ = (.ok (), ⟨e, (u', p)⟩) ∧ Tracks ids u' ∧
      ∀ id, u'.buffer id = if id ∈ order.map Prod.fst then .empty else u.buffer id := by
  induction order generalizing u with
  | nil =>
    refine ⟨u, rfl, hu, ?_⟩
    intro id
    rfl
  | cons entry rest ih =>
    rcases entry with ⟨id, r⟩
    rcases ho.touched (id, r) List.mem_cons_self with ⟨b, hb⟩
    rcases hu id r b hb with ⟨hr, hid⟩
    obtain rfl : r.id = id := hid
    have hlt := hr.lt hp
    -- The first buffer of the list is emptied, then the rest of the list.
    have hfirst : rollbackAll Pool.cache ((r.id, r) :: rest) c ⟨e, (u, p)⟩ =
        rollbackAll Pool.cache rest c ⟨e, (u.setBuffer r.id .empty, p)⟩ := by
      cases r with
      | mk id i layers =>
        obtain rfl : layers = [] := hr.plain
        have hrollback := Buffer.rollback_store id (e := e) hlt (u.buffer id)
          (c := (focus id).caller (u, p) c)
        have hrun : (focus id).run (Buffer.rollback (Pool.cache ⟨id, i, []⟩)) c ⟨e, (u, p)⟩ =
            (.ok (), ⟨e, (u.setBuffer id .empty, p)⟩) := by
          show (let (r, w') := Buffer.rollback (Pool.cache ⟨id, i, []⟩) _ ⟨e, (u.buffer id, p)⟩
            (r, (focus id).widen (u, p) w')) = _
          rw [hrollback]
          rfl
        show Op.bind ((focus id).run (Buffer.rollback (Pool.cache ⟨id, i, []⟩))) _ c ⟨e, (u, p)⟩ = _
        rw [Op.bind, hrun]
    rcases ih (hu.setBuffer hb .empty) (ho.tail .empty) with ⟨u', hrun, htracks, hbuffer⟩
    refine ⟨u', hfirst.trans hrun, htracks, ?_⟩
    intro id
    rw [hbuffer]
    exact buffer_emptied hb _ id

/-- A rollback empties every buffer and leaves the stores alone. -/
theorem rollback_store (hp : p.stores.length = ids.length) (hu : Tracks ids u) :
    ∃ u', rollback Pool.cache c ⟨e, (u, p)⟩ = (.ok (), ⟨e, (u', p)⟩) ∧ Tracks ids u' ∧
      ∀ id, u'.buffer id = .empty := by
  have hperm : u.touched.Perm u.touched := List.Perm.refl _
  obtain ⟨u', hrun, htracks, hbuffer⟩ := rollbackAll_store (c := c) (e := e) hp hu
    (touches_of_perm hperm)
  refine ⟨{ u' with unit := u'.unit + 1 }, ?_, htracks, ?_⟩
  · show Op.bind (rollbackAll Pool.cache u.touched) (fun _ => renew) c ⟨e, (u, p)⟩ = _
    rw [Op.bind, hrun]
    rfl
  · intro id
    exact (hbuffer id).trans (buffer_emptied_of_perm hperm id)

end Stores

end QueryCache.UnitOfWork
