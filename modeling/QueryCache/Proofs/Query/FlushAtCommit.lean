import Mathlib
import QueryCache.Proofs.Query.Session
import QueryCache.Proofs.Transaction.ClearAtCommit
import QueryCache.Query.CachingSession

/-!
# Flushes of a caching session

A statement that asks for a flush has its shared cache cleared when the session
commits.  Whatever the session does in between, the clear stays pending; and the
commit makes it before it writes anything to the cache, or fails before it gets
there.

1. the caches that a unit will clear
2. the caches that a session will clear
3. the calls of a session
4. many built caches beside a database
5. the commit of a session
6. a flush that is still to come
-/

namespace QueryCache

/-! ## The caches that a unit will clear -/

namespace UnitOfWork

variable {ρ σ : Type} {caches : ρ → Cache σ} {P : ρ → Prop} {u : UnitOfWork ρ}

/-- Every buffer is that of the cache with its id, and these caches have a
pending clear. -/
def WillClear (caches : ρ → Cache σ) (P : ρ → Prop) (u : UnitOfWork ρ) : Prop :=
  Filed caches u ∧ ∀ r, P r → Pending caches r u

/-- A change of one buffer that takes no clear back. -/
theorem WillClear.edit (h : WillClear caches P u) (hids : Function.Injective fun r => (caches r).id)
    (r : ρ) {f : Buffer → Buffer} (hf : ∀ b, b.clearPending = true → (f b).clearPending = true) :
    WillClear caches P (u.edit r (caches r).id f) := by
  refine ⟨(h.1.differsAt_edit hids f).filed h.1, ?_⟩
  intro r' hr'
  rw [Pending, buffer_edit]
  by_cases hid : (caches r').id = (caches r).id
  · rw [if_pos hid, ← hid]
    exact hf _ (h.2 r' hr')
  · rw [if_neg hid]
    exact h.2 r' hr'

theorem WillClear.requestClear (h : WillClear caches P u)
    (hids : Function.Injective fun r => (caches r).id) (r : ρ) :
    WillClear caches (fun r' => r' = r ∨ P r') (u.edit r (caches r).id Buffer.requestClear) := by
  have hkept := h.edit hids r (f := Buffer.requestClear) fun _ _ => rfl
  refine ⟨hkept.1, ?_⟩
  rintro r' (rfl | hr')
  · rw [Pending, buffer_edit, if_pos rfl]
    rfl
  · exact hkept.2 r' hr'

theorem WillClear.track (h : WillClear caches P u)
    (hids : Function.Injective fun r => (caches r).id) (r : ρ) :
    WillClear caches P (u.track r (caches r).id).2 := by
  refine ⟨(h.1.differsAt_track hids).filed h.1, ?_⟩
  intro r' hr'
  have hpending := h.2 r' hr'
  by_cases hr : r' = r
  · subst hr
    rw [Pending, buffer_track]
    exact hpending
  · have hid : (caches r').id ≠ (caches r).id := fun heq => hr (hids heq)
    rw [Pending, buffer, find?_track, if_neg hid]
    exact hpending

/-- The buffer of a touched cache gives way to one with the same pending clear. -/
theorem WillClear.setBuffer (h : WillClear caches P u) {r : ρ} {b₀ b : Buffer}
    (hb₀ : u.buffers.find? (caches r).id = some (r, b₀))
    (hb : b.clearPending = b₀.clearPending) :
    WillClear caches P (u.setBuffer (caches r).id b) := by
  have hself : DiffersAt caches r u u := ⟨⟨b₀, hb₀⟩, fun _ _ => rfl⟩
  refine ⟨(hself.setBuffer b).filed h.1, ?_⟩
  intro r' hr'
  have hpending := h.2 r' hr'
  rw [Pending, buffer_setBuffer u hb₀]
  by_cases hid : (caches r').id = (caches r).id
  · rw [if_pos hid, hb]
    rw [Pending, hid, buffer_of_find? u hb₀] at hpending
    exact hpending
  · rw [if_neg hid]
    exact hpending

/-- A read may note a missed key, and changes nothing else of the buffer. -/
theorem get_keeps_clearPending {d : Cache σ} {Q : σ → Prop} {k : CacheKey}
    (hQ : (d.get k).Keeps Q) (b : Buffer) :
    (Buffer.get d k).Hoare (fun s => s.1 = b ∧ Q s.2)
      fun _ s => s.1.clearPending = b.clearPending ∧ Q s.2 := by
  have hshared : ((Buffer.shared d).get k).Hoare (fun s => s.1 = b ∧ Q s.2)
      fun _ s => s.1 = b ∧ Q s.2 :=
    Await.Hoare.focus (Focus.lawfulAt_second Buffer.held) (fun _ _ hs => hs) hQ
  refine hshared.bind (fun found => ?_) ?_
  · refine .ofOp (.updateLayer ?_)
    rintro ⟨_, y⟩ ⟨rfl, hy⟩
    refine ⟨?_, hy⟩
    cases found with
    | none => exact Buffer.clearPending_miss _ k
    | some v => rfl
  · rintro e ⟨_, y⟩ ⟨rfl, hy⟩
    exact ⟨rfl, hy⟩

/-- A read takes no clear back. -/
theorem get_willClear {Q : σ → Prop} (hids : Function.Injective fun r => (caches r).id)
    (hQ : ∀ r k, ((caches r).get k).Keeps Q) (r : ρ) (k : CacheKey) :
    (get caches r k).Keeps fun s => WillClear caches P s.1 ∧ Q s.2 := by
  rintro t ⟨e, u, y⟩ ⟨h, hy⟩
  have htracked : (u.track r (caches r).id).2.buffers.find? (caches r).id =
      some (r, u.buffer (caches r).id) := by
    rw [find?_track, if_pos rfl, h.1.track_fst hids]
  have hget : ((focus (caches r).id).await (Buffer.get (caches r) k)).Hoare
      (fun s => s.1 = (u.track r (caches r).id).2 ∧ Q s.2)
      fun _ s => WillClear caches P s.1 ∧ Q s.2 := by
    refine await_focus_hoare htracked ((get_keeps_clearPending (hQ r k) _).mono (fun _ hs => hs) ?_)
    rintro _ s ⟨hb, hs⟩
    exact ⟨(h.track hids r).setBuffer htracked hb, hs⟩
  -- The cache is touched, then the read goes to its buffer.
  refine Await.Meets.bind_ofOp ?_
  intro c _
  show ((focus (caches r).id).await (Buffer.get (caches (u.track r (caches r).id).1) k)).Meets t
    ⟨e, ((u.track r (caches r).id).2, y)⟩ _
  rw [h.1.track_fst hids]
  exact hget t _ ⟨rfl, hy⟩

end UnitOfWork

/-! ## The caches that a session will clear -/

/-- The shared cache that the statement flushes, if it asks for a flush. -/
def Statement.flushes {ρ : Type} (st : Statement ρ) : Option ρ :=
  if st.flushCacheRequired then st.cache else none

namespace CachingSession

variable {ρ σ : Type} {caches : ρ → Cache σ} {db : StatementRunner ρ σ} {P : ρ → Prop}
  {closed : Bool}

/-- The session is open or closed as stated, and a commit of its unit will clear
these caches. -/
def WillClear (caches : ρ → Cache σ) (P : ρ → Prop) (closed : Bool) (s : State ρ σ) : Prop :=
  UnitOfWork.WillClear (shared caches) P s.1 ∧ s.2.1.closed = closed

theorem WillClear.mono {Q : ρ → Prop} {s : State ρ σ} (h : WillClear caches P closed s)
    (hQ : ∀ r, Q r → P r) : WillClear caches Q closed s :=
  ⟨⟨h.1.1, fun r hr => h.1.2 r (hQ r hr)⟩, h.2⟩

theorem flushIfRequired_eq (st : Statement ρ) :
    (flushIfRequired caches st : CachingOp ρ σ Unit) =
      match st.flushes with
      | some r => (UnitOfWork.clear (shared caches) r).mapError .cache
      | none => pure () := by
  unfold flushIfRequired Statement.flushes
  cases st.cache <;> cases st.flushCacheRequired <;> rfl

variable (hids : Function.Injective fun r => (shared caches r).id)

include hids

/-- A flush is pending from then on. -/
theorem flushIfRequired_willClear (st : Statement ρ) :
    (flushIfRequired caches st : CachingOp ρ σ Unit).Hoare (WillClear caches P closed)
      fun r s => r = .ok () ∧ WillClear caches (fun r => st.flushes = some r ∨ P r) closed s := by
  rw [flushIfRequired_eq]
  cases st.flushes with
  | none =>
    refine .pure ?_
    intro s hs
    exact ⟨rfl, hs.mono fun r hr => hr.resolve_left nofun⟩
  | some r =>
    have hclear : (UnitOfWork.clear (shared caches) r : CacheOp (State ρ σ) Unit).Hoare
        (WillClear caches P closed)
        fun x s => x = .ok () ∧ WillClear caches (fun r' => r' = r ∨ P r') closed s := by
      rintro t ⟨e, u, l, y⟩ ⟨hu, hl⟩ c -
      rw [UnitOfWork.clear_eq]
      exact ⟨rfl, hu.requestClear hids r, hl⟩
    refine Op.Hoare.mapError (hclear.mono (fun _ hs => hs) ?_)
    rintro x s ⟨rfl, hs⟩
    exact ⟨rfl, hs.mono fun r' hr' => hr'.imp_left fun heq => (Option.some.inj heq).symm⟩

theorem getCached_willClear (r : ρ) (k : CacheKey) :
    (getCached caches r k : CachingCall ρ σ _).Keeps (WillClear caches P closed) := by
  have hsession : ∀ r k, ((shared caches r).get k).Keeps fun s => s.1.closed = closed := by
    intro r k t w hw
    refine Await.Meets.focus (Focus.lawfulAt_second Session.held w.state) ?_
    intro c _
    exact (Outcome.meets_settles t _).mono fun _ _ _ => hw
  exact Await.Hoare.mapError (UnitOfWork.get_willClear hids hsession r k)

theorem putCached_willClear (r : ρ) (k : CacheKey) (v : Value) :
    (putCached caches r k v : CachingOp ρ σ Unit).Hoare (WillClear caches P closed)
      fun _ s => WillClear caches P closed s := by
  refine .mapError ?_
  rintro t ⟨e, u, l, y⟩ ⟨hu, hl⟩ c -
  rw [UnitOfWork.put_eq]
  exact ⟨hu.edit hids r fun _ hb => hb, hl⟩

omit hids

/-- An operation that neither opens nor closes the session. -/
theorem onSession_willClear {α : Type} {m : Session.SessionOp σ α}
    (h : m.Hoare (fun s => s.1.closed = closed) fun _ s => s.1.closed = closed) :
    (onSession m : CachingOp ρ σ α).Hoare (WillClear caches P closed)
      fun _ s => WillClear caches P closed s := by
  rintro t w ⟨hu, hl⟩
  refine Op.Meets.focus ((h t _ hl).mono ?_)
  intro _ w' hl'
  exact ⟨hu, hl'⟩

/-- A closed session refuses every call that asks whether it is open. -/
theorem refuses_closed {α : Type} (m : Unit → Session.SessionOp σ α) :
    (Session.ensureOpen >>= m).Hoare (fun s => s.1.closed = true)
      fun x s => (∃ e, x = .error e) ∧ s.1.closed = true := by
  have hensure : (Session.ensureOpen : Session.SessionOp σ Unit).Hoare
      (fun s => s.1.closed = true) fun x s => (∃ e, x = .error e) ∧ s.1.closed = true := by
    refine Op.Hoare.bind_layer fun l => ?_
    split
    · exact .fail fun s hs => ⟨⟨_, rfl⟩, hs.2⟩
    · rename_i hl
      refine .pure ?_
      rintro s ⟨rfl, hs⟩
      exact absurd hs hl
  refine hensure.bind ?_ fun e _ hs => ⟨⟨e, rfl⟩, hs.2⟩
  rintro _ t w ⟨⟨e, he⟩, -⟩
  cases he

/-- Of an open session nothing else is asked here. -/
theorem sound_of_open {Q : σ → Prop} {s : Session × σ} (h : s.1.closed = false) (hs : Q s.2) :
    Session.Sound (fun _ _ => True) false Q s :=
  ⟨⟨h, fun _ _ _ => ⟨rfl, trivial⟩⟩, hs⟩

/-- A query under a key neither opens nor closes the session. -/
theorem queryWithKey_keeps_closed (st : Statement ρ) (b : BoundStatement) (w : RowBounds)
    (k : CacheKey) (closed : Bool) :
    (Session.queryWithKey db st b w k).Hoare (fun s => s.1.closed = closed)
      fun _ s => s.1.closed = closed := by
  cases closed with
  | true => exact (refuses_closed _).mono (fun _ hs => hs) fun _ _ hs => hs.2
  | false =>
    have hdb : (db.query st b w).Hoare (fun _ => True) (Keeping (fun _ => True) fun _ => True) :=
      fun _ _ _ _ _ => ⟨trivial, fun _ _ => trivial⟩
    have hquery : (Session.queryWithKey db st b w k).Hoare
        (Session.Sound (fun _ _ => True) false fun _ => True) _ :=
      Session.queryWithKey_sound fun _ => hdb
    refine hquery.mono (fun s hs => sound_of_open hs trivial) ?_
    rintro _ s ⟨hs, -⟩
    exact hs.1.closed_eq

theorem update_keeps_closed (st : Statement ρ) (b : BoundStatement) (closed : Bool) :
    (Session.update db st b).Hoare (fun s => s.1.closed = closed)
      fun _ s => s.1.closed = closed := by
  cases closed with
  | true => exact (refuses_closed _).mono (fun _ hs => hs) fun _ _ hs => hs.2
  | false =>
    have hdb : (db.update st b).Hoare (fun _ => True) fun _ _ => True :=
      fun _ _ _ _ _ => trivial
    have hupdate : (Session.update db st b).Hoare
        (Session.Sound (fun _ _ => True) false fun _ => True) _ := Session.update_sound hdb
    refine hupdate.mono (fun s hs => sound_of_open hs trivial) ?_
    rintro _ s (⟨-, hs⟩ | ⟨-, hs, -⟩)
    · exact hs.1.closed_eq
    · exact hs.closed_eq

/-! ## The calls of a session -/

include hids

theorem queryWithKey_willClear (st : Statement ρ) (b : BoundStatement) (w : RowBounds)
    (k : CacheKey) :
    (queryWithKey caches db st b w k).Hoare (WillClear caches P closed)
      fun _ s => WillClear caches (fun r => st.flushes = some r ∨ P r) closed s := by
  have hsession : (Await.ofOp (onSession (Session.queryWithKey db st b w k)) :
      CachingCall ρ σ Value).Keeps (WillClear caches (fun r => st.flushes = some r ∨ P r) closed) :=
    .ofOp (onSession_willClear (queryWithKey_keeps_closed st b w k closed))
  refine Await.Hoare.bind_ok (.ofOp (flushIfRequired_willClear hids st)) ?_
  -- The flush is noted; what follows takes no clear back.
  show Await.Keeps (WillClear caches (fun r => st.flushes = some r ∨ P r) closed) _
  cases st.applicableCache with
  | none => exact hsession
  | some r =>
    have houtput : (ensureNoOutput st : CachingOp ρ σ Unit).Hoare
        (WillClear caches (fun r => st.flushes = some r ∨ P r) closed)
        fun _ s => WillClear caches (fun r => st.flushes = some r ∨ P r) closed s := by
      unfold ensureNoOutput
      split
      · exact .fail fun _ hs => hs
      · exact .pure fun _ hs => hs
    refine .bind (.ofOp houtput) fun _ => ?_
    refine .bind (getCached_willClear hids r k) fun found => ?_
    cases found with
    | some v => exact .pure
    | none =>
      refine .bind hsession fun v => ?_
      exact .bind (.ofOp (putCached_willClear hids r k v)) fun _ => .pure

/-- An open session makes a key for every query, so the flush is not missed; a
closed one makes none, and fails before it comes to the flush. -/
theorem query_willClear (st : Statement ρ) (b : BoundStatement) (w : RowBounds) :
    (query caches db st b w).Hoare (WillClear caches P closed) fun _ s =>
      WillClear caches (fun r => (closed = false ∧ st.flushes = some r) ∨ P r) closed s := by
  rintro t ⟨e, u, l, y⟩ ⟨hu, hl⟩
  refine Await.Meets.bind_ofOp ?_
  intro _ _
  refine Await.Meets.bind_ofOp ?_
  intro _ _
  show thenMeets _ t _ (l.key st b w) ⟨e, (u, l, y)⟩
  cases closed with
  | true =>
    rw [Session.key, if_pos hl]
    exact ⟨⟨hu.1, fun r hr => hu.2 r (hr.resolve_left nofun)⟩, hl⟩
  | false =>
    rw [Session.key, if_neg (Bool.eq_false_iff.1 hl)]
    refine (queryWithKey_willClear hids st b w _ t ⟨e, (u, l, y)⟩ ⟨hu, hl⟩).mono ?_
    intro _ w' hs
    exact hs.mono fun r hr => hr.imp_left And.right

theorem update_willClear (st : Statement ρ) (b : BoundStatement) :
    (update caches db st b).Hoare (WillClear caches P closed)
      fun _ s => WillClear caches (fun r => st.flushes = some r ∨ P r) closed s := by
  exact Op.Hoare.bind_ok (flushIfRequired_willClear hids st)
    (onSession_willClear (update_keeps_closed st b closed))

omit hids

/-- Calls of a session in a unit of work; recorded are the caches that the
queries and updates asked to flush.  Between two calls other sessions may do
anything to the shared caches and the database. -/
inductive Uses (caches : ρ → Cache σ) (db : StatementRunner ρ σ) (w₀ : World (State ρ σ)) :
    List ρ → World (State ρ σ) → Prop where
  | start : Uses caches db w₀ [] w₀
  | others {flushed : List ρ} {w : World (State ρ σ)} {e : Environment} (y : σ)
      (h : Uses caches db w₀ flushed w) (he : w.env.Before e) :
      Uses caches db w₀ flushed ⟨e, (w.state.1, w.state.2.1, y)⟩
  | query {flushed : List ρ} {w w' : World (State ρ σ)} {e : Environment} {c : Caller}
      {st : Statement ρ} {b : BoundStatement} {bounds : RowBounds} {x : Except Error Value}
      (h : Uses caches db w₀ flushed w) (he : w.env.Before e)
      (hquery : (CachingSession.query caches db st b bounds c ⟨e, w.state⟩).Settles c.thread x w') :
      Uses caches db w₀ (flushed ++ st.flushes.toList) w'
  | update {flushed : List ρ} {w w' : World (State ρ σ)} {e : Environment} {c : Caller}
      {st : Statement ρ} {b : BoundStatement} {x : Except Error Nat}
      (h : Uses caches db w₀ flushed w) (he : w.env.Before e)
      (hupdate : CachingSession.update caches db st b c ⟨e, w.state⟩ = (x, w')) :
      Uses caches db w₀ (flushed ++ st.flushes.toList) w'
  | getCached {flushed : List ρ} {w w' : World (State ρ σ)} {e : Environment} {c : Caller} {r : ρ}
      {k : CacheKey} {x : Except Error (Option Value)}
      (h : Uses caches db w₀ flushed w) (he : w.env.Before e)
      (hget : (CachingSession.getCached caches r k c ⟨e, w.state⟩).Settles c.thread x w') :
      Uses caches db w₀ flushed w'
  | putCached {flushed : List ρ} {w w' : World (State ρ σ)} {e : Environment} {c : Caller} {r : ρ}
      {k : CacheKey} {v : Value} {x : Except Error Unit}
      (h : Uses caches db w₀ flushed w) (he : w.env.Before e)
      (hput : CachingSession.putCached caches r k v c ⟨e, w.state⟩ = (x, w')) :
      Uses caches db w₀ flushed w'

/-- Whatever an open session does, the commit will clear the flushed caches; a
closed one stays closed. -/
theorem Uses.willClear (hids : Function.Injective fun r => (shared caches r).id)
    {w₀ w : World (State ρ σ)} {flushed : List ρ} (h : Uses caches db w₀ flushed w)
    (h₀ : WillClear caches P closed w₀.state) :
    WillClear caches (fun r => (closed = false ∧ r ∈ flushed) ∨ P r) closed w.state := by
  have hflush : ∀ {flushed : List ρ} {st : Statement ρ} {s : State ρ σ},
      WillClear caches (fun r => (closed = false ∧ st.flushes = some r) ∨
        (closed = false ∧ r ∈ flushed) ∨ P r) closed s →
        WillClear caches (fun r => (closed = false ∧ r ∈ flushed ++ st.flushes.toList) ∨ P r)
          closed s := by
    intro flushed st s hs
    refine hs.mono ?_
    rintro r (⟨hopen, hr⟩ | hr)
    · rcases List.mem_append.1 hr with hr | hr
      · exact .inr (.inl ⟨hopen, hr⟩)
      · exact .inl ⟨hopen, Option.mem_toList.1 hr⟩
    · exact .inr (.inr hr)
  induction h with
  | start => exact h₀.mono fun r hr => hr.resolve_left fun hnil => List.not_mem_nil hnil.2
  | others y _ _ ih => exact ih
  | query _ _ hquery ih => exact hflush ((query_willClear hids _ _ _).settles hquery ih)
  | update _ _ hupdate ih =>
    have hnoted := (update_willClear hids _ _).ends hupdate ih
    exact hflush (hnoted.mono fun r hr => hr.imp_left And.right)
  | getCached _ _ hget ih => exact Await.Hoare.settles (getCached_willClear hids _ _) hget ih
  | putCached _ _ hput ih => exact (putCached_willClear hids _ _ _).ends hput ih

/-! ## The commit of a session -/

/-- Commits the session, then the buffered effects: the buffers in the order
that `order` gives, and the missed keys of each in the order that `misses` gives. -/
def commitIn (order : UnitOfWork ρ → List (String × ρ)) (misses : Buffer → List CacheKey)
    (caches : ρ → Cache σ) (db : StatementRunner ρ σ) (required : Bool) :
    CachingCall ρ σ Unit := do
  .ofOp (onSession (Session.commit db required))
  (UnitOfWork.commitWith order misses (shared caches)).mapError .cache

theorem commitIn_touched (caches : ρ → Cache σ) (db : StatementRunner ρ σ) (required : Bool) :
    commitIn UnitOfWork.touched Buffer.misses caches db required = commit caches db required := rfl

/-- The commit of an open session does to the state below what the database does. -/
theorem commit_below {Q : σ → Prop} (hdb : db.commit.Hoare Q fun _ s => Q s) (required : Bool) :
    (Session.commit db required).Hoare (fun s => s.1.closed = false ∧ Q s.2) fun _ s => Q s.2 := by
  have hcommit : (Session.commit db required).Hoare (Session.Sound (fun _ _ => True) false Q)
      fun _ s => Q s.2 := by
    refine Session.forgetting_sound nofun ?_
    intro _
    cases required with
    | true => exact hdb.second.mono (fun _ hs => hs) fun _ _ hs => hs.2
    | false => exact .pure fun _ hs => hs.2
  exact hcommit.mono (fun s hs => sound_of_open hs.1 hs.2) fun _ _ hs => hs

/-- A session that has committed is open. -/
theorem open_of_commit {required : Bool} {c : Caller} {w : World (State ρ σ)}
    (h : (onSession (ρ := ρ) (Session.commit db required) c w).1 = .ok ()) :
    w.state.2.1.closed = false := by
  rw [← Bool.not_eq_true]
  intro hclosed
  have hrefuses : (Session.commit db required).Hoare (fun s => s.1.closed = true)
      fun x s => (∃ e, x = .error e) ∧ s.1.closed = true := refuses_closed _
  have honSession : (onSession (Session.commit db required) : CachingOp ρ σ Unit).Meets c.thread w
      fun x _ => ∃ e, x = .error e := by
    refine Op.Meets.focus ((hrefuses c.thread _ hclosed).mono ?_)
    intro _ _ hx
    exact hx.1
  obtain ⟨err, herr⟩ := honSession c rfl
  rw [h] at herr
  cases herr

variable {T : ρ → Type} {d : ∀ r, Cache (T r)} {part : ∀ r, σ → T r} {store : ∀ r, T r → Store}

/-- How a commit of the session treats a cache with a pending clear. -/
theorem commitIn_treats (h : UnitOfWork.RelaysEach caches d part)
    (he : ∀ r, Empties (d r) (store r))
    (hdb : ∀ y, db.commit.Hoare (fun s => ∀ r, part r s = part r y)
      fun _ s => ∀ r, part r s = part r y)
    {order : UnitOfWork ρ → List (String × ρ)} {misses : Buffer → List CacheKey}
    (ho : ∀ u, (order u).Perm u.touched) (hm : ∀ b, (misses b).Perm b.misses) (required : Bool)
    (t : Thread) {w : World (State ρ σ)} (hw : WillClear caches P false w.state) :
    (commitIn order misses caches db required).Meets t w fun x w' =>
      ∀ r, P r →
        Buffer.Renewed (d r) (store r) (w.state.1.buffer (caches r).id).plan (part r w.state.2.2)
            (part r w'.state.2.2) ∨
          (x ≠ .ok () ∧ part r w'.state.2.2 = part r w.state.2.2 ∧
            UnitOfWork.Pending (shared caches) r w'.state.1) := by
  obtain ⟨e, u, l, y⟩ := w
  obtain ⟨⟨hfiled, hpending⟩, hopen⟩ := hw
  have hsession : (onSession (Session.commit db required) : CachingOp ρ σ Unit).Meets t
      ⟨e, (u, l, y)⟩ fun _ w' => w'.state.1 = u ∧ ∀ r, part r w'.state.2.2 = part r y := by
    refine Op.Meets.focus ((commit_below (hdb y) required t _ ⟨hopen, fun _ => rfl⟩).mono ?_)
    intro _ w' hs
    exact ⟨rfl, hs⟩
  refine Await.Meets.bind_of (Await.Meets.ofOp hsession) ?_ ?_
  · -- the database has committed
    rintro _ ⟨e₁, u₁, l₁, y₁⟩ ⟨rfl, hsame⟩
    have hunit := UnitOfWork.commitWith_treats (h.under Session.held) he ho hm hfiled t e₁
      (y := (l₁, y₁))
    refine Await.Meets.mapError (hunit.mono ?_)
    intro x w' htreats r hr
    rcases htreats r (hpending r hr) with hrenewed | ⟨hx, hpart, hstill⟩
    · left
      rw [← hsame r]
      exact hrenewed
    · right
      refine ⟨?_, hpart.trans (hsame r), hstill⟩
      intro hok
      cases x with
      | ok _ => exact hx rfl
      | error _ => cases hok
  · -- the database has not committed, and nothing else is done
    rintro err ⟨e₁, u₁, l₁, y₁⟩ ⟨rfl, hsame⟩ r hr
    exact .inr ⟨nofun, hsame r, hpending r hr⟩

end CachingSession

/-! ## Many built caches beside a database -/

/-- The states of many caches beside that of a database. -/
abbrev Rack {ρ : Type} (stack : ρ → Stack) (δ : Type) : Type := (∀ r, (stack r).State) × δ

namespace Rack

variable {ρ δ : Type} [DecidableEq ρ]

section Caches

variable (stack : ρ → Stack) (held : ρ → Rack stack δ → List Value)

/-- The state of one cache; `held` gives the values that the rest holds. -/
def place (r : ρ) : Focus (Rack stack δ) (stack r).State where
  get s := s.1 r
  set x s := (Function.update s.1 r x, s.2)
  held := held r

/-- One of the caches. -/
def cache (r : ρ) : Cache (Rack stack δ) := (stack r).cache.within (place stack held r)

/-- The database. -/
def database (cachesHeld : (∀ r, (stack r).State) → List Value) (db : StatementRunner ρ δ) :
    StatementRunner ρ (Rack stack δ) := db.within (Focus.second cachesHeld)

variable {stack}

theorem id_cache (r : ρ) : (cache stack held r).id = (stack r).id := Stack.id_cacheOf ..

theorem ids_cache (hids : Function.Injective fun r => (stack r).id) :
    Function.Injective fun r => (cache stack held r).id := by
  simpa only [id_cache] using hids

theorem relaysEach_cache (hids : Function.Injective fun r => (stack r).id) :
    UnitOfWork.RelaysEach (cache stack held) (fun r => (stack r).cache) fun r s => s.1 r where
  each r := by
    refine Relays.within (f := place stack held r) ?_ ?_ ?_ ?_
    · intro s
      constructor
      · intro x
        exact Function.update_self ..
      · intro x x'
        exact Prod.ext (Function.update_idem ..) rfl
    · intro s x r' hr'
      exact Function.update_of_ne hr' ..
    · intro s r' _
      rfl
    · intro s s' s'' h h' r' hr'
      exact (h' r' hr').trans (h r' hr')
  ids := ids_cache held hids

omit [DecidableEq ρ] in
theorem database_commit_keeps (cachesHeld : (∀ r, (stack r).State) → List Value)
    (db : StatementRunner ρ δ) (y : Rack stack δ) :
    (database stack cachesHeld db).commit.Hoare (fun s => ∀ r, s.1 r = y.1 r)
      fun _ s => ∀ r, s.1 r = y.1 r := by
  intro t w hw c _
  exact hw

end Caches

/-- Caches that builders without custom parts make, no two of them with one id. -/
structure IsBuilt (b : ρ → CacheBuilder) (stack : ρ → Stack) : Prop where
  implementation : ∀ r, (b r).implementation = none
  decorators : ∀ r, (b r).decorators = []
  build : ∀ r, (b r).build = .ok (stack r)
  ids : Function.Injective fun r => (stack r).id

open CachingSession

/-- A cache that a session asked to flush is cleared when the session commits
and the database has committed, and after that gets nothing but writes of the
unit.  If the commit fails it may not have got as far as this cache: then the
cache is as it was, and the clear is still to come. -/
theorem flushed_at_commit {b : ρ → CacheBuilder} {stack : ρ → Stack} (hbuilt : IsBuilt b stack)
    {held : ρ → Rack stack δ → List Value} {cachesHeld : (∀ r, (stack r).State) → List Value}
    {db : StatementRunner ρ δ} {w₀ w : World (State ρ (Rack stack δ))} {flushed : List ρ}
    (hfiled : UnitOfWork.Filed (shared (cache stack held)) w₀.state.1)
    (huses : Uses (cache stack held) (database stack cachesHeld db) w₀ flushed w)
    {order : UnitOfWork ρ → List (String × ρ)} {misses : Buffer → List CacheKey}
    (ho : ∀ u, (order u).Perm u.touched) (hm : ∀ b, (misses b).Perm b.misses) {required : Bool}
    {e : Environment} {c : Caller} {x : Except Error Unit} {w' : World (State ρ (Rack stack δ))}
    (hdb : (onSession (ρ := ρ) (Session.commit (database stack cachesHeld db) required) c
      ⟨e, w.state⟩).1 = .ok ())
    (hcommit : (commitIn order misses (cache stack held) (database stack cachesHeld db) required c
      ⟨e, w.state⟩).Settles c.thread x w')
    {r : ρ} (hr : r ∈ flushed ∨ UnitOfWork.Pending (shared (cache stack held)) r w₀.state.1) :
    (Buffer.Renewed (stack r).cache (Stack.storeOf (stack r).layers)
        (w.state.1.buffer (stack r).id).plan (w.state.2.2.1 r) (w'.state.2.2.1 r) ∧
      ¬ Buffer.HoldsOld (w.state.1.buffer (stack r).id).plan
        (Stack.storeOf (stack r).layers (w.state.2.2.1 r))
        (Stack.storeOf (stack r).layers (w'.state.2.2.1 r))) ∨
      (x ≠ .ok () ∧ w'.state.2.2.1 r = w.state.2.2.1 r ∧
        UnitOfWork.Pending (shared (cache stack held)) r w'.state.1) := by
  have hrelays := relaysEach_cache held hbuilt.ids
  have hempties : ∀ r, Empties (stack r).cache (Stack.storeOf (stack r).layers) := fun r =>
    CacheBuilder.empties_of_build (hbuilt.implementation r) (hbuilt.decorators r) (hbuilt.build r)
  have hstart : WillClear (cache stack held)
      (fun r => UnitOfWork.Pending (shared (cache stack held)) r w₀.state.1)
      w₀.state.2.1.closed w₀.state := ⟨⟨hfiled, fun r hr => hr⟩, rfl⟩
  have hclear := huses.willClear (ids_cache held hbuilt.ids) hstart
  have hopen : w.state.2.1.closed = false := open_of_commit (w := ⟨e, w.state⟩) hdb
  rw [hclear.2.symm.trans hopen] at hclear
  have htreats := commitIn_treats (w := ⟨e, w.state⟩) hrelays hempties
    (database_commit_keeps cachesHeld db) ho hm required c.thread hclear
  have hadds := CacheBuilder.addsOwn_of_build (hbuilt.implementation r) (hbuilt.decorators r)
    (hbuilt.build r)
  rw [← id_cache held r]
  have hwillClear : (false = false ∧ r ∈ flushed) ∨
      UnitOfWork.Pending (shared (cache stack held)) r w₀.state.1 := hr.imp_left fun h => ⟨rfl, h⟩
  refine ((htreats c rfl).settles hcommit r hwillClear).imp_left ?_
  intro hrenewed
  exact ⟨hrenewed, hrenewed.not_holdsOld hadds _⟩

/-! ## A flush that is still to come -/

/-- When the database has committed and the commit of the session returns, no
cache that the session asked to flush has an entry from before the commit. -/
def FlushSurvives : Prop :=
  ∀ (ρ δ : Type) [DecidableEq ρ] (b : ρ → CacheBuilder) (stack : ρ → Stack),
    IsBuilt b stack → ∀ (held : ρ → Rack stack δ → List Value)
      (cachesHeld : (∀ r, (stack r).State) → List Value) (db : StatementRunner ρ δ)
      (w₀ w w' : World (State ρ (Rack stack δ))) (flushed : List ρ),
      w₀.state.1.buffers = .empty →
      Uses (cache stack held) (database stack cachesHeld db) w₀ flushed w →
      ∀ (order : UnitOfWork ρ → List (String × ρ)) (misses : Buffer → List CacheKey)
        (required : Bool) (e : Environment) (c : Caller) (x : Except Error Unit),
        (∀ u, (order u).Perm u.touched) → (∀ b, (misses b).Perm b.misses) → w.env.Before e →
        (onSession (ρ := ρ) (Session.commit (database stack cachesHeld db) required) c
          ⟨e, w.state⟩).1 = .ok () →
        (commitIn order misses (cache stack held) (database stack cachesHeld db) required c
          ⟨e, w.state⟩).Settles c.thread x w' →
        ∀ r ∈ flushed, ¬ Buffer.HoldsOld (w.state.1.buffer (stack r).id).plan
          (Stack.storeOf (stack r).layers (w.state.2.2.1 r))
          (Stack.storeOf (stack r).layers (w'.state.2.2.1 r))

/-- Builders of two read-write caches, each for one entry. -/
def twoBuilders (r : Bool) : CacheBuilder :=
  { id := if r then "users" else "orders", size := some 1 }

/-- The two caches. -/
def twoStacks (r : Bool) : Stack :=
  ⟨if r then "users" else "orders", [.synchronized, .statistics, .serialized, .lru 1]⟩

theorem isBuilt_two : IsBuilt twoBuilders twoStacks where
  implementation _ := rfl
  decorators _ := rfl
  build r := by cases r <;> rfl
  ids := by decide

/-- The state of one of the caches after a put. -/
def filled (r : Bool) : (twoStacks r).State :=
  ((twoStacks r).cache.put .null (some (.data 0 (.bool true) true)) ⟨"main", []⟩
    ⟨{ nextAlloc := 1 }, (twoStacks r).initial 0⟩).world.state

/-- The two caches, of which nothing else is held. -/
abbrev two : Bool → Cache (Rack twoStacks UsersTable) := cache twoStacks fun _ _ => []

/-- An empty table beside the two caches. -/
abbrev table : StatementRunner Bool (Rack twoStacks UsersTable) :=
  database twoStacks (fun _ => []) UsersTable.runner

/-- An update that flushes one of the caches. -/
def flushing (r : Bool) : Statement Bool :=
  { id := "rename", kind := .update, sql := "", cache := some r }

/-- A new session; both caches have an entry. -/
def before : World (State Bool (Rack twoStacks UsersTable)) :=
  ⟨{ nextAlloc := 3 }, ({}, {}, (filled, { rows := [] }))⟩

/-- The first update has run. -/
def flushedUsers : World (State Bool (Rack twoStacks UsersTable)) :=
  (update two table (flushing true) ⟨"", []⟩ ⟨"main", []⟩ before).2

/-- The second update has run. -/
def flushedBoth : World (State Bool (Rack twoStacks UsersTable)) :=
  (update two table (flushing false) ⟨"", []⟩ ⟨"main", []⟩ flushedUsers).2

/-- A plain value waits for the first cache. -/
def wroteUsers : World (State Bool (Rack twoStacks UsersTable)) :=
  (putCached two true KeyBuilder.empty.build (.data 1 (.bool true) false) ⟨"main", []⟩
    flushedBoth).2

/-- A plain value waits for the second cache too. -/
def wroteBoth : World (State Bool (Rack twoStacks UsersTable)) :=
  (putCached two false KeyBuilder.empty.build (.data 1 (.bool true) false) ⟨"main", []⟩
    wroteUsers).2

/-- The commit has failed in the first cache. -/
def halfCommitted : World (State Bool (Rack twoStacks UsersTable)) :=
  (commit two table true ⟨"main", []⟩ wroteBoth).world

theorem uses_wroteBoth : Uses two table before [true, false] wroteBoth := by
  have hflush₁ : update two table (flushing true) ⟨"", []⟩ ⟨"main", []⟩ before =
      (.ok 0, flushedUsers) := by rfl
  have hflush₂ : update two table (flushing false) ⟨"", []⟩ ⟨"main", []⟩ flushedUsers =
      (.ok 0, flushedBoth) := by rfl
  have hput₁ : putCached two true KeyBuilder.empty.build (.data 1 (.bool true) false) ⟨"main", []⟩
      flushedBoth = (.ok (), wroteUsers) := by rfl
  have hput₂ : putCached two false KeyBuilder.empty.build (.data 1 (.bool true) false)
      ⟨"main", []⟩ wroteUsers = (.ok (), wroteBoth) := by rfl
  have huses₁ : Uses two table before ([] ++ (flushing true).flushes.toList) flushedUsers :=
    .update .start (.refl _) hflush₁
  have huses₂ : Uses two table before ([true] ++ (flushing false).flushes.toList) flushedBoth :=
    .update huses₁ (.refl _) hflush₂
  exact .putCached (.putCached huses₂ (.refl _) hput₁) (.refl _) hput₂

/-- The database commits. -/
theorem commits_wroteBoth : (onSession (ρ := Bool) (Session.commit table true) ⟨"main", []⟩
    ⟨wroteBoth.env, wroteBoth.state⟩).1 = .ok () := by rfl

/-- The unit does not. -/
theorem commit_wroteBoth : (commit two table true ⟨"main", []⟩ wroteBoth).Settles "main"
    (.error (.cache (.notSerializable "users" "bool"))) halfCommitted := by
  refine Outcome.settles_of_eq ?_
  rfl

/-- The second cache still has its entry after the commit. -/
theorem not_flushSurvives : ¬ FlushSurvives := by
  intro h
  refine h Bool UsersTable twoBuilders twoStacks isBuilt_two (fun _ _ => []) (fun _ => [])
    UsersTable.runner before wroteBoth halfCommitted [true, false] rfl uses_wroteBoth
    UnitOfWork.touched Buffer.misses true wroteBoth.env ⟨"main", []⟩ _ (fun _ => .refl _)
    (fun _ => .refl _) (.refl _) commits_wroteBoth commit_wroteBoth false (by decide) ?_
  have hplan : (wroteBoth.state.1.buffer (twoStacks false).id).plan =
      [.clear, .put KeyBuilder.empty.build (some (.data 1 (.bool true) false))] := by rfl
  -- The entry under the other key was there before, and is there still.
  refine ⟨.null, _, by rfl, by rfl, ?_⟩
  intro x hx
  rw [hplan] at hx
  rcases List.mem_cons.1 hx with hx | hx
  · cases hx
  · cases List.mem_singleton.1 hx

/-- The commit that failed in the first cache has cleared it; the second one is as
it was, and its clear is still to come. -/
theorem flushed_at_commit_two :
    Buffer.Renewed (twoStacks true).cache (Stack.storeOf (twoStacks true).layers)
        (wroteBoth.state.1.buffer "users").plan (filled true) (halfCommitted.state.2.2.1 true) ∧
      halfCommitted.state.2.2.1 false = filled false ∧
      UnitOfWork.Pending (shared two) false halfCommitted.state.1 := by
  have hfiled : UnitOfWork.Filed (shared two) before.state.1 := fun id r b hb => nomatch hb
  have hflushed := flushed_at_commit isBuilt_two hfiled uses_wroteBoth (fun _ => .refl _)
    (fun _ => .refl _) (e := wroteBoth.env) (c := ⟨"main", []⟩) commits_wroteBoth
    commit_wroteBoth (r := true) (.inl (by decide))
  have hgone : (Stack.storeOf (twoStacks true).layers (halfCommitted.state.2.2.1 true)).find?
      .null = none := by rfl
  have hentry : ((Stack.storeOf (twoStacks true).layers (filled true)).find? .null).isSome =
      true := by rfl
  refine ⟨?_, rfl, rfl⟩
  rcases hflushed with ⟨hrenewed, -⟩ | ⟨-, hsame, -⟩
  · exact hrenewed
  · have hfilled : wroteBoth.state.2.2.1 true = filled true := by rfl
    rw [hsame, hfilled] at hgone
    rw [hgone] at hentry
    cases hentry

end Rack

end QueryCache
