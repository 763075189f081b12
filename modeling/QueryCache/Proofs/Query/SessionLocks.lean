import Mathlib
import QueryCache.Proofs.Query.ClosedSession
import QueryCache.Proofs.Transaction.LockedUnit

/-!
# Locks that a session takes

One thread uses a session over shared caches behind locks, while other threads go on.
Only the unit of work of the session comes to the caches: the session itself works on
the database.  So after every call, whatever failed in it, each lock that the thread
has is that of a key which the unit has missed.

1. what a session leaves to its database
2. the locks of built caches
3. calls that take the buffers in any order
4. locks of missed keys
5. what the thread and the others do
-/

namespace QueryCache

/-! ## What a session leaves to its database -/

/-- Whatever is asked of the database, it keeps the property. -/
structure StatementRunner.Keeps {ρ σ : Type} (db : StatementRunner ρ σ) (Q : σ → Prop) :
    Prop where
  query : ∀ st b w, (db.query st b w).Keeps Q
  update : ∀ st b, (db.update st b).Keeps Q
  commit : db.commit.Keeps Q
  rollback : db.rollback.Keeps Q
  close : db.close.Keeps Q

namespace Session

variable {ρ σ : Type} {db : StatementRunner ρ σ} {Q : σ → Prop}

theorem ensureOpen_keeps : (ensureOpen : SessionOp σ Unit).Keeps fun s => Q s.2 := by
  refine .ofLayer fun c w => ?_
  show ((if w.state.1.closed then _ else _ : SessionOp σ Unit) c w).2.state.2 = w.state.2
  split <;> rfl

theorem clearLocalIf_keeps (condition : Bool) :
    (clearLocalIf condition : SessionOp σ Unit).Keeps fun s => Q s.2 := by
  unfold clearLocalIf
  split
  · exact .ofLayer fun _ _ => rfl
  · exact .pure

variable (h : db.Keeps Q)

include h

theorem queryDatabase_keeps (st : Statement ρ) (b : BoundStatement) (w : RowBounds)
    (k : CacheKey) : (queryDatabase db st b w k).Keeps fun s => Q s.2 :=
  .bind ((h.query st b w).below held) fun _ => .bind (.ofLayer fun _ _ => rfl) fun _ => .pure

theorem queryWithKey_keeps (st : Statement ρ) (b : BoundStatement) (w : RowBounds)
    (k : CacheKey) : (queryWithKey db st b w k).Keeps fun s => Q s.2 := by
  have hend : ∀ result : Except Error Value,
      (do
        Op.modifyLayer fun s => { s with depth := s.depth - 1 }
        let s ← Op.layer
        clearLocalIf (s.depth == 0 && s.scope == .statement)
        Op.ofExcept result : SessionOp σ Value).Keeps fun s => Q s.2 := fun result =>
    .bind (.ofLayer fun _ _ => rfl) fun _ => .bind (.ofLayer fun _ _ => rfl) fun _ =>
      .bind (clearLocalIf_keeps _) fun _ => .ofExcept
  refine .bind ensureOpen_keeps fun _ => .bind (.ofLayer fun _ _ => rfl) fun s => ?_
  refine .bind (clearLocalIf_keeps _) fun _ => .bind (.ofLayer fun _ _ => rfl) fun _ => ?_
  refine .bind (.ofLayer fun _ _ => rfl) fun found => ?_
  cases found with
  | some v => exact hend (.ok v)
  | none => exact .bind_result (queryDatabase_keeps h st b w k) hend

theorem queryHandled_keeps (st : Statement ρ) (b : BoundStatement) (w : RowBounds) :
    (queryHandled db st b w).Keeps fun s => Q s.2 :=
  .bind ensureOpen_keeps fun _ => .bind (clearLocalIf_keeps _) fun _ => (h.query st b w).below held

theorem queryCursor_keeps (st : Statement ρ) (b : BoundStatement) (w : RowBounds) :
    (queryCursor db st b w).Keeps fun s => Q s.2 :=
  .bind ensureOpen_keeps fun _ => (h.query st b w).below held

theorem update_keeps (st : Statement ρ) (b : BoundStatement) :
    (update db st b).Keeps fun s => Q s.2 :=
  .bind ensureOpen_keeps fun _ => .bind (.ofLayer fun _ _ => rfl) fun _ =>
    (h.update st b).below held

theorem commit_keeps (required : Bool) : (commit db required).Keeps fun s => Q s.2 := by
  refine .bind ensureOpen_keeps fun _ => .bind (.ofLayer fun _ _ => rfl) fun _ => ?_
  split
  · exact h.commit.below held
  · exact .pure

theorem rollback_keeps (required : Bool) : (rollback db required).Keeps fun s => Q s.2 := by
  refine .bind (.ofLayer fun _ _ => rfl) fun s => ?_
  split
  · exact .pure
  · refine .bind (.ofLayer fun _ _ => rfl) fun _ => ?_
    split
    · exact h.rollback.below held
    · exact .pure

/-- A close succeeds and leaves the session closed, whether or not it was open. -/
theorem close_keeps (force : Bool) : (close db force).Hoare (fun s => Q s.2)
    fun x s => x = .ok () ∧ s.1.closed = true ∧ Q s.2 := by
  refine .bind_layer fun l => ?_
  split
  · rename_i hl
    refine .pure ?_
    rintro s ⟨rfl, hs⟩
    exact ⟨rfl, hl, hs⟩
  · have hclose : (database db).close.Hoare (fun s => Q s.2) fun _ s => Q s.2 :=
      h.close.below held
    have hrollback : (rollback db force).Hoare (fun s => s.1 = l ∧ Q s.2) fun _ s => Q s.2 :=
      Op.Hoare.mono (rollback_keeps h force) (fun _ hs => hs.2) fun _ _ hs => hs
    refine hrollback.bind_result fun _ => Op.Hoare.bind_ofSafe hclose fun _ => ?_
    exact .modifyLayer fun _ hs => ⟨rfl, rfl, hs⟩

end Session

/-! ## The locks of built caches -/

/-- The locks of the outermost layer of locks; a built cache has no other. -/
def Stack.locksOf : (layers : List Layer) → StateOf layers → KeyLocks
  | [], _ => .empty
  | .blocking _ :: _, s => s.1
  | _ :: rest, s => locksOf rest s.2

namespace Stack

/-- The thread has the locks of these keys at most. -/
def Within (t : Thread) (layers : List Layer) (keys : Set CacheKey) (s : StateOf layers) : Prop :=
  ∀ k, (locksOf layers s).find? k = some t → k ∈ keys

/-- The locks of the thread are the same. -/
def Spares (t : Thread) (layers : List Layer) (s s' : StateOf layers) : Prop :=
  ∀ k, (locksOf layers s').find? k = some t ↔ (locksOf layers s).find? k = some t

variable {layers : List Layer}

theorem Within.spared {t : Thread} {keys : Set CacheKey} {s s' : StateOf layers}
    (h : Within t layers keys s) (hs : Spares t layers s s') : Within t layers keys s' :=
  fun k hk => h k ((hs k).1 hk)

/-- Calls do to the locks of the thread what calls on a layer of locks do; and there are
no locks where a removal takes a key out. -/
structure IsLocking (id : String) (t : Thread) (removes : Bool) (layers : List Layer) : Prop where
  unlocked : removes = true → ∀ s, locksOf layers s = .empty
  locking : Locking (Spares t layers) t (Within t layers) (cacheOf id layers)

/-- Without locks there is nothing that a call can do to them. -/
theorem isLocking_of_unlocked (hnone : ∀ s, locksOf layers s = .empty) (id : String) (t : Thread)
    (removes : Bool) : IsLocking id t removes layers := by
  have hwithin : ∀ keys s, Within t layers keys s := by
    intro keys s k hk
    rw [hnone] at hk
    cases hk
  have hcall : ∀ {α : Type} (m : CacheCall (StateOf layers) α) {pre : StateOf layers → Prop}
      {keys : Except CacheError α → Set CacheKey},
      m.HoareAmid (Spares t layers) t pre fun r => Within t layers (keys r) := by
    intro α m pre keys
    have htrue : m.HoareAmid (Spares t layers) t (fun _ => True) fun _ _ => True ∧ True :=
      (Await.Throughout.unasked m).amid (fun _ _ _ h => h) t
    exact htrue.mono (fun _ _ => trivial) fun _ s _ => hwithin _ s
  exact ⟨fun _ => hnone, {
    mono := fun _ _ => hwithin _ _
    get := fun _ _ => hcall _
    put := fun _ _ _ => hcall _
    clear := fun _ => hcall _
    releaseLock := fun _ _ => hcall _ }⟩

/-- Another layer without locks. -/
theorem IsLocking.under {id : String} {t : Thread} {l : Layer} (h : IsLocking id t true layers)
    (hl : ∀ s : StateOf (l :: layers), locksOf (l :: layers) s = locksOf layers s.2) :
    IsLocking id t true (l :: layers) :=
  isLocking_of_unlocked (fun s => (hl s).trans (h.unlocked rfl s.2)) id t true

end Stack

/-- Of the layers of a built cache the outermost one alone can have locks. -/
theorem CacheBuilder.locking_of_build {b : CacheBuilder} {s : Stack}
    (himpl : b.implementation = none) (hdec : b.decorators = []) (hb : b.build = .ok s)
    (t : Thread) : Locking (Stack.Spares t s.layers) t (Stack.Within t s.layers) s.cache := by
  obtain rfl := eq_of_build himpl hdec hb
  have heviction : ∀ s, Stack.locksOf [b.evictionLayer] s = .empty := by
    unfold evictionLayer
    cases b.eviction <;> exact fun _ => rfl
  have hlayers := b.layers_induction (P := fun _ removes => Stack.IsLocking b.id t removes)
    (Stack.isLocking_of_unlocked heviction b.id t true)
    (fun h => h.under fun _ => rfl) (fun h => h.under fun _ => rfl) (fun h => h.under fun _ => rfl)
    (fun _ h => h.under fun _ => rfl) fun timeout _ => ⟨nofun, Blocking.locking_around timeout _⟩
  exact hlayers.locking

namespace Rack

open CachingSession

variable {ρ δ : Type} {stack : ρ → Stack}

/-- The thread has the lock of a key in a cache. -/
def HasLock (t : Thread) (y : Rack stack δ) (r : ρ) (k : CacheKey) : Prop :=
  (Stack.locksOf (stack r).layers (y.1 r)).find? k = some t

/-- The others take no lock from the thread, and give it none. -/
def Spares (t : Thread) (y y' : Rack stack δ) : Prop := ∀ r k, HasLock t y' r k ↔ HasLock t y r k

/-- The thread has the locks of these keys at most. -/
def Bounded (t : Thread) (bound : ρ → Set CacheKey) (y : Rack stack δ) : Prop :=
  ∀ r k, HasLock t y r k → k ∈ bound r

theorem lockingFamily_cache [DecidableEq ρ] {b : ρ → CacheBuilder} (hbuilt : IsBuilt b stack)
    (held : ρ → Rack stack δ → List Value) (t : Thread) :
    LockingFamily (Spares t) t (Bounded t) (cache stack held) := by
  have hlocking : ∀ r, Locking (Stack.Spares t (stack r).layers) t
      (Stack.Within t (stack r).layers) (stack r).cache := fun r =>
    CacheBuilder.locking_of_build (hbuilt.implementation r) (hbuilt.decorators r) (hbuilt.build r) t
  have hids : Function.Injective fun r => (stack r).cache.id := by
    simpa only [Stack.cache, Stack.id_cacheOf] using hbuilt.ids
  exact LockingFamily.of_parts (place stack held) hlocking
    (fun _ _ _ _ h hs => Stack.Within.spared h hs) (fun _ _ _ => Function.update_self ..)
    (fun _ _ _ _ hr => Function.update_of_ne hr ..) (fun r _ _ h => h r) hids

/-- The database has no locks. -/
theorem database_keeps (cachesHeld : (∀ r, (stack r).State) → List Value)
    (db : StatementRunner ρ δ) (t : Thread) (bound : ρ → Set CacheKey) :
    (database stack cachesHeld db).Keeps (Bounded t bound) where
  query _ _ _ _ _ hw _ _ := hw
  update _ _ _ _ hw _ _ := hw
  commit _ _ hw _ _ := hw
  rollback _ _ hw _ _ := hw
  close _ _ hw _ _ := hw

end Rack

/-! ## Calls that take the buffers in any order -/

/-- In which order a commit or a rollback takes the buffers, and the missed keys of each. -/
structure FlushOrder (ρ : Type) where
  buffers : UnitOfWork ρ → List (String × ρ)
  misses : Buffer → List CacheKey
  buffers_perm : ∀ u, (buffers u).Perm u.touched
  misses_perm : ∀ b, (misses b).Perm b.misses

/-- The order in which the caches were touched and the keys were missed. -/
def FlushOrder.asTouched {ρ : Type} : FlushOrder ρ :=
  ⟨UnitOfWork.touched, Buffer.misses, fun _ => .refl _, fun _ => .refl _⟩

namespace CachingSession

variable {ρ σ : Type}

/-- Commits the buffered effects. -/
def commitUnitIn (o : FlushOrder ρ) (caches : ρ → Cache σ) : CachingCall ρ σ Unit :=
  (UnitOfWork.commitWith o.buffers o.misses (shared caches)).mapError .cache

/-- Rolls back the buffered effects. -/
def rollbackUnitIn (o : FlushOrder ρ) (caches : ρ → Cache σ) : CachingOp ρ σ Unit :=
  (UnitOfWork.rollbackWith o.buffers o.misses (shared caches)).mapError .cache

/-- Rolls back the session and, if that is required, the buffered effects. -/
def rollbackIn (o : FlushOrder ρ) (caches : ρ → Cache σ) (db : StatementRunner ρ σ)
    (required : Bool) : CachingOp ρ σ Unit := do
  let result ← (onSession (Session.rollback db required)).result
  if required then rollbackUnitIn o caches
  Op.ofExcept result

/-- Ends the unit and closes the session in any case. -/
def closeIn (o : FlushOrder ρ) (caches : ρ → Cache σ) (db : StatementRunner ρ σ) (force : Bool) :
    CachingCall ρ σ Unit := do
  let result ←
    if force then do
      .ofOp (rollbackUnitIn o caches)
      pure (.ok ())
    else (commitUnitIn o caches).result
  .ofOp (onSession (Session.close db force))
  .ofOp (Op.ofExcept result)

/-- Makes a call that takes the buffers in the given order, if it comes to them. -/
def Call.runIn (o : FlushOrder ρ) (caches : ρ → Cache σ) (db : StatementRunner ρ σ) :
    Call ρ → CachingCall ρ σ Reply
  | .commit required => do
    commitIn o.buffers o.misses caches db required
    return .nothing
  | .rollback required => do
    .ofOp (rollbackIn o caches db required)
    return .nothing
  | .close force => do
    closeIn o caches db force
    return .nothing
  | call => call.run caches db

/-- A call as such takes the buffers in the order in which they were touched. -/
theorem Call.runIn_asTouched (caches : ρ → Cache σ) (db : StatementRunner ρ σ) (call : Call ρ) :
    call.runIn .asTouched caches db = call.run caches db := by
  have hunit : rollbackUnitIn .asTouched caches = rollbackUnit caches := by
    rw [rollbackUnitIn, rollbackUnit, ← UnitOfWork.rollbackWith_touched]
    rfl
  cases call with
  | rollback required =>
    rw [runIn, run, rollbackIn, CachingSession.rollback, hunit]
  | close force =>
    rw [runIn, run, closeIn, CachingSession.close, hunit]
    rfl
  | _ => rfl

/-! ## Locks of missed keys -/

/-- The thread has no locks but those of keys that the unit has missed. -/
def Covered (bounded : (ρ → Set CacheKey) → σ → Prop) (caches : ρ → Cache σ) (s : State ρ σ) :
    Prop :=
  UnitOfWork.Covered (fun bound y => bounded bound y.2) (shared caches) s

/-- A call of the thread amid others leaves it without locks but those of missed keys. -/
def KeepsCovered {α : Type} (caches : ρ → Cache σ) (others : σ → σ → Prop) (t : Thread)
    (bounded : (ρ → Set CacheKey) → σ → Prop) (m : CachingCall ρ σ α) : Prop :=
  m.HoareAmid (Beside (Beside others)) t (Covered bounded caches) fun _ => Covered bounded caches

variable {caches : ρ → Cache σ} {db : StatementRunner ρ σ} {others : σ → σ → Prop} {t : Thread}
  {bounded : (ρ → Set CacheKey) → σ → Prop} {α β : Type}

namespace KeepsCovered

/-- An operation that changes nothing. -/
theorem ofStill {m : CachingOp ρ σ α} (h : ∀ c w, (m c w).2.state = w.state) :
    KeepsCovered caches others t bounded (.ofOp m) := by
  refine .ofOp fun c w _ hw => ?_
  rw [h c w]
  exact hw

theorem pure (a : α) : KeepsCovered caches others t bounded (Pure.pure a) := ofStill fun _ _ => rfl

theorem bind {m : CachingCall ρ σ α} {f : α → CachingCall ρ σ β}
    (hm : KeepsCovered caches others t bounded m)
    (hf : ∀ a, KeepsCovered caches others t bounded (f a)) :
    KeepsCovered caches others t bounded (m >>= f) :=
  Await.HoareAmid.bind hm hf fun _ _ hs => hs

theorem ofOp_bind {m : CachingOp ρ σ α} {f : α → CachingOp ρ σ β}
    (hm : KeepsCovered caches others t bounded (.ofOp m))
    (hf : ∀ a, KeepsCovered caches others t bounded (.ofOp (f a))) :
    KeepsCovered caches others t bounded (.ofOp (m >>= f)) :=
  Await.HoareAmid.ofOp_bind (hm.bind hf)

/-- A call of which more is known. -/
theorem of {m : CachingCall ρ σ α} {post : Except Error α → State ρ σ → Prop}
    (h : m.HoareAmid (Beside (Beside others)) t (Covered bounded caches) post)
    (hpost : ∀ x s, post x s → Covered bounded caches s) :
    KeepsCovered caches others t bounded m := h.mono (fun _ hs => hs) hpost

end KeepsCovered

/-- The session itself takes no locks. -/
theorem onSession_covered {m : Session.SessionOp σ α}
    (h : ∀ bound, m.Keeps fun s => bounded bound s.2) :
    KeepsCovered caches others t bounded (.ofOp (onSession m)) := by
  refine .ofOp ?_
  rintro c w - ⟨hfiled, hs⟩
  exact ⟨hfiled, h _ c.thread ⟨w.env, w.state.2⟩ hs _ rfl⟩

section Close

variable (hdb : ∀ bound, db.Keeps (bounded bound))

include hdb

/-- The session is closed, and the unit is as it was. -/
theorem onSession_close (force : Bool) (c : Caller) {w : World (State ρ σ)}
    (hw : Covered bounded caches w.state) :
    ∃ w', onSession (Session.close db force) c w = (.ok (), w') ∧ w'.state.2.1.closed = true ∧
      Covered bounded caches w'.state ∧ w'.state.1 = w.state.1 := by
  obtain ⟨hok, hclosed, hs⟩ := Session.close_keeps (hdb _) force c.thread ⟨w.env, w.state.2⟩ hw.2
    ((Focus.second UnitOfWork.held).caller w.state c) rfl
  exact ⟨_, Prod.ext hok rfl, hclosed, ⟨hw.1, hs⟩, rfl⟩

/-- A close that forces no rollback gives the result of the commit, and leaves the unit as the
commit leaves it. -/
theorem closeIn_false_ends (o : FlushOrder ρ) {pre : State ρ σ → Prop}
    {P : Except Error Unit → UnitOfWork ρ → Prop}
    (hunit : (commitUnitIn o caches).HoareAmid (Beside (Beside others)) t pre
      fun x s => Covered bounded caches s ∧ P x s.1) :
    (closeIn o caches db false).HoareAmid (Beside (Beside others)) t pre
      fun x s => s.2.1.closed = true ∧ Covered bounded caches s ∧ P x s.1 := by
  refine .bind_result hunit fun result => ?_
  rintro c w - ⟨hs, hP⟩
  obtain ⟨w', hrun, hclosed, hs', hsame⟩ := onSession_close hdb false c hs
  have hafter : afterCommit db result c w = .done result w' :=
    (Await.bind_of_done (Await.ofOp_of_eq hrun)).trans rfl
  show (afterCommit db result c w).Amid _ _ _
  rw [hafter]
  exact ⟨hclosed, hs', hsame.symm ▸ hP⟩

end Close

variable [DecidableEq ρ] (hl : LockingFamily others t bounded caches)

include hl

theorem flushIfRequired_covered (st : Statement ρ) :
    KeepsCovered caches others t bounded (.ofOp (flushIfRequired caches st)) := by
  rw [flushIfRequired_eq]
  cases st.flushes with
  | none => exact .pure ()
  | some r => exact UnitOfWork.clear_covered (hl.under Session.held) r

theorem getCached_covered (r : ρ) (k : CacheKey) :
    KeepsCovered caches others t bounded (getCached caches r k) :=
  .mapError (UnitOfWork.get_covered (hl.under Session.held) r k)

theorem putCached_covered (r : ρ) (k : CacheKey) (v : Value) :
    KeepsCovered caches others t bounded (.ofOp (putCached caches r k v)) :=
  UnitOfWork.put_covered (hl.under Session.held) r k (some v)

theorem commitUnitIn_ends (o : FlushOrder ρ) :
    (commitUnitIn o caches).HoareAmid (Beside (Beside others)) t (Covered bounded caches)
      fun x s => Covered bounded caches s ∧ (x = .ok () → NothingBuffered s.1) := by
  refine .mapError ?_
  refine (UnitOfWork.commitWith_covered (hl.under Session.held) o.buffers_perm
    o.misses_perm).mono (fun _ hs => hs) ?_
  rintro x s ⟨hs, hempty⟩
  refine ⟨hs, fun hx => hempty ?_⟩
  cases x with
  | ok u => rfl
  | error e => cases hx

theorem rollbackUnitIn_run (o : FlushOrder ρ) {c : Caller} (hc : c.thread = t)
    {w : World (State ρ σ)} (hw : Covered bounded caches w.state) :
    ∃ w', rollbackUnitIn o caches c w = (.ok (), w') ∧ Covered bounded caches w'.state ∧
      NothingBuffered w'.state.1 := by
  obtain ⟨hok, hs⟩ := UnitOfWork.rollbackWith_covered (hl.under Session.held) o.buffers_perm
    o.misses_perm c w hc hw
  exact ⟨_, Prod.ext (congrArg (Except.mapError Error.cache) hok) rfl, hs⟩

variable (hdb : ∀ bound, db.Keeps (bounded bound))

include hdb

theorem queryWithKey_covered (st : Statement ρ) (b : BoundStatement) (bounds : RowBounds)
    (k : CacheKey) :
    KeepsCovered caches others t bounded (CachingSession.queryWithKey caches db st b bounds k) := by
  have hsession : KeepsCovered caches others t bounded
      (.ofOp (onSession (Session.queryWithKey db st b bounds k))) :=
    onSession_covered fun bound => Session.queryWithKey_keeps (hdb bound) st b bounds k
  refine (flushIfRequired_covered hl st).bind fun _ => ?_
  cases st.applicableCache with
  | none => exact hsession
  | some r =>
    have houtput : KeepsCovered caches others t bounded (.ofOp (ensureNoOutput st)) := by
      unfold ensureNoOutput
      split <;> exact .ofStill fun _ _ => rfl
    refine houtput.bind fun _ => (getCached_covered hl r k).bind fun found => ?_
    cases found with
    | some v => exact .pure v
    | none => exact hsession.bind fun v => (putCached_covered hl r k v).bind fun _ => .pure v

theorem rollbackIn_covered (o : FlushOrder ρ) (required : Bool) :
    KeepsCovered caches others t bounded (.ofOp (rollbackIn o caches db required)) := by
  have hsession : KeepsCovered caches others t bounded
      (.ofOp (onSession (Session.rollback db required))) :=
    onSession_covered fun bound => Session.rollback_keeps (hdb bound) required
  refine .ofOp_bind_result hsession fun result => ?_
  have hend : KeepsCovered caches others t bounded (.ofOp (Op.ofExcept result)) :=
    .ofStill fun _ _ => rfl
  cases required with
  | false => exact hend
  | true =>
    refine KeepsCovered.ofOp_bind (.ofOp fun c w hc hw => ?_) fun _ => hend
    obtain ⟨w', hrun, hs, -⟩ := rollbackUnitIn_run hl o hc hw
    rw [hrun]
    exact hs

/-- A close that forces a rollback succeeds and empties every buffer. -/
theorem closeIn_true_run (o : FlushOrder ρ) {c : Caller} (hc : c.thread = t)
    {w : World (State ρ σ)} (hw : Covered bounded caches w.state) :
    ∃ w', closeIn o caches db true c w = .done (.ok ()) w' ∧ w'.state.2.1.closed = true ∧
      Covered bounded caches w'.state ∧ NothingBuffered w'.state.1 := by
  obtain ⟨w₁, hunit, hs, hempty⟩ := rollbackUnitIn_run hl o hc hw
  obtain ⟨w₂, hrun, hclosed, hs', hsame⟩ := onSession_close hdb true c hs
  refine ⟨w₂, ?_, hclosed, hs', hsame.symm ▸ hempty⟩
  rw [closeIn, if_pos rfl, Await.bind_of_done (Await.ofOp_of_eq hunit)]
  exact (Await.bind_of_done (Await.ofOp_of_eq hrun)).trans rfl

/-- Every call leaves the thread without locks but those of missed keys. -/
theorem Call.runIn_covered (o : FlushOrder ρ) (call : Call ρ) :
    KeepsCovered caches others t bounded (call.runIn o caches db) := by
  have hreply : ∀ {α : Type} {m : CachingCall ρ σ α} (reply : α → Reply),
      KeepsCovered caches others t bounded m →
        KeepsCovered caches others t bounded (do return reply (← m)) :=
    fun reply hm => hm.bind fun a => .pure (reply a)
  have hflushed : ∀ {α : Type} (st : Statement ρ) {m : Session.SessionOp σ α},
      (∀ bound, m.Keeps fun s => bounded bound s.2) → KeepsCovered caches others t bounded
        (.ofOp (do flushIfRequired caches st; onSession m)) := fun st _ hm =>
    .ofOp_bind (flushIfRequired_covered hl st) fun _ => onSession_covered hm
  cases call with
  | query st b bounds =>
    have hsession : KeepsCovered caches others t bounded (.ofOp session) := .ofStill fun _ _ => rfl
    have hkey : ∀ s : Session, KeepsCovered caches others t bounded
        (.ofOp (Op.ofExcept (s.key st b bounds))) := fun _ => .ofStill fun _ _ => rfl
    refine hreply .value (hsession.bind fun s => (hkey s).bind fun k => ?_)
    exact queryWithKey_covered hl hdb st b bounds k
  | queryWithKey st b bounds k =>
    exact hreply .value (queryWithKey_covered hl hdb st b bounds k)
  | queryHandled st b bounds =>
    exact hreply .value (hflushed st fun bound =>
      Session.queryHandled_keeps (hdb bound) st b bounds)
  | queryCursor st b bounds =>
    exact hreply .value (hflushed st fun bound =>
      Session.queryCursor_keeps (hdb bound) st b bounds)
  | update st b =>
    exact hreply .count (hflushed st fun bound => Session.update_keeps (hdb bound) st b)
  | commit required =>
    have hsession : KeepsCovered caches others t bounded
        (.ofOp (onSession (Session.commit db required))) :=
      onSession_covered fun bound => Session.commit_keeps (hdb bound) required
    refine hreply (fun _ => .nothing) (hsession.bind fun _ => ?_)
    exact .of (commitUnitIn_ends hl o) fun _ _ hs => hs.1
  | rollback required =>
    exact hreply (fun _ => .nothing) (rollbackIn_covered hl hdb o required)
  | close force =>
    refine hreply (fun _ => .nothing) ?_
    cases force with
    | true =>
      intro c w hc hw
      obtain ⟨w', hrun, -, hs, -⟩ := closeIn_true_run hl hdb o hc hw
      rw [hrun]
      exact hs
    | false =>
      exact .of (closeIn_false_ends (P := fun x u => x = .ok () → NothingBuffered u) hdb o
        (commitUnitIn_ends hl o)) fun _ _ hs => hs.2.1

/-! ## What the thread and the others do -/

omit hl hdb

omit [DecidableEq ρ] in
/-- The thread uses its session, or the others change what lies below as they may. -/
inductive Steps (caches : ρ → Cache σ) (db : StatementRunner ρ σ) (others : σ → σ → Prop)
    (t : Thread) : State ρ σ → State ρ σ → Prop where
  | others {u : UnitOfWork ρ} {l : Session} {y y' : σ} (h : others y y') :
      Steps caches db others t (u, l, y) (u, l, y')
  | call {o : FlushOrder ρ} {call : Call ρ} {c : Caller} {e : Environment} {s : State ρ σ}
      {x : Except Error Reply} {w : World (State ρ σ)} (hc : c.thread = t)
      (h : (call.runIn o caches db c ⟨e, s⟩).SettlesAmid (Beside (Beside others)) t x w) :
      Steps caches db others t s w.state
  | getCached {r : ρ} {k : CacheKey} {c : Caller} {e : Environment} {s : State ρ σ}
      {x : Except Error (Option Value)} {w : World (State ρ σ)} (hc : c.thread = t)
      (h : (CachingSession.getCached caches r k c ⟨e, s⟩).SettlesAmid (Beside (Beside others)) t x
        w) : Steps caches db others t s w.state
  | putCached {c : Caller} {e : Environment} {s : State ρ σ} (r : ρ) (k : CacheKey) (v : Value)
      (hc : c.thread = t) :
      Steps caches db others t s (CachingSession.putCached caches r k v c ⟨e, s⟩).2.state

include hl hdb

theorem Covered.step {s s' : State ρ σ} (h : Steps caches db others t s s')
    (hs : Covered bounded caches s) : Covered bounded caches s' := by
  cases h with
  | others h => exact ⟨hs.1, hl.spared hs.2 h⟩
  | call hc h => exact (Call.runIn_covered hl hdb _ _ _ _ hc hs).settles h
  | getCached hc h => exact (getCached_covered hl _ _ _ _ hc hs).settles h
  | putCached r k v hc => exact putCached_covered hl r k v _ _ hc hs

/-- Whatever is done with the session, each lock that the thread has is that of a missed key. -/
theorem Covered.steps {s s' : State ρ σ}
    (h : Relation.ReflTransGen (Steps caches db others t) s s') (hs : Covered bounded caches s) :
    Covered bounded caches s' := by
  induction h with
  | refl => exact hs
  | tail _ hstep ih => exact ih.step hl hdb hstep

end CachingSession

end QueryCache
