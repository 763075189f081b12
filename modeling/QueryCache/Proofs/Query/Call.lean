import Mathlib
import QueryCache.Proofs.Cache.Interference
import QueryCache.Proofs.Query.FlushAtCommit
import QueryCache.Query.CachingSession

/-!
# Calls on a session

The eight ways to use a caching session as one kind of call, each with its reply;
and what a query does before it comes to the session.

1. calls and replies
2. the read of a query
-/

namespace QueryCache.CachingSession

/-! ## Calls and replies -/

/-- What a call gives. -/
inductive Reply where
  | value (v : Value)
  | count (n : Nat)
  | nothing
deriving DecidableEq

/-- A call on a session. -/
inductive Call (ρ : Type) where
  | query (st : Statement ρ) (b : BoundStatement) (w : RowBounds)
  | queryWithKey (st : Statement ρ) (b : BoundStatement) (w : RowBounds) (k : CacheKey)
  | queryHandled (st : Statement ρ) (b : BoundStatement) (w : RowBounds)
  | queryCursor (st : Statement ρ) (b : BoundStatement) (w : RowBounds)
  | update (st : Statement ρ) (b : BoundStatement)
  | commit (required : Bool)
  | rollback (required : Bool)
  | close (force : Bool)

variable {ρ σ : Type}

/-- Makes the call. -/
def Call.run (caches : ρ → Cache σ) (db : StatementRunner ρ σ) : Call ρ → CachingCall ρ σ Reply
  | .query st b w => do return .value (← CachingSession.query caches db st b w)
  | .queryWithKey st b w k => do return .value (← CachingSession.queryWithKey caches db st b w k)
  | .queryHandled st b w => do
    return .value (← .ofOp (CachingSession.queryHandled caches db st b w))
  | .queryCursor st b w => do return .value (← .ofOp (CachingSession.queryCursor caches db st b w))
  | .update st b => do return .count (← .ofOp (CachingSession.update caches db st b))
  | .commit required => do
    CachingSession.commit caches db required
    return .nothing
  | .rollback required => do
    .ofOp (CachingSession.rollback caches db required)
    return .nothing
  | .close force => do
    CachingSession.close caches db force
    return .nothing

/-- A reply that is made of what a call gives comes when the call ends. -/
theorem settles_of_reply {α : Type} {m : CachingCall ρ σ α} {reply : α → Reply}
    {others : State ρ σ → State ρ σ → Prop} {t : Thread} {c : Caller} {x : Except Error Reply}
    {w w' : World (State ρ σ)}
    (h : ((do return reply (← m) : CachingCall ρ σ Reply) c w).SettlesAmid others t x w') :
    ∃ y, (m c w).SettlesAmid others t y w' ∧ x = y.map reply := by
  have hbind : ((m c w).bind (fun a _ w => .done (.ok (reply a)) w) c).SettlesAmid others t x w' :=
    h
  obtain ⟨y, hy, rfl⟩ := (Await.Throughout.unasked m c w trivial).ends_of_bind
    (fun _ _ _ _ => trivial) (g := fun a => .ok (reply a)) (fun _ _ _ _ => rfl) hbind
  exact ⟨y, hy, by cases y <;> rfl⟩

/-- What ends at once is what a call gives, and the reply is made of it. -/
theorem done_of_reply {α : Type} {m : CachingCall ρ σ α} {reply : α → Reply} {c : Caller}
    {x : Except Error Reply} {w w' : World (State ρ σ)}
    (h : (do return reply (← m) : CachingCall ρ σ Reply) c w = .done x w') :
    ∃ y, m c w = .done y w' ∧ x = y.map reply := by
  have hbind : (m c w).bind (fun a _ w => .done (.ok (reply a)) w) c = .done x w' := h
  cases hm : m c w with
  | done y w'' =>
    rw [hm] at hbind
    cases y <;> cases hbind <;> exact ⟨_, rfl, rfl⟩
  | waiting w'' wait resume =>
    rw [hm] at hbind
    cases hbind

/-! ## The read of a query -/

variable {caches : ρ → Cache σ} {db : StatementRunner ρ σ}

/-- The unit in which the flush of a statement was noted, if it asks for one. -/
def noteFlush (caches : ρ → Cache σ) (st : Statement ρ) (u : UnitOfWork ρ) : UnitOfWork ρ :=
  match st.flushes with
  | some r => u.edit r (caches r).id Buffer.requestClear
  | none => u

theorem flushIfRequired_run (st : Statement ρ) (c : Caller) (w : World (State ρ σ)) :
    flushIfRequired caches st c w =
      (.ok (), ⟨w.env, (noteFlush caches st w.state.1, w.state.2)⟩) := by
  rw [flushIfRequired_eq, noteFlush]
  cases st.flushes with
  | none => rfl
  | some r =>
    exact Op.mapError_of_ok (UnitOfWork.clear_eq w.state.1 r)

/-- How a query goes on when its shared cache has been read. -/
def afterRead (caches : ρ → Cache σ) (db : StatementRunner ρ σ) (st : Statement ρ)
    (b : BoundStatement) (bounds : RowBounds) (k : CacheKey) (r : ρ) :
    Option Value → CachingCall ρ σ Value
  | some v => pure v
  | none => do
    let v ← .ofOp (onSession (Session.queryWithKey db st b bounds k))
    .ofOp (putCached caches r k v)
    pure v

/-- When the flush is noted, a query that its shared cache may answer goes on with the read. -/
theorem queryWithKey_run {st : Statement ρ} {b : BoundStatement} {bounds : RowBounds}
    {k : CacheKey} {r : ρ} (hr : st.applicableCache = some r)
    (ho : st.hasOutputParameters = false) (c : Caller) (w : World (State ρ σ)) :
    CachingSession.queryWithKey caches db st b bounds k c w =
      (getCached caches r k >>= afterRead caches db st b bounds k r)
        c ⟨w.env, (noteFlush caches st w.state.1, w.state.2)⟩ := by
  have hnoted : (Await.ofOp (ensureNoOutput st) : CachingCall ρ σ Unit) c
      ⟨w.env, (noteFlush caches st w.state.1, w.state.2)⟩ =
        .done (.ok ()) ⟨w.env, (noteFlush caches st w.state.1, w.state.2)⟩ := by
    rw [ensureNoOutput, if_neg (ho ▸ Bool.false_ne_true)]
    rfl
  rw [CachingSession.queryWithKey,
    Await.bind_of_done (Await.ofOp_of_eq (flushIfRequired_run st c w)), hr]
  exact Await.bind_of_done hnoted

end QueryCache.CachingSession
