import QueryCache.Query.Session
import QueryCache.Transaction.UnitOfWork

/-!
# Sessions that use shared caches

A caching session is a session together with a unit of work.  A query of a
statement that uses its shared cache is answered from there if possible; if
not, the result of the session is buffered for the cache.  A statement that
asks for a flush requests a clear of its shared cache.  What is buffered
reaches the shared caches when the session commits, after the database has
committed.

The state is the unit of work beside the session beside everything else.
-/

namespace QueryCache.CachingSession

variable {ρ σ : Type}

/-- The state of a caching session over a world with state `σ`. -/
abbrev State (ρ σ : Type) : Type := UnitOfWork ρ × Session × σ

/-- An operation of a caching session that always comes to its end. -/
abbrev CachingOp (ρ σ α : Type) : Type := Op Error (State ρ σ) α

/-- A call on a caching session, which may have to wait for another thread. -/
abbrev CachingCall (ρ σ α : Type) : Type := Await Error (State ρ σ) α

/-- The shared caches, which run while the session holds its results. -/
def shared (caches : ρ → Cache σ) (r : ρ) : Cache (Session × σ) :=
  (caches r).under Session.held

/-- Runs an operation of the session, while the unit of work holds its values. -/
def onSession {α : Type} (m : Session.SessionOp σ α) : CachingOp ρ σ α :=
  (Focus.second UnitOfWork.held).run m

/-- The session. -/
def session : CachingOp ρ σ Session := Op.update fun s => (s.2.1, s)

/-! ## The unit of work -/

/-- Requests a clear of the shared cache if the statement asks for a flush. -/
def flushIfRequired (caches : ρ → Cache σ) (st : Statement ρ) : CachingOp ρ σ Unit :=
  match st.cache with
  | some r =>
    if st.flushCacheRequired then
      (UnitOfWork.clear (shared caches) r).mapError .cache
    else pure ()
  | none => pure ()

/-- Reads a shared cache. -/
def getCached (caches : ρ → Cache σ) (r : ρ) (key : CacheKey) :
    CachingCall ρ σ (Option Value) :=
  (UnitOfWork.get (shared caches) r key).mapError .cache

/-- Buffers a write to a shared cache. -/
def putCached (caches : ρ → Cache σ) (r : ρ) (key : CacheKey) (v : Value) : CachingOp ρ σ Unit :=
  (UnitOfWork.put (shared caches) r key (some v)).mapError .cache

/-- Commits the buffered effects. -/
def commitUnit (caches : ρ → Cache σ) : CachingCall ρ σ Unit :=
  (UnitOfWork.commit (shared caches)).mapError .cache

/-- Rolls back the buffered effects. -/
def rollbackUnit (caches : ρ → Cache σ) : CachingOp ρ σ Unit :=
  (UnitOfWork.rollback (shared caches)).mapError .cache

/-! ## Statements -/

/-- A result with output parameters cannot be cached. -/
def ensureNoOutput (st : Statement ρ) : CachingOp ρ σ Unit :=
  if st.hasOutputParameters then Op.fail (.config (.outputParametersNotCacheable st.id))
  else pure ()

/-- The result of a query: from the shared cache, or else from the session. -/
def queryWithKey (caches : ρ → Cache σ) (db : StatementRunner ρ σ) (st : Statement ρ)
    (b : BoundStatement) (w : RowBounds) (key : CacheKey) : CachingCall ρ σ Value := do
  .ofOp (flushIfRequired caches st)
  match st.applicableCache with
  | none => .ofOp (onSession (Session.queryWithKey db st b w key))
  | some r =>
    .ofOp (ensureNoOutput st)
    match ← getCached caches r key with
    | some v => pure v
    | none =>
      let v ← .ofOp (onSession (Session.queryWithKey db st b w key))
      .ofOp (putCached caches r key v)
      pure v

/-- The result of a query under the key that the session makes for it. -/
def query (caches : ρ → Cache σ) (db : StatementRunner ρ σ) (st : Statement ρ)
    (b : BoundStatement) (w : RowBounds) : CachingCall ρ σ Value := do
  let s ← .ofOp session
  let k ← .ofOp (Op.ofExcept (s.key st b w))
  queryWithKey caches db st b w k

/-- Runs a query whose result is handed on. -/
def queryHandled (caches : ρ → Cache σ) (db : StatementRunner ρ σ) (st : Statement ρ)
    (b : BoundStatement) (w : RowBounds) : CachingOp ρ σ Value := do
  flushIfRequired caches st
  onSession (Session.queryHandled db st b w)

/-- Runs a query whose result is read row by row. -/
def queryCursor (caches : ρ → Cache σ) (db : StatementRunner ρ σ) (st : Statement ρ)
    (b : BoundStatement) (w : RowBounds) : CachingOp ρ σ Value := do
  flushIfRequired caches st
  onSession (Session.queryCursor db st b w)

/-- Runs an update. -/
def update (caches : ρ → Cache σ) (db : StatementRunner ρ σ) (st : Statement ρ)
    (b : BoundStatement) : CachingOp ρ σ Nat := do
  flushIfRequired caches st
  onSession (Session.update db st b)

/-! ## The end of a unit -/

/-- Commits the session, then the buffered effects. -/
def commit (caches : ρ → Cache σ) (db : StatementRunner ρ σ) (required : Bool) :
    CachingCall ρ σ Unit := do
  -- If the session fails to commit, the buffered effects stay for another try.
  .ofOp (onSession (Session.commit db required))
  commitUnit caches

/-- Rolls back the session and, if that is required, the buffered effects, also
when the session fails to roll back. -/
def rollback (caches : ρ → Cache σ) (db : StatementRunner ρ σ) (required : Bool) :
    CachingOp ρ σ Unit := do
  let result ← (onSession (Session.rollback db required)).result
  if required then rollbackUnit caches
  Op.ofExcept result

/-- Ends the unit, by a rollback if that is forced and else by a commit, and
closes the session in any case. -/
def close (caches : ρ → Cache σ) (db : StatementRunner ρ σ) (force : Bool) :
    CachingCall ρ σ Unit := do
  let result ←
    if force then do
      .ofOp (rollbackUnit caches)
      pure (.ok ())
    else (commitUnit caches).result
  .ofOp (onSession (Session.close db force))
  .ofOp (Op.ofExcept result)

end QueryCache.CachingSession
