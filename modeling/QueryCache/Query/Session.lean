import QueryCache.Layer.Store
import QueryCache.Query.Runner

/-!
# Sessions

A session runs statements and remembers the results of its queries in a local
store, so that the same query runs once.  Whatever may change the database, and
every statement that asks for a flush, empties the local store; in statement
scope it is empty between queries.  A closed session runs nothing.

1. sessions and their keys
2. operations
-/

namespace QueryCache

/-! ## Sessions and their keys -/

/-- How long a session remembers results. -/
inductive LocalScope where
  /-- Until the next update, commit, rollback or close. -/
  | session
  /-- Until the outermost query returns. -/
  | statement
deriving DecidableEq, Repr

namespace LocalScope

/-- The scope of a session that states none. -/
def standard : LocalScope := .session

/-- The name of a scope. -/
def name : LocalScope → String
  | .session => "SESSION"
  | .statement => "STATEMENT"

/-- The name of a scope as shown to a developer. -/
def debug : LocalScope → String
  | .session => "Session"
  | .statement => "Statement"

/-- The scope of a name in any mixture of ASCII cases. -/
def parse (s : String) : Except ConfigError LocalScope :=
  match [LocalScope.session, .statement].find? (·.name == s.map Char.toUpper) with
  | some k => .ok k
  | none => .error (.invalidValue "local_cache_scope" s "expected SESSION or STATEMENT")

end LocalScope

/-- A session with the database. -/
structure Session where
  scope : LocalScope := .standard
  /-- The database that the session talks to; part of every key. -/
  environment : Option String := none
  /-- The remembered results. -/
  results : Store := .empty
  /-- The number of queries that are running inside each other. -/
  depth : Nat := 0
  closed : Bool := false

namespace Session

/-- The values that the session holds. -/
def held (s : Session) : List Value := s.results.held

/-- Forgets all results; a closed session has none to forget. -/
def forget (s : Session) : Session := if s.closed then s else { s with results := .empty }

/-- The components of the key of a query: the id of the statement, the window,
the text, the values of the parameters, the environment if there is one. -/
def keyComponents {ρ : Type} (s : Session) (st : Statement ρ) (b : BoundStatement)
    (w : RowBounds) : List KeyComponent :=
  [.text st.id, .uint (UInt64.ofNat w.offset), .uint (UInt64.ofNat w.limit), .text b.sql] ++
    b.keyValues ++ s.environment.toList.map .text

/-- The key of a query; a closed session makes none. -/
def key {ρ : Type} (s : Session) (st : Statement ρ) (b : BoundStatement) (w : RowBounds) :
    Except Error CacheKey :=
  if s.closed then .error (.executor .closed)
  else .ok (CacheKey.ofComponents (s.keyComponents st b w))

/-- The session remembers a result, or an absence, under the key. -/
def isCached (s : Session) (key : CacheKey) : Bool := s.results.contains key

/-- How a session is shown to a developer. -/
def debug (s : Session) : String :=
  Text.record "SessionExecutor"
    [("local_cache_scope", s.scope.debug),
      ("environment_id", Text.optional (s.environment.map Text.quoted)),
      ("local_cache", toString s.results.size),
      ("closed", Text.boolean s.closed)]

/-! ## Operations -/

variable {ρ σ : Type}

/-- An operation of a session over a database with state `σ`. -/
abbrev SessionOp (σ α : Type) : Type := Op Error (Session × σ) α

/-- The database, which runs while the session holds its results. -/
def database (r : StatementRunner ρ σ) : StatementRunner ρ (Session × σ) :=
  r.within (Focus.second held)

/-- Fails if the session is closed. -/
def ensureOpen : SessionOp σ Unit := do
  if (← Op.layer).closed then Op.fail (.executor .closed) else pure ()

/-- Forgets all results. -/
def clearLocal : SessionOp σ Unit := Op.modifyLayer forget

/-- Forgets all results if the condition holds. -/
def clearLocalIf (condition : Bool) : SessionOp σ Unit :=
  if condition then clearLocal else pure ()

/-- Runs a query and remembers its result. -/
def queryDatabase (r : StatementRunner ρ σ) (st : Statement ρ) (b : BoundStatement)
    (w : RowBounds) (key : CacheKey) : SessionOp σ Value := do
  let v ← (database r).query st b w
  Op.modifyLayer fun s => { s with results := s.results.insert key (some v) }
  pure v

/-- The remembered result of a key, or else the result of running the query. -/
def queryWithKey (r : StatementRunner ρ σ) (st : Statement ρ) (b : BoundStatement)
    (w : RowBounds) (key : CacheKey) : SessionOp σ Value := do
  ensureOpen
  -- Of nested queries only the outermost one forgets results, here and at its end.
  clearLocalIf ((← Op.layer).depth == 0 && st.flushCacheRequired)
  Op.modifyLayer fun s => { s with depth := s.depth + 1 }
  let found ← Op.updateLayer fun s => (s.results.lookup key, s)
  let result ← match found with
    | some v => pure (.ok v)
    | none => (queryDatabase r st b w key).result
  Op.modifyLayer fun s => { s with depth := s.depth - 1 }
  let s ← Op.layer
  clearLocalIf (s.depth == 0 && s.scope == .statement)
  Op.ofExcept result

/-- The result of a query under the key that the session makes for it. -/
def query (r : StatementRunner ρ σ) (st : Statement ρ) (b : BoundStatement) (w : RowBounds) :
    SessionOp σ Value := do
  let k ← Op.ofExcept ((← Op.layer).key st b w)
  queryWithKey r st b w k

/-- Runs a query whose result is handed on and not remembered. -/
def queryHandled (r : StatementRunner ρ σ) (st : Statement ρ) (b : BoundStatement)
    (w : RowBounds) : SessionOp σ Value := do
  ensureOpen
  clearLocalIf st.flushCacheRequired
  (database r).query st b w

/-- Runs a query whose result is read row by row and not remembered. -/
def queryCursor (r : StatementRunner ρ σ) (st : Statement ρ) (b : BoundStatement)
    (w : RowBounds) : SessionOp σ Value := do
  ensureOpen
  (database r).query st b w

/-- Runs an update. -/
def update (r : StatementRunner ρ σ) (st : Statement ρ) (b : BoundStatement) :
    SessionOp σ Nat := do
  ensureOpen
  clearLocal
  (database r).update st b

/-- Commits; the database commits too if that is required. -/
def commit (r : StatementRunner ρ σ) (required : Bool) : SessionOp σ Unit := do
  ensureOpen
  clearLocal
  if required then (database r).commit else pure ()

/-- Rolls back; the database rolls back too if that is required. -/
def rollback (r : StatementRunner ρ σ) (required : Bool) : SessionOp σ Unit := do
  if (← Op.layer).closed then pure ()
  else
    clearLocal
    if required then (database r).rollback else pure ()

/-- Rolls back, whether or not that succeeds, and closes the session. -/
def close (r : StatementRunner ρ σ) (force : Bool) : SessionOp σ Unit := do
  if (← Op.layer).closed then pure ()
  else
    let _ ← (rollback r force).result
    Op.ofSafe (database r).close
    Op.modifyLayer fun s => { s with closed := true }

end Session

end QueryCache
