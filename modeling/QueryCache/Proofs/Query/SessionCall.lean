import Mathlib
import QueryCache.Proofs.Cache.Noted
import QueryCache.Proofs.Query.Call
import QueryCache.Proofs.Query.FailedQuery

/-!
# Calls on a session with the database

What a session does can be told from what it asks of its database.  A database
that keeps a journal notes every request with its answer; the session cannot see
the journal.  A history of a session is a sequence of calls with their replies,
between which others may use the database.

1. a database with a journal
2. calls and histories
3. what each call does
4. calls that forget
-/

namespace QueryCache

/-! ## A database with a journal -/

/-- A request to the database with its answer. -/
inductive DatabaseRequest (ρ : Type) where
  | query (st : Statement ρ) (b : BoundStatement) (w : RowBounds) (answer : Except Error Value)
  | update (st : Statement ρ) (b : BoundStatement) (answer : Except Error Nat)
  | commit (answer : Except Error Unit)
  | rollback (answer : Except Error Unit)
  | close

/-- The requests to a database, first one first. -/
abbrev Journal (ρ : Type) : Type := List (DatabaseRequest ρ)

/-- The database gave the value for a query of the journal. -/
def Journal.Gave {ρ : Type} (j : Journal ρ) (v : Value) : Prop :=
  ∃ st b w, DatabaseRequest.query st b w (.ok v) ∈ j

namespace Journal.Gave

variable {ρ : Type} {j : Journal ρ} {v : Value}

theorem append (h : j.Gave v) (more : Journal ρ) : Journal.Gave (j ++ more) v := by
  obtain ⟨st, b, w, hmem⟩ := h
  exact ⟨st, b, w, List.mem_append_left more hmem⟩

theorem single (st : Statement ρ) (b : BoundStatement) (w : RowBounds) (v : Value) :
    Journal.Gave [.query st b w (.ok v)] v := ⟨st, b, w, List.mem_singleton_self _⟩

end Journal.Gave

/-- The database with a journal of its requests. -/
def StatementRunner.journaled {ρ σ : Type} (db : StatementRunner ρ σ) :
    StatementRunner ρ (Journal ρ × σ) where
  query st b w := .noted (.query st b w) (db.query st b w)
  update st b := .noted (.update st b) (db.update st b)
  commit := .noted .commit db.commit
  rollback := .noted .rollback db.rollback
  close := .noted (fun _ => .close) db.close

namespace Session

open Op (noted_ends)

variable {ρ σ : Type}

/-! ## Calls and histories -/

/-- A call on a session. -/
inductive Call (ρ : Type) where
  | query (st : Statement ρ) (b : BoundStatement) (w : RowBounds)
  | queryWithKey (st : Statement ρ) (b : BoundStatement) (w : RowBounds) (k : CacheKey)
  | queryHandled (st : Statement ρ) (b : BoundStatement) (w : RowBounds)
  | queryCursor (st : Statement ρ) (b : BoundStatement) (w : RowBounds)
  | update (st : Statement ρ) (b : BoundStatement)
  | commit (required : Bool)
  | rollback (required : Bool)
  | close (force : Bool)
  | clearLocal

open CachingSession (Reply)

namespace Call

/-- Makes the call. -/
def run (db : StatementRunner ρ σ) : Call ρ → SessionOp σ Reply
  | .query st b w => do return .value (← Session.query db st b w)
  | .queryWithKey st b w k => do return .value (← Session.queryWithKey db st b w k)
  | .queryHandled st b w => do return .value (← Session.queryHandled db st b w)
  | .queryCursor st b w => do return .value (← Session.queryCursor db st b w)
  | .update st b => do return .count (← Session.update db st b)
  | .commit required => do
    Session.commit db required
    return .nothing
  | .rollback required => do
    Session.rollback db required
    return .nothing
  | .close force => do
    Session.close db force
    return .nothing
  | .clearLocal => do
    Session.clearLocal
    return .nothing

/-- The statement that the call executes. -/
def statement? : Call ρ → Option (Statement ρ)
  | .query st _ _ | .queryWithKey st _ _ _ | .queryHandled st _ _ | .queryCursor st _ _
  | .update st _ => some st
  | _ => none

/-- The key under which a session remembers what the call gives. -/
def key? (s : Session) : Call ρ → Option CacheKey
  | .query st b w => (s.key st b w).toOption
  | .queryWithKey _ _ _ k => some k
  | _ => none

/-- The call makes an open session forget what it remembers. -/
def forgets : Call ρ → Bool
  | .query st _ _ | .queryWithKey st _ _ _ | .queryHandled st _ _ => st.flushCacheRequired
  | .queryCursor .. => false
  | .update .. | .commit _ | .rollback _ | .close _ | .clearLocal => true

end Call

/-- A session and its database, which keeps a journal, have been used: the calls on
the session are listed with their replies, and others have used the database. -/
inductive History (db : StatementRunner ρ σ) (w₀ : World (Session × (Journal ρ × σ))) :
    List (Call ρ × Except Error Reply) → World (Session × (Journal ρ × σ)) → Prop where
  | start : History db w₀ [] w₀
  | call {events : List (Call ρ × Except Error Reply)} {w : World (Session × (Journal ρ × σ))}
      (h : History db w₀ events w) (a : Call ρ) (c : Caller) :
      History db w₀ (events ++ [(a, (a.run db.journaled c w).1)]) (a.run db.journaled c w).2
  | others {events : List (Call ρ × Except Error Reply)} {w : World (Session × (Journal ρ × σ))}
      (h : History db w₀ events w) (e : Environment) (y : σ) :
      History db w₀ events ⟨e, (w.state.1, (w.state.2.1, y))⟩

/-! ## What each call does -/

/-- The session after a flush, if the statement asks for one. -/
def flushedFor (st : Statement ρ) (s : Session) : Session :=
  if st.flushCacheRequired then s.forget else s

/-- The session after the outermost query has ended. -/
def ended (s : Session) : Session := if s.scope = .statement then s.forget else s

/-- The session with one more result, if there is one. -/
def remember (k : CacheKey) (s : Session) : Except Error Value → Session
  | .ok v => { s with results := s.results.insert k (some v) }
  | .error _ => s

variable {db : StatementRunner ρ σ} {st : Statement ρ} {b : BoundStatement} {bounds : RowBounds}
  {k : CacheKey} {c : Caller} {e e' : Environment} {l : Session} {y y' : σ}

theorem forget_of_open (h : l.closed = false) : l.forget = { l with results := .empty } := by
  rw [forget, h, if_neg Bool.false_ne_true]

@[simp]
theorem closed_forget (l : Session) : l.forget.closed = l.closed := by
  unfold forget
  split <;> rfl

@[simp]
theorem depth_forget (l : Session) : l.forget.depth = l.depth := by
  unfold forget
  split <;> rfl

@[simp]
theorem scope_forget (l : Session) : l.forget.scope = l.scope := by
  unfold forget
  split <;> rfl

@[simp]
theorem closed_flushedFor (st : Statement ρ) (l : Session) :
    (flushedFor st l).closed = l.closed := by
  unfold flushedFor
  split <;> simp

@[simp]
theorem depth_flushedFor (st : Statement ρ) (l : Session) : (flushedFor st l).depth = l.depth := by
  unfold flushedFor
  split <;> simp

@[simp]
theorem scope_flushedFor (st : Statement ρ) (l : Session) : (flushedFor st l).scope = l.scope := by
  unfold flushedFor
  split <;> simp

@[simp]
theorem depth_ended (l : Session) : (ended l).depth = l.depth := by
  unfold ended
  split <;> simp

@[simp]
theorem scope_ended (l : Session) : (ended l).scope = l.scope := by
  unfold ended
  split <;> simp

theorem results_forget (hopen : l.closed = false) : l.forget.results = .empty := by
  rw [forget_of_open hopen]

theorem results_flushedFor (hopen : l.closed = false) :
    (flushedFor st l).results = if st.flushCacheRequired then .empty else l.results := by
  unfold flushedFor
  split
  · exact results_forget hopen
  · rfl

@[simp]
theorem depth_remember (k : CacheKey) (l : Session) (r : Except Error Value) :
    (remember k l r).depth = l.depth := by
  cases r <;> rfl

@[simp]
theorem scope_remember (k : CacheKey) (l : Session) (r : Except Error Value) :
    (remember k l r).scope = l.scope := by
  cases r <;> rfl

@[simp]
theorem closed_remember (k : CacheKey) (l : Session) (r : Except Error Value) :
    (remember k l r).closed = l.closed := by
  cases r <;> rfl

/-- The database runs below the session and leaves it as it is. -/
theorem below_run {α : Type} {m : Op Error σ α} {r : Except Error α}
    (h : m (c.holding l.held) ⟨e, y⟩ = (r, ⟨e', y'⟩)) :
    (Focus.second held).run m c ⟨e, (l, y)⟩ = (r, ⟨e', (l, y')⟩) := Focus.run_second h

/-- How the outermost query ends once its result is at hand. -/
theorem end_run (result : Except Error Value) (c : Caller) (hdepth : l.depth = 0) : ((do
      Op.modifyLayer fun s => { s with depth := s.depth - 1 }
      let s ← Op.layer
      clearLocalIf (s.depth == 0 && s.scope == .statement)
      Op.ofExcept result : SessionOp σ Value) c ⟨e, ({ l with depth := l.depth + 1 }, y)⟩) =
        (result, ⟨e, (ended l, y)⟩) := by
  have hset : (Op.modifyLayer fun s => { s with depth := s.depth - 1 } : SessionOp σ Unit) c
      ⟨e, ({ l with depth := l.depth + 1 }, y)⟩ = (.ok (), ⟨e, (l, y)⟩) := rfl
  rw [Op.bind_of_ok hset, Op.bind_of_ok Op.layer_run, Op.bind_of_ok (clearLocalIf_run _ _ _),
    hdepth]
  cases hscope : l.scope <;> simp [Op.ofExcept, ended, hscope]

/-- The outermost query of an open session comes to the look-up of its key. -/
theorem queryWithKey_run (hopen : l.closed = false) (hdepth : l.depth = 0) :
    queryWithKey db st b bounds k c ⟨e, (l, y)⟩ = ((do
      let result ← match (flushedFor st l).results.lookup k with
        | some v => pure (.ok v)
        | none => (queryDatabase db st b bounds k).result
      Op.modifyLayer fun s => { s with depth := s.depth - 1 }
      let s ← Op.layer
      clearLocalIf (s.depth == 0 && s.scope == .statement)
      Op.ofExcept result : SessionOp σ Value) c
        ⟨e, ({ flushedFor st l with depth := (flushedFor st l).depth + 1 }, y)⟩) := by
  have hflush : (clearLocalIf (l.depth == 0 && st.flushCacheRequired) : SessionOp σ Unit) c
      ⟨e, (l, y)⟩ = (.ok (), ⟨e, (flushedFor st l, y)⟩) := by
    rw [clearLocalIf_run, hdepth]
    rfl
  rw [queryWithKey, Op.bind_of_ok (ensureOpen_run hopen c), Op.bind_of_ok Op.layer_run,
    Op.bind_of_ok hflush]
  rfl

/-- A query whose key has a result, after the flush of its statement, gives that result
and asks nothing of the database. -/
theorem queryWithKey_found {v : Value} (hopen : l.closed = false) (hdepth : l.depth = 0)
    (hfound : (flushedFor st l).results.lookup k = some v) :
    queryWithKey db st b bounds k c ⟨e, (l, y)⟩ =
      (.ok v, ⟨e, (ended (flushedFor st l), y)⟩) := by
  rw [queryWithKey_run hopen hdepth, hfound]
  exact end_run (.ok v) c ((depth_flushedFor st l).trans hdepth)

/-- A query whose key has no result asks the database and remembers what it gives. -/
theorem queryWithKey_missing (hopen : l.closed = false) (hdepth : l.depth = 0)
    (hmissing : (flushedFor st l).results.lookup k = none) {r : Except Error Value}
    (hquery : db.query st b bounds (c.holding (flushedFor st l).held) ⟨e, y⟩ = (r, ⟨e', y'⟩)) :
    queryWithKey db st b bounds k c ⟨e, (l, y)⟩ =
      (r, ⟨e', (ended (remember k (flushedFor st l) r), y')⟩) := by
  have hbelow : (database db).query st b bounds c
      ⟨e, ({ flushedFor st l with depth := (flushedFor st l).depth + 1 }, y)⟩ =
        (r, ⟨e', ({ flushedFor st l with depth := (flushedFor st l).depth + 1 }, y')⟩) :=
    below_run hquery
  have hidle : (remember k (flushedFor st l) r).depth = 0 := by
    cases r <;> exact (depth_flushedFor st l).trans hdepth
  have hdatabase : ((queryDatabase db st b bounds k).result : SessionOp σ _) c
      ⟨e, ({ flushedFor st l with depth := (flushedFor st l).depth + 1 }, y)⟩ =
        (.ok r, ⟨e', ({ remember k (flushedFor st l) r with
          depth := (remember k (flushedFor st l) r).depth + 1 }, y')⟩) := by
    rw [Op.result, queryDatabase]
    cases r with
    | ok v =>
      rw [Op.bind_of_ok hbelow]
      rfl
    | error x =>
      rw [Op.bind_of_error hbelow]
      rfl
  rw [queryWithKey_run hopen hdepth, hmissing]
  exact (Op.bind_of_ok hdatabase).trans (end_run r c hidle)

theorem queryHandled_run (hopen : l.closed = false) {r : Except Error Value}
    (hquery : db.query st b bounds (c.holding (flushedFor st l).held) ⟨e, y⟩ = (r, ⟨e', y'⟩)) :
    queryHandled db st b bounds c ⟨e, (l, y)⟩ =
      (r, ⟨e', (flushedFor st l, y')⟩) := by
  rw [queryHandled, Op.bind_of_ok (ensureOpen_run hopen c),
    Op.bind_of_ok (clearLocalIf_run st.flushCacheRequired c _)]
  exact below_run hquery

theorem queryCursor_run (hopen : l.closed = false) {r : Except Error Value}
    (hquery : db.query st b bounds (c.holding l.held) ⟨e, y⟩ = (r, ⟨e', y'⟩)) :
    queryCursor db st b bounds c ⟨e, (l, y)⟩ = (r, ⟨e', (l, y')⟩) := by
  rw [queryCursor, Op.bind_of_ok (ensureOpen_run hopen c)]
  exact below_run hquery

theorem update_run (hopen : l.closed = false) {r : Except Error Nat}
    (hupdate : db.update st b (c.holding l.forget.held) ⟨e, y⟩ = (r, ⟨e', y'⟩)) :
    Session.update db st b c ⟨e, (l, y)⟩ = (r, ⟨e', (l.forget, y')⟩) := by
  rw [Session.update, Op.bind_of_ok (ensureOpen_run hopen c), Op.bind_of_ok rfl]
  exact below_run hupdate

theorem commit_required_run (hopen : l.closed = false) {r : Except Error Unit}
    (hcommit : db.commit (c.holding l.forget.held) ⟨e, y⟩ = (r, ⟨e', y'⟩)) :
    Session.commit db true c ⟨e, (l, y)⟩ = (r, ⟨e', (l.forget, y')⟩) := by
  rw [Session.commit, Op.bind_of_ok (ensureOpen_run hopen c), Op.bind_of_ok rfl]
  exact below_run hcommit

theorem commit_local_run (hopen : l.closed = false) :
    Session.commit db false c ⟨e, (l, y)⟩ = (.ok (), ⟨e, (l.forget, y)⟩) := by
  rw [Session.commit, Op.bind_of_ok (ensureOpen_run hopen c), Op.bind_of_ok rfl]
  rfl

theorem rollback_required_run (hopen : l.closed = false) {r : Except Error Unit}
    (hrollback : db.rollback (c.holding l.forget.held) ⟨e, y⟩ = (r, ⟨e', y'⟩)) :
    Session.rollback db true c ⟨e, (l, y)⟩ = (r, ⟨e', (l.forget, y')⟩) := by
  rw [Session.rollback, Op.bind_of_ok Op.layer_run, hopen, if_neg Bool.false_ne_true,
    Op.bind_of_ok rfl]
  exact below_run hrollback

theorem rollback_local_run (hopen : l.closed = false) :
    Session.rollback db false c ⟨e, (l, y)⟩ = (.ok (), ⟨e, (l.forget, y)⟩) := by
  rw [Session.rollback, Op.bind_of_ok Op.layer_run, hopen, if_neg Bool.false_ne_true,
    Op.bind_of_ok rfl]
  rfl

/-- To close an open session is to roll it back, come what may, and then to mark it. -/
theorem close_run (hopen : l.closed = false) (force : Bool) {r : Except Error Unit}
    {e' : Environment} {y' : σ} {s' : Session}
    (hrollback : Session.rollback db force c ⟨e, (l, y)⟩ = (r, ⟨e', (s', y')⟩)) :
    Session.close db force c ⟨e, (l, y)⟩ =
      (.ok (), ⟨(db.close (c.holding s'.held) ⟨e', y'⟩).2.env,
        ({ s' with closed := true }, (db.close (c.holding s'.held) ⟨e', y'⟩).2.state)⟩) := by
  have hresult : ((Session.rollback db force).result : SessionOp σ _) c ⟨e, (l, y)⟩ =
      (.ok r, ⟨e', (s', y')⟩) := by
    rw [Op.result, hrollback]
  have hclose : (Op.ofSafe (database db).close : SessionOp σ Unit) c ⟨e', (s', y')⟩ =
      (.ok (), ⟨(db.close (c.holding s'.held) ⟨e', y'⟩).2.env,
        (s', (db.close (c.holding s'.held) ⟨e', y'⟩).2.state)⟩) := by
    have hsafe : (db.close (c.holding s'.held) ⟨e', y'⟩).1 = .ok () := by
      cases hr : (db.close (c.holding s'.held) ⟨e', y'⟩).1 with
      | ok _ => rfl
      | error x => exact x.elim
    show (Except.mapError Empty.elim (db.close (c.holding s'.held) ⟨e', y'⟩).1, _) = _
    rw [hsafe]
    rfl
  rw [Session.close, Op.bind_of_ok Op.layer_run, hopen, if_neg Bool.false_ne_true,
    Op.bind_of_ok hresult, Op.bind_of_ok hclose]
  rfl

theorem ensureOpen_closed (hclosed : l.closed = true) :
    (ensureOpen : SessionOp σ Unit) c ⟨e, (l, y)⟩ = (.error (.executor .closed), ⟨e, (l, y)⟩) := by
  rw [ensureOpen, Op.bind_of_ok Op.layer_run, if_pos hclosed]
  rfl

theorem skipped_closed (hclosed : l.closed = true) (m : SessionOp σ Unit) :
    (Op.layer >>= fun s : Session => if s.closed then pure () else m) c ⟨e, (l, y)⟩ =
      (.ok (), ⟨e, (l, y)⟩) := by
  rw [Op.bind_of_ok Op.layer_run, if_pos hclosed]
  rfl

/-! ## What a call comes to -/

/-- The reply of a call is made of what the operation gives. -/
theorem reply_run {α : Type} {m : SessionOp σ α} {reply : α → Reply} {r : Except Error α}
    {w w' : World (Session × σ)} (h : m c w = (r, w')) :
    (do return reply (← m) : SessionOp σ Reply) c w = (r.map reply, w') := by
  cases r with
  | ok a =>
    rw [Op.bind_of_ok h]
    rfl
  | error x =>
    rw [Op.bind_of_error h]
    rfl

/-- What the session remembers when the call looks a key up. -/
def Call.kept (l : Session) (a : Call ρ) : Store := if a.forgets then .empty else l.results

/-- What the session remembers after the call. -/
def Call.leaves (l : Session) (a : Call ρ) : Except Error Reply → Store
  | .ok (.value v) =>
    match l.scope, a.key? l with
    | .session, some k => (a.kept l).insert k (some v)
    | _, _ => a.kept l
  | _ => a.kept l

/-- No query is running, and a session in statement scope remembers nothing. -/
structure Idle (s : Session) : Prop where
  depth : s.depth = 0
  statement : s.scope = .statement → s.results = .empty

/-- What a call asks of the database when it has no result to give, and what it replies. -/
inductive Call.Asked : Call ρ → Except Error Reply → Journal ρ → Prop where
  | query (st : Statement ρ) (b : BoundStatement) (w : RowBounds) (r : Except Error Value) :
      Asked (.query st b w) (r.map .value) [.query st b w r]
  | queryWithKey (st : Statement ρ) (b : BoundStatement) (w : RowBounds) (k : CacheKey)
      (r : Except Error Value) : Asked (.queryWithKey st b w k) (r.map .value) [.query st b w r]
  | queryHandled (st : Statement ρ) (b : BoundStatement) (w : RowBounds) (r : Except Error Value) :
      Asked (.queryHandled st b w) (r.map .value) [.query st b w r]
  | queryCursor (st : Statement ρ) (b : BoundStatement) (w : RowBounds) (r : Except Error Value) :
      Asked (.queryCursor st b w) (r.map .value) [.query st b w r]
  | update (st : Statement ρ) (b : BoundStatement) (r : Except Error Nat) :
      Asked (.update st b) (r.map .count) [.update st b r]
  | commit (r : Except Error Unit) : Asked (.commit true) (r.map fun _ => .nothing) [.commit r]
  | commitLocal : Asked (.commit false) (.ok .nothing) []
  | rollback (r : Except Error Unit) :
      Asked (.rollback true) (r.map fun _ => .nothing) [.rollback r]
  | rollbackLocal : Asked (.rollback false) (.ok .nothing) []
  | close (r : Except Error Unit) : Asked (.close true) (.ok .nothing) [.rollback r, .close]
  | closeLocal : Asked (.close false) (.ok .nothing) [.close]
  | clearLocal : Asked .clearLocal (.ok .nothing) []

/-- What a call on a session has come to; `j` is the journal before the call. -/
structure Call.Effect (a : Call ρ) (l : Session) (j : Journal ρ) (r : Except Error Reply)
    (s : Session × (Journal ρ × σ)) : Prop where
  idle : s.1.depth = 0
  scope : s.1.scope = l.scope
  results : s.1.results = a.leaves l r
  found : ∀ k v, a.key? l = some k → (a.kept l).lookup k = some v →
    r = .ok (.value v) ∧ s.2.1 = j
  asked : (∀ k, a.key? l = some k → (a.kept l).lookup k = none) →
    ∃ more, s.2.1 = j ++ more ∧ a.Asked r more

namespace Call

variable {j : Journal ρ}

/-- The outermost query remembers its result until it ends, in session scope for longer. -/
theorem results_ended_remember (hopen : l.closed = false) (hidle : l.Idle)
    (r : Except Error Value) :
    (ended (remember k (flushedFor st l) r)).results =
      (Call.queryWithKey st b bounds k).leaves l (r.map .value) := by
  have hkept : (flushedFor st l).results = (Call.queryWithKey st b bounds k).kept l :=
    results_flushedFor hopen
  cases hscope : l.scope with
  | session =>
    have hended : ended (remember k (flushedFor st l) r) = remember k (flushedFor st l) r := by
      simp [ended, hscope]
    rw [hended]
    cases r with
    | ok v =>
      show (flushedFor st l).results.insert k (some v) = _
      rw [hkept, Except.map, leaves, hscope]
      rfl
    | error x => exact hkept
  | statement =>
    -- Nothing is remembered, before the query and after it.
    have hnothing : (Call.queryWithKey st b bounds k).kept l = .empty := by
      rw [kept, hidle.statement hscope, ite_self]
    have hended : (ended (remember k (flushedFor st l) r)).results = .empty := by
      rw [ended, scope_remember, scope_flushedFor, if_pos hscope]
      exact results_forget (by simpa using hopen)
    rw [hended]
    cases r <;> simp [leaves, Except.map, hscope, hnothing]

/-- What a query of an open session under a given key comes to. -/
theorem effect_queryWithKey (db : StatementRunner ρ σ) (st : Statement ρ) (b : BoundStatement)
    (bounds : RowBounds) (k : CacheKey) (hopen : l.closed = false) (hidle : l.Idle) :
    ∃ r e' s, Session.queryWithKey db.journaled st b bounds k c ⟨e, (l, (j, y))⟩ =
        (r, ⟨e', s⟩) ∧
      (Call.queryWithKey st b bounds k).Effect l j (r.map .value) s := by
  have hkept : (flushedFor st l).results = (Call.queryWithKey st b bounds k).kept l :=
    results_flushedFor hopen
  cases hlookup : (flushedFor st l).results.lookup k with
  | some v =>
    refine ⟨_, _, _, queryWithKey_found hopen hidle.depth hlookup, ?_⟩
    -- A result that is found is not stored again, but that would make no difference.
    have hremember : remember k (flushedFor st l) (.ok v) = flushedFor st l := by
      have hfind : (flushedFor st l).results.find? k = some (some v) :=
        Option.join_eq_some_iff.1 hlookup
      show { flushedFor st l with results := (flushedFor st l).results.insert k (some v) } = _
      rw [Entries.insert_of_find? hfind]
    exact {
      idle := by simpa using hidle.depth
      scope := by simp
      results := hremember ▸ results_ended_remember hopen hidle (.ok v)
      found := by
        rintro k' v' ⟨⟩ hv'
        rw [← hkept, hlookup] at hv'
        cases hv'
        exact ⟨rfl, rfl⟩
      asked := fun hmissing => by
        have hnone := hmissing k rfl
        rw [← hkept, hlookup] at hnone
        cases hnone }
  | none =>
    obtain ⟨r, e', y', hquery⟩ := noted_ends (.query st b bounds) (db.query st b bounds)
      (c.holding (flushedFor st l).held) e j y
    refine ⟨_, _, _, queryWithKey_missing hopen hidle.depth hlookup hquery, ?_⟩
    exact {
      idle := by simpa using hidle.depth
      scope := by simp
      results := results_ended_remember hopen hidle r
      found := by
        rintro k' v' ⟨⟩ hv'
        rw [← hkept, hlookup] at hv'
        cases hv'
      asked := fun _ => ⟨_, rfl, .queryWithKey st b bounds k r⟩ }

/-- A call that looks no key up, and leaves the session as it stands then. -/
theorem effect_of_kept {a : Call ρ} {r : Except Error Reply} {more : Journal ρ} {y' : σ}
    {s : Session} (hidle : s.depth = 0) (hscope : s.scope = l.scope)
    (hresults : s.results = a.kept l) (hkey : a.key? l = none) (hasked : a.Asked r more) :
    a.Effect l j r (s, (j ++ more, y')) where
  idle := hidle
  scope := hscope
  results := by
    rw [hresults, leaves.eq_def, hkey]
    cases l.scope <;> rcases r with x | _ | _ | _ <;> rfl
  found := by
    intro k v hk
    rw [hkey] at hk
    cases hk
  asked := fun _ => ⟨more, rfl, hasked⟩

theorem kept_of_forgets {a : Call ρ} (h : a.forgets = true) : a.kept l = .empty := if_pos h

/-- A call that forgets and looks no key up. -/
theorem effect_of_forgotten {a : Call ρ} {r : Except Error Reply} {more : Journal ρ}
    (hopen : l.closed = false) (hidle : l.Idle) (hforgets : a.forgets = true)
    (hkey : a.key? l = none) (hasked : a.Asked r more) :
    a.Effect l j r (l.forget, (j ++ more, y')) :=
  effect_of_kept ((depth_forget l).trans hidle.depth) (scope_forget l)
    ((results_forget hopen).trans (kept_of_forgets hforgets).symm) hkey hasked

/-- A query is answered as the query under its key is. -/
theorem Effect.query {r : Except Error Reply} {s : Session × (Journal ρ × σ)}
    (h : (Call.queryWithKey st b bounds k).Effect l j r s) (hkey : l.key st b bounds = .ok k) :
    (Call.query st b bounds).Effect l j r s := by
  have hkey? : (Call.query st b bounds).key? l = some k := congrArg Except.toOption hkey
  exact {
    idle := h.idle
    scope := h.scope
    results := by
      rw [h.results, leaves.eq_def, leaves.eq_def, hkey?]
      rfl
    found := by
      rw [hkey?]
      exact h.found
    asked := by
      rw [hkey?]
      intro hmissing
      obtain ⟨more, hmore, hasked⟩ := h.asked hmissing
      cases hasked with
      | queryWithKey _ _ _ _ r => exact ⟨_, hmore, .query st b bounds r⟩ }

/-- A rollback of an open session forgets; the database rolls back if that is required. -/
theorem rollback_ends (db : StatementRunner ρ σ) (required : Bool) (hopen : l.closed = false) :
    ∃ r e' more y', Session.rollback db.journaled required c ⟨e, (l, (j, y))⟩ =
        (r, ⟨e', (l.forget, (j ++ more, y'))⟩) ∧
      (Call.rollback required).Asked (r.map fun _ => .nothing) more := by
  cases required with
  | true =>
    obtain ⟨r, e', y', hrollback⟩ :=
      noted_ends .rollback db.rollback (c.holding l.forget.held) e j y
    exact ⟨_, _, _, _, rollback_required_run hopen hrollback, .rollback r⟩
  | false =>
    refine ⟨.ok (), e, [], y, ?_, .rollbackLocal⟩
    rw [rollback_local_run hopen, List.append_nil]

theorem commit_ends (db : StatementRunner ρ σ) (required : Bool) (hopen : l.closed = false) :
    ∃ r e' more y', Session.commit db.journaled required c ⟨e, (l, (j, y))⟩ =
        (r, ⟨e', (l.forget, (j ++ more, y'))⟩) ∧
      (Call.commit required).Asked (r.map fun _ => .nothing) more := by
  cases required with
  | true =>
    obtain ⟨r, e', y', hcommit⟩ := noted_ends .commit db.commit (c.holding l.forget.held) e j y
    exact ⟨_, _, _, _, commit_required_run hopen hcommit, .commit r⟩
  | false =>
    refine ⟨.ok (), e, [], y, ?_, .commitLocal⟩
    rw [commit_local_run hopen, List.append_nil]

/-- A close asks for the rollback that it makes, and then for the close. -/
theorem Asked.close_of_rollback {force : Bool} {r : Except Error Reply} {more : Journal ρ}
    (h : (Call.rollback force : Call ρ).Asked r more) :
    (Call.close force : Call ρ).Asked (.ok .nothing) (more ++ [.close]) := by
  cases h with
  | rollback r => exact .close r
  | rollbackLocal => exact .closeLocal

theorem close_ends (db : StatementRunner ρ σ) (force : Bool) (hopen : l.closed = false) :
    ∃ e' more y', Session.close db.journaled force c ⟨e, (l, (j, y))⟩ =
        (.ok (), ⟨e', ({ l.forget with closed := true }, (j ++ more, y'))⟩) ∧
      (Call.close force : Call ρ).Asked (.ok .nothing) more := by
  obtain ⟨r, e', more, y', hrollback, hasked⟩ :=
    rollback_ends db force hopen (c := c) (e := e) (j := j) (y := y)
  have hclose := close_run hopen force hrollback
  -- The database is closed whatever came of the rollback.
  obtain ⟨r', e'', y'', hnoted⟩ :=
    noted_ends (fun _ => .close) db.close (c.holding l.forget.held) e' (j ++ more) y'
  have hjournaled : db.journaled.close (c.holding l.forget.held) ⟨e', (j ++ more, y')⟩ =
      (r', ⟨e'', (j ++ more ++ [.close], y'')⟩) := hnoted
  rw [hjournaled, List.append_assoc] at hclose
  exact ⟨_, _, _, hclose, hasked.close_of_rollback⟩

theorem effect_of_eq {a : Call ρ} {r : Except Error Reply}
    {w w' : World (Session × (Journal ρ × σ))} (h : a.run db.journaled c w = (r, w'))
    (heffect : a.Effect l j r w'.state) :
    a.Effect l j (a.run db.journaled c w).1 (a.run db.journaled c w).2.state := by
  rw [h]
  exact heffect

/-- What a call on an open session comes to. -/
theorem effect_run (db : StatementRunner ρ σ) (a : Call ρ) (c : Caller)
    {w : World (Session × (Journal ρ × σ))} (hopen : w.state.1.closed = false)
    (hidle : w.state.1.Idle) :
    a.Effect w.state.1 w.state.2.1 (a.run db.journaled c w).1 (a.run db.journaled c w).2.state := by
  obtain ⟨e, l, j, y⟩ := w
  cases a with
  | query st b bounds =>
    have hkey : l.key st b bounds = .ok (l.queryKey st b bounds) := key_eq_ok hopen st b bounds
    obtain ⟨r, e', s, hrun, heffect⟩ :=
      effect_queryWithKey db st b bounds (l.queryKey st b bounds) hopen hidle (c := c) (e := e)
        (y := y) (j := j)
    have hquery : Session.query db.journaled st b bounds c ⟨e, (l, (j, y))⟩ = (r, ⟨e', s⟩) := by
      rw [Session.query, Op.bind_of_ok Op.layer_run, hkey]
      exact hrun
    exact effect_of_eq (reply_run hquery) (heffect.query hkey)
  | queryWithKey st b bounds k =>
    obtain ⟨r, e', s, hrun, heffect⟩ := effect_queryWithKey db st b bounds k hopen hidle
    exact effect_of_eq (reply_run hrun) heffect
  | queryHandled st b bounds =>
    obtain ⟨r, e', y', hquery⟩ := noted_ends (.query st b bounds) (db.query st b bounds)
      (c.holding (flushedFor st l).held) e j y
    exact effect_of_eq (reply_run (queryHandled_run hopen hquery))
      (effect_of_kept (by simpa using hidle.depth) (by simp) (results_flushedFor hopen) rfl
        (.queryHandled st b bounds r))
  | queryCursor st b bounds =>
    obtain ⟨r, e', y', hquery⟩ := noted_ends (.query st b bounds) (db.query st b bounds)
      (c.holding l.held) e j y
    exact effect_of_eq (reply_run (queryCursor_run hopen hquery))
      (effect_of_kept hidle.depth rfl rfl rfl (.queryCursor st b bounds r))
  | update st b =>
    obtain ⟨r, e', y', hupdate⟩ := noted_ends (.update st b) (db.update st b)
      (c.holding l.forget.held) e j y
    exact effect_of_eq (reply_run (update_run hopen hupdate))
      (effect_of_forgotten hopen hidle rfl rfl (.update st b r))
  | commit required =>
    obtain ⟨r, e', more, y', hcommit, hasked⟩ := commit_ends db required hopen
    exact effect_of_eq (reply_run hcommit)
      (effect_of_forgotten hopen hidle rfl rfl hasked)
  | rollback required =>
    obtain ⟨r, e', more, y', hrollback, hasked⟩ := rollback_ends db required hopen
    exact effect_of_eq (reply_run hrollback)
      (effect_of_forgotten hopen hidle rfl rfl hasked)
  | close force =>
    obtain ⟨e', more, y', hclose, hasked⟩ := close_ends db force hopen
    exact effect_of_eq (reply_run hclose)
      (effect_of_kept ((depth_forget l).trans hidle.depth) (scope_forget l)
        (results_forget hopen) rfl hasked)
  | clearLocal =>
    have hclear : (Session.clearLocal : SessionOp _ Unit) c ⟨e, (l, (j, y))⟩ =
      (.ok (), ⟨e, (l.forget, (j ++ [], y))⟩) := by
      rw [List.append_nil]
      rfl
    exact effect_of_eq (reply_run hclear)
      (effect_of_forgotten hopen hidle rfl rfl .clearLocal)

/-- On a closed session a call changes nothing. -/
theorem run_closed (db : StatementRunner ρ σ) (a : Call ρ) (c : Caller)
    {w : World (Session × σ)} (hclosed : w.state.1.closed = true) :
    ∃ r, a.run db c w = (r, w) ∧ ∀ v, r ≠ .ok (.value v) := by
  obtain ⟨e, l, y⟩ := w
  have hensure := ensureOpen_closed hclosed (c := c) (e := e) (y := y)
  have hforget : l.forget = l := if_pos hclosed
  cases a with
  | query st b bounds =>
    have hkey : l.key st b bounds = .error (.executor .closed) := if_pos hclosed
    have hquery : Session.query db st b bounds c ⟨e, (l, y)⟩ =
        (.error (.executor .closed), ⟨e, (l, y)⟩) := by
      rw [Session.query, Op.bind_of_ok Op.layer_run, hkey]
      rfl
    exact ⟨_, reply_run hquery, nofun⟩
  | queryWithKey st b bounds k => exact ⟨_, reply_run (Op.bind_of_error hensure), nofun⟩
  | queryHandled st b bounds => exact ⟨_, reply_run (Op.bind_of_error hensure), nofun⟩
  | queryCursor st b bounds => exact ⟨_, reply_run (Op.bind_of_error hensure), nofun⟩
  | update st b => exact ⟨_, reply_run (Op.bind_of_error hensure), nofun⟩
  | commit required => exact ⟨_, reply_run (Op.bind_of_error hensure), nofun⟩
  | rollback required => exact ⟨_, reply_run (skipped_closed hclosed _), nofun⟩
  | close force => exact ⟨_, reply_run (skipped_closed hclosed _), nofun⟩
  | clearLocal =>
    have hclear : (Session.clearLocal : SessionOp σ Unit) c ⟨e, (l, y)⟩ =
        (.ok (), ⟨e, (l, y)⟩) := by
      show (Except.ok (), (⟨e, (l.forget, y)⟩ : World (Session × σ))) = _
      rw [hforget]
    exact ⟨_, reply_run hclear, nofun⟩

end Call

end Session

end QueryCache
