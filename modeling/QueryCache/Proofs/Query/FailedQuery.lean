import Mathlib
import QueryCache.Proofs.Layer.FailedRead
import QueryCache.Proofs.Query.UsersTable
import QueryCache.Proofs.Query.Waiting

/-!
# Queries that fail

A query of an open session fails for one of three reasons: its statement has
output parameters, and so its result cannot be cached; the shared cache could not
be read in time; or the database fails.

1. why a query fails
2. the session
3. the table
4. the shared cache
5. queries
-/

namespace QueryCache

/-! ## Why a query fails -/

/-- Why a query fails.  `fails`: what may become of it in the database. -/
inductive Refused {ρ : Type} (st : Statement ρ) (fails : Error → Prop) : Error → Prop where
  | output (h : st.hasOutputParameters = true) :
      Refused st fails (.config (.outputParametersNotCacheable st.id))
  | late {e : Error} (h : e.IsLate) : Refused st fails e
  | database {e : Error} (h : fails e) : Refused st fails e

variable {ρ σ : Type} {st : Statement ρ} {b : BoundStatement} {w : RowBounds}

/-! ## The session -/

namespace Session

variable {db : StatementRunner ρ σ} {key : CacheKey} {c : Caller} {e : Error}

theorem ensureOpen_run {x : World (Session × σ)} (hopen : x.state.1.closed = false) (c : Caller) :
    (ensureOpen : SessionOp σ Unit) c x = (.ok (), x) := by
  have hlayer : (Op.layer : SessionOp σ Session) c x = (.ok x.state.1, x) := rfl
  rw [ensureOpen, Op.bind_of_ok hlayer, hopen]
  rfl

theorem clearLocalIf_run (condition : Bool) (c : Caller) (x : World (Session × σ)) :
    (clearLocalIf condition : SessionOp σ Unit) c x =
      (.ok (), ⟨x.env, (if condition then x.state.1.forget else x.state.1, x.state.2)⟩) := by
  cases condition <;> rfl

/-- What a query does when it has a result does not change the result. -/
theorem result_of_end (result : Except Error Value) (c : Caller) (x : World (Session × σ)) : ((do
    Op.modifyLayer fun s => { s with depth := s.depth - 1 }
    let s ← Op.layer
    clearLocalIf (s.depth == 0 && s.scope == .statement)
    Op.ofExcept result : SessionOp σ Value) c x).1 = result := by
  rw [Op.bind_of_ok rfl, Op.bind_of_ok rfl, Op.bind_of_ok (clearLocalIf_run _ _ _)]
  rfl

theorem queryDatabase_error {x : World (Session × σ)}
    (h : (queryDatabase db st b w key c x).1 = .error e) :
    (db.query st b w ((Focus.second held).caller x.state c) ⟨x.env, x.state.2⟩).1 = .error e := by
  cases hquery : (database db).query st b w c x with
  | mk r x' =>
    have hresult : (db.query st b w ((Focus.second held).caller x.state c)
        ⟨x.env, x.state.2⟩).1 = r := congrArg Prod.fst hquery
    cases r with
    | ok v =>
      rw [queryDatabase, Op.bind_of_ok hquery] at h
      cases h
    | error e' =>
      rw [queryDatabase, Op.bind_of_error hquery] at h
      cases h
      exact hresult

/-- A query of an open session fails only if its database does. -/
theorem queryWithKey_error {x : World (Session × σ)} (hopen : x.state.1.closed = false)
    (h : (queryWithKey db st b w key c x).1 = .error e) :
    ∃ c', (db.query st b w c' ⟨x.env, x.state.2⟩).1 = .error e := by
  obtain ⟨env, l, y⟩ := x
  rw [queryWithKey, Op.bind_of_ok (ensureOpen_run hopen c), Op.bind_of_ok rfl,
    Op.bind_of_ok (clearLocalIf_run _ c _), Op.bind_of_ok rfl, Op.bind_of_ok rfl] at h
  dsimp only at h
  generalize (if l.depth == 0 && st.flushCacheRequired then l.forget else l) = l' at h
  cases hfound : l'.results.lookup key with
  | some v =>
    rw [hfound] at h
    exact nomatch (result_of_end _ c _).symm.trans h
  | none =>
    rw [hfound] at h
    have hdatabase : (queryDatabase db st b w key c
        ⟨env, ({ l' with depth := l'.depth + 1 }, y)⟩).1 = .error e :=
      (result_of_end _ c _).symm.trans h
    have hquery := queryDatabase_error hdatabase
    exact ⟨_, hquery⟩

end Session

/-! ## The table -/

/-- The failure of a statement that the table was told to fail on. -/
def UsersTable.FailsOn (failing : Option String) (id : String) (e : Error) : Prop :=
  failing = some id ∧ e = .executor (.statementFailed id "scripted failure")

theorem UsersTable.check_run (id : String) (c : Caller) (t : World UsersTable) :
    check id c t = (if t.state.failingOn = some id then
      .error (.executor (.statementFailed id "scripted failure")) else .ok (), t) := by
  rw [check, Op.bind_of_ok rfl]
  split <;> rfl

/-- A query of the table fails only as the table was told to. -/
theorem UsersTable.query_error {c : Caller} {t : World UsersTable} {e : Error}
    (h : ((runner : StatementRunner ρ UsersTable).query st b w c t).1 = .error e) :
    FailsOn t.state.failingOn st.id e := by
  have hquery : (runner : StatementRunner ρ UsersTable).query st b w c t = _ := Op.bind_of_ok rfl
  rw [hquery] at h
  by_cases hfails : t.state.failingOn = some st.id
  · rw [Op.bind_of_error ((check_run st.id c _).trans (by rw [if_pos hfails]))] at h
    cases h
    exact ⟨hfails, rfl⟩
  · rw [Op.bind_of_ok ((check_run st.id c _).trans (by rw [if_neg hfails]))] at h
    cases h

/-! ## The shared cache -/

namespace CachingSession

variable {caches : Unit → Cache σ} {db : StatementRunner Unit σ} {inv : σ → Prop} {k : CacheKey}
  {st : Statement Unit} {fails : Error → Prop}

/-- A read of the shared cache by a unit fails only if it is late. -/
theorem getCached_late (hget : ((caches ()).get k).Hoare inv fun r y =>
      FailsOnlyAs CacheError.IsLate r ∧ inv y) :
    (getCached caches () k : CachingCall Unit σ _).Hoare (Ready inv) fun r s =>
      FailsOnlyAs Error.IsLate r ∧ Ready inv s := by
  let below : Session × σ → Prop := fun s => s.1.closed = false ∧ inv s.2
  have hsession : ((shared caches ()).get k).Hoare below fun r s =>
      s.1.closed = false ∧ FailsOnlyAs CacheError.IsLate r ∧ inv s.2 :=
    hget.focus (Focus.lawfulAt_second _) fun _ _ hs => hs
  have hbuffer : (Buffer.get (shared caches ()) k).Hoare (fun s => below s.2) fun r s =>
      FailsOnlyAs CacheError.IsLate r ∧ below s.2 := by
    refine Await.Hoare.bind (Await.Hoare.below Buffer.held hsession) (fun found => ?_)
      fun e s hs => ⟨hs.2.1, hs.1, hs.2.2⟩
    exact .ofOp (Op.Hoare.updateLayer fun s hs => ⟨.of_ok _, hs.1, hs.2.2⟩)
  rintro t ⟨e, u, y⟩ hy
  have hunit : ((UnitOfWork.focus (caches ()).id).await (Buffer.get (shared caches ()) k)).Hoare
      (fun s => s.1 = touch caches u ∧ below s.2) fun r s =>
        FailsOnlyAs CacheError.IsLate r ∧ below s.2 :=
    UnitOfWork.await_focus_hoare (find?_touch u) (hbuffer.mono (fun _ hs => hs.2) fun _ _ hs => hs)
  refine Await.Meets.mapError (Await.Meets.bind_updateLayer ?_)
  refine (hunit t ⟨e, (touch caches u, y)⟩ ⟨rfl, hy⟩).mono ?_
  intro r w' h
  exact ⟨h.1.mapError fun _ he => he, h.2⟩

/-! ## Queries -/

/-- A query of an open session gives a result unless it is refused. -/
theorem queryWithKey_refused
    (hget : ∀ k, ((caches ()).get k).Hoare inv fun r y => FailsOnlyAs CacheError.IsLate r ∧ inv y)
    (hdb : ∀ c x e, inv x.state → (db.query st b w c x).1 = .error e → fails e) :
    (queryWithKey caches db st b w k).Hoare (Ready inv) fun r _ =>
      FailsOnlyAs (Refused st fails) r := by
  have hflush : (flushIfRequired caches st : CachingOp Unit σ Unit).Hoare (Ready inv)
      fun r s => r = .ok () ∧ Ready inv s := by
    intro t x hx c _
    rw [flushIfRequired_run]
    exact ⟨rfl, hx⟩
  have hsession : (onSession (Session.queryWithKey db st b w k) : CachingOp Unit σ Value).Hoare
      (Ready inv) fun r _ => FailsOnlyAs (Refused st fails) r := by
    intro t x hx c _ e he
    obtain ⟨c', hquery⟩ := Session.queryWithKey_error hx.1 he
    exact .database (hdb _ _ e hx.2 hquery)
  have houtput : (ensureNoOutput st : CachingOp Unit σ Unit).Hoare (Ready inv)
      fun r s => FailsOnlyAs (Refused st fails) r ∧ Ready inv s := by
    unfold ensureNoOutput
    split
    · exact Op.Hoare.fail fun s hs => ⟨.of_error (.output ‹_›), hs⟩
    · exact Op.Hoare.pure fun s hs => ⟨.of_ok _, hs⟩
  refine Await.Hoare.bind_ok (.ofOp hflush) ?_
  cases hcache : st.applicableCache with
  | none => exact .ofOp hsession
  | some r =>
    refine Await.Hoare.bind (.ofOp houtput) (fun _ => ?_) fun e _ h => .of_error (h.1 e rfl)
    refine Await.Hoare.bind ((getCached_late (hget k)).mono (fun _ hs => hs.2) fun _ _ hs => hs)
      (fun found => ?_) fun e _ h => .of_error (.late (h.1 e rfl))
    cases found with
    | some v => exact Await.Hoare.pure fun _ _ => .of_ok v
    | none =>
      refine Await.Hoare.bind (.ofOp (hsession.mono (fun _ hs => hs.2) fun _ _ hs => hs))
        (fun v => ?_) fun e _ h => .of_error (h e rfl)
      have hput : (putCached caches () k v : CachingOp Unit σ Unit).Hoare
          (fun _ => True) fun r s => r = .ok () ∧ True := by
        intro t x _ c _
        exact ⟨congrArg Prod.fst (Op.mapError_of_ok (UnitOfWork.put_eq x.state.1 () ..)), trivial⟩
      refine Await.Hoare.bind_ok (.ofOp (hput.mono (fun _ _ => trivial) fun _ _ hs => hs)) ?_
      exact Await.Hoare.pure fun _ _ => .of_ok v

/-- The same under the key that the session makes for it. -/
theorem query_refused
    (hget : ∀ k, ((caches ()).get k).Hoare inv fun r y => FailsOnlyAs CacheError.IsLate r ∧ inv y)
    (hdb : ∀ c x e, inv x.state → (db.query st b w c x).1 = .error e → fails e) :
    (query caches db st b w).Hoare (Ready inv) fun r _ => FailsOnlyAs (Refused st fails) r := by
  intro t x hx c hc
  rw [query_run hx.1]
  exact queryWithKey_refused hget hdb t x hx c hc

end CachingSession

end QueryCache
