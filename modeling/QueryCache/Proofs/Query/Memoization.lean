import Mathlib
import QueryCache.Proofs.Query.LocalFlush

/-!
# Queries that are answered from memory

What a session remembers is determined by the calls on it and their replies: under a key
it has the result of the last query of that key after which nothing made it forget.  So
a query asks the database once, or it asks nothing and gives that very result.

1. the database that a session talks to
2. what the calls have made a session remember
3. what a session remembers
4. queries
-/

namespace QueryCache.Session

open CachingSession (Reply)

variable {ρ σ : Type} {db : StatementRunner ρ σ} {a : Call ρ} {l : Session} {k : CacheKey}
  {v : Value}

/-! ## The database that a session talks to -/

/-- The session talks to the named database. -/
def TalksTo (environment : Option String) (s : Session × σ) : Prop :=
  s.1.environment = environment

namespace TalksTo

variable {environment : Option String}

theorem modifyLayer {g : Session → Session} (h : ∀ s, (g s).environment = s.environment) :
    (Op.modifyLayer g : SessionOp σ Unit).Keeps (TalksTo environment) :=
  Op.Hoare.modifyLayer fun s hs => (h s.1).trans hs

theorem layer : (Op.layer : SessionOp σ Session).Keeps (TalksTo environment) :=
  Op.Hoare.layer_keeping.mono (fun _ hs => hs) fun _ _ hs => hs.1

/-- The database runs below the session. -/
theorem database {ε α : Type} (m : Op ε σ α) :
    ((Focus.second held).run m).Keeps (TalksTo environment) := fun _ _ hw _ _ => hw

theorem ensureOpen : (ensureOpen : SessionOp σ Unit).Keeps (TalksTo environment) := by
  refine layer.bind fun s => ?_
  split
  · exact Op.Hoare.fail fun _ hs => hs
  · exact .pure

theorem clearLocal : (clearLocal : SessionOp σ Unit).Keeps (TalksTo environment) :=
  modifyLayer fun s => by
    unfold forget
    split <;> rfl

theorem clearLocalIf (condition : Bool) :
    (clearLocalIf condition : SessionOp σ Unit).Keeps (TalksTo environment) := by
  cases condition with
  | true => exact clearLocal
  | false => exact .pure

/-- An operation that a closed session skips. -/
theorem unlessClosed {m : SessionOp σ Unit} (h : m.Keeps (TalksTo environment)) :
    (Op.layer >>= fun s : Session => if s.closed then pure () else m).Keeps
      (TalksTo environment) := by
  refine layer.bind fun s => ?_
  split
  · exact .pure
  · exact h

/-- The database takes part in the end of a unit if that is required. -/
theorem ifRequired (required : Bool) (m : Op Error σ Unit) :
    (if required then (Focus.second held).run m else pure () : SessionOp σ Unit).Keeps
      (TalksTo environment) := by
  cases required with
  | true => exact database m
  | false => exact .pure

theorem queryWithKey (db : StatementRunner ρ σ) (st : Statement ρ) (b : BoundStatement)
    (w : RowBounds) (k : CacheKey) :
    (queryWithKey db st b w k).Keeps (TalksTo environment) := by
  have hquery : (queryDatabase db st b w k).Keeps (TalksTo environment) := by
    exact (database _).bind fun _ => (modifyLayer (by intro; rfl)).bind fun _ => .pure
  have hend : ∀ result : Except Error Value, (do
      Op.modifyLayer fun s => { s with depth := s.depth - 1 }
      let s ← Op.layer
      Session.clearLocalIf (s.depth == 0 && s.scope == .statement)
      Op.ofExcept result : SessionOp σ Value).Keeps (TalksTo environment) := fun result =>
    (modifyLayer (by intro; rfl)).bind fun _ => layer.bind fun _ =>
      (clearLocalIf _).bind fun _ => .ofExcept
  refine ensureOpen.bind fun _ => layer.bind fun _ => (clearLocalIf _).bind fun _ =>
    (modifyLayer (by intro; rfl)).bind fun _ => ?_
  refine Op.Keeps.bind (Op.Hoare.updateLayer fun _ hs => hs) fun found => ?_
  cases found with
  | some v => exact Op.Keeps.pure.bind hend
  | none => exact hquery.bind_result hend

theorem rollback (db : StatementRunner ρ σ) (required : Bool) :
    (rollback db required).Keeps (TalksTo environment) :=
  unlessClosed (clearLocal.bind fun _ => ifRequired required _)

/-- No call changes which database the session talks to. -/
theorem run (db : StatementRunner ρ σ) (a : Call ρ) : (a.run db).Keeps (TalksTo environment) := by
  cases a with
  | query st b w =>
    exact (layer.bind fun _ => Op.Keeps.ofExcept.bind fun k => queryWithKey db st b w k).bind
      fun _ => .pure
  | queryWithKey st b w k => exact (queryWithKey db st b w k).bind fun _ => .pure
  | queryHandled =>
    exact (ensureOpen.bind fun _ => (clearLocalIf _).bind fun _ => database _).bind fun _ => .pure
  | queryCursor => exact (ensureOpen.bind fun _ => database _).bind fun _ => .pure
  | update =>
    exact (ensureOpen.bind fun _ => clearLocal.bind fun _ => database _).bind fun _ => .pure
  | commit required =>
    exact (ensureOpen.bind fun _ => clearLocal.bind fun _ => ifRequired required _).bind
      fun _ => .pure
  | rollback required => exact (rollback db required).bind fun _ => .pure
  | close force =>
    refine Op.Keeps.bind (unlessClosed ((rollback db force).bind_result fun _ => ?_)) fun _ => .pure
    exact Op.Hoare.bind_ofSafe (database db.close) fun _ => modifyLayer (by intro; rfl)
  | clearLocal => exact clearLocal.bind fun _ => .pure

end TalksTo

/-! ## What the calls have made a session remember -/

/-- A call has given the value for the key, and no call since then forgets; `l` is the
session that makes the keys. -/
def GivenSinceForgotten (l : Session) (events : List (Call ρ × Except Error Reply))
    (k : CacheKey) (v : Value) : Prop :=
  ∃ before a later, events = before ++ (a, .ok (.value v)) :: later ∧ a.key? l = some k ∧
    ∀ event ∈ later, event.1.forgets = false

theorem not_givenSinceForgotten_nil :
    ¬ GivenSinceForgotten l ([] : List (Call ρ × Except Error Reply)) k v := by
  rintro ⟨before, a, later, heq, -⟩
  exact List.append_ne_nil_of_right_ne_nil before (List.cons_ne_nil _ _) heq.symm

/-- The last call gave the value, or it does not forget what was given before. -/
theorem givenSinceForgotten_append {events : List (Call ρ × Except Error Reply)}
    {r : Except Error Reply} :
    GivenSinceForgotten l (events ++ [(a, r)]) k v ↔
      (r = .ok (.value v) ∧ a.key? l = some k) ∨
        (a.forgets = false ∧ GivenSinceForgotten l events k v) := by
  constructor
  · rintro ⟨before, a', later, heq, hkey, hlater⟩
    rcases List.eq_nil_or_concat later with rfl | ⟨later, last, rfl⟩
    · obtain ⟨-, hlast⟩ := List.append_inj' heq rfl
      cases hlast
      exact .inl ⟨rfl, hkey⟩
    · rw [List.concat_eq_append, ← List.cons_append, ← List.append_assoc] at heq
      obtain ⟨hevents, hlast⟩ := List.append_inj' heq rfl
      cases hlast
      rw [List.concat_eq_append] at hlater
      exact .inr ⟨hlater _ List.mem_concat_self, before, a', later, hevents, hkey,
        fun event hevent => hlater event (List.mem_append_left _ hevent)⟩
  · rintro (⟨rfl, hkey⟩ | ⟨hforgets, before, a', later, rfl, hkey, hlater⟩)
    · exact ⟨events, a, [], rfl, hkey, fun _ hevent => (List.not_mem_nil hevent).elim⟩
    · refine ⟨before, a', later ++ [(a, r)], by simp, hkey, fun event hevent => ?_⟩
      rcases List.mem_append.1 hevent with hevent | hevent
      · exact hlater event hevent
      · rw [List.mem_singleton.1 hevent]
        exact hforgets

/-! ## What a session remembers -/

/-- Open sessions with one database make the same keys. -/
theorem Call.key?_congr {l' : Session} (a : Call ρ) (hopen : l.closed = false)
    (hopen' : l'.closed = false) (h : l.environment = l'.environment) : a.key? l = a.key? l' := by
  cases a with
  | query st b bounds =>
    show (l.key st b bounds).toOption = (l'.key st b bounds).toOption
    rw [key_eq_ok hopen, key_eq_ok hopen', queryKey, queryKey, keyComponents, keyComponents, h]
  | queryWithKey | queryHandled | queryCursor | update | commit | rollback | close | clearLocal =>
    rfl

/-- After a call a session in session scope remembers the result of the call, and what it
had kept. -/
theorem Call.Effect.lookup {j : Journal ρ} {r : Except Error Reply}
    {s : Session × (Journal ρ × σ)} (h : a.Effect l j r s) (hscope : l.scope = .session) :
    s.1.results.lookup k = some v ↔
      (r = .ok (.value v) ∧ a.key? l = some k) ∨
        (a.forgets = false ∧ l.results.lookup k = some v) := by
  have hkept : (a.kept l).lookup k = some v ↔
      a.forgets = false ∧ l.results.lookup k = some v := by
    cases hforgets : a.forgets with
    | true =>
      rw [kept_of_forgets hforgets]
      exact ⟨nofun, nofun⟩
    | false => simp [kept_of_not_forgets hforgets]
  rw [h.results, ← hkept]
  rcases r with x | v' | _ | _
  · simp [leaves]
  · rw [lookup_leaves_value]
    split
    · rename_i hkey
      -- A value that was kept under the key of the call is the one that the call gave.
      refine ⟨fun hv => .inl ⟨by rw [Option.some.inj hv], hkey.2⟩, ?_⟩
      rintro (⟨⟨⟩, -⟩ | hv)
      · rfl
      · obtain ⟨heq, -⟩ := h.found k v hkey.2 hv
        cases heq
        rfl
    · rename_i hkey
      refine ⟨.inr, ?_⟩
      rintro (⟨-, hk⟩ | hv)
      · exact (hkey ⟨hscope, hk⟩).elim
      · exact hv
  · simp [leaves]
  · simp [leaves]

section History

variable {scope : LocalScope} {environment : Option String} {e : Environment} {y : σ}
  {events : List (Call ρ × Except Error Reply)} {w w' : World (Session × (Journal ρ × σ))}
  {c : Caller}

/-- The scope of a session and the database that it talks to do not change. -/
theorem History.setup (h : History db ⟨e, ({ scope, environment }, ([], y))⟩ events w) :
    w.state.1.scope = scope ∧ w.state.1.environment = environment := by
  have hidle := idle_new scope environment
  induction h with
  | start => exact ⟨rfl, rfl⟩
  | @call events w h a c ih =>
    have henvironment := (TalksTo.run db.journaled a).ends (c := c) rfl ih.2
    refine ⟨?_, henvironment⟩
    cases hclosed : w.state.1.closed with
    | true =>
      obtain ⟨r, hrun, -⟩ := a.run_closed db.journaled c hclosed
      rw [hrun]
      exact ih.1
    | false => exact (Call.effect_run db a c hclosed (h.idle hidle)).scope.trans ih.1
  | others _ _ _ ih => exact ih

/-- An open session in session scope remembers exactly what was given since it forgot. -/
theorem History.lookup (h : History db ⟨e, ({ scope, environment }, ([], y))⟩ events w)
    (hscope : scope = .session) (hopen : w.state.1.closed = false) :
    w.state.1.results.lookup k = some v ↔
      GivenSinceForgotten { scope, environment } events k v := by
  induction h with
  | start => exact ⟨nofun, fun hgiven => (not_givenSinceForgotten_nil hgiven).elim⟩
  | @call events w h a c ih =>
    cases hclosed : w.state.1.closed with
    | true =>
      -- A closed session stays closed.
      obtain ⟨r, hrun, -⟩ := a.run_closed db.journaled c hclosed
      rw [hrun] at hopen
      cases hclosed.symm.trans hopen
    | false =>
      obtain ⟨hscope', henvironment⟩ := h.setup
      have heffect := Call.effect_run db a c hclosed (h.idle (idle_new scope environment))
      have hkey : a.key? w.state.1 = a.key? { scope, environment } :=
        a.key?_congr hclosed rfl henvironment
      rw [heffect.lookup (hscope'.trans hscope), givenSinceForgotten_append, ih hclosed, hkey]
  | others _ _ _ ih => exact ih hopen

/-! ## Queries -/

section Open

variable {st : Statement ρ} {b : BoundStatement} {bounds : RowBounds} {r : Except Error Value}

/-- What a query of an open session leaves. -/
theorem History.effect (h : History db ⟨e, ({ scope, environment }, ([], y))⟩ events w)
    (hopen : w.state.1.closed = false)
    (hrun : queryWithKey db.journaled st b bounds k c w = (r, w')) :
    (Call.queryWithKey st b bounds k).Effect w.state.1 w.state.2.1 (r.map .value) w'.state := by
  have heffect := Call.effect_run db (.queryWithKey st b bounds k) c hopen
    (h.idle (idle_new scope environment))
  rw [show (Call.queryWithKey st b bounds k).run db.journaled c w = (r.map .value, w') from
    reply_run hrun] at heffect
  exact heffect

/-- What was given since the session forgot is given again, and the database is not asked. -/
theorem History.found (h : History db ⟨e, ({ scope, environment }, ([], y))⟩ events w)
    (hopen : w.state.1.closed = false)
    (hrun : queryWithKey db.journaled st b bounds k c w = (r, w')) (hscope : scope = .session)
    (hflush : st.flushCacheRequired = false)
    (hgiven : GivenSinceForgotten { scope, environment } events k v) :
    r = .ok v ∧ w'.state.2.1 = w.state.2.1 := by
  have hv := (h.lookup hscope hopen).2 hgiven
  rw [← Call.kept_of_not_forgets (a := .queryWithKey st b bounds k) hflush] at hv
  obtain ⟨hr, hj⟩ := (h.effect hopen hrun).found k v rfl hv
  refine ⟨?_, hj⟩
  cases r <;> cases hr
  rfl

/-- The session forgets for a statement that asks for a flush, and for every statement in
statement scope; else it keeps just what was given since it forgot. -/
theorem History.kept (h : History db ⟨e, ({ scope, environment }, ([], y))⟩ events w)
    (hopen : w.state.1.closed = false)
    (hv : ((Call.queryWithKey st b bounds k).kept w.state.1).lookup k = some v) :
    scope = .session ∧ st.flushCacheRequired = false ∧
      GivenSinceForgotten { scope, environment } events k v := by
  obtain ⟨hscope, -⟩ := h.setup
  cases hs : scope with
  | statement =>
    have hempty := (h.idle (idle_new scope environment)).statement (hscope.trans hs)
    rw [Call.kept, hempty, ite_self] at hv
    cases hv
  | session =>
    cases hflush : st.flushCacheRequired with
    | true =>
      have hempty : (Call.queryWithKey st b bounds k).kept w.state.1 = .empty :=
        Call.kept_of_forgets hflush
      rw [hempty] at hv
      cases hv
    | false =>
      subst hs
      exact ⟨rfl, rfl, (h.lookup rfl hopen).1 (Call.lookup_of_kept hv)⟩

/-- If nothing was given since the session forgot, the database is asked once. -/
theorem History.asked (h : History db ⟨e, ({ scope, environment }, ([], y))⟩ events w)
    (hopen : w.state.1.closed = false)
    (hrun : queryWithKey db.journaled st b bounds k c w = (r, w'))
    (hnone : ¬ ∃ v, scope = .session ∧ st.flushCacheRequired = false ∧
      GivenSinceForgotten { scope, environment } events k v) :
    w'.state.2.1 = w.state.2.1 ++ [.query st b bounds r] := by
  have hmissing : ((Call.queryWithKey st b bounds k).kept w.state.1).lookup k = none := by
    rw [Option.eq_none_iff_forall_ne_some]
    exact fun v hv => hnone ⟨v, h.kept hopen hv⟩
  obtain ⟨more, hmore, hasked⟩ := (h.effect hopen hrun).asked (by rintro _ ⟨⟩; exact hmissing)
  -- What was asked is the query, and its answer is what the call gives.
  generalize hr : r.map Reply.value = reply at hasked
  cases hasked with
  | queryWithKey _ _ _ _ r' =>
    have hsame : r' = r := by cases r <;> cases r' <;> cases hr <;> rfl
    rw [hmore, hsame]

end Open

/-- A call that fails stores nothing. -/
theorem History.failed (h : History db ⟨e, ({ scope, environment }, ([], y))⟩ events w)
    {x : Error} (hfail : a.run db.journaled c w = (.error x, w'))
    (hv : w'.state.1.results.lookup k = some v) : w.state.1.results.lookup k = some v := by
  cases hclosed : w.state.1.closed with
  | true =>
    obtain ⟨r, hrun, -⟩ := a.run_closed db.journaled c hclosed
    cases hrun.symm.trans hfail
    exact hv
  | false =>
    have heffect := Call.effect_run db a c hclosed (h.idle (idle_new scope environment))
    rw [hfail] at heffect
    rw [heffect.results] at hv
    exact Call.lookup_of_kept hv

/-- What a session does after any calls.  A query while it is open: in session scope, if
the statement asks for no flush and some call has given a value for the key since a call
last forgot, the query gives that value and asks nothing of the database; else it asks
the database once and gives its answer.  Between calls, also when the session is closed,
no query is running and a session in statement scope remembers nothing; and a call that
fails stores nothing. -/
theorem queryWithKey_memoized (h : History db ⟨e, ({ scope, environment }, ([], y))⟩ events w) :
    (w.state.1.closed = false → ∀ {st : Statement ρ} {b : BoundStatement} {bounds : RowBounds}
      {k : CacheKey} {c : Caller} {r : Except Error Value}
      {w' : World (Session × (Journal ρ × σ))},
      queryWithKey db.journaled st b bounds k c w = (r, w') →
        (∀ v, scope = .session → st.flushCacheRequired = false →
          GivenSinceForgotten { scope, environment } events k v →
            r = .ok v ∧ w'.state.2.1 = w.state.2.1) ∧
        ((¬ ∃ v, scope = .session ∧ st.flushCacheRequired = false ∧
          GivenSinceForgotten { scope, environment } events k v) →
            w'.state.2.1 = w.state.2.1 ++ [.query st b bounds r])) ∧
    w.state.1.depth = 0 ∧ (scope = .statement → w.state.1.results = .empty) ∧
    ∀ (a : Call ρ) (c : Caller) (x : Error) (w' : World (Session × (Journal ρ × σ))),
      a.run db.journaled c w = (.error x, w') →
      ∀ k v, w'.state.1.results.lookup k = some v → w.state.1.results.lookup k = some v := by
  have hidle : w.state.1.Idle := h.idle (idle_new scope environment)
  obtain ⟨hscope, -⟩ := h.setup
  refine ⟨?_, hidle.depth, fun hstatement => hidle.statement (hscope.trans hstatement), ?_⟩
  · intro hopen st b bounds k c r w' hrun
    exact ⟨fun v => h.found hopen hrun, h.asked hopen hrun⟩
  · intro a c x w' hfail k v hv
    exact h.failed hfail hv

end History

section Sample

/-- The key under which a session remembers all users. -/
def keyOfAll : CacheKey :=
  ({} : Session).queryKey (Samples.selectAll ()) ((Samples.selectAll ()).bind []) {}

theorem history_findAll_renamed : History UsersTable.runner
    ⟨{}, ({}, ([], .ofRows Samples.rows))⟩
    [(findAll, .ok (.value (.data 0 (.rows Samples.rows) true)))] readThenRenamed :=
  .others (.call .start findAll ⟨"main", []⟩) _ _

theorem givenSinceForgotten_findAll : GivenSinceForgotten {}
    [(findAll, .ok (.value (.data 0 (.rows Samples.rows) true)))] keyOfAll
    (.data 0 (.rows Samples.rows) true) := by
  have hkey : findAll.key? {} = some keyOfAll := by
    rw [findAll, Call.key?, key_eq_ok rfl, keyOfAll, Except.toOption]
  exact ⟨[], findAll, [], rfl, hkey, fun _ hevent => (List.not_mem_nil hevent).elim⟩

/-- All users under the key that they were read under, after somebody else renamed the first. -/
def readAgain : Except Error Value × World (Session × (Journal Unit × UsersTable)) :=
  queryWithKey UsersTable.runner.journaled (Samples.selectAll ()) ((Samples.selectAll ()).bind [])
    {} keyOfAll ⟨"main", []⟩ readThenRenamed

/-- The second read gives the very result of the first one, with no request to the database. -/
theorem queryWithKey_memoized_renamed :
    readThenRenamed.state.1.closed = false ∧
      readAgain.1 = .ok (.data 0 (.rows Samples.rows) true) ∧
      readAgain.2.state.2.1 = readThenRenamed.state.2.1 := by
  have hopen : readThenRenamed.state.1.closed = false := rfl
  have hrun : queryWithKey UsersTable.runner.journaled (Samples.selectAll ())
      ((Samples.selectAll ()).bind []) {} keyOfAll ⟨"main", []⟩ readThenRenamed =
        (readAgain.1, readAgain.2) := rfl
  exact ⟨hopen, ((queryWithKey_memoized history_findAll_renamed).1 hopen hrun).1 _ rfl rfl
    givenSinceForgotten_findAll⟩

end Sample

end QueryCache.Session
