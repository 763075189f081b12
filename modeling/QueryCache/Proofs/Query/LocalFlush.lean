import Mathlib
import QueryCache.Proofs.Query.SessionCall
import QueryCache.Query.Samples

/-!
# What a flush leaves of a session's results

A call that forgets leaves nothing in an open session but its own result, whether
or not the database fails; so every later query gives what the database gave during
that call or after it.  Every other call leaves what the session remembers.  A cursor
is of the second kind, even when its statement asks for a flush.

1. results that were given since
2. one call
3. histories
4. flushes
5. a cursor that does not flush
-/

namespace QueryCache.Session

open CachingSession (Reply)

variable {ρ σ : Type} {db : StatementRunner ρ σ} {a : Call ρ} {l : Session} {j : Journal ρ}
  {r : Except Error Reply} {s : Session × (Journal ρ × σ)} {n : Nat} {k : CacheKey} {v : Value}

/-! ## Results that were given since -/

/-- What the session remembers was given by the database after its first `n` requests. -/
structure GivenSince (n : Nat) (s : Session × (Journal ρ × σ)) : Prop where
  idle : s.1.Idle
  le : n ≤ s.2.1.length
  given : ∀ k v, s.1.results.lookup k = some v → Journal.Gave (s.2.1.drop n) v

/-- A session that was never used remembers nothing. -/
theorem idle_new (scope : LocalScope) (environment : Option String) :
    Idle { scope, environment } := ⟨rfl, fun _ => rfl⟩

/-- Only the journal and the session matter. -/
theorem GivenSince.others {s : Session × (Journal ρ × σ)} (h : GivenSince n s) (y : σ) :
    GivenSince n (s.1, (s.2.1, y)) := ⟨h.idle, h.le, h.given⟩

/-! ## One call -/

namespace Call

/-- A call that gives a result without having one gives what the database gave it. -/
theorem Asked.gave {more : Journal ρ} (h : a.Asked (.ok (.value v)) more) :
    Journal.Gave more v := by
  generalize hr : (Except.ok (.value v) : Except Error Reply) = r at h
  cases h with
  | query st b w r | queryWithKey st b w _ r | queryHandled st b w r | queryCursor st b w r =>
    cases r <;> cases hr
    exact .single st b w v
  | update _ _ r | commit r | rollback r => cases r <;> cases hr
  | commitLocal | rollbackLocal | close | closeLocal | clearLocal => cases hr

/-- The session after a call remembers what it had kept, and the result under its key. -/
theorem lookup_leaves_value (l : Session) (a : Call ρ) (v : Value) (k : CacheKey) :
    (a.leaves l (.ok (.value v))).lookup k =
      if l.scope = .session ∧ a.key? l = some k then some v else (a.kept l).lookup k := by
  cases hscope : l.scope with
  | statement => simp [leaves, hscope]
  | session =>
    cases hkey : a.key? l with
    | none => simp [leaves, hscope, hkey]
    | some k' =>
      simp only [leaves, hscope, hkey, Store.lookup, Entries.find?_insert, true_and,
        Option.some.injEq, eq_comm]
      split <;> rfl

/-- The session after a call remembers nothing but what it had kept and the result. -/
theorem lookup_leaves (h : (a.leaves l r).lookup k = some v) :
    (a.kept l).lookup k = some v ∨ r = .ok (.value v) := by
  rcases r with x | v' | _ | _
  · exact .inl h
  · rw [lookup_leaves_value] at h
    split at h
    · cases h
      exact .inr rfl
    · exact .inl h
  · exact .inl h
  · exact .inl h

theorem kept_of_not_forgets (h : a.forgets = false) : a.kept l = l.results := by
  rw [kept, h, if_neg Bool.false_ne_true]

/-- What is kept was remembered. -/
theorem lookup_of_kept (h : (a.kept l).lookup k = some v) : l.results.lookup k = some v := by
  cases hforgets : a.forgets with
  | true =>
    rw [kept_of_forgets hforgets] at h
    cases h
  | false => rwa [kept_of_not_forgets hforgets] at h

namespace Effect

/-- After a call the session is idle again. -/
theorem idle_after (h : a.Effect l j r s) (hidle : l.Idle) : s.1.Idle := by
  refine ⟨h.idle, fun hscope => ?_⟩
  rw [h.scope] at hscope
  have hkept : a.kept l = .empty := by rw [kept, hidle.statement hscope, ite_self]
  rw [h.results, leaves.eq_def, hscope, hkept]
  split <;> rfl

/-- The journal grows, and the result of a call was kept or is in what it grows by. -/
theorem journal (h : a.Effect l j r s) : ∃ more, s.2.1 = j ++ more ∧
    ∀ v, r = .ok (.value v) → (∃ k, (a.kept l).lookup k = some v) ∨ Journal.Gave more v := by
  by_cases hfound : ∃ k v, a.key? l = some k ∧ (a.kept l).lookup k = some v
  · obtain ⟨k, v, hk, hv⟩ := hfound
    obtain ⟨rfl, hj⟩ := h.found k v hk hv
    -- the database was not asked
    refine ⟨[], by rw [hj, List.append_nil], ?_⟩
    rintro _ ⟨⟩
    exact .inl ⟨k, hv⟩
  · have hmissing : ∀ k, a.key? l = some k → (a.kept l).lookup k = none := by
      intro k hk
      rw [Option.eq_none_iff_forall_ne_some]
      exact fun v hv => hfound ⟨k, v, hk, hv⟩
    obtain ⟨more, hmore, hasked⟩ := h.asked hmissing
    refine ⟨more, hmore, ?_⟩
    rintro v rfl
    exact .inr hasked.gave

/-- If what is kept was given since, then so is what the session remembers after the call,
and what the call gives. -/
theorem givenSince (h : a.Effect l j r s) (hidle : l.Idle) (hn : n ≤ j.length)
    (hkept : ∀ k v, (a.kept l).lookup k = some v → Journal.Gave (j.drop n) v) :
    GivenSince n s ∧ ∀ v, r = .ok (.value v) → Journal.Gave (s.2.1.drop n) v := by
  obtain ⟨more, hmore, hgave⟩ := h.journal
  have hdrop : s.2.1.drop n = j.drop n ++ more := by rw [hmore, List.drop_append_of_le_length hn]
  have hvalue : ∀ v, r = .ok (.value v) → Journal.Gave (s.2.1.drop n) v := by
    intro v hv
    rw [hdrop]
    rcases hgave v hv with ⟨k, hk⟩ | ⟨st, b, w, hmem⟩
    · exact (hkept k v hk).append more
    · exact ⟨st, b, w, List.mem_append_right _ hmem⟩
  refine ⟨⟨h.idle_after hidle, ?_, ?_⟩, hvalue⟩
  · rw [hmore, List.length_append]
    omega
  · intro k v hv
    rw [h.results] at hv
    rcases lookup_leaves hv with hv | hv
    · rw [hdrop]
      exact (hkept k v hv).append more
    · exact hvalue v hv

/-- A call that does not forget leaves every result that the session remembers. -/
theorem remembers (h : a.Effect l j r s) (hforgets : a.forgets = false)
    (hv : l.results.lookup k = some v) : s.1.results.lookup k = some v := by
  rw [← kept_of_not_forgets hforgets (a := a)] at hv
  rw [h.results]
  rcases r with x | v' | _ | _
  · exact hv
  · rw [lookup_leaves_value]
    split
    · rename_i hkey
      obtain ⟨heq, -⟩ := h.found k v hkey.2 hv
      cases heq
      rfl
    · exact hv
  · exact hv
  · exact hv

end Effect

end Call

/-! ## Histories -/

variable {w₀ w : World (Session × (Journal ρ × σ))} {events : List (Call ρ × Except Error Reply)}

theorem Idle.call (h : w.state.1.Idle) (db : StatementRunner ρ σ) (a : Call ρ) (c : Caller) :
    (a.run db.journaled c w).2.state.1.Idle := by
  cases hclosed : w.state.1.closed with
  | true =>
    obtain ⟨r, hrun, -⟩ := a.run_closed db.journaled c hclosed
    rw [hrun]
    exact h
  | false => exact (Call.effect_run db a c hclosed h).idle_after h

/-- A call keeps it that what is remembered was given since, and gives such a result. -/
theorem GivenSince.call (h : GivenSince n w.state) (db : StatementRunner ρ σ) (a : Call ρ)
    (c : Caller) :
    GivenSince n (a.run db.journaled c w).2.state ∧
      ∀ v, (a.run db.journaled c w).1 = .ok (.value v) →
        Journal.Gave ((a.run db.journaled c w).2.state.2.1.drop n) v := by
  cases hclosed : w.state.1.closed with
  | true =>
    obtain ⟨r, hrun, hnovalue⟩ := a.run_closed db.journaled c hclosed
    rw [hrun]
    exact ⟨h, fun v hv => (hnovalue v hv).elim⟩
  | false =>
    exact (Call.effect_run db a c hclosed h.idle).givenSince h.idle h.le
      fun k v hv => h.given k v (Call.lookup_of_kept hv)

/-- No request is taken out of the journal. -/
theorem journal_prefix (h : w.state.1.Idle) (db : StatementRunner ρ σ) (a : Call ρ) (c : Caller) :
    w.state.2.1 <+: (a.run db.journaled c w).2.state.2.1 := by
  cases hclosed : w.state.1.closed with
  | true =>
    obtain ⟨r, hrun, -⟩ := a.run_closed db.journaled c hclosed
    rw [hrun]
  | false =>
    obtain ⟨more, hmore, -⟩ := (Call.effect_run db a c hclosed h).journal
    exact ⟨more, hmore.symm⟩

/-- No query is running between the calls of a history. -/
theorem History.idle (h : History db w₀ events w) (h₀ : w₀.state.1.Idle) : w.state.1.Idle := by
  induction h with
  | start => exact h₀
  | call _ a c ih => exact ih.call db a c
  | others _ _ _ ih => exact ih

/-- In a history from a session that remembers only what was given since, every query
gives what was given since. -/
theorem History.givenSince (h : History db w₀ events w) (h₀ : GivenSince n w₀.state) :
    GivenSince n w.state ∧
      ∀ a v, (a, .ok (.value v)) ∈ events → Journal.Gave (w.state.2.1.drop n) v := by
  induction h with
  | start => exact ⟨h₀, fun a v hmem => (List.not_mem_nil hmem).elim⟩
  | @call events w _ a c ih =>
    obtain ⟨hsince, hevents⟩ := ih
    obtain ⟨hafter, hvalue⟩ := hsince.call db a c
    refine ⟨hafter, ?_⟩
    intro b v hmem
    rcases List.mem_append.1 hmem with hmem | hmem
    · obtain ⟨more, hmore⟩ := journal_prefix hsince.idle db a c
      rw [← hmore, List.drop_append_of_le_length hsince.le]
      exact (hevents b v hmem).append more
    · obtain ⟨rfl, hreply⟩ := Prod.mk.inj (List.mem_singleton.1 hmem)
      exact hvalue v hreply.symm
  | others _ _ y ih => exact ⟨ih.1.others y, ih.2⟩

/-! ## Flushes -/

/-- Every call but a cursor forgets when its statement asks for a flush. -/
theorem Call.forgets_of_flush {st : Statement ρ} (ha : a.statement? = some st)
    (hflush : st.flushCacheRequired = true) (hcursor : ∀ b bounds, a ≠ .queryCursor st b bounds) :
    a.forgets = true := by
  cases a with
  | query | queryWithKey | queryHandled =>
    cases ha
    exact hflush
  | queryCursor st' b bounds =>
    cases ha
    exact (hcursor b bounds rfl).elim
  | update | commit | rollback | close | clearLocal => rfl

/-- What a call leaves of the results of an open session, however it was used before and
whether or not the database fails.  If the call forgets, the session remembers only what
the call gave, and every later query gives what the database gave during the call or
after it.  If it does not, the session still remembers what it remembered. -/
theorem flush_leaves_results {scope : LocalScope} {environment : Option String} {e : Environment}
    {y : σ} {w' : World (Session × (Journal ρ × σ))} {c : Caller}
    (h : History db ⟨e, ({ scope, environment }, ([], y))⟩ events w)
    (hopen : w.state.1.closed = false) (hrun : a.run db.journaled c w = (r, w')) :
    w'.state.1.results = a.leaves w.state.1 r ∧
      (a.forgets = true → ∀ later w'', History db w' later w'' →
        ∀ b v, (b, .ok (.value v)) ∈ later →
          Journal.Gave (w''.state.2.1.drop w.state.2.1.length) v) ∧
      (a.forgets = false → ∀ k v, w.state.1.results.lookup k = some v →
        w'.state.1.results.lookup k = some v) := by
  have hidle : w.state.1.Idle := h.idle (idle_new scope environment)
  have heffect := Call.effect_run db a c hopen hidle
  rw [hrun] at heffect
  refine ⟨heffect.results, fun hforgets later w'' hlater => ?_,
    fun hforgets k v hv => heffect.remembers hforgets hv⟩
  -- Nothing was kept, so all that the session remembers now was given during the call.
  have hsince : GivenSince w.state.2.1.length w'.state := by
    refine (heffect.givenSince hidle le_rfl fun k v hv => ?_).1
    rw [Call.kept_of_forgets hforgets] at hv
    cases hv
  exact (hlater.givenSince hsince).2

/-! ## A cursor that does not flush -/

/-- A statement that asks for a flush is executed: nothing that was remembered before stays,
and later queries give what the database gave since. -/
def FlushForgets : Prop :=
  ∀ (ρ σ : Type) (db : StatementRunner ρ σ) (scope : LocalScope) (environment : Option String)
    (e : Environment) (y : σ) (events : List (Call ρ × Except Error Reply))
    (w : World (Session × (Journal ρ × σ))),
    History db ⟨e, ({ scope, environment }, ([], y))⟩ events w → w.state.1.closed = false →
    ∀ (a : Call ρ) (st : Statement ρ), a.statement? = some st → st.flushCacheRequired = true →
      ∀ (c : Caller) (r : Except Error Reply) (w' : World (Session × (Journal ρ × σ))),
        a.run db.journaled c w = (r, w') →
        (∀ k v, w'.state.1.results.lookup k = some v → r = .ok (.value v)) ∧
        ∀ later w'', History db w' later w'' → ∀ b v, (b, .ok (.value v)) ∈ later →
          Journal.Gave (w''.state.2.1.drop w.state.2.1.length) v

section Sample

/-- Reads all users. -/
def findAll : Call Unit := .query (Samples.selectAll ()) ((Samples.selectAll ()).bind []) {}

/-- Reads all users and asks for a flush. -/
def refreshAll : Statement Unit :=
  { Samples.selectAll () with id := "users.refreshAll", flushCacheRequired := true }

/-- A call on a session with the table of users. -/
def asked (w : World (Session × (Journal Unit × UsersTable))) (a : Call Unit) :
    Except Error Reply × World (Session × (Journal Unit × UsersTable)) :=
  a.run UsersTable.runner.journaled ⟨"main", []⟩ w

/-- All users were read, and then somebody else renamed the first one. -/
def readThenRenamed : World (Session × (Journal Unit × UsersTable)) :=
  let w := (asked ⟨{}, ({}, ([], .ofRows Samples.rows))⟩ findAll).2
  ⟨w.env, (w.state.1, (w.state.2.1, (w.state.2.2.rename 1 "eve").2))⟩

/-- The users were read again, through a cursor that was to flush. -/
def cursorRefreshed : World (Session × (Journal Unit × UsersTable)) :=
  (asked readThenRenamed (.queryCursor refreshAll (refreshAll.bind []) {})).2

theorem history_readThenRenamed : ∃ events, History UsersTable.runner
    ⟨{}, ({}, ([], .ofRows Samples.rows))⟩ events readThenRenamed :=
  ⟨_, .others (.call .start findAll ⟨"main", []⟩) _ _⟩

/-- After a cursor whose statement asks for a flush the session still gives the old name. -/
theorem not_flushForgets : ¬ FlushForgets := by
  intro h
  obtain ⟨events, hhistory⟩ := history_readThenRenamed
  obtain ⟨-, hlater⟩ := h Unit UsersTable UsersTable.runner .session none {} _ events
    readThenRenamed hhistory rfl (.queryCursor refreshAll (refreshAll.bind []) {}) refreshAll rfl
    rfl ⟨"main", []⟩ _ _ rfl
  have hold : (asked cursorRefreshed findAll).1 =
      .ok (.value (.data 0 (.rows Samples.rows) true)) := by rfl
  obtain ⟨st, b, bounds, hmem⟩ := hlater _ _ (.call .start findAll ⟨"main", []⟩) findAll
    (.data 0 (.rows Samples.rows) true) (List.mem_singleton.2 (Prod.ext rfl hold.symm))
  -- Since then the database was asked once, by the cursor.
  have hjournal : (asked cursorRefreshed findAll).2.state.2.1.drop
      readThenRenamed.state.2.1.length =
        [.query refreshAll (refreshAll.bind []) {}
          (.ok (.data 1 (.rows [⟨1, "eve"⟩, ⟨2, "grace"⟩, ⟨3, "edsger"⟩]) true))] := by rfl
  have hsingle := hjournal ▸ hmem
  cases List.mem_singleton.1 hsingle

/-- The users were read again, through a handler that flushes. -/
def handlerRefreshed : World (Session × (Journal Unit × UsersTable)) :=
  (asked readThenRenamed (.queryHandled refreshAll (refreshAll.bind []) {})).2

/-- After the handler nothing is remembered, and the next query gives the new name. -/
theorem flush_leaves_results_refreshed :
    readThenRenamed.state.1.results.size = 1 ∧ handlerRefreshed.state.1.results = .empty ∧
      ∃ v, (asked handlerRefreshed findAll).1 = .ok (.value v) ∧
        Journal.Gave ((asked handlerRefreshed findAll).2.state.2.1.drop
          readThenRenamed.state.2.1.length) v := by
  obtain ⟨events, hhistory⟩ := history_readThenRenamed
  have hleaves := flush_leaves_results hhistory rfl
    (a := .queryHandled refreshAll (refreshAll.bind []) {}) (c := ⟨"main", []⟩) rfl
  have hforgets := Call.forgets_of_flush (a := .queryHandled refreshAll (refreshAll.bind []) {})
    rfl rfl nofun
  have hnew : (asked handlerRefreshed findAll).1 = .ok (.value
      (.data 2 (.rows [⟨1, "eve"⟩, ⟨2, "grace"⟩, ⟨3, "edsger"⟩]) true)) := by rfl
  have hlater : History UsersTable.runner handlerRefreshed
      [(findAll, (asked handlerRefreshed findAll).1)] (asked handlerRefreshed findAll).2 :=
    .call .start findAll ⟨"main", []⟩
  rw [hnew] at hlater
  exact ⟨by rfl, hleaves.1, _, hnew,
    hleaves.2.1 hforgets _ _ hlater findAll _ (List.mem_singleton_self _)⟩

end Sample

end QueryCache.Session
