import Mathlib
import QueryCache.Proofs.Cache.Honesty
import QueryCache.Proofs.Query.CachingSession
import QueryCache.Proofs.Query.Key
import QueryCache.Proofs.Query.UsersTable
import QueryCache.Query.Samples

/-!
# Transparency of a shared cache

Any number of sessions share one built cache and one table, and take turns: a
unit of one session ends before another session begins a unit.  Every update
flushes the cache.  Then a query gives exactly the rows that running its
statement directly on the table would give at that moment, whether it is
answered from the shared cache, from what the session remembers, or from the
table.

1. sessions over one cache and one table
2. serial histories
3. current results
4. one call
5. what a history leaves
6. queries of a serial history
-/

namespace QueryCache.Transparency

open UnitOfWork (Buffers unlessHidden)
open Session (Recalls Sound Steady)
open CachingSession (InUnit Between)

/-! ## Sessions over one cache and one table -/

/-- What lies below the sessions: the state of the shared cache and the table. -/
abbrev Below (s : Stack) : Type := s.State × UsersTable

/-- The shared cache. -/
def caches (s : Stack) : Unit → Cache (Below s) := fun _ =>
  s.cache.within { get := Prod.fst, set := fun x y => (x, y.2), held := fun _ => [] }

/-- The table as a database. -/
def database (s : Stack) : StatementRunner Unit (Below s) :=
  UsersTable.runner.within (Focus.second s.cache.held)

/-- All sessions, each with its unit of work, and what lies below them. -/
structure Site (ι : Type) (s : Stack) where
  sessions : ι → UnitOfWork Unit × Session
  cache : s.State
  table : UsersTable

variable {ι : Type} [DecidableEq ι] {s : Stack}

/-- A session as a call on it finds it.  The runner of the session may have been
told to fail on a statement. -/
def Site.view (x : Site ι s) (i : ι) (failing : Option String) :
    CachingSession.State Unit (Below s) :=
  ((x.sessions i).1, (x.sessions i).2, x.cache, { x.table with failingOn := failing })

/-- The sessions after a call on one of them. -/
def Site.after (x : Site ι s) (i : ι) (y : CachingSession.State Unit (Below s)) : Site ι s :=
  ⟨Function.update x.sessions i (y.1, y.2.1), y.2.2.1, y.2.2.2⟩

/-- New sessions over an empty cache. -/
def Site.opening (s : Stack) (now : Nat) (setup : ι → LocalScope × Option String)
    (table : UsersTable) : Site ι s where
  sessions i := ({}, { scope := (setup i).1, environment := (setup i).2 })
  cache := s.initial now
  table := table

/-! ## Serial histories -/

/-- How the result of a query is handed over. -/
inductive Handover where
  /-- As a value, which may be remembered and shared. -/
  | value
  | handled
  | cursor

/-- A whole call on a session, with its result. -/
inductive Action where
  | query (how : Handover) (st : Statement Unit) (values : List KeyComponent) (w : RowBounds)
      (result : Except Error Value)
  | update (st : Statement Unit) (values : List KeyComponent) (result : Except Error Nat)
  | commit (required : Bool) (result : Except Error Unit)
  /-- A rollback that the database takes part in. -/
  | rollback (result : Except Error Unit)
  | close (force : Bool) (result : Except Error Unit)

namespace Action

/-- The call of a caller takes one world to another, with the stated result. -/
def Occurs (s : Stack) (c : Caller) (x x' : World (CachingSession.State Unit (Below s))) :
    Action → Prop
  | query .value st vs w r =>
    (CachingSession.query (caches s) (database s) st (st.bind vs) w c x).Settles c.thread r x'
  | query .handled st vs w r =>
    CachingSession.queryHandled (caches s) (database s) st (st.bind vs) w c x = (r, x')
  | query .cursor st vs w r =>
    CachingSession.queryCursor (caches s) (database s) st (st.bind vs) w c x = (r, x')
  | update st vs r => CachingSession.update (caches s) (database s) st (st.bind vs) c x = (r, x')
  | commit required r =>
    (CachingSession.commit (caches s) (database s) required c x).Settles c.thread r x'
  | rollback r => CachingSession.rollback (caches s) (database s) true c x = (r, x')
  | close force r =>
    (CachingSession.close (caches s) (database s) force c x).Settles c.thread r x'

/-- The call may be made in a unit that has updated the table or not: it runs a
statement from a catalogue, an update flushes the shared cache, and a unit that
has updated the table is not rolled back. -/
def Allowed (statements : Set (Statement Unit)) (updated : Bool) : Action → Prop
  | query _ st _ w _ => st ∈ statements ∧ w.Fits
  | update st _ _ => st ∈ statements ∧ st.cache = some () ∧ st.flushCacheRequired = true
  | commit _ _ => True
  | rollback _ => updated = false
  | close force _ => force = true → updated = false

end Action

/-- Which session has a unit that has begun and not ended. -/
inductive Phase (ι : Type) where
  | idle
  | running (i : ι) (updated : Bool)

namespace Phase

/-- A session may make a call: no other session has a unit.  `updated`: its own
unit has updated the table. -/
def Admits (i : ι) (updated : Bool) : Phase ι → Prop
  | idle => updated = false
  | running j u => j = i ∧ u = updated

/-- The phase after a call. -/
def after (i : ι) (updated : Bool) : Action → Phase ι
  | .query .. => running i updated
  | .update _ _ (.ok _) => running i true
  | .update _ _ (.error _) => running i updated
  | .commit .. | .rollback .. | .close .. => idle

end Phase

/-- Whole calls of any callers on the sessions, one unit after the other.
Between two calls time passes. -/
inductive Serial (statements : Set (Statement Unit)) (x₀ : World (Site ι s)) :
    Phase ι → World (Site ι s) → Prop where
  | start : Serial statements x₀ .idle x₀
  | call {phase : Phase ι} {x : World (Site ι s)} {i : ι} {updated : Bool} {action : Action}
      {e : Environment} {failing : Option String} {c : Caller}
      {y : World (CachingSession.State Unit (Below s))} (h : Serial statements x₀ phase x)
      (hi : phase.Admits i updated) (ha : action.Allowed statements updated)
      (he : x.env.Before e) (ho : action.Occurs s c ⟨e, x.state.view i failing⟩ y) :
      Serial statements x₀ (.after i updated action) ⟨y.env, x.state.after i y.state⟩

/-! ## Current results -/

/-- The value is what the query of the key gives while the table has these rows. -/
def Current (statements : Set (Statement Unit)) (rows : List Row) (k : CacheKey) (v : Value) :
    Prop :=
  ∃ st ∈ statements, ∃ (vs : List KeyComponent) (w : RowBounds) (l : Session) (a : Nat),
    w.Fits ∧ k = CacheKey.ofComponents (l.keyComponents st (st.bind vs) w) ∧
      v = .data a (.rows (UsersTable.selected rows (st.bind vs) w)) true

variable {statements : Set (Statement Unit)} {rows : List Row}

/-- The key says which rows are current. -/
theorem Current.eq_selected (hids : statements.InjOn Statement.id)
    (hin : ∀ st ∈ statements, st.InputsOnly) {st : Statement Unit} (hst : st ∈ statements)
    {vs : List KeyComponent} {w : RowBounds} (hw : w.Fits) {l : Session} {v : Value}
    (h : Current statements rows (CacheKey.ofComponents (l.keyComponents st (st.bind vs) w)) v) :
    ∃ a, v = .data a (.rows (UsersTable.selected rows (st.bind vs) w)) true := by
  rcases h with ⟨st', hst', vs', w', l', a, hw', hkey, rfl⟩
  -- The key was made for some statement, and it can only be this one.
  obtain ⟨rfl, hbound, rfl⟩ := Session.keyComponents_inj (fun hid => hids hst hst' hid)
    (hin st hst) hw hw' (CacheKey.ofComponents_injective hkey)
  rw [hbound]
  exact ⟨a, rfl⟩

/-- A copy of a current result is current. -/
theorem current_copied (copies : Bool) : Copied copies (Current statements rows) := by
  rintro k v u e e' ⟨st, hst, vs, w, l, a, hw, hkey, rfl⟩ hserved
  cases copies with
  | false =>
    have hu : u = _ := hserved
    exact ⟨st, hst, vs, w, l, a, hw, hkey, hu⟩
  | true =>
    rcases hserved with ⟨_, _, a', d', hv, hu, -, -, hcopy⟩
    cases hv
    refine ⟨st, hst, vs, w, l, a', hw, hkey, ?_⟩
    rw [hu, hcopy.eq (by rintro ⟨⟩)]

/-- A current result can be stored in any cache. -/
theorem current_storable (copies : Bool) (k : CacheKey) (v : Value)
    (h : Current statements rows k v) : Storable copies (some v) := by
  rcases h with ⟨st, -, vs, w, l, a, -, -, rfl⟩
  rintro - v ⟨⟩
  exact ⟨_, rfl⟩

/-! ## What lies below the sessions -/

variable {agrees : s.State → Ideal → Prop} {copies removes : Bool}
  {good : CacheKey → Value → Prop}

/-- The shared cache holds good values only, and the table has these rows. -/
def Holds (agrees : s.State → Ideal → Prop) (rows : List Row) (good : CacheKey → Value → Prop)
    (x : Below s) : Prop :=
  HoldsOnly agrees good x.1 ∧ x.2.Serves rows

theorem guarded_caches (hf : Faithful s.cache agrees copies removes) :
    Guarded (caches s ()) copies (Holds agrees rows) := by
  have hholds : Holds agrees rows = fun good x => x.2.Serves rows ∧ HoldsOnly agrees good x.1 := by
    funext good x
    exact propext and_comm
  rw [hholds]
  exact hf.guarded.within (fun _ => ⟨fun _ => rfl, fun _ _ => rfl⟩) fun _ _ hs => hs

theorem query_holds (st : Statement Unit) (b : BoundStatement) (w : RowBounds) :
    ((database s).query st b w).Hoare (Holds agrees rows good)
      (Keeping (Holds agrees rows good) fun v =>
        ∃ a, v = .data a (.rows (UsersTable.selected rows b w)) true) :=
  UsersTable.query_serves.second_keeping

theorem update_holds (st : Statement Unit) (b : BoundStatement) :
    ((database s).update st b).Hoare (Holds agrees rows good) fun r x =>
      HoldsOnly agrees good x.1 ∧ (((∃ e, r = .error e) ∧ x.2.Serves rows) ∨
        ((∃ n, r = .ok n) ∧ x.2.Reliable)) :=
  UsersTable.update_serves.second

theorem steady_database : Steady (database s) (Holds agrees rows good) where
  commit := by
    refine (UsersTable.commit_serves (ρ := Unit)).second.mono (fun _ hx => hx) ?_
    intro r x h
    rcases h with ⟨hc, hr, ht⟩
    exact ⟨hr, hc, ht⟩
  rollback := (UsersTable.rollback_serves (ρ := Unit)).second
  close := (UsersTable.close_serves (ρ := Unit)).second

/-! ## One call -/

/-- A unit runs on a session, and all that it can come by is current. -/
abbrev RunsCurrent (agrees : s.State → Ideal → Prop) (statements : Set (Statement Unit))
    (rows : List Row) (updated closed : Bool) : CachingSession.State Unit (Below s) → Prop :=
  InUnit (Holds agrees rows) (Current statements rows) (caches s ()).id updated closed

/-- A query gives current rows, however they are handed over. -/
theorem query_current (hf : Faithful s.cache agrees copies removes)
    (hids : statements.InjOn Statement.id) (hin : ∀ st ∈ statements, st.InputsOnly)
    {updated closed : Bool} {c : Caller} {x y : World (CachingSession.State Unit (Below s))}
    {how : Handover} {st : Statement Unit} {vs : List KeyComponent} {w : RowBounds}
    {r : Except Error Value} (hst : st ∈ statements) (hw : w.Fits)
    (hx : RunsCurrent agrees statements rows updated closed x.state)
    (ho : (Action.query how st vs w r).Occurs s c x y) :
    Keeping (RunsCurrent agrees statements rows updated closed)
      (fun v => ∃ a, v = .data a (.rows (UsersTable.selected rows (st.bind vs) w)) true)
      r y.state := by
  have hd : Guarded (caches s ()) copies (Holds agrees rows) := guarded_caches hf
  cases how with
  | value =>
    refine (CachingSession.query_inUnit hd (current_copied copies) ?_ ?_).settles ho hx
    · intro l
      refine (query_holds st (st.bind vs) w).mono (fun _ hx => hx) ?_
      intro r x h
      rcases h with ⟨hx, hv⟩
      refine ⟨hx, ?_⟩
      intro v hr
      rcases hv v hr with ⟨a, ha⟩
      exact ⟨st, hst, vs, w, l, a, hw, rfl, ha⟩
    · intro l v hv
      exact hv.eq_selected hids hin hst hw
  | handled => exact (CachingSession.queryHandled_inUnit (query_holds st _ w)).ends ho hx
  | cursor => exact (CachingSession.queryCursor_inUnit (query_holds st _ w)).ends ho hx

/-- An update of a unit hides the shared cache from it. -/
theorem update_current {updated closed : Bool} {c : Caller}
    {x y : World (CachingSession.State Unit (Below s))} {st : Statement Unit}
    {vs : List KeyComponent} {r : Except Error Nat} (hf : Faithful s.cache agrees copies removes)
    (hcache : st.cache = some ()) (hflush : st.flushCacheRequired = true)
    (hx : RunsCurrent agrees statements rows updated closed x.state)
    (ho : (Action.update st vs r).Occurs s c x y) :
    ((∃ e, r = .error e) ∧ RunsCurrent agrees statements rows updated closed y.state) ∨
      ((∃ n, r = .ok n) ∧ closed = false ∧
        RunsCurrent agrees statements y.state.2.2.2.rows true closed y.state) := by
  obtain ⟨hu, hend⟩ := (CachingSession.update_inUnit hcache hflush
    (update_holds st (st.bind vs))).ends ho hx
  have hbuffers : ∀ {good : CacheKey → Value → Prop} {hidden : Bool},
      Buffers good (caches s ()).id hidden y.state.1 :=
    hu.mono (fun _ _ => False.elim) fun _ => rfl
  rcases hend with ⟨hr, hs⟩ | ⟨hopen, hrecalls, hc, ⟨hr, ht⟩ | ⟨hr, ht⟩⟩
  · -- the session was closed
    exact .inl ⟨hr, hbuffers, hs⟩
  · -- the statement failed, and the rows are as before
    exact .inl ⟨hr, hbuffers, hrecalls.of_nothing, hc, ht⟩
  · refine .inr ⟨hr, hopen, hbuffers, hrecalls.of_nothing, ?_, UsersTable.serves_of_reliable ht⟩
    -- Whatever the shared cache holds, it is hidden now.
    refine hf.guarded.mono hc ?_
    intro k v _ hvisible
    cases hvisible

/-! ## What a history leaves -/

/-- A session without a unit has nothing buffered and remembers nothing. -/
def Rests (s : Stack) (p : UnitOfWork Unit × Session) : Prop :=
  Buffers noneGood (caches s ()).id false p.1 ∧ ∃ closed, Recalls noneGood closed p.2

/-- A session as it is in the site. -/
def Site.at (x : Site ι s) (i : ι) : CachingSession.State Unit (Below s) :=
  ((x.sessions i).1, (x.sessions i).2, x.cache, x.table)

theorem Site.at_after (x : Site ι s) (i : ι) (y : CachingSession.State Unit (Below s)) :
    (x.after i y).at i = y := by
  have hsession : (x.after i y).sessions i = (y.1, y.2.1) := Function.update_self ..
  rw [Site.at, hsession]
  rfl

theorem Site.sessions_after (x : Site ι s) (i : ι) (y : CachingSession.State Unit (Below s)) :
    (x.after i y).sessions i = (y.1, y.2.1) := Function.update_self ..

theorem Site.sessions_after_of_ne (x : Site ι s) {i j : ι} (hj : j ≠ i)
    (y : CachingSession.State Unit (Below s)) : (x.after i y).sessions j = x.sessions j :=
  Function.update_of_ne hj ..

/-- A unit runs on one session with nothing but current results, and the other
sessions rest. -/
def Entered (agrees : s.State → Ideal → Prop) (statements : Set (Statement Unit)) (rows : List Row)
    (i : ι) (updated : Bool) (x : Site ι s) : Prop :=
  (∃ closed, (updated = true → closed = false) ∧
    RunsCurrent agrees statements rows updated closed (x.at i)) ∧ ∀ j ≠ i, Rests s (x.sessions j)

/-- What holds of all sessions and of what lies below them. -/
def Coherent (agrees : s.State → Ideal → Prop) (statements : Set (Statement Unit)) :
    Phase ι → Site ι s → Prop
  | .idle, x => ∃ rows, (∀ j, Rests s (x.sessions j)) ∧
      Holds agrees rows (Current statements rows) (x.cache, x.table)
  | .running i updated, x => ∃ rows, Entered agrees statements rows i updated x

omit [DecidableEq ι] in
/-- A session that may make a call is in a unit, or begins one. -/
theorem Coherent.entered (hf : Faithful s.cache agrees copies removes) {phase : Phase ι}
    {x : Site ι s} {i : ι} {updated : Bool} (h : Coherent agrees statements phase x)
    (hi : phase.Admits i updated) : ∃ rows, Entered agrees statements rows i updated x := by
  cases phase with
  | idle =>
    -- The session begins a unit with nothing buffered and nothing remembered.
    obtain rfl : updated = false := hi
    rcases h with ⟨rows, hrests, hholds⟩
    rcases hrests i with ⟨hu, closed, hs⟩
    have hbetween : Between (Holds agrees rows) (Current statements rows) (caches s ()).id closed
        (x.at i) := ⟨hu, hs, hholds⟩
    refine ⟨rows, ⟨closed, ?_, hbetween.inUnit (guarded_caches hf)⟩, fun j _ => hrests j⟩
    intro h
    cases h
  | running j u =>
    rcases hi with ⟨rfl, rfl⟩
    exact h

/-- The end of a unit. -/
theorem Entered.idle {i : ι} {updated closed : Bool} {x : Site ι s}
    {y : CachingSession.State Unit (Below s)} (h : Entered agrees statements rows i updated x)
    (hy : Between (Holds agrees rows) (Current statements rows) (caches s ()).id closed y) :
    Coherent agrees statements .idle (x.after i y) := by
  refine ⟨rows, ?_, hy.2.2⟩
  intro j
  by_cases hj : j = i
  · have hsession : (x.after i y).sessions i = (y.1, y.2.1) := Function.update_self ..
    rw [hj, hsession]
    exact ⟨hy.1, closed, hy.2.1⟩
  · rw [x.sessions_after_of_ne hj]
    exact h.2 j hj

/-- The unit goes on. -/
theorem Entered.running {i : ι} {updated updated' closed : Bool} {rows' : List Row} {x : Site ι s}
    {y : CachingSession.State Unit (Below s)} (h : Entered agrees statements rows i updated x)
    (hopen : updated' = true → closed = false)
    (hy : RunsCurrent agrees statements rows' updated' closed y) :
    Coherent agrees statements (.running i updated') (x.after i y) := by
  refine ⟨rows', ⟨closed, hopen, ?_⟩, ?_⟩
  · rw [Site.at_after]
    exact hy
  · intro j hj
    rw [x.sessions_after_of_ne hj]
    exact h.2 j hj

/-- One whole call keeps the sessions coherent. -/
theorem Entered.call (hf : Faithful s.cache agrees copies removes)
    (hids : statements.InjOn Statement.id) (hin : ∀ st ∈ statements, st.InputsOnly) {i : ι}
    {updated : Bool} {action : Action} {x : Site ι s} {e : Environment} {failing : Option String}
    {c : Caller} {y : World (CachingSession.State Unit (Below s))}
    (h : Entered agrees statements rows i updated x) (ha : action.Allowed statements updated)
    (ho : action.Occurs s c ⟨e, x.view i failing⟩ y) :
    Coherent agrees statements (.after i updated action) (x.after i y.state) := by
  rcases h.1 with ⟨closed, hopen, hat⟩
  have hx : RunsCurrent agrees statements rows updated closed (x.view i failing) :=
    ⟨hat.1, hat.2.1, hat.2.2.1, hat.2.2.2.failing failing⟩
  have hd : Guarded (caches s ()) copies (Holds agrees rows) := guarded_caches hf
  cases action with
  | query how st vs w r =>
    have hy := query_current hf hids hin ha.1 ha.2 hx ho
    exact h.running hopen hy.1
  | update st vs r =>
    -- A failed update leaves the rows, and a successful one makes others current.
    rcases update_current hf ha.2.1 ha.2.2 hx ho with ⟨⟨err, rfl⟩, hy⟩ | ⟨⟨n, rfl⟩, hc, hy⟩
    · exact h.running hopen hy
    · exact h.running (fun _ => hc) hy
  | commit required r =>
    exact h.idle ((CachingSession.commit_inUnit hd (current_storable copies) steady_database hopen
      required).settles ho hx)
  | rollback r =>
    obtain rfl : updated = false := ha
    exact h.idle ((CachingSession.rollback_inUnit hd steady_database).ends ho hx)
  | close force r =>
    exact h.idle ((CachingSession.close_inUnit hd (current_storable copies) steady_database force
      ha).settles ho hx)

/-- Every serial history leaves the sessions coherent. -/
theorem Serial.coherent (hf : Faithful s.cache agrees copies removes)
    (h₀ : ∀ now, agrees (s.initial now) .empty) (hids : statements.InjOn Statement.id)
    (hin : ∀ st ∈ statements, st.InputsOnly) {setup : ι → LocalScope × Option String}
    {table : UsersTable} (ht : table.Reliable) {env₀ : Environment} {now : Nat} {phase : Phase ι}
    {x : World (Site ι s)}
    (h : Serial statements ⟨env₀, Site.opening s now setup table⟩ phase x) :
    Coherent agrees statements phase x.state := by
  induction h with
  | start =>
    refine ⟨table.rows, ?_, HoldsOnly.of_empty (h₀ now), UsersTable.serves_of_reliable ht⟩
    intro j
    refine ⟨Buffers.of_empty rfl, false, rfl, ?_⟩
    intro k v heq
    cases heq
  | call _ hi ha _ ho ih =>
    rcases ih.entered hf hi with ⟨rows, hentered⟩
    exact hentered.call hf hids hin ha ho

/-! ## Queries of a serial history -/

/-- Whatever units ran before on whichever sessions, and whatever the own unit
has done so far, a query that succeeds gives exactly the rows that running its
statement directly on the table gives at that moment. -/
theorem query_gives_current_rows {b : CacheBuilder} (himpl : b.implementation = none)
    (hdec : b.decorators = []) (hb : b.build = .ok s) (hids : statements.InjOn Statement.id)
    (hin : ∀ st ∈ statements, st.InputsOnly) {setup : ι → LocalScope × Option String}
    {table : UsersTable} (ht : table.Reliable) {env₀ : Environment} {phase : Phase ι}
    {x : World (Site ι s)}
    (hserial : Serial statements ⟨env₀, Site.opening s env₀.now setup table⟩ phase x) {i : ι}
    {updated : Bool} (hi : phase.Admits i updated) {how : Handover} {st : Statement Unit}
    {vs : List KeyComponent} {w : RowBounds} {v : Value} (hst : st ∈ statements) (hw : w.Fits)
    {e : Environment} {failing : Option String} {c : Caller}
    {y : World (CachingSession.State Unit (Below s))}
    (ho : (Action.query how st vs w (.ok v)).Occurs s c ⟨e, x.state.view i failing⟩ y) :
    x.state.table.Answers st (st.bind vs) w v := by
  rcases CacheBuilder.isFaithful_of_build himpl hdec hb with ⟨agrees, hf, h₀⟩
  rcases (hserial.coherent hf h₀ hids hin ht).entered hf hi with ⟨rows, ⟨closed, -, hat⟩, -⟩
  have htable : x.state.table.Serves rows := hat.2.2.2
  have hx : RunsCurrent agrees statements rows updated closed (x.state.view i failing) :=
    ⟨hat.1, hat.2.1, hat.2.2.1, htable.failing failing⟩
  rcases (query_current hf hids hin hst hw hx ho).2 v rfl with ⟨a, ha⟩
  exact htable.answers ha

/-! ## A rename between two queries -/

section Sample

/-- The sample statements that read and rename a user. -/
def catalogue : Set (Statement Unit) := {Samples.selectById (), Samples.rename ()}

/-- The sessions over a cache for one entry. -/
abbrev SmallSite : Type := Site Bool CacheBuilder.oneEntryStack

/-- What a call on one of them finds. -/
abbrev SmallState : Type := CachingSession.State Unit (Below CacheBuilder.oneEntryStack)

/-- What a call gives, if it ends at once. -/
def given {α : Type} : Outcome Error SmallState α → Option (Except Error α)
  | .done r _ => some r
  | .waiting .. => none

theorem settles_of_given {α : Type} {o : Outcome Error SmallState α} {r : Except Error α}
    (h : given o = some r) (t : Thread) : o.Settles t r o.world := by
  cases o with
  | done r' w =>
    cases h
    exact .done r w
  | waiting w wait resume => cases h

variable (i : Bool) (x : World SmallSite)

/-- The query of a user. -/
def find : Outcome Error SmallState Value :=
  CachingSession.query (caches _) (database _) (Samples.selectById ())
    ((Samples.selectById ()).bind [.int 1]) {} ⟨"main", []⟩ ⟨x.env, x.state.view i none⟩

/-- The rename of the user. -/
def rename : Except Error Nat × World SmallState :=
  CachingSession.update (caches _) (database _) (Samples.rename ())
    ((Samples.rename ()).bind [.text "lovelace", .int 1]) ⟨"main", []⟩
    ⟨x.env, x.state.view i none⟩

/-- A commit. -/
def commit : Outcome Error SmallState Unit :=
  CachingSession.commit (caches _) (database _) true ⟨"main", []⟩ ⟨x.env, x.state.view i none⟩

/-- All sessions after a call on one of them. -/
def next (y : World SmallState) : World SmallSite := ⟨y.env, x.state.after i y.state⟩

variable {i x} {x₀ : World SmallSite} {updated : Bool} {phase : Phase Bool}

theorem Serial.find (h : Serial catalogue x₀ phase x) (hi : phase.Admits i updated) {v : Value}
    (hv : given (find i x) = some (.ok v)) :
    Serial catalogue x₀ (.running i updated) (next i x (find i x).world) := by
  have ha : (Action.query .value (Samples.selectById ()) [.int 1] {} (.ok v)).Allowed
      catalogue updated := ⟨.inl rfl, by decide, by decide⟩
  have ho : (Action.query .value (Samples.selectById ()) [.int 1] {} (.ok v)).Occurs _
      ⟨"main", []⟩ ⟨x.env, x.state.view i none⟩ (Transparency.find i x).world :=
    settles_of_given hv "main"
  exact .call h hi ha (.refl _) ho

theorem Serial.rename (h : Serial catalogue x₀ phase x) (hi : phase.Admits i updated) {n : Nat}
    (hn : (rename i x).1 = .ok n) :
    Serial catalogue x₀ (.running i true) (next i x (rename i x).2) := by
  have ha : (Action.update (Samples.rename ()) [.text "lovelace", .int 1] (.ok n)).Allowed
      catalogue updated := ⟨.inr rfl, rfl, rfl⟩
  have ho : (Action.update (Samples.rename ()) [.text "lovelace", .int 1] (.ok n)).Occurs _
      ⟨"main", []⟩ ⟨x.env, x.state.view i none⟩ (Transparency.rename i x).2 := Prod.ext hn rfl
  exact .call h hi ha (.refl _) ho

theorem Serial.commit (h : Serial catalogue x₀ phase x) (hi : phase.Admits i updated)
    (hr : given (commit i x) = some (.ok ())) :
    Serial catalogue x₀ .idle (next i x (commit i x).world) := by
  have ha : (Action.commit true (.ok ())).Allowed catalogue updated := trivial
  have ho : (Action.commit true (.ok ())).Occurs _
      ⟨"main", []⟩ ⟨x.env, x.state.view i none⟩ (Transparency.commit i x).world :=
    settles_of_given hr "main"
  exact .call h hi ha (.refl _) ho

/-- Two new sessions. -/
def opened : World SmallSite :=
  ⟨{}, Site.opening _ 0 (fun _ => (.session, none)) { rows := Samples.rows }⟩

/-- The first session has asked for the user. -/
def asked : World SmallSite := next false opened (find false opened).world

/-- It has committed, and so has filled the cache. -/
def filled : World SmallSite := next false asked (commit false asked).world

/-- It has renamed the user. -/
def renamed : World SmallSite := next false filled (rename false filled).2

/-- It has committed again. -/
def committed : World SmallSite := next false renamed (commit false renamed).world

theorem serial_committed : Serial catalogue opened .idle committed := by
  have hfind : given (find false opened) = some (.ok (.data 0 (.rows [⟨1, "ada"⟩]) true)) := by
    decide +kernel
  have hfill : given (commit false asked) = some (.ok ()) := by decide +kernel
  have hrename : (rename false filled).1 = .ok 1 := by decide +kernel
  have hcommit : given (commit false renamed) = some (.ok ()) := by decide +kernel
  have hasked : Serial catalogue opened (.running false false) asked :=
    Serial.start.find rfl hfind
  have hfilled : Serial catalogue opened .idle filled := hasked.commit ⟨rfl, rfl⟩ hfill
  have hrenamed : Serial catalogue opened (.running false true) renamed :=
    hfilled.rename rfl hrename
  exact hrenamed.commit ⟨rfl, rfl⟩ hcommit

/-- A query and its commit leave the old name in the cache, where another session finds
it.  After a rename and its commit that session is given the new name. -/
theorem query_gives_current_rows_renamed :
    given (find true filled) = some (.ok (.data 2 (.rows [⟨1, "ada"⟩]) true)) ∧
    given (find true committed) = some (.ok (.data 2 (.rows [⟨1, "lovelace"⟩]) true)) ∧
    committed.state.table.Answers (Samples.selectById ()) ((Samples.selectById ()).bind [.int 1]) {}
      (.data 2 (.rows [⟨1, "lovelace"⟩]) true) := by
  have hids : catalogue.InjOn Statement.id := by
    rintro st (rfl | rfl) st' (rfl | rfl) h
    · rfl
    · exact absurd h (by decide)
    · exact absurd h (by decide)
    · rfl
  have hin : ∀ st ∈ catalogue, st.InputsOnly := by
    rintro st (rfl | rfl)
    · unfold Statement.InputsOnly
      decide
    · unfold Statement.InputsOnly
      decide
  have hstale : given (find true filled) = some (.ok (.data 2 (.rows [⟨1, "ada"⟩]) true)) := by
    decide +kernel
  have hfind : given (find true committed) =
      some (.ok (.data 2 (.rows [⟨1, "lovelace"⟩]) true)) := by
    decide +kernel
  have hoccurs : (Action.query .value (Samples.selectById ()) [.int 1] {}
      (.ok (.data 2 (.rows [⟨1, "lovelace"⟩]) true))).Occurs _ ⟨"main", []⟩
      ⟨committed.env, committed.state.view true none⟩ (find true committed).world :=
    settles_of_given hfind "main"
  exact ⟨hstale, hfind, query_gives_current_rows (b := CacheBuilder.oneEntry) rfl rfl (by rfl)
    hids hin ⟨rfl, rfl⟩ serial_committed (i := true) rfl (.inl rfl) ⟨by decide, by decide⟩ hoccurs⟩

end Sample

end QueryCache.Transparency
