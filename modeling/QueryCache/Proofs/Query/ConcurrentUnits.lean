import Mathlib
import QueryCache.Proofs.Query.FailedQuery
import QueryCache.Proofs.Query.Transparency
import QueryCache.Proofs.Query.UnitHistory
import QueryCache.Proofs.Query.Waiting

/-!
# Units that run at the same time

Any number of sessions share one built cache and one table, and their calls are
made in any order; a call that waits lets the others go on.  A query that is not
refused gives what the unit itself has loaded or what is shared, and nothing
else.  So once an update has been committed, units that begin later get what was
loaded after the update; except that another unit which had loaded a result
before may still commit it, and of two units that run at the same time the one
that commits last decides what is shared.

1. runs
2. what follows from a history
3. one call
4. what every run leaves
5. queries after a committed update
6. two sessions
7. a reader that commits last
-/

namespace QueryCache.ConcurrentUnits

open UnitOfWork (Buffers unlessHidden)
open Session (Recalls)
open CachingSession (Apart Attached Call Calm Ready Reply State touch)
open Transparency (Below Holds Site caches database guarded_caches query_holds steady_database
  update_holds)
open UnitHistory

variable {ι : Type} {s : Stack}

/-! ## Runs -/

/-- A call that waits. -/
structure WaitingCall (s : Stack) where
  call : Call Unit
  wait : Wait (State Unit (Below s))
  resume : Caller → World (State Unit (Below s)) → Outcome Error (State Unit (Below s)) Reply

/-- A session without a call begins one, or the call that waits is resumed. -/
inductive GoesOn (c : Caller) (w : World (State Unit (Below s))) :
    Option (WaitingCall s) → Call Unit → Outcome Error (State Unit (Below s)) Reply → Prop where
  | begins {call : Call Unit} (hcall : call.IsAttached) :
      GoesOn c w none call (call.run (caches s) (database s) c w)
  | resumes {p : WaitingCall s} (hp : p.wait.IsOver w) : GoesOn c w (some p) p.call (p.resume c w)

/-- A call of a session that has ended, from the states in which it was made and ended. -/
def momentOf (i : ι) (x y : State Unit (Below s)) (call : Call Unit) (r : Except Error Reply) :
    Moment ι := ⟨i, x.2.1, x.2.2.2.failingOn, call, r, y.2.2.2.rows⟩

/-- Calls of any callers on the sessions, of which each has one call at a time.  The
history has the calls that have ended; between two steps time passes. -/
inductive Concurrent [DecidableEq ι] (x₀ : World (Site ι s)) :
    List (Moment ι) → (ι → Option (WaitingCall s)) → World (Site ι s) → Prop where
  | start : Concurrent x₀ [] (fun _ => none) x₀
  | ends {history : List (Moment ι)} {pending : ι → Option (WaitingCall s)} {x : World (Site ι s)}
      {i : ι} {e : Environment} {failing : Option String} {c : Caller} {call : Call Unit}
      {r : Except Error Reply} {y : World (State Unit (Below s))}
      (h : Concurrent x₀ history pending x) (he : x.env.Before e)
      (hgo : GoesOn c ⟨e, x.state.view i failing⟩ (pending i) call (.done r y)) :
      Concurrent x₀ (momentOf i (x.state.view i failing) y.state call r :: history)
        (Function.update pending i none) ⟨y.env, x.state.after i y.state⟩
  | waits {history : List (Moment ι)} {pending : ι → Option (WaitingCall s)} {x : World (Site ι s)}
      {i : ι} {e : Environment} {failing : Option String} {c : Caller} {call : Call Unit}
      {y : World (State Unit (Below s))} {wait : Wait (State Unit (Below s))}
      {resume : Caller → World (State Unit (Below s)) → Outcome Error (State Unit (Below s)) Reply}
      (h : Concurrent x₀ history pending x) (he : x.env.Before e)
      (hgo : GoesOn c ⟨e, x.state.view i failing⟩ (pending i) call (.waiting y wait resume)) :
      Concurrent x₀ history (Function.update pending i (some ⟨call, wait, resume⟩))
        ⟨y.env, x.state.after i y.state⟩

/-! ## What follows from a history -/

/-- What a session and its unit have: results that the unit has loaded, and a clear
that is to come if the unit has asked for one. -/
structure Follows (s : Stack) (i : ι) (history : List (Moment ι)) (p : UnitOfWork Unit × Session) :
    Prop where
  buffers : ∀ hidden : Bool, (hidden = true → Flushing i history) →
    Buffers (Loaded i history) (caches s ()).id hidden p.1
  recalls : Recalls (Loaded i history) false p.2

/-- What lies below the sessions: a cache that holds shared results only, and a table
that commits. -/
structure Stands (agrees : s.State → Ideal → Prop) (history : List (Moment ι)) (x : Below s) :
    Prop where
  shared : HoldsOnly agrees (Shared history) x.1
  reliable : x.2.Reliable

/-- A session as a call on it finds it. -/
def Serves (agrees : s.State → Ideal → Prop) (i : ι) (history : List (Moment ι))
    (y : State Unit (Below s)) : Prop :=
  Follows s i history (y.1, y.2.1) ∧ Stands agrees history y.2.2

/-- What a query has given was loaded by its own unit, or it was shared; or the query was
refused.  And a commit has succeeded. -/
structure Answered (m : Moment ι) (history : List (Moment ι)) : Prop where
  query : ∀ st b w, m.call = .query st b w →
    (∃ v, m.reply = .ok (.value v) ∧
      (Loaded m.who (m :: history) (m.session.queryKey st b w) v ∨
        Shared history (m.session.queryKey st b w) v)) ∨
    ∃ e, m.reply = .error e ∧ Refused st (UsersTable.FailsOn m.failing st.id) e
  commit : ∀ required, m.call = .commit required → m.reply = .ok .nothing

variable {agrees : s.State → Ideal → Prop} {copies removes : Bool} {history : List (Moment ι)}
  {i : ι} {m : Moment ι}

/-- A query that is late is refused. -/
theorem Answered.of_late {st : Statement Unit} {b : BoundStatement} {w : RowBounds} {e : Error}
    (hm : m.call = .query st b w) (hr : m.reply = .error e) (he : e.IsLate) :
    Answered m history := by
  refine ⟨fun _ _ _ _ => .inr ⟨e, hr, .late he⟩, fun required hcommit => ?_⟩
  cases hm.symm.trans hcommit

/-- A call of another session makes no difference. -/
theorem Follows.beside {p : UnitOfWork Unit × Session} (h : Follows s i history p)
    (hi : m.who ≠ i) : Follows s i (m :: history) p where
  buffers hidden hh := (h.buffers hidden fun heq => (hh heq).of_cons fun hf => hi hf.1).mono
    (fun _ _ hk => hk.beside hi) fun heq => heq
  recalls := h.recalls.mono fun _ _ _ hk => hk.beside hi

/-- A query that changes nothing. -/
theorem Follows.after_query {p : UnitOfWork Unit × Session} (h : Follows s i history p)
    {st : Statement Unit} {b : BoundStatement} {w : RowBounds} (hm : m.call = .query st b w) :
    Follows s i (m :: history) p := by
  have hkept : ∀ k v, Loaded i history k v → Loaded i (m :: history) k v := fun _ _ hk =>
    hk.kept (Moment.not_flushes_of_query hm i) (Moment.not_commits_of_query hm i)
  refine ⟨fun hidden hh => ?_, h.recalls.mono fun k v _ hk => hkept k v hk⟩
  exact (h.buffers hidden fun heq => (hh heq).of_cons (Moment.not_flushes_of_query hm i)).mono
    hkept fun heq => heq

theorem Stands.mono {history' : List (Moment ι)} {x : Below s}
    (hf : Faithful s.cache agrees copies removes) (h : Stands agrees history x)
    (hshared : ∀ k v, Shared history k v → Shared history' k v) : Stands agrees history' x :=
  ⟨hf.guarded.mono h.shared hshared, h.reliable⟩

/-! ## One call -/

section Call

variable (hf : Faithful s.cache agrees copies removes)
  (hread : ReadsUnlessLate s.cache agrees copies) {c : Caller}
  {w y : World (State Unit (Below s))} {r : Except Error Reply}

include hf

/-- The session, its unit and what lies below, each with the results of its own kind. -/
theorem Serves.apart {y : State Unit (Below s)} (h : Serves agrees i history y) {hidden : Bool}
    (hh : hidden = true → Flushing i history) :
    Apart (Holds agrees y.2.2.2.rows) (Loaded i history) (Loaded i history) (Shared history)
      (caches s ()).id hidden false y :=
  ⟨(h.1.buffers hidden hh).mono (fun _ _ hk => ⟨rfl, hk⟩) fun heq => heq, h.1.recalls,
    hf.guarded.mono h.2.shared fun _ _ hk _ => hk, UsersTable.serves_of_reliable h.2.reliable⟩

/-- What the unit of a session has when a query ends: one result more, if the query
comes to the table. -/
def withResult (i : ι) (history : List (Moment ι)) (y : State Unit (Below s))
    (st : Statement Unit) (b : BoundStatement) (bounds : RowBounds) (k : CacheKey) (v : Value) :
    Prop :=
  Loaded i history k v ∨ k = y.2.1.queryKey st b bounds ∧
    ∃ a, v = .data a (.rows (UsersTable.selected y.2.2.2.rows b bounds)) true

theorem query_withResult {st : Statement Unit} {b : BoundStatement} {bounds : RowBounds}
    {x : Except Error Value} (h : Serves agrees i history w.state)
    (hx : CachingSession.query (caches s) (database s) st b bounds c w = .done x y) (hidden : Bool)
    (hh : hidden = true → Flushing i history) :
    Keeping (Apart (Holds agrees w.state.2.2.2.rows) (withResult i history w.state st b bounds)
        (withResult i history w.state st b bounds) (Shared history) (caches s ()).id hidden false)
      (fun v => withResult i history w.state st b bounds (w.state.2.1.queryKey st b bounds) v ∨
        Shared history (w.state.2.1.queryKey st b bounds) v) x y.state := by
  rw [CachingSession.query_run h.1.recalls.closed_eq] at hx
  have hdb : ((database s).query st b bounds).Hoare
      (Holds agrees w.state.2.2.2.rows (unlessHidden hidden (Shared history)))
      (Keeping (Holds agrees w.state.2.2.2.rows (unlessHidden hidden (Shared history)))
        (withResult i history w.state st b bounds (w.state.2.1.queryKey st b bounds))) :=
    (query_holds st b bounds).mono (fun _ hs => hs) fun _ _ hs =>
      ⟨hs.1, fun v hv => .inr ⟨rfl, hs.2 v hv⟩⟩
  refine (CachingSession.queryWithKey_apart (guarded_caches hf) (shared_copied copies)
    hdb).settles (Outcome.settles_of_eq hx) ?_
  exact (h.apart hf hh).mono (guarded_caches hf) (fun _ _ => .inl) (fun _ _ => .inl)
    fun _ _ _ hk => hk

include hread in
/-- A query that fails is refused. -/
theorem query_refused {st : Statement Unit} {b : BoundStatement} {bounds : RowBounds} {e : Error}
    (h : Serves agrees i history w.state)
    (hx : CachingSession.query (caches s) (database s) st b bounds c w = .done (.error e) y) :
    Refused st (UsersTable.FailsOn w.state.2.2.2.failingOn st.id) e := by
  let below : Below s → Prop := fun x =>
    x.2.failingOn = w.state.2.2.2.failingOn ∧ HoldsOnly agrees (Shared history) x.1
  have hget : ∀ k, ((caches s ()).get k).Hoare below fun r x =>
      FailsOnlyAs CacheError.IsLate r ∧ below x := by
    intro k
    refine ((hread.get_good hf (fun _ _ hk => hk.isRows.isRestorable) k).focus
      (fun _ => ⟨fun _ => rfl, fun _ _ => rfl⟩) fun _ _ hx => hx).mono (fun _ hx => hx) ?_
    rintro r x ⟨hfailing, hr, hholds⟩
    exact ⟨hr, hfailing, hholds⟩
  have hdb : ∀ c (x : World (Below s)) e, below x.state →
      ((database s).query st b bounds c x).1 = .error e →
        UsersTable.FailsOn w.state.2.2.2.failingOn st.id e :=
    fun c x e hbelow he => hbelow.1 ▸ UsersTable.query_error he
  exact (CachingSession.query_refused hget hdb).settles (Outcome.settles_of_eq hx)
    ⟨h.1.recalls.closed_eq, rfl, h.2.shared⟩ e rfl

include hread in
/-- A query that has ended. -/
theorem Serves.query {st : Statement Unit} {b : BoundStatement} {bounds : RowBounds}
    (h : Serves agrees i history w.state)
    (hrun : (Call.query st b bounds).run (caches s) (database s) c w = .done r y) :
    Serves agrees i (momentOf i w.state y.state (.query st b bounds) r :: history) y.state ∧
      Answered (momentOf i w.state y.state (.query st b bounds) r) history := by
  obtain ⟨x, hx, rfl⟩ := CachingSession.done_of_reply hrun
  have hcall : (momentOf i w.state y.state (.query st b bounds) (x.map .value)).call =
      .query st b bounds := rfl
  have hvisible := query_withResult hf h hx false nofun
  -- The query leaves the rows as they are, so what it has loaded is what the moment loads.
  have hown : ∀ k v, withResult i history w.state st b bounds k v →
      Loaded i (momentOf i w.state y.state (.query st b bounds) (x.map .value) :: history) k v := by
    rintro k v (hk | ⟨rfl, a, rfl⟩)
    · exact hk.kept (Moment.not_flushes_of_query hcall i) (Moment.not_commits_of_query hcall i)
    · rw [← hvisible.1.2.2.2.rows_eq]
      exact .loads rfl ⟨st, b, bounds, a, rfl, rfl, rfl⟩
  refine ⟨⟨⟨fun hidden hh => ?_, ?_⟩, ?_, ?_⟩, ?_⟩
  · have hkept := (query_withResult hf h hx hidden fun heq =>
      (hh heq).of_cons (Moment.not_flushes_of_query hcall i)).1.1
    exact hkept.mono (fun k v hk => hown k v hk.2) fun heq => heq
  · exact hvisible.1.2.1.mono fun k v _ hk => hown k v hk
  · exact hf.guarded.mono hvisible.1.2.2.1 fun k v hk =>
      (hk rfl).of_not_commits (Moment.not_commits_of_query hcall)
  · exact hvisible.1.2.2.2.reliable
  · refine ⟨?_, nofun⟩
    rintro _ _ _ ⟨⟩
    cases x with
    | error e => exact .inr ⟨e, rfl, query_refused hf hread h hx⟩
    | ok v =>
      -- the unit's own result, or a shared one
      exact .inl ⟨v, rfl, (hvisible.2 v rfl).imp (hown _ v) id⟩

/-- An update that has ended. -/
theorem Serves.update {st : Statement Unit} {b : BoundStatement} (hst : st.cache = some ())
    (h : Serves agrees i history w.state)
    (hrun : (Call.update st b).run (caches s) (database s) c w = .done r y) :
    Serves agrees i (momentOf i w.state y.state (.update st b) r :: history) y.state := by
  obtain ⟨x, hx, rfl⟩ := CachingSession.done_of_reply hrun
  have hcall : (momentOf i w.state y.state (.update st b) (x.map .count)).call = .update st b := rfl
  have hend : ∀ hidden : Bool, (hidden = true → Flushing i history) → _ := fun hidden hh =>
    (Await.Hoare.ofOp (CachingSession.update_apart hst (update_holds st b))).settles
      (Outcome.settles_of_eq hx) (h.apart hf hh)
  obtain ⟨-, hrecalls, hcache, htable⟩ := hend false nofun
  refine ⟨⟨fun hidden hh => ?_, hrecalls.of_nothing⟩, ?_, ?_⟩
  · cases hflush : st.flushCacheRequired with
    | true =>
      have hnone := (hend false nofun).1
      rw [if_pos hflush] at hnone
      exact hnone.mono (fun _ _ => False.elim) fun _ => rfl
    | false =>
      have hnot := Moment.not_flushes_of_update hcall hflush i
      have hkept := (hend hidden fun heq => (hh heq).of_cons hnot).1
      rw [if_neg (hflush ▸ Bool.false_ne_true)] at hkept
      exact hkept.mono (fun _ _ hk => hk.2.kept hnot (Moment.not_commits_of_update hcall i))
        fun heq => heq
  · exact hf.guarded.mono hcache fun k v hk =>
      (hk rfl).of_not_commits (Moment.not_commits_of_update hcall)
  · rcases htable with ⟨-, ht⟩ | ⟨-, ht⟩
    · exact ht.reliable
    · exact ht

/-- A commit that has ended. -/
theorem Serves.commit {required : Bool} (h : Serves agrees i history w.state)
    (hrun : (Call.commit required).run (caches s) (database s) c w = .done r y) :
    Serves agrees i (momentOf i w.state y.state (.commit required) r :: history) y.state ∧
      r = .ok .nothing := by
  obtain ⟨x, hx, rfl⟩ := CachingSession.done_of_reply hrun
  obtain ⟨m, hm⟩ : ∃ m, m = momentOf i w.state y.state (.commit required)
      (x.map fun _ => .nothing) := ⟨_, rfl⟩
  have hcommits : m.Commits i := hm ▸ ⟨rfl, required, rfl⟩
  rw [← hm]
  -- What is shared stays so, unless a clear comes first.
  obtain ⟨hidden, hh, hstays⟩ : ∃ hidden : Bool, (hidden = true → Flushing i history) ∧
      (hidden = false → ∀ k v, Shared history k v → Shared (m :: history) k v) := by
    by_cases hflushing : Flushing i history
    · exact ⟨true, fun _ => hflushing, nofun⟩
    · refine ⟨false, nofun, fun _ k v hk => hk.stays fun j hj => ?_⟩
      rw [← hj.1, hcommits.1]
      exact hflushing
  obtain ⟨rfl, hu, hl, hcache, ht⟩ := (CachingSession.commit_apart (guarded_caches hf)
    (fun k v hk => .put hcommits hk) (shared_storable copies) steady_database required).settles
      (Outcome.settles_of_eq hx) ((h.apart hf hh).mono (guarded_caches hf) (fun _ _ hk => hk)
        (fun _ _ hk => hk) hstays)
  refine ⟨⟨⟨fun hidden' hh' => ?_, hl.of_nothing⟩, hcache, ht.reliable⟩, rfl⟩
  cases hidden' with
  | true => exact absurd (hh' rfl) (not_flushing_of_commits hcommits)
  | false => exact hu.mono (fun _ _ => False.elim) fun heq => heq

include hread in
/-- Whichever call has ended, the session follows the history, in which it stands now. -/
theorem Serves.call {call : Call Unit} (hcall : call.IsAttached)
    (h : Serves agrees i history w.state)
    (hrun : call.run (caches s) (database s) c w = .done r y) :
    Serves agrees i (momentOf i w.state y.state call r :: history) y.state ∧
      Answered (momentOf i w.state y.state call r) history := by
  cases call with
  | query st b bounds => exact h.query hf hread hrun
  | update st b => exact ⟨h.update hf hcall.cache hrun, nofun, nofun⟩
  | commit required =>
    obtain ⟨hy, hr⟩ := h.commit hf hrun
    exact ⟨hy, nofun, fun _ _ => hr⟩
  | queryWithKey | queryHandled | queryCursor | rollback | close => exact hcall.elim

end Call

/-! ## What every run leaves -/

/-- The call that waits is a query.  If its session is as stated when it is resumed, then
it is made anew, or it fails and changes nothing. -/
structure StartsOver (u : UnitOfWork Unit × Session) (p : WaitingCall s) : Prop where
  attached : p.call.IsAttached
  query : ∃ st b w, p.call = .query st b w
  resume : ∀ c w, w.state.1 = u.1 → w.state.2.1 = u.2 →
    p.resume c w = p.call.run (caches s) (database s) c w ∨
      ∃ e, p.resume c w = .done (.error e) w ∧ e.IsLate

/-- What holds of all sessions and of what lies below them. -/
structure Coherent (agrees : s.State → Ideal → Prop) (idle : s.State → Prop)
    (history : List (Moment ι)) (pending : ι → Option (WaitingCall s)) (x : Site ι s) : Prop where
  sessions : ∀ i, Follows s i history (x.sessions i)
  below : Stands agrees history (x.cache, x.table)
  idle : idle x.cache
  pending : ∀ i p, pending i = some p → StartsOver (x.sessions i) p
  answered : ∀ m old, history = m :: old → Answered m old

variable {idle : s.State → Prop} {pending : ι → Option (WaitingCall s)} {x : Site ι s}
  {e : Environment} {failing : Option String} {c : Caller} {call : Call Unit}

/-- The table leaves the shared cache alone. -/
theorem calm_database : Calm (database s) fun y => idle y.1 := by
  have hbelow : ∀ {α ε : Type} (op : Op ε UsersTable α),
      ((Focus.second s.cache.held).run op).Hoare (fun y => idle y.1) fun _ y => idle y.1 :=
    fun op _ _ hs _ _ => hs
  exact ⟨fun st b w => hbelow _, fun st b => hbelow _, hbelow _⟩

/-- A session as a call on it finds it, whatever the runner was told to fail on. -/
theorem Coherent.serves (h : Coherent agrees idle history pending x) (i : ι)
    (failing : Option String) : Serves agrees i history (x.view i failing) :=
  ⟨h.sessions i, h.below.shared, h.below.reliable.commits, h.below.reliable.serializable⟩

/-- A call that is made ends and leaves the shared cache idle, or it waits. -/
theorem Coherent.ends_or_waits (h : Coherent agrees idle history pending x)
    (hd : Restarting (caches s ()) fun y => idle y.1) (hcall : call.IsAttached) (i : ι)
    (failing : Option String) (c : Caller) (e : Environment) :
    (∃ r y, call.run (caches s) (database s) c ⟨e, x.view i failing⟩ = .done r y ∧
        idle y.state.2.2.1) ∨
      call.Waits (caches s) (database s) ⟨e, x.view i failing⟩
        (call.run (caches s) (database s) c ⟨e, x.view i failing⟩) := by
  have hready : Ready (fun y : Below s => idle y.1) (World.mk e (x.view i failing)).state :=
    ⟨(h.sessions i).recalls.closed_eq, h.idle⟩
  exact (Call.ends_or_waits hd calm_database hcall c hready).imp_left
    fun ⟨r, y, hrun, hy⟩ => ⟨r, y, hrun, hy.2⟩

/-- A session goes on with a call that is made, or its query fails and changes nothing. -/
theorem Coherent.goesOn (h : Coherent agrees idle history pending x)
    {o : Outcome Error (State Unit (Below s)) Reply}
    (hgo : GoesOn c ⟨e, x.view i failing⟩ (pending i) call o) : call.IsAttached ∧
      (o = call.run (caches s) (database s) c ⟨e, x.view i failing⟩ ∨
        (∃ st b w, call = .query st b w) ∧
          ∃ err : Error, o = .done (.error err) ⟨e, x.view i failing⟩ ∧ err.IsLate) := by
  generalize hp : pending i = p at hgo
  cases hgo with
  | begins hcall => exact ⟨hcall, .inl rfl⟩
  | resumes _ =>
    have hover := h.pending i _ hp
    exact ⟨hover.attached, (hover.resume c _ rfl rfl).imp id fun herr => ⟨hover.query, herr⟩⟩

/-- New sessions over an empty cache. -/
theorem coherent_opening (h₀ : ∀ now, agrees (s.initial now) .empty)
    (hidle : ∀ now, idle (s.initial now)) {setup : ι → LocalScope × Option String}
    {table : UsersTable} (ht : table.Reliable) (now : Nat) :
    Coherent agrees idle [] (fun _ => none) (Site.opening s now setup table) where
  sessions _ := by
    refine ⟨fun hidden hh => ?_, rfl, fun k v heq => by cases heq⟩
    cases hidden with
    | true => exact nomatch hh rfl
    | false => exact Buffers.of_empty rfl
  below := ⟨HoldsOnly.of_empty (h₀ now), ht⟩
  idle := hidle now
  pending _ _ heq := by cases heq
  answered _ _ heq := by cases heq

section Steps

variable [DecidableEq ι]

/-- A call has ended. -/
theorem Coherent.ended (h : Coherent agrees idle history pending x) {y : State Unit (Below s)}
    (hi : m.who = i) (hy : Serves agrees i (m :: history) y) (hidle : idle y.2.2.1)
    (hm : Answered m history) :
    Coherent agrees idle (m :: history) (Function.update pending i none) (x.after i y) where
  sessions j := by
    by_cases hj : j = i
    · rw [hj, Site.sessions_after]
      exact hy.1
    · rw [x.sessions_after_of_ne hj]
      exact (h.sessions j).beside fun heq => hj (heq.symm.trans hi)
  below := hy.2
  idle := hidle
  pending j p hp := by
    by_cases hj : j = i
    · rw [hj, Function.update_self] at hp
      cases hp
    · rw [Function.update_of_ne hj] at hp
      rw [x.sessions_after_of_ne hj]
      exact h.pending j p hp
  answered := by
    rintro _ _ ⟨⟩
    exact hm

/-- A call waits, and has done no more than touch the shared cache. -/
theorem Coherent.waits (h : Coherent agrees idle history pending x) (hcall : call.IsAttached)
    {y : World (State Unit (Below s))} {wait : Wait (State Unit (Below s))}
    {resume : Caller → World (State Unit (Below s)) → Outcome Error (State Unit (Below s)) Reply}
    (hwaits : call.Waits (caches s) (database s) ⟨e, x.view i failing⟩ (.waiting y wait resume)) :
    Coherent agrees idle history (Function.update pending i (some ⟨call, wait, resume⟩))
      (x.after i y.state) := by
  obtain ⟨hquery, _, _, heq, hresume⟩ := hwaits
  cases heq
  refine ⟨fun j => ?_, ⟨h.below.shared, ?_⟩, h.idle, fun j p hp => ?_, h.answered⟩
  · by_cases hj : j = i
    · rw [hj, Site.sessions_after]
      exact ⟨fun hidden hh => ((h.sessions i).buffers hidden hh).track, (h.sessions i).recalls⟩
    · rw [x.sessions_after_of_ne hj]
      exact h.sessions j
  · exact ⟨h.below.reliable.commits, h.below.reliable.serializable⟩
  · by_cases hj : j = i
    · rw [hj, Function.update_self] at hp
      cases hp
      rw [hj, Site.sessions_after]
      exact ⟨hcall, hquery, hresume⟩
    · rw [Function.update_of_ne hj] at hp
      rw [x.sessions_after_of_ne hj]
      exact h.pending j p hp

/-- Every run leaves the sessions coherent. -/
theorem Concurrent.coherent (hf : Faithful s.cache agrees copies removes)
    (hread : ReadsUnlessLate s.cache agrees copies)
    (hd : Restarting (caches s ()) fun y => idle y.1) {x₀ x : World (Site ι s)}
    (h₀ : Coherent agrees idle [] (fun _ => none) x₀.state)
    (h : Concurrent x₀ history pending x) : Coherent agrees idle history pending x.state := by
  induction h with
  | start => exact h₀
  | @ends _ _ x i e failing c call r y _ he hgo ih =>
    obtain ⟨hcall, hrun | ⟨⟨st, b, w, rfl⟩, err, herr, hlate⟩⟩ := ih.goesOn hgo
    · obtain ⟨hy, hm⟩ := (ih.serves i failing).call hf hread hcall hrun.symm
      refine ih.ended rfl hy ?_ hm
      -- A call that has ended leaves the shared cache idle.
      rcases ih.ends_or_waits hd hcall i failing c e with
        ⟨_, _, hends, hidle⟩ | ⟨-, _, _, hwaits, -⟩
      · cases hrun.trans hends
        exact hidle
      · cases hrun.trans hwaits
    · -- The query may not wait any longer.
      cases herr
      refine ih.ended rfl ⟨(ih.serves i failing).1.after_query rfl, ?_⟩ ih.idle
        (.of_late rfl rfl hlate)
      exact (ih.serves i failing).2.mono hf fun _ _ hk =>
        hk.of_not_commits (Moment.not_commits_of_query rfl)
  | @waits _ _ x i e failing c call y wait resume _ he hgo ih =>
    obtain ⟨hcall, hrun | ⟨-, err, herr, -⟩⟩ := ih.goesOn hgo
    · rcases ih.ends_or_waits hd hcall i failing c e with ⟨_, _, hends, -⟩ | hwaits
      · cases hrun.trans hends
      · rw [← hrun] at hwaits
        exact ih.waits hcall hwaits
    · cases herr

/-- The same over a built cache and a table that commits. -/
theorem Concurrent.coherent_of_build {b : CacheBuilder} (himpl : b.implementation = none)
    (hdec : b.decorators = []) (hb : b.build = .ok s) {setup : ι → LocalScope × Option String}
    {table : UsersTable} (ht : table.Reliable) {env₀ : Environment} {x : World (Site ι s)}
    (h : Concurrent ⟨env₀, Site.opening s env₀.now setup table⟩ history pending x) :
    ∃ agrees idle, Coherent agrees idle history pending x.state := by
  obtain ⟨agrees, hf, hread, h₀⟩ := CacheBuilder.isReadable_of_build himpl hdec hb
  obtain ⟨idle, hd, hidle⟩ := CacheBuilder.restarting_of_build himpl hdec hb
  have hbelow : Restarting (caches s ()) fun y => idle y.1 :=
    hd.within (fun _ hs => hs) (fun _ _ _ hx => hx) fun _ => rfl
  exact ⟨agrees, idle, h.coherent hf hread hbelow (coherent_opening h₀ hidle ht env₀.now)⟩

/-- Every commit succeeds. -/
theorem Concurrent.commit_succeeds {b : CacheBuilder} (himpl : b.implementation = none)
    (hdec : b.decorators = []) (hb : b.build = .ok s) {setup : ι → LocalScope × Option String}
    {table : UsersTable} (ht : table.Reliable) {env₀ : Environment} {x : World (Site ι s)}
    (h : Concurrent ⟨env₀, Site.opening s env₀.now setup table⟩ (m :: history) pending x)
    (hm : m.Commits i) : m.reply = .ok .nothing := by
  obtain ⟨agrees, idle, hcoherent⟩ := h.coherent_of_build himpl hdec hb ht
  obtain ⟨-, required, hcall⟩ := hm
  exact (hcoherent.answered m history rfl).commit required hcall

/-! ## Queries after a committed update -/

/-- A unit has run an update that flushes the shared cache (`u`) and then committed (`c`).
A query of a unit that begins after that commit gives rows that were loaded from the
table since the update; or else another unit had loaded them by that commit, and kept
them until it committed later; or the query was refused. -/
theorem query_since_update {b : CacheBuilder} (himpl : b.implementation = none)
    (hdec : b.decorators = []) (hb : b.build = .ok s) {setup : ι → LocalScope × Option String}
    {table : UsersTable} (ht : table.Reliable) {env₀ : Environment} {q c u : Moment ι}
    {later mid before : List (Moment ι)} {x : World (Site ι s)}
    (hrun : Concurrent ⟨env₀, Site.opening s env₀.now setup table⟩
      (q :: (later ++ c :: (mid ++ u :: before))) pending x)
    (hu : u.Flushes i) (hmid : ∀ m ∈ mid, ¬ m.Commits i) (hc : c.Commits i)
    (hunit : ¬ HasUnit q.who (c :: (mid ++ u :: before)) ∨ ∃ m ∈ later, m.Commits q.who)
    {st : Statement Unit} {bound : BoundStatement} {w : RowBounds}
    (hq : q.call = .query st bound w) :
    (∃ v, q.reply = .ok (.value v) ∧
      ((∃ m ∈ q :: (later ++ c :: mid), m.Loads (q.session.queryKey st bound w) v) ∨
        Carried later (c :: (mid ++ u :: before)) (q.session.queryKey st bound w) v)) ∨
    ∃ e, q.reply = .error e ∧ Refused st (UsersTable.FailsOn q.failing st.id) e := by
  obtain ⟨agrees, idle, hcoherent⟩ := hrun.coherent_of_build himpl hdec hb ht
  rcases (hcoherent.answered q _ rfl).query st bound w hq with ⟨v, hv, hanswer⟩ | hrefused
  · exact .inl ⟨v, hv, loaded_since_flush hu hmid hc hunit hanswer⟩
  · exact .inr hrefused

end Steps

/-! ## Two sessions -/

section Sample

open Transparency (SmallSite opened)

/-- Asks for a user. -/
def find : Call Unit := .query (Samples.selectById ()) ((Samples.selectById ()).bind [.int 1]) {}

/-- Renames that user. -/
def rename : Call Unit :=
  .update (Samples.rename ()) ((Samples.rename ()).bind [.text "lovelace", .int 1])

/-- What becomes of a call of one of two sessions. -/
def outcome (x : World SmallSite) (i : Bool) (call : Call Unit) :
    Outcome Error (State Unit (Below CacheBuilder.oneEntryStack)) Reply :=
  call.run (caches _) (database _) ⟨"main", []⟩ ⟨x.env, x.state.view i none⟩

/-- What the call gives, if it ends at once. -/
def given (x : World SmallSite) (i : Bool) (call : Call Unit) : Option (Except Error Reply) :=
  match outcome x i call with
  | .done r _ => some r
  | .waiting .. => none

/-- Both sessions after the call. -/
def played (x : World SmallSite) (i : Bool) (call : Call Unit) : World SmallSite :=
  ⟨(outcome x i call).world.env, x.state.after i (outcome x i call).world.state⟩

/-- The call in the history. -/
def moment (x : World SmallSite) (i : Bool) (call : Call Unit) (r : Except Error Reply) :
    Moment Bool :=
  momentOf i (x.state.view i none) (outcome x i call).world.state call r

theorem Concurrent.next {history : List (Moment Bool)} {x : World SmallSite} {i : Bool}
    {call : Call Unit} {r : Except Error Reply} (h : Concurrent opened history (fun _ => none) x)
    (hcall : call.IsAttached) (hr : given x i call = some r) :
    Concurrent opened (moment x i call r :: history) (fun _ => none)
      (played x i call) := by
  have hrun : outcome x i call = .done r (outcome x i call).world := by
    unfold given at hr
    split at hr
    · rename_i hdone
      cases hr
      rw [hdone]
      rfl
    · cases hr
  have hgo : GoesOn ⟨"main", []⟩ ⟨x.env, x.state.view i none⟩ none call
      (.done r (outcome x i call).world) := hrun ▸ .begins hcall
  have hends := Concurrent.ends h (.refl _) hgo
  rwa [Function.update_eq_self i (fun _ => none)] at hends

theorem attached_find : find.IsAttached := ⟨rfl, rfl, rfl⟩

theorem attached_rename : rename.IsAttached := ⟨rfl, rfl, rfl⟩

theorem attached_commit : (Call.commit true : Call Unit).IsAttached := trivial

/-- The user with another name, as it was loaded. -/
def lovelace : Value := .data 0 (.rows [⟨1, "lovelace"⟩]) true

/-- The first session has renamed the user. -/
def renamed : World SmallSite := played opened false rename

/-- The first session has committed too. -/
def committed : World SmallSite := played renamed false (.commit true)

/-- The second session asks for the user, and gets the new name. -/
def asked : Moment Bool := moment committed true find (.ok (.value lovelace))

/-- The commit before. -/
def stored : Moment Bool := moment renamed false (.commit true) (.ok .nothing)

/-- What the second session gets was loaded since the rename. -/
theorem query_since_update_renamed :
    ∃ m ∈ [asked, stored], m.Loads (asked.session.queryKey (Samples.selectById ())
      ((Samples.selectById ()).bind [.int 1]) {}) lovelace := by
  have hrename : given opened false rename = some (.ok (.count 1)) := by decide +kernel
  have hcommit : given renamed false (.commit true) = some (.ok .nothing) := by decide +kernel
  have hfind : given committed true find = some (.ok (.value lovelace)) := by decide +kernel
  have hrun : Concurrent opened
      (asked :: ([] ++ stored :: ([] ++ moment opened false rename (.ok (.count 1)) :: [])))
      (fun _ => none) (played committed true find) :=
    ((Concurrent.start.next attached_rename hrename).next attached_commit hcommit).next
      attached_find hfind
  have hbuild : CacheBuilder.oneEntry.build = .ok CacheBuilder.oneEntryStack := by rfl
  have hunit : ¬ HasUnit true
      (stored :: ([] ++ moment opened false rename (.ok (.count 1)) :: [])) := by
    intro h
    have hfirst := (h.of_beside Bool.false_ne_true).of_beside Bool.false_ne_true
    cases hfirst
  have hsince := query_since_update rfl rfl hbuild ⟨rfl, rfl⟩ hrun ⟨rfl, _, _, rfl, rfl⟩
    (fun _ hm => absurd hm List.not_mem_nil) ⟨rfl, true, rfl⟩ (.inl hunit) rfl
  rcases hsince with ⟨v, hv, h⟩ | ⟨e, he, -⟩
  · cases hv
    rcases h with h | ⟨_, _, newest, m, between, heq, -⟩
    · exact h
    · cases newest <;> cases heq
  · cases he

/-! ## A reader that commits last -/

/-- A run in which all units come to their commits, with a successful update (`u`), its
commit (`c`) and a call of a unit that begins after the commit (`q`). -/
structure AfterUpdate (newest : List (Moment Bool)) (q : Moment Bool) (later : List (Moment Bool))
    (c : Moment Bool) (mid : List (Moment Bool)) (u : Moment Bool) (before : List (Moment Bool)) :
    Prop where
  run : ∃ pending x, Concurrent opened (newest ++ q :: (later ++ c :: (mid ++ u :: before)))
    pending x
  ended : ∀ j, ¬ HasUnit j (newest ++ q :: (later ++ c :: (mid ++ u :: before)))
  updates : ∃ st b n, u.call = .update st b ∧ u.reply = .ok (.count n)
  sameUnit : ∀ m ∈ mid, ¬ m.Commits u.who
  commits : c.Commits u.who
  begins : ¬ HasUnit q.who (c :: (mid ++ u :: before)) ∨ ∃ m ∈ later, m.Commits q.who

/-- Once a successful update has been committed, what queries of units that begin later
give was loaded from the table since the update, or it is exempt. -/
def UpdatesStand (exempt : List (Moment Bool) → List (Moment Bool) → CacheKey → Value → Prop) :
    Prop :=
  ∀ {newest later mid before : List (Moment Bool)} {q c u : Moment Bool},
    AfterUpdate newest q later c mid u before →
    ∀ {st : Statement Unit} {b : BoundStatement} {w : RowBounds} {v : Value},
      q.call = .query st b w → q.reply = .ok (.value v) →
      (∃ m ∈ q :: (later ++ c :: mid), m.Loads (q.session.queryKey st b w) v) ∨
        exempt later (c :: (mid ++ u :: before)) (q.session.queryKey st b w) v

/-- Once a successful update has been committed, queries of units that begin later give
something. -/
def QueriesSucceed : Prop :=
  ∀ {newest later mid before : List (Moment Bool)} {q c u : Moment Bool},
    AfterUpdate newest q later c mid u before →
    ∀ {st : Statement Unit} {b : BoundStatement} {w : RowBounds},
      q.call = .query st b w → ∃ v, q.reply = .ok (.value v)

/-- The user with the old name, as it was loaded or as it is read later. -/
def ada (alloc : Nat) : Value := .data alloc (.rows [⟨1, "ada"⟩]) true

/-- A query that is made when the table has the new name does not load the old one. -/
theorem not_loads_ada {x : World SmallSite} {i : Bool} {r : Except Error Reply} {a : Nat}
    {k : CacheKey} (hrows : UsersTable.selected (moment x i find r).rows
      ((Samples.selectById ()).bind [.int 1]) {} = [⟨1, "lovelace"⟩]) :
    ¬ (moment x i find r).Loads k (ada a) := by
  rintro ⟨_, _, _, _, ⟨⟩, -, hv⟩
  rw [hrows, ada, Value.data.injEq] at hv
  exact absurd hv.2.1 (by decide)

/-- The second session has asked for the user. -/
def loaded : World SmallSite := played opened true find

/-- Then the first one has renamed the user. -/
def overtaking : World SmallSite := played loaded false rename

/-- Then the first one has committed. -/
def overtaken : World SmallSite := played overtaking false (.commit true)

/-- Then the second one has committed. -/
def undone : World SmallSite := played overtaken true (.commit true)

/-- The commit of the rename. -/
def earlyCommit : Moment Bool := moment overtaking false (.commit true) (.ok .nothing)

/-- The commit of the second session. -/
def lateCommit : Moment Bool := moment overtaken true (.commit true) (.ok .nothing)

/-- Then the first session asks for the user, and gets the old name. -/
def staleAnswer : Moment Bool := moment undone false find (.ok (.value (ada 2)))

/-- The first session commits again. -/
def lastCommit : Moment Bool :=
  moment (played undone false find) false (.commit true) (.ok .nothing)

theorem afterUpdate_staleAnswer :
    AfterUpdate [lastCommit] staleAnswer [lateCommit] earlyCommit []
      (moment loaded false rename (.ok (.count 1)))
      [moment opened true find (.ok (.value (ada 0)))] := by
  have hload : given opened true find = some (.ok (.value (ada 0))) := by decide +kernel
  have hrename : given loaded false rename = some (.ok (.count 1)) := by decide +kernel
  have hearly : given overtaking false (.commit true) = some (.ok .nothing) := by decide +kernel
  have hlate : given overtaken true (.commit true) = some (.ok .nothing) := by decide +kernel
  have hfind : given undone false find = some (.ok (.value (ada 2))) := by decide +kernel
  have hlast : given (played undone false find) false (.commit true) = some (.ok .nothing) := by
    decide +kernel
  have hcommitted := ((Concurrent.start.next attached_find hload).next attached_rename
    hrename).next attached_commit hearly
  have hrun := ((hcommitted.next attached_commit hlate).next attached_find hfind).next
    attached_commit hlast
  have hcommits : earlyCommit.Commits false := ⟨rfl, true, rfl⟩
  have hend₁ : lastCommit.Commits false := ⟨rfl, true, rfl⟩
  have hend₂ : lateCommit.Commits true := ⟨rfl, true, rfl⟩
  refine ⟨⟨_, _, hrun⟩, fun j hj => ?_, ⟨_, _, 1, rfl, rfl⟩,
    fun _ hm => absurd hm List.not_mem_nil, hcommits, .inl (not_hasUnit_of_commits hcommits)⟩
  cases j with
  | false => exact not_hasUnit_of_commits hend₁ hj
  | true =>
    have hbefore := (hj.of_beside Bool.false_ne_true).of_beside Bool.false_ne_true
    exact not_hasUnit_of_commits hend₂ hbefore

/-- A session loads a user, whom another one renames, and commits after it: then the other
one gets the old name. -/
theorem not_updatesStand_overtaken : ¬ UpdatesStand fun _ _ _ _ => False := by
  intro h
  have hearly : earlyCommit.Commits false := ⟨rfl, true, rfl⟩
  have hlate : lateCommit.Commits true := ⟨rfl, true, rfl⟩
  obtain ⟨m, hm, hloads⟩ := (h afterUpdate_staleAnswer rfl rfl).resolve_right id
  have hcases : m = staleAnswer ∨ m = lateCommit ∨ m = earlyCommit := by simpa using hm
  rcases hcases with rfl | rfl | rfl
  · exact not_loads_ada (by decide +kernel) hloads
  · exact hlate.not_loads hloads
  · exact hearly.not_loads hloads

/-- An update by a statement that counts as a select, so it does not flush the cache. -/
def quietRename : Call Unit :=
  .update
    { id := "users.renameQuietly"
      kind := .select
      sql := "UPDATE users SET name = ? WHERE id = ?"
      cache := some ()
      parameters := [⟨"name", .input⟩, ⟨"id", .input⟩] }
    ((Samples.rename ()).bind [.text "lovelace", .int 1])

/-- The first session has asked for the user and committed. -/
def cached : World SmallSite := played (played opened false find) false (.commit true)

/-- Then it has renamed the user without a flush and committed. -/
def unflushed : World SmallSite := played (played cached false quietRename) false (.commit true)

/-- That commit. -/
def quietCommit : Moment Bool :=
  moment (played cached false quietRename) false (.commit true) (.ok .nothing)

/-- Then it asks for the user, and gets the old name. -/
def unflushedAnswer : Moment Bool := moment unflushed false find (.ok (.value (ada 2)))

/-- It commits again. -/
def finalCommit : Moment Bool :=
  moment (played unflushed false find) false (.commit true) (.ok .nothing)

theorem afterUpdate_unflushedAnswer :
    AfterUpdate [finalCommit] unflushedAnswer [] quietCommit []
      (moment cached false quietRename (.ok (.count 1)))
      [moment (played opened false find) false (.commit true) (.ok .nothing),
        moment opened false find (.ok (.value (ada 0)))] := by
  have hload : given opened false find = some (.ok (.value (ada 0))) := by decide +kernel
  have hkeep : given (played opened false find) false (.commit true) = some (.ok .nothing) := by
    decide +kernel
  have hrename : given cached false quietRename = some (.ok (.count 1)) := by decide +kernel
  have hcommit : given (played cached false quietRename) false (.commit true) =
      some (.ok .nothing) := by decide +kernel
  have hfind : given unflushed false find = some (.ok (.value (ada 2))) := by decide +kernel
  have hlast : given (played unflushed false find) false (.commit true) = some (.ok .nothing) := by
    decide +kernel
  have hattached : quietRename.IsAttached := ⟨rfl, rfl, rfl⟩
  have hcached := (Concurrent.start.next attached_find hload).next attached_commit hkeep
  have hunflushed := (hcached.next hattached hrename).next attached_commit hcommit
  have hrun := (hunflushed.next attached_find hfind).next attached_commit hlast
  have hcommits : quietCommit.Commits false := ⟨rfl, true, rfl⟩
  have hend : finalCommit.Commits false := ⟨rfl, true, rfl⟩
  refine ⟨⟨_, _, hrun⟩, fun j hj => ?_, ⟨_, _, 1, rfl, rfl⟩,
    fun _ hm => absurd hm List.not_mem_nil, hcommits, .inl (not_hasUnit_of_commits hcommits)⟩
  cases j with
  | false => exact not_hasUnit_of_commits hend hj
  | true =>
    have hupdate := ((hj.of_beside Bool.false_ne_true).of_beside Bool.false_ne_true).of_beside
      Bool.false_ne_true
    have hbefore := ((hupdate.of_beside Bool.false_ne_true).of_beside
      Bool.false_ne_true).of_beside Bool.false_ne_true
    cases hbefore

/-- An update by a statement that counts as a select does not flush the cache: then nobody
need carry anything past its commit. -/
theorem not_updatesStand_unflushed : ¬ UpdatesStand Carried := by
  intro h
  have hcommit : quietCommit.Commits false := ⟨rfl, true, rfl⟩
  rcases h afterUpdate_unflushedAnswer rfl rfl with
    ⟨m, hm, hloads⟩ | ⟨_, _, newest, m, between, heq, -⟩
  · have hcases : m = unflushedAnswer ∨ m = quietCommit := by simpa using hm
    rcases hcases with rfl | rfl
    · exact not_loads_ada (by decide +kernel) hloads
    · exact hcommit.not_loads hloads
  · cases newest <;> cases heq

/-- Asks for a balance, which a procedure brings back in a parameter. -/
def askBalance : Call Unit :=
  .query (Samples.balanceProcedure ()) ((Samples.balanceProcedure ()).bind [.int 1]) {}

/-- The error of such a query. -/
def notCacheable : Error := .config (.outputParametersNotCacheable "accounts.balance")

/-- The second session has asked and commits. -/
def emptyCommit : Moment Bool :=
  moment (played committed true askBalance) true (.commit true) (.ok .nothing)

/-- A query whose result cannot be cached is refused, whatever was committed before. -/
theorem not_queriesSucceed : ¬ QueriesSucceed := by
  intro h
  have hrename : given opened false rename = some (.ok (.count 1)) := by decide +kernel
  have hcommit : given renamed false (.commit true) = some (.ok .nothing) := by decide +kernel
  have hrefused : given committed true askBalance = some (.error notCacheable) := by
    decide +kernel
  have hlast : given (played committed true askBalance) true (.commit true) =
      some (.ok .nothing) := by decide +kernel
  have hattached : askBalance.IsAttached := ⟨rfl, rfl, rfl⟩
  have hstored := (Concurrent.start.next attached_rename hrename).next attached_commit hcommit
  have hrun := (hstored.next hattached hrefused).next attached_commit hlast
  have hcommits : stored.Commits false := ⟨rfl, true, rfl⟩
  have hend : emptyCommit.Commits true := ⟨rfl, true, rfl⟩
  have hafter : AfterUpdate [emptyCommit]
      (moment committed true askBalance (.error notCacheable)) [] stored []
      (moment opened false rename (.ok (.count 1))) [] := by
    refine ⟨⟨_, _, hrun⟩, fun j hj => ?_, ⟨_, _, 1, rfl, rfl⟩,
      fun _ hm => absurd hm List.not_mem_nil, hcommits, .inl fun hj => ?_⟩
    · cases j with
      | false =>
        have hbefore := (hj.of_beside Bool.false_ne_true.symm).of_beside Bool.false_ne_true.symm
        exact not_hasUnit_of_commits hcommits hbefore
      | true => exact not_hasUnit_of_commits hend hj
    · have hbefore := (hj.of_beside Bool.false_ne_true).of_beside Bool.false_ne_true
      cases hbefore
  obtain ⟨v, hv⟩ := h hafter rfl
  cases hv

/-- A result may be carried past the commit of an update, an update may leave the cache
unflushed, and a query may be refused. -/
theorem not_updatesStand :
    ¬ UpdatesStand (fun _ _ _ _ => False) ∧ ¬ UpdatesStand Carried ∧ ¬ QueriesSucceed :=
  ⟨not_updatesStand_overtaken, not_updatesStand_unflushed, not_queriesSucceed⟩

end Sample

end QueryCache.ConcurrentUnits
