import Mathlib
import QueryCache.Proofs.Cache.Interference
import QueryCache.Proofs.Layer.Contents
import QueryCache.Proofs.Query.Call
import QueryCache.Proofs.Query.FlushAtCommit

/-!
# Closed sessions

A closed session runs no statement.  The unit of work around it goes on, though:
a flush is noted before the session is asked, a query under a given key reads the
shared cache before it comes to the session, and a close that does not force a
rollback commits what is buffered, whether or not the session is open.

1. contents that giving a lock back leaves alone
2. what a call asks first
3. calls that a closed session refuses
4. what stays while a closed session is used
5. the end of a unit
6. calls that end as a part of them does
7. sequences of calls
8. what a closed session still does
-/

namespace QueryCache

/-! ## Contents that giving a lock back leaves alone -/

/-- To observe a call changes no state, also if the call is refused. -/
theorem Probe.observe_keeps {σ : Type} {P : Refusals × σ → Prop} (name id : String)
    (call : ObservedCall) : (observe name id call).Hoare P fun _ s => P s := by
  have hrecord : (Op.modifyEnvironment fun e =>
      { e with observed := (name, call) :: e.observed } : CacheOp (Refusals × σ) Unit).Hoare P
      fun _ s => P s := fun _ _ hs _ _ => hs
  refine hrecord.bind (fun _ => ?_) fun _ _ hs => hs
  refine .bind_layer fun l => ?_
  split
  · exact .fail fun _ hs => hs.2
  · exact .pure fun _ hs => hs.2

/-- Giving a lock back changes no entry, whichever layers there are. -/
theorem Stack.releaseLock_keeps (id : String) (layers : List Layer) (m : Store) (k : CacheKey) :
    ((cacheOf id layers).releaseLock k).Hoare (fun s => storeOf layers s = m)
      fun _ s => storeOf layers s = m := by
  induction layers with
  | nil => exact .pure fun _ hs => hs
  | cons l rest ih =>
    have hbelow : ∀ held : l.State → List Value,
        (((cacheOf id rest).under held).releaseLock k).Hoare
          (fun s => storeOf rest s.2 = m) fun _ s => storeOf rest s.2 = m := by
      intro held t w hw
      exact Op.Meets.focus (ih t _ hw)
    cases l with
    | blocking timeout =>
      -- The lock itself is given back before the call goes on below.
      have hrelease : (Blocking.release k : CacheOp (KeyLocks × StateOf rest) Unit).Hoare
          (fun s => storeOf rest s.2 = m) fun _ s => storeOf rest s.2 = m := fun _ _ hs _ _ => hs
      exact hrelease.bind (fun _ => hbelow fun _ => []) fun _ _ hs => hs
    | probe name refusals =>
      have hobserve : (Probe.observe name (cacheOf id rest).id (.releaseLock k)).Hoare
          (fun s : Refusals × StateOf rest => storeOf rest s.2 = m)
          fun _ s => storeOf rest s.2 = m := Probe.observe_keeps _ _ _
      exact hobserve.bind (fun _ => hbelow fun _ => []) fun _ _ hs => hs
    | _ => exact hbelow _

namespace CachingSession

/-! ## What a call asks first -/

variable {ρ σ : Type} {caches : ρ → Cache σ} {db : StatementRunner ρ σ}

/-- The call asks the session before it reads a shared cache or ends the unit. -/
def Call.asksSession : Call ρ → Bool
  | .query .. | .queryHandled .. | .queryCursor .. | .update .. | .commit _ => true
  | .queryWithKey st _ _ _ => st.applicableCache.isNone
  | .rollback _ | .close _ => false

/-- The unit when the call comes to the session. -/
def Call.noted (caches : ρ → Cache σ) (u : UnitOfWork ρ) : Call ρ → UnitOfWork ρ
  | .queryWithKey st _ _ _ | .queryHandled st _ _ | .queryCursor st _ _ | .update st _ =>
    noteFlush caches st u
  | .query .. | .commit _ | .rollback _ | .close _ => u

/-! ## Calls that a closed session refuses -/

/-- An operation of the session that changes nothing. -/
theorem onSession_of_still {α : Type} {m : Session.SessionOp σ α} {r : Except Error α} {c : Caller}
    {w : World (State ρ σ)}
    (h : ∀ c', m c' ⟨w.env, w.state.2⟩ = (r, ⟨w.env, w.state.2⟩)) : onSession m c w = (r, w) := by
  show ((m _ ⟨w.env, w.state.2⟩).1,
    (⟨(m _ ⟨w.env, w.state.2⟩).2.env, (w.state.1, (m _ ⟨w.env, w.state.2⟩).2.state)⟩ :
      World (State ρ σ))) = (r, w)
  rw [h]

/-- An operation that asks whether the session is open fails on a closed one. -/
theorem onSession_refused {α : Type} (m : Unit → Session.SessionOp σ α) {c : Caller}
    {w : World (State ρ σ)} (hw : w.state.2.1.closed = true) :
    onSession (Session.ensureOpen >>= m) c w = (.error (.executor .closed), w) := by
  refine onSession_of_still fun c' => Op.bind_of_error ?_
  show (if w.state.2.1.closed = true then _ else _ : Session.SessionOp σ Unit) c' _ = _
  rw [if_pos hw]
  rfl

/-- An operation that is not for a closed session is skipped. -/
theorem onSession_skipped (m : Session.SessionOp σ Unit) {c : Caller} {w : World (State ρ σ)}
    (hw : w.state.2.1.closed = true) :
    onSession (Op.layer >>= fun s : Session => if s.closed then pure () else m) c w =
      (.ok (), w) := by
  refine onSession_of_still fun c' => ?_
  show (if w.state.2.1.closed = true then _ else _ : Session.SessionOp σ Unit) c' _ = _
  rw [if_pos hw]
  rfl

/-- The call fails at once; nothing has changed but that a flush is noted. -/
def Call.FailsAtOnce (caches : ρ → Cache σ) (db : StatementRunner ρ σ) (call : Call ρ)
    (c : Caller) (w : World (State ρ σ)) (e : Error) : Prop :=
  call.run caches db c w = .done (.error e) ⟨w.env, (call.noted caches w.state.1, w.state.2)⟩

theorem Call.failsAtOnce_of_closed {call : Call ρ} (hcall : call.asksSession = true) (c : Caller)
    {w : World (State ρ σ)} (hw : w.state.2.1.closed = true) :
    call.FailsAtOnce caches db c w (.executor .closed) := by
  cases call with
  | query st b bounds =>
    have hsession : (session : CachingOp ρ σ Session) c w = (.ok w.state.2.1, w) := rfl
    have hkey : w.state.2.1.key st b bounds = .error (.executor .closed) := by
      rw [Session.key, if_pos hw]
    refine Await.bind_of_failed ?_
    rw [CachingSession.query, Await.bind_of_done (Await.ofOp_of_eq hsession), hkey]
    rfl
  | queryHandled st b bounds =>
    refine Await.bind_of_failed (Await.ofOp_of_eq ?_)
    rw [CachingSession.queryHandled, Op.bind_of_ok (flushIfRequired_run st c w)]
    exact onSession_refused _ hw
  | queryCursor st b bounds =>
    refine Await.bind_of_failed (Await.ofOp_of_eq ?_)
    rw [CachingSession.queryCursor, Op.bind_of_ok (flushIfRequired_run st c w)]
    exact onSession_refused _ hw
  | update st b =>
    refine Await.bind_of_failed (Await.ofOp_of_eq ?_)
    rw [CachingSession.update, Op.bind_of_ok (flushIfRequired_run st c w)]
    exact onSession_refused _ hw
  | commit required =>
    refine Await.bind_of_failed (Await.bind_of_failed (Await.ofOp_of_eq ?_))
    exact onSession_refused _ hw
  | queryWithKey st b bounds k =>
    refine Await.bind_of_failed ?_
    rw [CachingSession.queryWithKey,
      Await.bind_of_done (Await.ofOp_of_eq (flushIfRequired_run st c w))]
    rw [Call.asksSession, Option.isNone_iff_eq_none] at hcall
    rw [hcall]
    exact Await.ofOp_of_eq (onSession_refused _ hw)
  | rollback required => cases hcall
  | close force => cases hcall

/-! ## What stays while a closed session is used -/

/-- The property of a buffer is lost by a put alone. -/
structure LostByPutOnly (B : Buffer → Prop) : Prop where
  empty : B .empty
  miss : ∀ b k, B b → B (b.miss k)
  requestClear : ∀ b, B b → B b.requestClear

theorem lostByPutOnly_true : LostByPutOnly fun _ => True :=
  ⟨trivial, fun _ _ _ => trivial, fun _ _ => trivial⟩

/-- The session is as it was, and every buffer of the unit has the property. -/
def Stays (B : Buffer → Prop) (l : Session) (s : State ρ σ) : Prop :=
  s.2.1 = l ∧ ∀ id, B (s.1.buffer id)

/-- The same of one buffer of the unit, beside the session. -/
def StaysAt (B : Buffer → Prop) (l : Session) (s : Buffer × Session × σ) : Prop :=
  s.2.1 = l ∧ B s.1

theorem buffer_setBuffer_cases (u : UnitOfWork ρ) (id : String) (b : Buffer) (id' : String) :
    (u.setBuffer id b).buffer id' = u.buffer id' ∨ (u.setBuffer id b).buffer id' = b := by
  cases h : u.buffers.find? id with
  | none =>
    rw [UnitOfWork.setBuffer, h]
    exact .inl rfl
  | some e =>
    rw [UnitOfWork.buffer_setBuffer u h]
    split
    · exact .inr rfl
    · exact .inl rfl

theorem buffer_track_eq (u : UnitOfWork ρ) (r : ρ) (id id' : String) :
    (u.track r id).2.buffer id' = u.buffer id' := by
  by_cases h : id' = id
  · rw [h, UnitOfWork.buffer_track]
  · rw [UnitOfWork.buffer, UnitOfWork.find?_track, if_neg h]
    rfl

variable {B : Buffer → Prop} {l : Session}

/-- A call on the buffer for one cache. -/
theorem await_focus_stays {α : Type} {m : CacheCall (Buffer × Session × σ) α}
    {good : Except CacheError α → Prop} (h : m.Throughout (StaysAt B l) good) (id : String) :
    ((UnitOfWork.focus (ρ := ρ) id).await m).Throughout (Stays B l) good := by
  refine h.focus (fun s hs => ⟨hs.1, hs.2 id⟩) fun s x hs hx => ⟨hx.1, fun id' => ?_⟩
  show B ((s.1.setBuffer id x.1).buffer id')
  rcases buffer_setBuffer_cases s.1 id x.1 id' with heq | heq
  · rw [heq]
    exact hs.2 id'
  · rw [heq]
    exact hx.2

/-- A call on what lies below the session touches neither buffer nor session. -/
theorem below_stays {α : Type} (m : CacheCall σ α) :
    ((Focus.second Buffer.held).await ((Focus.second Session.held).await m)).Throughout
      (StaysAt B l) fun _ => True := by
  have hsession : ((Focus.second Session.held).await m).Throughout (fun y => y.1 = l)
      fun _ => True :=
    (Await.Throughout.unasked m).focus (fun _ _ => trivial) fun _ _ hs _ => hs
  exact hsession.focus (fun _ hs => hs.1) fun _ _ hs hx => ⟨hx, hs.2⟩

theorem getCached_stays (hB : LostByPutOnly B) (r : ρ) (k : CacheKey) :
    (getCached caches r k).Throughout (Stays B l) fun _ => True := by
  have htrack : (Await.ofOp (Op.updateLayer (UnitOfWork.track r (shared caches r).id)) :
      CacheCall (State ρ σ) ρ).Throughout (Stays B l) fun _ => True := by
    refine .ofOp fun c w hw => ⟨⟨hw.1, fun id' => ?_⟩, trivial⟩
    show B ((w.state.1.track r (shared caches r).id).2.buffer id')
    rw [buffer_track_eq]
    exact hw.2 id'
  have hget : ∀ first, (Buffer.get (shared caches first) k).Throughout (StaysAt B l)
      fun _ => True := by
    intro first
    refine (below_stays _).bind (fun found _ => .ofOp ?_) fun _ _ => trivial
    rintro c w ⟨hl, hb⟩
    refine ⟨⟨hl, ?_⟩, trivial⟩
    cases found with
    | none => exact hB.miss _ k hb
    | some v => exact hb
  refine .mapError (htrack.bind (fun first _ => ?_) fun _ _ => trivial)
  exact await_focus_stays (hget first) _

theorem runAll_stays (r : ρ) (calls : List Buffer.SharedCall) :
    (Buffer.SharedCall.runAll (Buffer.shared (shared caches r)) calls).Throughout (StaysAt B l)
      fun _ => True := by
  induction calls with
  | nil => exact .pure trivial
  | cons call rest ih =>
    have hcall : (call.run (Buffer.shared (shared caches r))).Throughout (StaysAt B l)
        fun _ => True := by
      cases call <;> exact below_stays _
    exact hcall.bind (fun _ _ => ih) fun _ _ => trivial

theorem commitUnit_stays (hB : LostByPutOnly B) :
    (commitUnit caches).Throughout (Stays B l) fun _ => True := by
  have hcommit : ∀ r, (Buffer.commitWith Buffer.misses (shared caches r)).Throughout (StaysAt B l)
      fun _ => True := by
    intro r
    have hlayer : (Await.ofOp Op.layer : CacheCall (Buffer × Session × σ) Buffer).Throughout
        (StaysAt B l) fun _ => True := fun c w hw => ⟨hw, trivial⟩
    refine hlayer.bind (fun b _ => (runAll_stays r _).bind (fun _ _ => ?_) fun _ _ => trivial)
      fun _ _ => trivial
    exact .ofOp fun c w hw => ⟨⟨hw.1, hB.empty⟩, trivial⟩
  have hall : ∀ list, (UnitOfWork.commitAll Buffer.misses (shared caches) list).Throughout
      (Stays B l) fun _ => True := by
    intro list
    induction list with
    | nil => exact .pure trivial
    | cons e rest ih =>
      exact (await_focus_stays (hcommit e.2) e.1).bind (fun _ _ => ih) fun _ _ => trivial
  have hlayer : (Await.ofOp Op.layer : CacheCall (State ρ σ) (UnitOfWork ρ)).Throughout
      (Stays B l) fun _ => True := fun c w hw => ⟨hw, trivial⟩
  refine .mapError (hlayer.bind (fun u _ => (hall _).bind (fun _ _ => ?_) fun _ _ => trivial)
    fun _ _ => trivial)
  exact .ofOp fun c w hw => ⟨hw, trivial⟩

/-! ## The end of a unit -/

/-- Nothing is buffered. -/
def NothingBuffered (u : UnitOfWork ρ) : Prop := ∀ id, u.buffer id = .empty

/-- Emptying the buffers of a list leaves those empty that were touched not at all. -/
theorem nothingBuffered_of_touched {u u' : UnitOfWork ρ}
    (h : ∀ id, u'.buffer id = if id ∈ u.touched.map Prod.fst then .empty else u.buffer id) :
    NothingBuffered u' := by
  intro id
  rw [h]
  split
  · rfl
  · rename_i hnot
    refine UnitOfWork.buffer_of_find?_none u (Option.not_isSome_iff_eq_none.1 fun hsome => hnot ?_)
    rw [Entries.isSome_find?_iff] at hsome
    rw [UnitOfWork.touched, List.map_map]
    exact hsome

theorem buffer_setBuffer_empty (u : UnitOfWork ρ) (id id' : String) :
    (u.setBuffer id .empty).buffer id' = if id' = id then .empty else u.buffer id' := by
  cases h : u.buffers.find? id with
  | none =>
    have hsame : u.setBuffer id .empty = u := by rw [UnitOfWork.setBuffer, h]
    rw [hsame]
    split
    · rename_i hid
      rw [hid]
      exact UnitOfWork.buffer_of_find?_none u h
    · rfl
  | some e => exact UnitOfWork.buffer_setBuffer u h .empty id'

section Rollback

variable {Q : σ → Prop} (hQ : ∀ r k, ((caches r).releaseLock k).Hoare Q fun _ s => Q s)

include hQ

/-- A rollback of one buffer leaves alone what giving locks back leaves alone. -/
theorem rollback_keeps (r : ρ) : (Buffer.rollback (shared caches r)).Hoare
    (fun s => s.2.1 = l ∧ Q s.2.2) fun x s => x = .ok () ∧ s.1 = .empty ∧ s.2.1 = l ∧ Q s.2.2 := by
  have hrelease : ∀ k, ((Buffer.shared (shared caches r)).releaseLock k).Hoare
      (fun s => s.2.1 = l ∧ Q s.2.2) fun _ s => s.2.1 = l ∧ Q s.2.2 := by
    rintro k t w ⟨hl, hw⟩
    refine Op.Meets.focus (Op.Meets.focus ((hQ r k t _ hw).mono ?_))
    exact fun _ _ hw' => ⟨hl, hw'⟩
  have hall : ∀ keys, (Buffer.releaseAll (shared caches r) keys).Hoare
      (fun s => s.2.1 = l ∧ Q s.2.2) fun x s => x = .ok () ∧ s.2.1 = l ∧ Q s.2.2 := by
    intro keys
    induction keys with
    | nil => exact .pure fun _ hs => ⟨rfl, hs⟩
    | cons k rest ih => exact (hrelease k).bind_result fun _ => ih
  refine .bind_layer fun b => ?_
  refine .bind_ok ((hall b.misses).mono (fun _ hs => hs.2) fun _ _ hs => hs) ?_
  exact .modifyLayer fun _ hs => ⟨rfl, rfl, hs⟩

/-- The buffers of a list are rolled back one after the other; `f` tells what the
buffers were. -/
theorem rollbackAll_keeps (list : List (String × ρ)) (f : String → Buffer) :
    (UnitOfWork.rollbackAll (shared caches) list).Hoare
      (fun s => s.2.1 = l ∧ Q s.2.2 ∧ ∀ id, s.1.buffer id = f id)
      fun x s => x = .ok () ∧ s.2.1 = l ∧ Q s.2.2 ∧
        ∀ id, s.1.buffer id = if id ∈ list.map Prod.fst then .empty else f id := by
  induction list generalizing f with
  | nil => exact .pure fun _ hs => ⟨rfl, hs⟩
  | cons e rest ih =>
    obtain ⟨id, r⟩ := e
    have hfirst : ((UnitOfWork.focus id).run (Buffer.rollback (shared caches r)) :
        CacheOp (State ρ σ) Unit).Hoare
        (fun s => s.2.1 = l ∧ Q s.2.2 ∧ ∀ id', s.1.buffer id' = f id')
        fun x s => x = .ok () ∧ s.2.1 = l ∧ Q s.2.2 ∧
          ∀ id', s.1.buffer id' = if id' = id then .empty else f id' := by
      rintro t w ⟨hl, hw, hf⟩
      refine Op.Meets.focus ((rollback_keeps hQ r t _ ⟨hl, hw⟩).mono ?_)
      rintro _ w' ⟨rfl, hempty, hl', hw'⟩
      refine ⟨rfl, hl', hw', fun id' => ?_⟩
      show (w.state.1.setBuffer id w'.state.1).buffer id' = _
      rw [hempty, buffer_setBuffer_empty, hf]
    refine .bind_ok hfirst ((ih _).mono (fun _ hs => hs) ?_)
    rintro x s ⟨hx, hl, hw, hbuffers⟩
    refine ⟨hx, hl, hw, fun id' => ?_⟩
    rw [hbuffers, List.map_cons]
    by_cases hrest : id' ∈ rest.map Prod.fst
    · rw [if_pos hrest, if_pos (List.mem_cons_of_mem _ hrest)]
    · rw [if_neg hrest]
      by_cases hid : id' = id
      · rw [if_pos hid, if_pos (hid ▸ List.mem_cons_self)]
      · rw [if_neg hid, if_neg (List.not_mem_cons_of_ne_of_not_mem hid hrest)]

/-- A rollback empties every buffer, and leaves alone what giving locks back leaves alone. -/
theorem rollbackUnit_run (c : Caller) {w : World (State ρ σ)} (hw : Q w.state.2.2) :
    ∃ w', rollbackUnit caches c w = (.ok (), w') ∧ w'.state.2.1 = w.state.2.1 ∧ Q w'.state.2.2 ∧
      NothingBuffered w'.state.1 := by
  have hall := rollbackAll_keeps (l := w.state.2.1) hQ w.state.1.touched w.state.1.buffer c.thread
    w ⟨rfl, hw, fun _ => rfl⟩ c rfl
  rcases hrun : UnitOfWork.rollbackAll (shared caches) w.state.1.touched c w with ⟨x, w'⟩
  rw [hrun] at hall
  obtain ⟨rfl, hl, hw', hbuffers⟩ := hall
  refine ⟨⟨w'.env, ({ w'.state.1 with unit := w'.state.1.unit + 1 }, w'.state.2)⟩, ?_, hl, hw',
    nothingBuffered_of_touched hbuffers⟩
  have hlayer : (Op.layer : CacheOp (State ρ σ) (UnitOfWork ρ)) c w = (.ok w.state.1, w) := rfl
  refine Op.mapError_of_ok ?_
  rw [UnitOfWork.rollback, Op.bind_of_ok hlayer, Op.bind_of_ok hrun]
  rfl

end Rollback

theorem commitAll_run (c : Caller) (e : Environment) (y : Session × σ) (list : List (String × ρ))
    {u : UnitOfWork ρ} (hu : NothingBuffered u) :
    ∃ u', UnitOfWork.commitAll Buffer.misses (shared caches) list c ⟨e, (u, y)⟩ =
      .done (.ok ()) ⟨e, (u', y)⟩ ∧ NothingBuffered u' := by
  induction list generalizing u with
  | nil => exact ⟨u, rfl, hu⟩
  | cons entry rest ih =>
    obtain ⟨id, r⟩ := entry
    have hempty : ∀ c', Buffer.commitWith Buffer.misses (shared caches r) c'
        ⟨e, (Buffer.empty, y)⟩ = .done (.ok ()) ⟨e, (Buffer.empty, y)⟩ := fun _ => rfl
    have hfirst : (UnitOfWork.focus id).await (Buffer.commitWith Buffer.misses (shared caches r)) c
        ⟨e, (u, y)⟩ = .done (.ok ()) ⟨e, (u.setBuffer id .empty, y)⟩ := by
      show (Buffer.commitWith Buffer.misses (shared caches r) _ ⟨e, (u.buffer id, y)⟩).widen _ _ = _
      rw [hu id, hempty]
      rfl
    have hnothing : NothingBuffered (u.setBuffer id .empty) := by
      intro id'
      rw [buffer_setBuffer_empty, hu, ite_self]
    obtain ⟨u', hrun, hu'⟩ := ih hnothing
    exact ⟨u', (Await.bind_of_done hfirst).trans hrun, hu'⟩

/-- Where nothing is buffered, a commit does nothing. -/
theorem commitUnit_run (c : Caller) {w : World (State ρ σ)} (hw : NothingBuffered w.state.1) :
    ∃ u', commitUnit caches c w = .done (.ok ()) ⟨w.env, (u', w.state.2)⟩ ∧
      NothingBuffered u' := by
  have hall : ∃ u', UnitOfWork.commitAll Buffer.misses (shared caches) w.state.1.touched c w =
      .done (.ok ()) ⟨w.env, (u', w.state.2)⟩ ∧ NothingBuffered u' :=
    commitAll_run c w.env w.state.2 w.state.1.touched hw
  obtain ⟨u', hrun, hu'⟩ := hall
  refine ⟨{ u' with unit := u'.unit + 1 }, ?_, hu'⟩
  have hlayer : (Await.ofOp Op.layer : CacheCall (State ρ σ) (UnitOfWork ρ)) c w =
      .done (.ok w.state.1) w := rfl
  have hcommit : UnitOfWork.commit (shared caches) c w =
      .done (.ok ()) ⟨w.env, ({ u' with unit := u'.unit + 1 }, w.state.2)⟩ := by
    rw [UnitOfWork.commit, UnitOfWork.commitWith, Await.bind_of_done hlayer,
      Await.bind_of_done hrun]
    rfl
  show (UnitOfWork.commit (shared caches) c w).mapError Error.cache = _
  rw [hcommit]
  rfl

/-- A rollback or a forced close of a closed session ends well; it gives the locks of
the unit back and empties the buffers. -/
def Call.Empties (caches : ρ → Cache σ) (db : StatementRunner ρ σ) (Q : σ → Prop) (call : Call ρ)
    (c : Caller) (w : World (State ρ σ)) : Prop :=
  ∃ w', call.run caches db c w = .done (.ok .nothing) w' ∧ w'.state.2.1 = w.state.2.1 ∧
    Q w'.state.2.2 ∧ NothingBuffered w'.state.1

section Empties

variable {Q : σ → Prop} (hQ : ∀ r k, ((caches r).releaseLock k).Hoare Q fun _ s => Q s)
  {w : World (State ρ σ)} (hw : w.state.2.1.closed = true)

include hw

theorem rollback_run (c : Caller) (required : Bool) :
    CachingSession.rollback caches db required c w =
      (do if required then rollbackUnit caches) c w := by
  have hresult : (onSession (Session.rollback db required)).result c w =
      ((.ok (.ok ()) : Except Error (Except Error Unit)), w) := by
    show (Except.ok (onSession (Session.rollback db required) c w).1,
      (onSession (Session.rollback db required) c w).2) = _
    rw [Session.rollback, onSession_skipped _ hw]
  rw [CachingSession.rollback, Op.bind_of_ok hresult]
  cases required with
  | false => rfl
  | true =>
    show Op.bind (rollbackUnit caches) _ c w = rollbackUnit caches c w
    rw [Op.bind]
    rcases rollbackUnit caches c w with ⟨_ | _, w'⟩
    · rfl
    · rfl

/-- A rollback that is not required does nothing at all. -/
theorem Call.rollback_false_run (c : Caller) :
    (Call.rollback false).run caches db c w = .done (.ok .nothing) w := by
  have hrun : CachingSession.rollback caches db false c w = _ := rollback_run hw c false
  exact (Await.bind_of_done (Await.ofOp_of_eq hrun)).trans rfl

include hQ

theorem Call.rollback_empties (hs : Q w.state.2.2) (c : Caller) :
    (Call.rollback true).Empties caches db Q c w := by
  obtain ⟨w', hunit, hkept⟩ := rollbackUnit_run hQ c hs
  have hrun : CachingSession.rollback caches db true c w = _ := (rollback_run hw c true).trans hunit
  exact ⟨w', (Await.bind_of_done (Await.ofOp_of_eq hrun)).trans rfl, hkept⟩

theorem Call.close_empties (hs : Q w.state.2.2) (c : Caller) :
    (Call.close true).Empties caches db Q c w := by
  obtain ⟨w', hunit, hkept⟩ := rollbackUnit_run hQ c hs
  refine ⟨w', ?_, hkept⟩
  have hclosed : onSession (Session.close db true) c w' = (.ok (), w') :=
    onSession_skipped _ (hkept.1.symm ▸ hw)
  have hclose : CachingSession.close caches db true c w = .done (.ok ()) w' := by
    rw [CachingSession.close, if_pos rfl, Await.bind_of_done (Await.ofOp_of_eq hunit)]
    exact (Await.bind_of_done (Await.ofOp_of_eq hclosed)).trans rfl
  exact (Await.bind_of_done hclose).trans rfl

end Empties

/-! ## Calls that end as a part of them does -/

/-- The call ends just as another one does that starts when the flush is noted; what it
gives is made of what the other one gives. -/
def Call.EndsAs {α : Type} (caches : ρ → Cache σ) (db : StatementRunner ρ σ)
    (others : σ → σ → Prop) (call : Call ρ) (m : CachingCall ρ σ α)
    (f : Except Error α → Except Error Reply) (c : Caller) (w : World (State ρ σ)) : Prop :=
  ∀ x w', (call.run caches db c w).SettlesAmid (Beside (Beside others)) c.thread x w' →
    ∃ y, (m c ⟨w.env, (call.noted caches w.state.1, w.state.2)⟩).SettlesAmid
      (Beside (Beside others)) c.thread y w' ∧ x = f y

/-- What a closed session makes of what it read in a shared cache. -/
def served : Option Value → Except Error Value
  | some v => .ok v
  | none => .error (.executor .closed)

theorem Stays.others {others : σ → σ → Prop} {s s' : State ρ σ} (h : Beside (Beside others) s s')
    (hs : Stays B l s) : Stays B l s' := by
  rcases h with ⟨hu, hl, -⟩
  exact ⟨hl.trans hs.1, fun id => hu.symm ▸ hs.2 id⟩

section EndsAs

variable {w : World (State ρ σ)} (hw : w.state.2.1.closed = true)

/-- A result with output parameters is refused before the cache is read. -/
theorem Call.failsAtOnce_of_output {st : Statement ρ} {b : BoundStatement} {bounds : RowBounds}
    {k : CacheKey} {r : ρ} (hr : st.applicableCache = some r) (ho : st.hasOutputParameters = true)
    (c : Caller) (w : World (State ρ σ)) : (Call.queryWithKey st b bounds k).FailsAtOnce caches db c
      w (.config (.outputParametersNotCacheable st.id)) := by
  refine Await.bind_of_failed ?_
  rw [CachingSession.queryWithKey,
    Await.bind_of_done (Await.ofOp_of_eq (flushIfRequired_run st c w)), hr]
  refine Await.bind_of_failed (Await.ofOp_of_eq ?_)
  rw [ensureNoOutput, if_pos ho]
  rfl

/-- How a close goes on when the unit has been committed. -/
def afterCommit (db : StatementRunner ρ σ) (result : Except Error Unit) :
    CachingCall ρ σ Unit := do
  .ofOp (onSession (Session.close db false))
  .ofOp (Op.ofExcept result)

theorem close_eq : CachingSession.close caches db false =
    (commitUnit caches).result >>= afterCommit db := rfl

include hw

theorem afterRead_run {st : Statement ρ} {b : BoundStatement} {bounds : RowBounds} {k : CacheKey}
    {r : ρ} (found : Option Value) (c : Caller) :
    afterRead caches db st b bounds k r found c w = .done (served found) w := by
  cases found with
  | some v => rfl
  | none => exact Await.bind_of_failed (Await.ofOp_of_eq (onSession_refused _ hw))

theorem afterCommit_run (result : Except Error Unit) (c : Caller) :
    afterCommit db result c w = .done result w := by
  have hclosed : onSession (Session.close db false) c w = (.ok (), w) := onSession_skipped _ hw
  exact (Await.bind_of_done (Await.ofOp_of_eq hclosed)).trans rfl

/-- A closed session reads the shared cache for a query under a given key, and does no more. -/
theorem Call.endsAs_read {st : Statement ρ} {b : BoundStatement} {bounds : RowBounds}
    {k : CacheKey} {r : ρ} (hr : st.applicableCache = some r)
    (ho : st.hasOutputParameters = false) (others : σ → σ → Prop) (c : Caller) :
    (Call.queryWithKey st b bounds k).EndsAs caches db others (getCached caches r k)
      (fun y => (y >>= served).map .value) c w := by
  intro x w' hrun
  have hread : (getCached caches r k).Throughout (Stays (fun _ => True) w.state.2.1)
      fun _ => True := getCached_stays lostByPutOnly_true r k
  obtain ⟨v, hquery, rfl⟩ := settles_of_reply hrun
  rw [queryWithKey_run hr ho] at hquery
  obtain ⟨y, hy, rfl⟩ := (hread c ⟨w.env, (noteFlush caches st w.state.1, w.state.2)⟩
    ⟨rfl, fun _ => trivial⟩).ends_of_bind (fun _ _ h hs => hs.others h)
      (fun found c' w₁ hw₁ => afterRead_run (hw₁.1 ▸ hw) found c') hquery
  exact ⟨y, hy, rfl⟩

/-- Without a forced rollback a close commits the unit. -/
theorem Call.endsAs_commit (others : σ → σ → Prop) (c : Caller) :
    (Call.close false).EndsAs caches db others (commitUnit caches) (Except.map fun _ => .nothing)
      c w := by
  intro x w' hrun
  have hunit : ((commitUnit caches).result : CachingCall ρ σ _).Throughout
      (Stays (fun _ => True) w.state.2.1) fun _ => True :=
    .result (commitUnit_stays (l := w.state.2.1) lostByPutOnly_true)
  obtain ⟨v, hclose, rfl⟩ := settles_of_reply hrun
  rw [close_eq] at hclose
  obtain ⟨y, hy, rfl⟩ := (hunit c w ⟨rfl, fun _ => trivial⟩).ends_of_bind
    (fun _ _ h hs => hs.others h) (fun result c' w₁ hw₁ => afterCommit_run (hw₁.1 ▸ hw) result c')
    hclose
  obtain ⟨y', rfl, hy'⟩ := hy.of_result
  exact ⟨y', hy', rfl⟩

/-- Where nothing is buffered, a close does nothing. -/
theorem Call.close_run (hu : NothingBuffered w.state.1) (c : Caller) :
    ∃ u', (Call.close false).run caches db c w = .done (.ok .nothing) ⟨w.env, (u', w.state.2)⟩ ∧
      NothingBuffered u' := by
  have hcommit : ∃ u', commitUnit caches c w = .done (.ok ()) ⟨w.env, (u', w.state.2)⟩ ∧
      NothingBuffered u' := commitUnit_run c hu
  obtain ⟨u', hunit, hu'⟩ := hcommit
  refine ⟨u', ?_, hu'⟩
  have hresult : ((commitUnit caches).result : CachingCall ρ σ _) c w =
      .done (.ok (.ok ())) ⟨w.env, (u', w.state.2)⟩ := by
    show (commitUnit caches c w).result = _
    rw [hunit]
    rfl
  have hclose : CachingSession.close caches db false c w =
      .done (.ok ()) ⟨w.env, (u', w.state.2)⟩ := by
    rw [close_eq, Await.bind_of_done hresult]
    exact afterCommit_run (w := ⟨w.env, (u', w.state.2)⟩) hw _ c
  exact (Await.bind_of_done hclose).trans rfl

end EndsAs

/-! ## Sequences of calls -/

/-- Calls on a session one after the other, the latest first.  Between two calls, and
while one of them waits, others change what lies below as they may. -/
inductive Call.Sequence (caches : ρ → Cache σ) (db : StatementRunner ρ σ) (others : σ → σ → Prop)
    (w₀ : World (State ρ σ)) : List (Call ρ) → World (State ρ σ) → Prop where
  | start : Sequence caches db others w₀ [] w₀
  | others {calls : List (Call ρ)} {w : World (State ρ σ)} {y : σ} (e : Environment)
      (h : Sequence caches db others w₀ calls w) (hy : others w.state.2.2 y) :
      Sequence caches db others w₀ calls ⟨e, (w.state.1, w.state.2.1, y)⟩
  | call {calls : List (Call ρ)} {w w' : World (State ρ σ)} {call : Call ρ} {c : Caller}
      {x : Except Error Reply} (h : Sequence caches db others w₀ calls w)
      (hcall : (call.run caches db c w).SettlesAmid (Beside (Beside others)) c.thread x w') :
      Sequence caches db others w₀ (call :: calls) w'

theorem noteFlush_stays (hB : LostByPutOnly B) (st : Statement ρ) {w : World (State ρ σ)}
    (hw : Stays B l w.state) : Stays B l (noteFlush caches st w.state.1, w.state.2) := by
  refine ⟨hw.1, fun id => ?_⟩
  rw [noteFlush]
  cases st.flushes with
  | none => exact hw.2 id
  | some r =>
    rw [UnitOfWork.buffer_edit]
    split
    · exact hB.requestClear _ (hw.2 _)
    · exact hw.2 id

/-- A call that fails at once keeps the session and its buffers. -/
theorem Call.FailsAtOnce.stays (hB : LostByPutOnly B) {call : Call ρ} {c : Caller}
    {w : World (State ρ σ)} {e : Error} (h : call.FailsAtOnce caches db c w e)
    (hw : Stays B l w.state) : (call.run caches db c w).Throughout (Stays B l) fun _ => True := by
  rw [h]
  refine ⟨?_, trivial⟩
  cases call with
  | query | commit | rollback | close => exact hw
  | queryWithKey st | queryHandled st | queryCursor st | update st => exact noteFlush_stays hB st hw

/-- A call that empties the buffers keeps the session. -/
theorem Call.Empties.stays (hB : LostByPutOnly B) {Q : σ → Prop} {call : Call ρ} {c : Caller}
    {w : World (State ρ σ)} (h : call.Empties caches db Q c w) (hw : Stays B l w.state) :
    (call.run caches db c w).Throughout (Stays B l) fun _ => True := by
  obtain ⟨w', hrun, hl, -, hempty⟩ := h
  rw [hrun]
  exact ⟨⟨hl.trans hw.1, fun id => (hempty id).symm ▸ hB.empty⟩, trivial⟩

theorem Call.queryWithKey_stays (hB : LostByPutOnly B) (hl : l.closed = true) {st : Statement ρ}
    {b : BoundStatement} {bounds : RowBounds} {k : CacheKey} {r : ρ}
    (hr : st.applicableCache = some r) (ho : st.hasOutputParameters = false) :
    ((Call.queryWithKey st b bounds k).run caches db).Throughout (Stays B l) fun _ => True := by
  have hrest : ∀ found, (afterRead caches db st b bounds k r found).Throughout (Stays B l)
      fun _ => True := by
    intro found c w hw
    rw [afterRead_run (hw.1.symm ▸ hl)]
    exact ⟨hw, trivial⟩
  have hquery : (CachingSession.queryWithKey caches db st b bounds k).Throughout (Stays B l)
      fun _ => True := by
    intro c w hw
    rw [queryWithKey_run hr ho]
    exact (getCached_stays hB r k).bind (fun found _ => hrest found) (fun _ _ => trivial) c _
      (noteFlush_stays hB st hw)
  exact hquery.bind (fun _ _ => .pure trivial) fun _ _ => trivial

theorem Call.close_stays (hB : LostByPutOnly B) (hl : l.closed = true) :
    ((Call.close false).run caches db).Throughout (Stays B l) fun _ => True := by
  have hunit : ((commitUnit caches).result : CachingCall ρ σ (Except Error Unit)).Throughout
      (Stays B l) fun _ => True := .result (commitUnit_stays hB)
  have hclose : (CachingSession.close caches db false).Throughout (Stays B l) fun _ => True := by
    rw [close_eq]
    refine hunit.bind (fun result _ c w hw => ?_) fun _ _ => trivial
    rw [afterCommit_run (hw.1.symm ▸ hl)]
    exact ⟨hw, trivial⟩
  exact hclose.bind (fun _ _ => .pure trivial) fun _ _ => trivial

/-- No call on a closed session changes the session or buffers a value. -/
theorem Call.run_stays (hB : LostByPutOnly B) (hl : l.closed = true) (call : Call ρ) :
    (call.run caches db).Throughout (Stays B l) fun _ => True := by
  intro c w hw
  have hclosed : w.state.2.1.closed = true := hw.1.symm ▸ hl
  have hlocks : ∀ r k, ((caches r).releaseLock k).Hoare (fun _ => True) fun _ _ => True :=
    fun _ _ _ _ _ _ _ => trivial
  cases hcall : call.asksSession with
  | true => exact (failsAtOnce_of_closed hcall c hclosed).stays hB hw
  | false =>
    cases call with
    | query | queryHandled | queryCursor | update | commit => cases hcall
    | rollback required =>
      cases required with
      | false =>
        rw [rollback_false_run hclosed c]
        exact ⟨hw, trivial⟩
      | true => exact (rollback_empties hlocks hclosed trivial c).stays hB hw
    | close force =>
      cases force with
      | true => exact (close_empties hlocks hclosed trivial c).stays hB hw
      | false => exact close_stays hB hl c w hw
    | queryWithKey st b bounds k =>
      obtain ⟨r, hr⟩ : ∃ r, st.applicableCache = some r :=
        Option.isSome_iff_exists.1 (Option.isNone_eq_false_iff.1 hcall)
      cases ho : st.hasOutputParameters with
      | true => exact (failsAtOnce_of_output hr ho c w).stays hB hw
      | false => exact queryWithKey_stays hB hl hr ho c w hw

/-- Whatever is called on a closed session, it stays as it is and buffers no value. -/
theorem Call.Sequence.stays (hB : LostByPutOnly B) {others : σ → σ → Prop}
    {w₀ w : World (State ρ σ)} {calls : List (Call ρ)}
    (h : Call.Sequence caches db others w₀ calls w)
    (hclosed : w₀.state.2.1.closed = true) (h₀ : ∀ id, B (w₀.state.1.buffer id)) :
    Stays B w₀.state.2.1 w.state := by
  have hcall : ∀ (call : Call ρ) t, (call.run caches db).HoareAmid (Beside (Beside others)) t
      (Stays B w₀.state.2.1) fun _ s => Stays B w₀.state.2.1 s ∧ True := fun call =>
    (Call.run_stays hB hclosed call).amid fun _ _ h hs => hs.others h
  induction h with
  | start => exact ⟨rfl, h₀⟩
  | others e _ _ ih => exact ih
  | call _ hend ih => exact ((hcall _ _ _ _ rfl ih).settles hend).1

end CachingSession

/-! ## What a closed session still does -/

namespace Rack

open CachingSession

variable {ρ δ : Type} [DecidableEq ρ] {stack : ρ → Stack} {held : ρ → Rack stack δ → List Value}
  {db : StatementRunner ρ (Rack stack δ)}

/-- The entries of every cache. -/
def contents (y : Rack stack δ) (r : ρ) : Store := Stack.storeOf (stack r).layers (y.1 r)

/-- Giving a lock back changes no entry of any cache, and nothing beside the caches. -/
theorem releaseLock_keeps (y₀ : Rack stack δ) (r : ρ) (k : CacheKey) :
    ((cache stack held r).releaseLock k).Hoare (fun y => contents y = contents y₀ ∧ y.2 = y₀.2)
      fun _ y => contents y = contents y₀ ∧ y.2 = y₀.2 := by
  rintro t w ⟨hcontents, hbeside⟩
  have hlock := Stack.releaseLock_keeps (stack r).id (stack r).layers (contents y₀ r) k t
    ((place stack held r).narrow w) (congrFun hcontents r)
  refine Op.Meets.focus (hlock.mono ?_)
  refine fun _ w' hw' => ⟨funext fun r' => ?_, hbeside⟩
  show Stack.storeOf (stack r').layers (Function.update w.state.1 r w'.state r') = _
  by_cases hr : r' = r
  · subst hr
    rw [Function.update_self]
    exact hw'
  · rw [Function.update_of_ne hr]
    exact congrFun hcontents r'

/-- All that calls on a closed session can do. -/
structure Inert (held : ρ → Rack stack δ → List Value) (db : StatementRunner ρ (Rack stack δ))
    (others : Rack stack δ → Rack stack δ → Prop) (c : Caller)
    (w : World (State ρ (Rack stack δ))) : Prop where
  /-- Calls that come to the session first are refused; caches, locks and database are
  as they were, and no more is left of the call than a noted flush. -/
  refuses : ∀ call : Call ρ, call.asksSession = true →
    call.FailsAtOnce (cache stack held) db c w (.executor .closed)
  /-- So is a query whose result could not be cached. -/
  refuses_output : ∀ {st : Statement ρ} {r : ρ} (b : BoundStatement) (bounds : RowBounds)
    (k : CacheKey), st.applicableCache = some r → st.hasOutputParameters = true →
      (Call.queryWithKey st b bounds k).FailsAtOnce (cache stack held) db c w
        (.config (.outputParametersNotCacheable st.id))
  /-- A query under a given key reads its shared cache, and gives what was found there. -/
  reads : ∀ {st : Statement ρ} {r : ρ} (b : BoundStatement) (bounds : RowBounds) (k : CacheKey),
    st.applicableCache = some r → st.hasOutputParameters = false →
      (Call.queryWithKey st b bounds k).EndsAs (cache stack held) db others
        (getCached (cache stack held) r k) (fun y => (y >>= served).map .value) c w
  /-- The end of a unit without a commit gives its locks back. -/
  rolls_back : ∀ call : Call ρ, call = .rollback true ∨ call = .close true →
    call.Empties (cache stack held) db
      (fun y => contents y = contents w.state.2.2 ∧ y.2 = w.state.2.2.2) c w
  /-- A rollback that is not required is none. -/
  ignores : (Call.rollback false).run (cache stack held) db c w = .done (.ok .nothing) w
  /-- A close that forces no rollback commits the unit. -/
  commits : (Call.close false).EndsAs (cache stack held) db others
    (commitUnit (cache stack held)) (Except.map fun _ => .nothing) c w
  /-- It changes nothing where nothing is buffered. -/
  commits_nothing : NothingBuffered w.state.1 →
    ∃ u, (Call.close false).run (cache stack held) db c w =
      .done (.ok .nothing) ⟨w.env, (u, w.state.2)⟩ ∧ NothingBuffered u

/-- A session that was closed stays as it is, whatever is called on it, and buffers no
value; all that its calls can do is to read a shared cache under a given key and to
commit, by a close, what the unit has buffered. -/
theorem inert_of_closed {others : Rack stack δ → Rack stack δ → Prop}
    {w₀ w : World (State ρ (Rack stack δ))} {calls : List (Call ρ)}
    (hclosed : w₀.state.2.1.closed = true)
    (hrun : Call.Sequence (cache stack held) db others w₀ calls w) (c : Caller) :
    w.state.2.1 = w₀.state.2.1 ∧
      ((∀ id, (w₀.state.1.buffer id).writes = .empty) →
        ∀ id, (w.state.1.buffer id).writes = .empty) ∧
      Inert held db others c w := by
  have hunwritten : LostByPutOnly fun b => b.writes = .empty := by
    refine ⟨rfl, fun b k hb => ?_, fun _ _ => rfl⟩
    rw [Buffer.miss]
    split
    · exact hb
    · exact hb
  have hsame : w.state.2.1 = w₀.state.2.1 :=
    (hrun.stays lostByPutOnly_true hclosed fun _ => trivial).1
  refine ⟨hsame, fun h₀ => (hrun.stays hunwritten hclosed h₀).2, ?_⟩
  rw [← hsame] at hclosed
  have hlocks : ∀ r k, ((cache stack held r).releaseLock k).Hoare
      (fun y => contents y = contents w.state.2.2 ∧ y.2 = w.state.2.2.2)
      fun _ y => contents y = contents w.state.2.2 ∧ y.2 = w.state.2.2.2 :=
    releaseLock_keeps w.state.2.2
  exact {
    refuses := fun call hcall => Call.failsAtOnce_of_closed hcall c hclosed
    refuses_output := fun b bounds k hr ho => Call.failsAtOnce_of_output hr ho c w
    reads := fun b bounds k hr ho => Call.endsAs_read hclosed hr ho others c
    rolls_back := by
      rintro call (rfl | rfl)
      · exact Call.rollback_empties hlocks hclosed ⟨rfl, rfl⟩ c
      · exact Call.close_empties hlocks hclosed ⟨rfl, rfl⟩ c
    ignores := Call.rollback_false_run hclosed c
    commits := Call.endsAs_commit hclosed others c
    commits_nothing := fun hu => Call.close_run hclosed hu c }

/-! ## A session that was closed early -/

/-- On a closed session every call but a rollback and a close fails. -/
def ClosedRefuses : Prop :=
  ∀ (ρ δ : Type) [DecidableEq ρ] (stack : ρ → Stack) (held : ρ → Rack stack δ → List Value)
    (db : StatementRunner ρ (Rack stack δ)) (e : Environment) (y : Rack stack δ)
    (calls : List (Call ρ)) (w : World (State ρ (Rack stack δ))),
    Call.Sequence (cache stack held) db Eq ⟨e, ({}, {}, y)⟩ calls w → w.state.2.1.closed = true →
      ∀ (call : Call ρ) (c : Caller) (x : Except Error Reply) (w' : World (State ρ (Rack stack δ))),
        (∀ required, call ≠ .rollback required) → (∀ force, call ≠ .close force) →
        (call.run (cache stack held) db c w).SettlesAmid (Beside (Beside Eq)) c.thread x w' →
          x = .error (.executor .closed)

/-- No call on a closed session changes an entry of a cache. -/
def ClosedKeepsContents : Prop :=
  ∀ (ρ δ : Type) [DecidableEq ρ] (stack : ρ → Stack) (held : ρ → Rack stack δ → List Value)
    (db : StatementRunner ρ (Rack stack δ)) (e : Environment) (y : Rack stack δ)
    (calls : List (Call ρ)) (w : World (State ρ (Rack stack δ))),
    Call.Sequence (cache stack held) db Eq ⟨e, ({}, {}, y)⟩ calls w → w.state.2.1.closed = true →
      ∀ (call : Call ρ) (c : Caller) (x : Except Error Reply) (w' : World (State ρ (Rack stack δ))),
        (call.run (cache stack held) db c w).SettlesAmid (Beside (Beside Eq)) c.thread x w' →
          contents w'.state.2.2 = contents w.state.2.2

/-- A query of one of the caches. -/
def reading (r : Bool) : Statement Bool :=
  { id := "find", kind := .select, sql := "", cache := some r }

/-- The session is closed before it did anything. -/
def closedEarly : World (State Bool (Rack twoStacks UsersTable)) :=
  ((Call.close true).run two table ⟨"main", []⟩ before).world

/-- The closed session has refused an update, which asked for a flush. -/
def refusedUpdate : World (State Bool (Rack twoStacks UsersTable)) :=
  ((Call.update (flushing true) ⟨"", []⟩).run two table ⟨"main", []⟩ closedEarly).world

theorem sequence_closedEarly :
    Call.Sequence two table Eq before [.close true] closedEarly :=
  .call (c := ⟨"main", []⟩) .start (.of_done ⟨_, rfl⟩)

theorem sequence_refusedUpdate :
    Call.Sequence two table Eq before [.update (flushing true) ⟨"", []⟩, .close true]
      refusedUpdate :=
  .call (c := ⟨"main", []⟩) sequence_closedEarly (.of_done ⟨_, rfl⟩)

/-- The closed session answers a query under the key of an entry; and closed once more it
clears the cache that the refused update was to flush. -/
theorem not_closed_inert : ¬ ClosedRefuses ∧ ¬ ClosedKeepsContents := by
  constructor
  · intro h
    have hanswer := h Bool UsersTable twoStacks (fun _ _ => []) table _ _ _ closedEarly
      sequence_closedEarly rfl (.queryWithKey (reading true) ⟨"", []⟩ {} .null) ⟨"main", []⟩ _ _
      (fun _ hcall => nomatch hcall) (fun _ hcall => nomatch hcall) (.of_done ⟨_, rfl⟩)
    cases hanswer
  · intro h
    have hsame := h Bool UsersTable twoStacks (fun _ _ => []) table _ _ _ refusedUpdate
      sequence_refusedUpdate rfl (.close false) ⟨"main", []⟩ _ _ (.of_done ⟨_, rfl⟩)
    have hentry : ((contents refusedUpdate.state.2.2 true).find? .null).isSome = true := by rfl
    rw [← congrFun hsame true] at hentry
    cases hentry

/-- After the refused update the session is as it was, and buffers nothing but the clear. -/
theorem inert_of_closed_refusedUpdate :
    closedEarly.state.2.1.closed = true ∧
      Call.Sequence two table Eq closedEarly [.update (flushing true) ⟨"", []⟩] refusedUpdate ∧
      refusedUpdate.state.2.1 = closedEarly.state.2.1 ∧
      (refusedUpdate.state.1.buffer "users").clearPending = true ∧
      (refusedUpdate.state.1.buffer "users").writes = .empty := by
  have hcalls : Call.Sequence two table Eq closedEarly [.update (flushing true) ⟨"", []⟩]
      refusedUpdate := .call (c := ⟨"main", []⟩) .start (.of_done ⟨_, rfl⟩)
  have hinert := inert_of_closed (by rfl : closedEarly.state.2.1.closed = true) hcalls ⟨"main", []⟩
  have hunwritten : ∀ id, (closedEarly.state.1.buffer id).writes = .empty := fun _ => rfl
  exact ⟨rfl, hcalls, hinert.1, rfl, hinert.2.1 hunwritten "users"⟩

end Rack

end QueryCache
