import Mathlib
import QueryCache.Proofs.Layer.Prompt
import QueryCache.Proofs.Query.Call
import QueryCache.Proofs.Query.Key
import QueryCache.Proofs.Query.Session

/-!
# Calls of a session that wait

An update or a commit of an open session does not wait for another thread, and a
query waits for one thing only: to read the shared cache.  So far it has touched
the cache, and done no more.  If the session is as it was when the query is
resumed, then it is made anew, or it fails because the lock of its key did not come
in time.

1. sessions that are ready for a call
2. updates and commits
3. the read of a query
4. queries
5. calls
-/

namespace QueryCache.CachingSession

variable {ρ σ α : Type} {db : StatementRunner ρ σ} {idle : σ → Prop}

/-! ## Sessions that are ready for a call -/

/-- The session is open, and what lies below it is idle. -/
def Ready (idle : σ → Prop) (s : State ρ σ) : Prop := s.2.1.closed = false ∧ idle s.2.2

/-- The database leaves what is idle as idle as it was. -/
structure Calm (db : StatementRunner ρ σ) (idle : σ → Prop) : Prop where
  query : ∀ st b w, (db.query st b w).Hoare idle fun _ s => idle s
  update : ∀ st b, (db.update st b).Hoare idle fun _ s => idle s
  commit : db.commit.Hoare idle fun _ s => idle s

theorem onSession_ready {m : Session.SessionOp σ α}
    (h : m.Hoare (Session.Sound (fun _ _ => True) false idle)
      fun _ s => Session.Sound (fun _ _ => True) false idle s) :
    (Await.ofOp (onSession m) : CachingCall ρ σ α).Prompt (Ready idle) := by
  refine .ofOp fun c w hw => ?_
  have hs : Session.Sound (fun _ _ => True) false idle w.state.2 := sound_of_open hw.1 hw.2
  obtain ⟨hl, hx⟩ := h _ ⟨w.env, w.state.2⟩ hs ((Focus.second UnitOfWork.held).caller w.state c) rfl
  exact ⟨hl.closed_eq, hx⟩

theorem flushIfRequired_ready (caches : ρ → Cache σ) (st : Statement ρ) :
    (Await.ofOp (flushIfRequired caches st) : CachingCall ρ σ Unit).Prompt (Ready idle) := by
  refine .ofOp fun c w hw => ?_
  rw [flushIfRequired_run]
  exact hw

theorem putCached_ready (caches : ρ → Cache σ) (r : ρ) (k : CacheKey) (v : Value) :
    (Await.ofOp (putCached caches r k v) : CachingCall ρ σ Unit).Prompt (Ready idle) :=
  .ofOp fun _ _ hw => hw

/-- A shared cache below the session and the buffer for it. -/
theorem restarting_shared {d : Cache σ} (hd : Restarting d idle) :
    Restarting (Buffer.shared (d.under Session.held))
      fun s => s.2.1.closed = false ∧ idle s.2.2 := by
  have hsession : Restarting (d.under Session.held) fun s => s.1.closed = false ∧ idle s.2 :=
    hd.within (fun _ hs => hs.2) (fun _ _ hs hx => ⟨hs.1, hx⟩) fun _ => rfl
  exact hsession.within (fun _ hs => hs) (fun _ _ _ hx => hx) fun _ => rfl

/-! ## Updates and commits -/

theorem update_prompt {caches : ρ → Cache σ} (hdb : Calm db idle) (st : Statement ρ)
    (b : BoundStatement) :
    (Await.ofOp (update caches db st b) : CachingCall ρ σ Nat).Prompt (Ready idle) := by
  have hsession : (Session.update db st b).Hoare (Session.Sound (fun _ _ => True) false idle)
      fun _ s => Session.Sound (fun _ _ => True) false idle s :=
    (Session.update_open (hdb.update st b)).mono (fun _ hs => hs) fun _ _ hs =>
      ⟨hs.1.of_nothing, hs.2⟩
  rw [CachingSession.update, Await.ofOp_bind]
  exact (flushIfRequired_ready caches st).bind fun _ => onSession_ready hsession

theorem runAll_prompt {d : Cache σ} (hd : Restarting d idle) (calls : List Buffer.SharedCall) :
    (Buffer.SharedCall.runAll d calls).Prompt idle := by
  induction calls with
  | nil => exact .pure
  | cons call rest ih =>
    have hcall : (call.run d).Prompt idle := by
      cases call with
      | clear => exact hd.clear
      | put k x => exact hd.put k x
    exact hcall.bind fun _ => ih

/-- The unit commits without a wait, since to write is not to wait. -/
theorem commitUnit_prompt {caches : ρ → Cache σ} (hd : ∀ r, Restarting (caches r) idle) :
    (commitUnit caches).Prompt (Ready idle) := by
  have hbuffer : ∀ r, (Buffer.commitWith Buffer.misses (shared caches r)).Prompt
      fun s => s.2.1.closed = false ∧ idle s.2.2 := by
    intro r
    refine .bind (.ofStill fun _ _ => rfl) fun b => ?_
    exact .bind (runAll_prompt (restarting_shared (hd r)) _) fun _ => .ofOp fun _ _ hw => hw
  have hall : ∀ list, (UnitOfWork.commitAll Buffer.misses (shared caches) list).Prompt
      (Ready idle) := by
    intro list
    induction list with
    | nil => exact .pure
    | cons e rest ih =>
      have hfirst : ((UnitOfWork.focus (ρ := ρ) e.1).await
          (Buffer.commitWith Buffer.misses (shared caches e.2))).Prompt (Ready idle) :=
        (hbuffer e.2).focus (fun _ hs => hs) fun _ _ _ hx => hx
      exact hfirst.bind fun _ => ih
  refine .mapError (.bind (.ofStill fun _ _ => rfl) fun u => ?_)
  exact .bind (hall _) fun _ => .ofOp fun _ _ hw => hw

theorem commit_prompt {caches : ρ → Cache σ} (hd : ∀ r, Restarting (caches r) idle)
    (hdb : Calm db idle) (required : Bool) : (commit caches db required).Prompt (Ready idle) := by
  have hsession : (Session.commit db required).Hoare (Session.Sound (fun _ _ => True) false idle)
      fun _ s => Session.Sound (fun _ _ => True) false idle s := by
    refine Session.forgetting_sound nofun fun _ => ?_
    have hforgot : ∀ {s : Session × σ}, Session.Sound noneGood false idle s →
        Session.Sound (fun _ _ => True) false idle s := fun hs => ⟨hs.1.of_nothing, hs.2⟩
    cases required with
    | true => exact hdb.commit.second.mono (fun _ hs => hs) fun _ _ hs => hforgot hs
    | false => exact .pure fun _ hs => hforgot hs
  exact (onSession_ready hsession).bind fun _ => commitUnit_prompt hd

/-! ## The read of a query -/

variable {caches : Unit → Cache σ} {db : StatementRunner Unit σ}

/-- The unit has touched the shared cache. -/
def touch (caches : Unit → Cache σ) (u : UnitOfWork Unit) : UnitOfWork Unit :=
  (u.track () (caches ()).id).2

theorem find?_touch (u : UnitOfWork Unit) :
    (touch caches u).buffers.find? (caches ()).id = some ((), u.buffer (caches ()).id) := by
  rw [touch, UnitOfWork.find?_track, if_pos rfl]

/-- To touch the cache once more makes no difference. -/
theorem touch_touch (u : UnitOfWork Unit) : touch caches (touch caches u) = touch caches u := by
  have hfound : (touch caches u).buffers.find? (caches ()).id = _ := find?_touch u
  show ((touch caches u).track () (caches ()).id).2 = _
  rw [UnitOfWork.track, hfound]

/-- Reads the shared cache, which was touched before. -/
def readShared (caches : Unit → Cache σ) (k : CacheKey) : CachingCall Unit σ (Option Value) :=
  ((UnitOfWork.focus (caches ()).id).await (Buffer.get (shared caches ()) k)).mapError .cache

theorem readShared_restarts (hd : Restarting (caches ()) idle) (k : CacheKey) :
    (readShared caches k).Restarts (Ready idle) Error.IsLate := by
  have hread : (Buffer.get (shared caches ()) k).Restarts
      (fun s => s.2.1.closed = false ∧ idle s.2.2) CacheError.IsLate :=
    ((restarting_shared hd).get k).bind fun _ => .ofOp fun _ _ hw => hw
  have hpart : ((UnitOfWork.focus (ρ := Unit) (caches ()).id).await
      (Buffer.get (shared caches ()) k)).Restarts (Ready idle) CacheError.IsLate :=
    hread.focus (fun _ hs => hs) (fun _ _ _ hx => hx) fun s =>
      congrArg (·, s.2) (s.1.setBuffer_buffer _)
  exact hpart.mapError fun _ he => he

/-! ## Queries -/

variable {st : Statement Unit} {b : BoundStatement} {bounds : RowBounds}

theorem queryWithKey_ready (hdb : Calm db idle) (k : CacheKey) :
    (Await.ofOp (onSession (Session.queryWithKey db st b bounds k)) :
      CachingCall Unit σ Value).Prompt (Ready idle) := by
  have hquery : (db.query st b bounds).Hoare idle (Keeping idle fun _ => True) :=
    (hdb.query st b bounds).mono (fun _ hs => hs) fun _ _ hs => ⟨hs, fun _ _ => trivial⟩
  have hsession : (Session.queryWithKey db st b bounds k).Hoare
      (Session.Sound (fun _ _ => True) false idle) _ := Session.queryWithKey_sound fun _ => hquery
  exact onSession_ready (hsession.mono (fun _ hs => hs) fun _ _ hs => hs.1)

theorem afterRead_ready (hdb : Calm db idle) (k : CacheKey) (found : Option Value) :
    (afterRead caches db st b bounds k () found).Prompt (Ready idle) := by
  cases found with
  | some v => exact .pure
  | none =>
    refine (queryWithKey_ready hdb k).bind fun v => ?_
    exact (putCached_ready caches () k v).bind fun _ => .pure

/-- A query that does not come to the read does not wait. -/
theorem queryWithKey_prompt (hdb : Calm db idle) (k : CacheKey)
    (hst : st.applicableCache = none ∨ st.hasOutputParameters = true) :
    (queryWithKey caches db st b bounds k).Prompt (Ready idle) := by
  refine (flushIfRequired_ready caches st).bind fun _ => ?_
  cases hcache : st.applicableCache with
  | none => exact queryWithKey_ready hdb k
  | some r =>
    have houtput : st.hasOutputParameters = true := by
      rw [hcache] at hst
      exact hst.resolve_left nofun
    have hrefused : (Await.ofOp (ensureNoOutput st) : CachingCall Unit σ Unit).EndsAtOnce
        (Ready idle) fun r s => (∃ e, r = .error e) ∧ Ready idle s := by
      refine .ofOp fun c w hw => ?_
      rw [ensureNoOutput, if_pos houtput]
      exact ⟨⟨_, rfl⟩, hw⟩
    refine hrefused.bind_of ?_ fun _ _ hs => hs.2
    rintro _ c w ⟨⟨e, he⟩, -⟩
    cases he

theorem query_prompt (hdb : Calm db idle)
    (hst : st.applicableCache = none ∨ st.hasOutputParameters = true) :
    (query caches db st b bounds).Prompt (Ready idle) := by
  refine .bind (.ofStill fun _ _ => rfl) fun l => ?_
  exact .bind (.ofStill fun _ _ => rfl) fun k => queryWithKey_prompt hdb k hst

/-- A query of an open session under the key that the session makes for it. -/
theorem query_run {c : Caller} {w : World (State Unit σ)} (hw : w.state.2.1.closed = false) :
    query caches db st b bounds c w =
      queryWithKey caches db st b bounds (w.state.2.1.queryKey st b bounds) c w := by
  have hsession : (session : CachingOp Unit σ Session) c w = (.ok w.state.2.1, w) := rfl
  rw [query, Await.bind_of_done (Await.ofOp_of_eq hsession), Session.key_eq_ok hw]
  rfl

/-! ## Calls -/

/-- The statement belongs to the shared cache.  As by default, a select reads the cache,
and any other statement flushes it. -/
structure Attached (st : Statement Unit) : Prop where
  cache : st.cache = some ()
  flushCacheRequired : st.flushCacheRequired = !st.kind.isSelect
  useCache : st.useCache = st.kind.isSelect

/-- A statement that reads the cache does not flush it. -/
theorem Attached.not_flush (h : Attached st) (hr : st.applicableCache = some ()) :
    st.flushCacheRequired = false := by
  have huse : st.useCache = true := by
    rw [Statement.applicableCache] at hr
    by_contra hnot
    rw [if_neg hnot] at hr
    cases hr
  rw [h.flushCacheRequired, ← h.useCache, huse]
  rfl

/-- The call is a query, an update or a commit, and its statement is attached. -/
def Call.IsAttached : Call Unit → Prop
  | .query st _ _ | .update st _ => Attached st
  | .commit _ => True
  | .queryWithKey .. | .queryHandled .. | .queryCursor .. | .rollback _ | .close _ => False

/-- The call is a query, which has touched the shared cache and waits.  If the session is
as it was when it is resumed, then it is made anew, or it is late and changes nothing. -/
def Call.Waits (caches : Unit → Cache σ) (db : StatementRunner Unit σ) (call : Call Unit)
    (w : World (State Unit σ)) (o : Outcome Error (State Unit σ) Reply) : Prop :=
  (∃ st b bounds, call = .query st b bounds) ∧
    ∃ wait resume, o = .waiting ⟨w.env, (touch caches w.state.1, w.state.2)⟩ wait resume ∧
      ∀ c' w', w'.state.1 = touch caches w.state.1 → w'.state.2.1 = w.state.2.1 →
        resume c' w' = call.run caches db c' w' ∨
          ∃ e, resume c' w' = .done (.error e) w' ∧ e.IsLate

/-- How a query goes on from the read of the shared cache. -/
def answer (caches : Unit → Cache σ) (db : StatementRunner Unit σ) (st : Statement Unit)
    (b : BoundStatement) (bounds : RowBounds) (k : CacheKey) : CachingCall Unit σ Reply := do
  return .value (← readShared caches k >>= afterRead caches db st b bounds k ())

theorem answer_restarts (hd : Restarting (caches ()) idle) (hdb : Calm db idle) (k : CacheKey) :
    (answer caches db st b bounds k).Restarts (Ready idle) Error.IsLate :=
  ((readShared_restarts hd k).bind (afterRead_ready hdb k)).bind fun _ => .pure

/-- A query that the shared cache may answer comes to the read. -/
theorem Call.query_run (hr : st.applicableCache = some ()) (hf : st.flushCacheRequired = false)
    (ho : st.hasOutputParameters = false) (c : Caller) {w : World (State Unit σ)}
    (hw : w.state.2.1.closed = false) :
    (Call.query st b bounds).run caches db c w =
      answer caches db st b bounds (w.state.2.1.queryKey st b bounds) c
        ⟨w.env, (touch caches w.state.1, w.state.2)⟩ := by
  have hnoted : noteFlush caches st w.state.1 = w.state.1 := by
    rw [noteFlush, Statement.flushes, hf]
    rfl
  show (CachingSession.query caches db st b bounds c w).bind
    (fun v => (pure (Reply.value v) : CachingCall Unit σ Reply)) c = _
  rw [CachingSession.query_run hw, queryWithKey_run hr ho, hnoted]
  rfl

/-- A query that the shared cache may answer ends at once, or it waits for the read. -/
theorem Call.query_waits (hd : Restarting (caches ()) idle) (hdb : Calm db idle)
    (hr : st.applicableCache = some ()) (hf : st.flushCacheRequired = false)
    (ho : st.hasOutputParameters = false) (c : Caller) {w : World (State Unit σ)}
    (hw : Ready idle w.state) :
    (∃ r w', (Call.query st b bounds).run caches db c w = .done r w' ∧ Ready idle w'.state) ∨
      (Call.query st b bounds).Waits caches db w ((Call.query st b bounds).run caches db c w) := by
  have hwaits : (answer caches db st b bounds (w.state.2.1.queryKey st b bounds)).Restarts
      (Ready idle) Error.IsLate := answer_restarts hd hdb _
  rw [Call.query_run hr hf ho c hw.1]
  refine (hwaits c ⟨w.env, (touch caches w.state.1, w.state.2)⟩ hw).imp id ?_
  rintro ⟨wait, resume, hrun, hresume⟩
  refine ⟨⟨st, b, bounds, rfl⟩, wait, resume, hrun, fun c' w' hu hl => ?_⟩
  refine (hresume c' w').imp (fun heq => ?_) id
  -- The key is that of the same session, and the cache has been touched already.
  have hopen : w'.state.2.1.closed = false := hl ▸ hw.1
  rw [heq, Call.query_run hr hf ho c' hopen, hl, hu, touch_touch, ← hu]

/-- From a session that is ready every such call ends at once, and leaves it ready; or it
is a query, and waits. -/
theorem Call.ends_or_waits (hd : Restarting (caches ()) idle) (hdb : Calm db idle)
    {call : Call Unit} (hcall : call.IsAttached) (c : Caller) {w : World (State Unit σ)}
    (hw : Ready idle w.state) :
    (∃ r w', call.run caches db c w = .done r w' ∧ Ready idle w'.state) ∨
      call.Waits caches db w (call.run caches db c w) := by
  cases call with
  | update st b => exact .inl (((update_prompt hdb st b).bind fun _ => .pure) c w hw)
  | commit required =>
    exact .inl (((commit_prompt (fun _ => hd) hdb required).bind fun _ => .pure) c w hw)
  | query st b bounds =>
    by_cases hread : st.applicableCache = none ∨ st.hasOutputParameters = true
    · exact .inl (((query_prompt hdb hread).bind fun _ => .pure) c w hw)
    · rw [not_or] at hread
      obtain ⟨⟨⟩, hr⟩ := Option.ne_none_iff_exists'.1 hread.1
      exact query_waits hd hdb hr (Attached.not_flush hcall hr) (Bool.eq_false_iff.2 hread.2) c hw
  | queryWithKey | queryHandled | queryCursor | rollback | close => exact hcall.elim

end QueryCache.CachingSession
