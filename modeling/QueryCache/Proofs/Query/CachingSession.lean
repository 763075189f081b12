import Mathlib
import QueryCache.Proofs.Query.Session
import QueryCache.Proofs.Transaction.GuardedUnit
import QueryCache.Query.CachingSession

/-!
# What a caching session answers

If the results that the database gives are good, then so are the results that a
caching session gives, from the shared cache or not.  Once an update has run,
the shared cache is hidden from the unit until its commit clears it.  Between
two units nothing is buffered and nothing is remembered.

1. states of a caching session
2. the parts of a query
3. queries and updates
4. the end of a unit
-/

namespace QueryCache.CachingSession

open UnitOfWork (Buffers Working unlessHidden)
open Session (Recalls Sound Steady)

variable {σ : Type}

/-! ## States -/

/-- Values that are good while the session is open; a closed one gives none. -/
def whileOpen (closed : Bool) (good : CacheKey → Value → Prop) : CacheKey → Value → Prop :=
  fun k v => closed = false ∧ good k v

/-- A unit is running: what is buffered, what is remembered and what the shared
cache holds, unless it is hidden, are each of a kind of their own. -/
def Apart (holds : (CacheKey → Value → Prop) → σ → Prop)
    (buffered recalled good : CacheKey → Value → Prop) (id : String) (hidden closed : Bool)
    (s : State Unit σ) : Prop :=
  Buffers (whileOpen closed buffered) id hidden s.1 ∧
    Sound recalled closed (holds (unlessHidden hidden good)) s.2

/-- A unit is running: what is buffered is good, and so is what the shared
cache holds unless it is hidden; what is remembered is as stated. -/
def Running (holds : (CacheKey → Value → Prop) → σ → Prop) (recalled good : CacheKey → Value → Prop)
    (id : String) (hidden closed : Bool) (s : State Unit σ) : Prop :=
  Buffers (whileOpen closed good) id hidden s.1 ∧
    Sound recalled closed (holds (unlessHidden hidden good)) s.2

/-- A unit is running, and what is remembered is good too. -/
abbrev InUnit (holds : (CacheKey → Value → Prop) → σ → Prop) (good : CacheKey → Value → Prop)
    (id : String) (hidden closed : Bool) : State Unit σ → Prop :=
  Running holds good good id hidden closed

/-- No unit is running: nothing is buffered or remembered, and what the shared
cache holds is good. -/
def Between (holds : (CacheKey → Value → Prop) → σ → Prop) (good : CacheKey → Value → Prop)
    (id : String) (closed : Bool) (s : State Unit σ) : Prop :=
  Buffers noneGood id false s.1 ∧ Sound noneGood closed (holds good) s.2

variable {caches : Unit → Cache σ} {db : StatementRunner Unit σ} {copies : Bool}
  {holds : (CacheKey → Value → Prop) → σ → Prop}
  {own buffered recalled good : CacheKey → Value → Prop} {hidden closed : Bool}
  {st : Statement Unit} {b : BoundStatement} {w : RowBounds}

theorem Between.inUnit (hd : Guarded (caches ()) copies holds) {id : String} {s : State Unit σ}
    (h : Between holds good id closed s) : InUnit holds good id false closed s :=
  ⟨h.1.mono (fun _ _ => False.elim) fun hh => hh, h.2.1.of_nothing,
    hd.mono h.2.2 fun _ _ hk _ => hk⟩

/-- A running unit, with the session seen as a part of what the unit works on. -/
theorem apart_eq : Apart holds buffered recalled good (caches ()).id hidden closed =
    Working (fun g s => Sound recalled closed (holds g) s) (whileOpen closed buffered) good
      (shared caches ()).id hidden := rfl

theorem Apart.mono (hd : Guarded (caches ()) copies holds) {id : String} {s : State Unit σ}
    {buffered' recalled' good' : CacheKey → Value → Prop}
    (h : Apart holds buffered recalled good id hidden closed s)
    (hb : ∀ k v, buffered k v → buffered' k v) (hr : ∀ k v, recalled k v → recalled' k v)
    (hg : hidden = false → ∀ k v, good k v → good' k v) :
    Apart holds buffered' recalled' good' id hidden closed s :=
  ⟨h.1.mono (fun k v hk => ⟨hk.1, hb k v hk.2⟩) fun hh => hh,
    h.2.1.mono fun k v _ hk => hr k v hk, hd.mono h.2.2 fun k v hk hh => hg hh k v (hk hh)⟩

/-- The shared cache is guarded while the session holds its results. -/
theorem guarded_shared (hd : Guarded (caches ()) copies holds) :
    Guarded (shared caches ()) copies fun g s => Sound recalled closed (holds g) s :=
  hd.under Session.held (Recalls recalled closed)

/-! ## The parts of a query -/

theorem onSession_apart {α : Type} {m : Session.SessionOp σ α} {ok : α → Prop} {id : String}
    (h : m.Hoare (Sound recalled closed (holds (unlessHidden hidden good)))
      (Keeping (Sound recalled closed (holds (unlessHidden hidden good))) ok)) :
    (onSession m : CachingOp Unit σ α).Hoare (Apart holds buffered recalled good id hidden closed)
      (Keeping (Apart holds buffered recalled good id hidden closed) ok) :=
  h.second_keeping

theorem clear_apart (hcache : st.cache = some ()) (hflush : st.flushCacheRequired = true) :
    (flushIfRequired caches st : CachingOp Unit σ Unit).Hoare
      (Apart holds buffered recalled good (caches ()).id hidden closed) fun r s =>
        r = .ok () ∧ Buffers noneGood (caches ()).id true s.1 ∧
          Sound recalled closed (holds (unlessHidden hidden good)) s.2 := by
  unfold flushIfRequired
  rw [hcache, hflush]
  rw [apart_eq]
  exact Op.Hoare.mapError (UnitOfWork.clear_working.mono (fun _ hs => hs) fun r s hs =>
    ⟨by rw [hs.1]; rfl, hs.2⟩)

theorem flush_apart : (flushIfRequired caches st : CachingOp Unit σ Unit).Hoare
    (Apart holds buffered recalled good (caches ()).id hidden closed)
    (Keeping (Apart holds buffered recalled good (caches ()).id hidden closed)
      fun _ => True) := by
  cases hcache : st.cache with
  | none =>
    unfold flushIfRequired
    rw [hcache]
    exact Op.Hoare.pure fun s hs => ⟨hs, fun _ _ => trivial⟩
  | some r =>
    cases hflush : st.flushCacheRequired with
    | true =>
      refine (clear_apart hcache hflush).mono (fun _ hs => hs) ?_
      intro r s h
      rcases h with ⟨-, hu, hs⟩
      exact ⟨⟨hu.mono (fun _ _ => False.elim) fun _ => rfl, hs⟩, fun _ _ => trivial⟩
    | false =>
      unfold flushIfRequired
      rw [hcache, hflush]
      exact Op.Hoare.pure fun s hs => ⟨hs, fun _ _ => trivial⟩

theorem getCached_apart (hd : Guarded (caches ()) copies holds) (hcopied : Copied copies good)
    (k : CacheKey) : (getCached caches () k : CachingCall Unit σ _).Hoare
      (Apart holds buffered recalled good (caches ()).id hidden closed)
      (Keeping (Apart holds buffered recalled good (caches ()).id hidden closed) fun found =>
        ∀ v, found = some v → good k v) := by
  rw [apart_eq]
  exact Await.Hoare.mapError_keeping (UnitOfWork.get_working (guarded_shared hd) hcopied k)

theorem putCached_apart {k : CacheKey} {v : Value} (hopen : closed = false) (hv : buffered k v) :
    (putCached caches () k v : CachingOp Unit σ Unit).Hoare
      (Apart holds buffered recalled good (caches ()).id hidden closed)
      (Keeping (Apart holds buffered recalled good (caches ()).id hidden closed)
        fun _ => True) := by
  have hown : whileOpen closed buffered k v := ⟨hopen, hv⟩
  rw [apart_eq]
  exact Op.Hoare.mapError_keeping (UnitOfWork.put_working hown)

/-! ## Queries and updates -/

/-- What the query gives under a key is the unit's own, or comes from the shared
cache; what it buffers and remembers is the unit's own. -/
theorem queryWithKey_apart (hd : Guarded (caches ()) copies holds) (hcopied : Copied copies good)
    {key : CacheKey}
    (hdb : (db.query st b w).Hoare (holds (unlessHidden hidden good))
      (Keeping (holds (unlessHidden hidden good)) (own key))) :
    (queryWithKey caches db st b w key).Hoare
      (Apart holds own own good (caches ()).id hidden closed)
      (Keeping (Apart holds own own good (caches ()).id hidden closed) fun v =>
        own key v ∨ good key v) := by
  have hsession : (onSession (Session.queryWithKey db st b w key) : CachingOp Unit σ Value).Hoare
      (Apart holds own own good (caches ()).id hidden closed)
      (Keeping (Apart holds own own good (caches ()).id hidden closed) fun v =>
        closed = false ∧ own key v) :=
    onSession_apart (Session.queryWithKey_sound fun _ => hdb)
  refine Await.Hoare.bind_keeping (Await.Hoare.ofOp flush_apart) ?_
  intro _ _
  cases hcache : st.applicableCache with
  | none =>
    refine Await.Hoare.ofOp (hsession.mono (fun _ hs => hs) ?_)
    intro r s hs
    exact ⟨hs.1, fun v hv => .inl (hs.2 v hv).2⟩
  | some r =>
    have houtput : (ensureNoOutput st : CachingOp Unit σ Unit).Hoare
        (Apart holds own own good (caches ()).id hidden closed)
        (Keeping (Apart holds own own good (caches ()).id hidden closed) fun _ => True) := by
      unfold ensureNoOutput
      split
      · exact Op.Hoare.fail fun s hs => .error hs
      · exact Op.Hoare.pure fun s hs => ⟨hs, fun _ _ => trivial⟩
    refine Await.Hoare.bind_keeping (Await.Hoare.ofOp houtput) ?_
    intro _ _
    refine Await.Hoare.bind_keeping (getCached_apart hd hcopied key) ?_
    intro found hfound
    cases found with
    | some v =>
      refine Await.Hoare.pure ?_
      intro s hs
      refine ⟨hs, ?_⟩
      intro _ h
      cases h
      exact .inr (hfound v rfl)
    | none =>
      -- Nothing in the shared cache: the session answers, and the answer is buffered.
      refine Await.Hoare.bind_keeping (Await.Hoare.ofOp hsession) ?_
      intro v h
      rcases h with ⟨hopen, hv⟩
      refine Await.Hoare.bind_keeping (Await.Hoare.ofOp (putCached_apart hopen hv)) ?_
      intro _ _
      refine Await.Hoare.pure ?_
      intro s hs
      refine ⟨hs, ?_⟩
      intro _ h
      cases h
      exact .inl hv

/-- What the query gives under a key is good, whichever cache it comes from. -/
theorem queryWithKey_inUnit (hd : Guarded (caches ()) copies holds) (hcopied : Copied copies good)
    {key : CacheKey}
    (hdb : (db.query st b w).Hoare (holds (unlessHidden hidden good))
      (Keeping (holds (unlessHidden hidden good)) (good key))) :
    (queryWithKey caches db st b w key).Hoare (InUnit holds good (caches ()).id hidden closed)
      (Keeping (InUnit holds good (caches ()).id hidden closed) (good key)) := by
  refine (queryWithKey_apart hd hcopied hdb).mono (fun _ hs => hs) ?_
  intro r s hs
  exact ⟨hs.1, fun v hv => (hs.2 v hv).elim id id⟩

/-- A query answers under the key that some session makes for it. -/
theorem query_inUnit (hd : Guarded (caches ()) copies holds) (hcopied : Copied copies good)
    {ok : Value → Prop}
    (hdb : ∀ s : Session, (db.query st b w).Hoare (holds (unlessHidden hidden good))
      (Keeping (holds (unlessHidden hidden good))
        (good (CacheKey.ofComponents (s.keyComponents st b w)))))
    (hok : ∀ (s : Session) v, good (CacheKey.ofComponents (s.keyComponents st b w)) v → ok v) :
    (query caches db st b w).Hoare (InUnit holds good (caches ()).id hidden closed)
      (Keeping (InUnit holds good (caches ()).id hidden closed) ok) := by
  have hsession : (session : CachingOp Unit σ Session).Hoare
      (InUnit holds good (caches ()).id hidden closed)
      (Keeping (InUnit holds good (caches ()).id hidden closed) fun _ => True) := by
    intro t w hw c _
    exact ⟨hw, fun _ _ => trivial⟩
  refine Await.Hoare.bind_keeping (Await.Hoare.ofOp hsession) ?_
  intro l _
  have hkey : (Op.ofExcept (l.key st b w) : CachingOp Unit σ CacheKey).Hoare
      (InUnit holds good (caches ()).id hidden closed)
      (Keeping (InUnit holds good (caches ()).id hidden closed) fun k =>
        k = CacheKey.ofComponents (l.keyComponents st b w)) := by
    refine Op.Hoare.ofExcept ?_
    intro s hs
    refine ⟨hs, ?_⟩
    intro k hk
    unfold Session.key at hk
    split at hk
    · cases hk
    · cases hk
      rfl
  refine Await.Hoare.bind_keeping (Await.Hoare.ofOp hkey) ?_
  rintro _ rfl
  refine (queryWithKey_inUnit hd hcopied (hdb l)).mono (fun _ hs => hs) ?_
  intro r s hs
  exact ⟨hs.1, fun v hv => hok l v (hs.2 v hv)⟩

theorem queryHandled_inUnit {ok : Value → Prop}
    (hdb : (db.query st b w).Hoare (holds (unlessHidden hidden good))
      (Keeping (holds (unlessHidden hidden good)) ok)) :
    (queryHandled caches db st b w).Hoare (InUnit holds good (caches ()).id hidden closed)
      (Keeping (InUnit holds good (caches ()).id hidden closed) ok) := by
  refine Op.Hoare.bind_keeping flush_apart ?_
  intro _ _
  exact onSession_apart (Session.queryHandled_sound fun _ => hdb)

theorem queryCursor_inUnit {ok : Value → Prop}
    (hdb : (db.query st b w).Hoare (holds (unlessHidden hidden good))
      (Keeping (holds (unlessHidden hidden good)) ok)) :
    (queryCursor caches db st b w).Hoare (InUnit holds good (caches ()).id hidden closed)
      (Keeping (InUnit holds good (caches ()).id hidden closed) ok) := by
  refine Op.Hoare.bind_keeping flush_apart ?_
  intro _ _
  exact onSession_apart (Session.queryCursor_sound fun _ => hdb)

/-- An update that asks for a flush drops what is buffered.  If it fails on a
closed session, that is all; else nothing is remembered after it either. -/
theorem update_inUnit {after : Except Error Nat → σ → Prop} (hcache : st.cache = some ())
    (hflush : st.flushCacheRequired = true)
    (hdb : (db.update st b).Hoare (holds (unlessHidden hidden good)) after) :
    (update caches db st b).Hoare (InUnit holds good (caches ()).id hidden closed) fun r s =>
      Buffers noneGood (caches ()).id true s.1 ∧
        (((∃ e, r = .error e) ∧ Sound good closed (holds (unlessHidden hidden good)) s.2) ∨
          (closed = false ∧ Recalls noneGood closed s.2.1 ∧ after r s.2.2)) :=
  Op.Hoare.bind_ok (clear_apart hcache hflush) (Session.update_sound hdb).second

/-- Nothing is remembered after an update of an open session; what is buffered
stays, unless the update asks for a flush. -/
theorem update_apart {after : Except Error Nat → σ → Prop} (hcache : st.cache = some ())
    (hdb : (db.update st b).Hoare (holds (unlessHidden hidden good)) after) :
    (update caches db st b).Hoare
      (Apart holds buffered recalled good (caches ()).id hidden false) fun r s =>
        (if st.flushCacheRequired then Buffers noneGood (caches ()).id true s.1
          else Buffers (whileOpen false buffered) (caches ()).id hidden s.1) ∧
          Recalls noneGood false s.2.1 ∧ after r s.2.2 := by
  cases hflush : st.flushCacheRequired with
  | true => exact Op.Hoare.bind_ok (clear_apart hcache hflush) (Session.update_open hdb).second
  | false =>
    have hnone : (flushIfRequired caches st : CachingOp Unit σ Unit).Hoare
        (Apart holds buffered recalled good (caches ()).id hidden false) fun r s =>
          r = .ok () ∧ Apart holds buffered recalled good (caches ()).id hidden false s := by
      unfold flushIfRequired
      rw [hcache, hflush]
      exact Op.Hoare.pure fun s hs => ⟨rfl, hs⟩
    exact Op.Hoare.bind_ok hnone (Session.update_open hdb).second

/-! ## The end of a unit -/

theorem commitUnit_apart (hd : Guarded (caches ()) copies holds)
    (hown : ∀ k v, buffered k v → good k v)
    (hstorable : ∀ k v, good k v → Storable copies (some v)) :
    (commitUnit caches : CachingCall Unit σ Unit).Hoare
      (Apart holds buffered recalled good (caches ()).id hidden closed) fun r s =>
        r = .ok () ∧ Buffers noneGood (caches ()).id false s.1 ∧
          Sound recalled closed (holds good) s.2 := by
  rw [apart_eq]
  refine Await.Hoare.mapError ((UnitOfWork.commit_working (guarded_shared hd)
    (fun k v hk => hown k v hk.2) hstorable).mono (fun _ hs => hs) ?_)
  intro r s h
  rcases h with ⟨rfl, hs⟩
  exact ⟨rfl, hs⟩

theorem rollbackUnit_apart (hd : Guarded (caches ()) copies holds) :
    (rollbackUnit caches : CachingOp Unit σ Unit).Hoare
      (Apart holds buffered recalled good (caches ()).id hidden closed) fun r s =>
        r = .ok () ∧ Buffers noneGood (caches ()).id false s.1 ∧
          Sound recalled closed (holds (unlessHidden hidden good)) s.2 := by
  rw [apart_eq]
  refine Op.Hoare.mapError ((UnitOfWork.rollback_working (guarded_shared hd)).mono
    (fun _ hs => hs) ?_)
  intro r s h
  rcases h with ⟨rfl, hs⟩
  exact ⟨rfl, hs⟩

/-- A commit of an open session succeeds; it brings what was buffered to the shared cache. -/
theorem commit_apart (hd : Guarded (caches ()) copies holds)
    (hown : ∀ k v, buffered k v → good k v)
    (hstorable : ∀ k v, good k v → Storable copies (some v))
    (hdb : Steady db (holds (unlessHidden hidden good))) (required : Bool) :
    (commit caches db required).Hoare
      (Apart holds buffered recalled good (caches ()).id hidden false) fun r s =>
        r = .ok () ∧ Between holds good (caches ()).id false s := by
  have hsession : (onSession (Session.commit db required) : CachingOp Unit σ Unit).Hoare
      (Apart holds buffered recalled good (caches ()).id hidden false) fun r s =>
        r = .ok () ∧ Apart holds buffered noneGood good (caches ()).id hidden false s := by
    refine (Session.commit_sound hdb required).second.mono (fun _ hs => hs) ?_
    rintro r s ⟨hu, hs, hok⟩
    exact ⟨hok rfl, hu, hs⟩
  exact Await.Hoare.bind_ok (Await.Hoare.ofOp hsession) (commitUnit_apart hd hown hstorable)

/-- A commit ends the unit, also on a closed session, which has nothing to
commit. -/
theorem commit_inUnit (hd : Guarded (caches ()) copies holds)
    (hstorable : ∀ k v, good k v → Storable copies (some v))
    (hdb : Steady db (holds (unlessHidden hidden good))) (hopen : hidden = true → closed = false)
    (required : Bool) :
    (commit caches db required).Hoare (InUnit holds good (caches ()).id hidden closed) fun _ s =>
      Between holds good (caches ()).id closed s := by
  refine Await.Hoare.bind (Await.Hoare.ofOp (Session.commit_sound hdb required).second) ?_ ?_
  · intro _
    have hcommit : (commitUnit caches : CachingCall Unit σ Unit).Hoare
        (Apart holds good noneGood good (caches ()).id hidden closed) _ :=
      commitUnit_apart hd (fun _ _ hk => hk) hstorable
    exact hcommit.mono (fun s hs => ⟨hs.1, hs.2.1⟩) fun r s hs => hs.2
  · -- Only a closed session fails to commit, and no update ran on it.
    intro e s hpost
    rcases hpost with ⟨hu, hs, hok⟩
    have hclosed : closed = true := by
      rw [← Bool.not_eq_false]
      intro hc
      cases hok hc
    have hvisible : hidden = false := by
      rw [← Bool.not_eq_true]
      intro hh
      cases hclosed.symm.trans (hopen hh)
    refine ⟨hu.mono ?_ ?_, hs.1, hd.mono hs.2 fun _ _ hk => hk hvisible⟩
    · intro k v hpost
      rcases hpost with ⟨hc, -⟩
      cases hclosed.symm.trans hc
    · intro h
      cases h

theorem rollback_inUnit (hd : Guarded (caches ()) copies holds)
    (hdb : Steady db (holds (unlessHidden false good))) :
    (rollback caches db true).Hoare (InUnit holds good (caches ()).id false closed) fun _ s =>
      Between holds good (caches ()).id closed s := by
  refine Op.Hoare.bind_result (Session.rollback_sound hdb true).second ?_
  intro r
  refine Op.Hoare.bind_ok (rollbackUnit_apart hd) ?_
  refine Op.Hoare.ofExcept ?_
  intro s h
  rcases h with ⟨hu, hs⟩
  exact ⟨hu, hs.1, hd.mono hs.2 fun _ _ hk => hk rfl⟩

/-- A close ends the unit too; if it is forced, the shared cache must not be
hidden. -/
theorem close_inUnit (hd : Guarded (caches ()) copies holds)
    (hstorable : ∀ k v, good k v → Storable copies (some v)) (hdb : Steady db (holds good))
    (force : Bool) (hforce : force = true → hidden = false) :
    (close caches db force).Hoare (InUnit holds good (caches ()).id hidden closed) fun _ s =>
      Between holds good (caches ()).id true s := by
  have hend : ∀ result : Except Error Unit,
      (do
        .ofOp (onSession (Session.close db force))
        .ofOp (Op.ofExcept result) : CachingCall Unit σ Unit).Hoare
        (fun s => Buffers noneGood (caches ()).id false s.1 ∧ Sound good closed (holds good) s.2)
        fun _ s => Between holds good (caches ()).id true s := by
    intro result
    refine Await.Hoare.bind (Await.Hoare.ofOp (Session.close_sound hdb force).second) ?_ ?_
    · intro _
      exact Await.Hoare.ofOp (Op.Hoare.ofExcept fun s hs => hs)
    · intro e s hs
      exact hs
  cases force with
  | true =>
    have hvisible := hforce rfl
    refine Await.Hoare.bind_ok (Await.Hoare.ofOp (rollbackUnit_apart hd)) ?_
    refine (hend (.ok ())).mono ?_ fun _ _ hs => hs
    intro s h
    rcases h with ⟨hu, hs⟩
    exact ⟨hu, hs.1, hd.mono hs.2 fun _ _ hk => hk hvisible⟩
  | false =>
    refine Await.Hoare.bind_result (commitUnit_apart hd (fun _ _ hk => hk) hstorable) ?_
    intro r
    exact (hend r).mono (fun s hs => hs.2) fun _ _ hs => hs

end QueryCache.CachingSession
