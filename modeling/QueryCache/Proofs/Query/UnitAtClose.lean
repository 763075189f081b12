import Mathlib
import QueryCache.Proofs.Layer.Refusal
import QueryCache.Proofs.Query.ClosedSession
import QueryCache.Proofs.Query.SessionLocks

/-!
# The unit of a session that is closed

A close rolls the unit back or commits it, and then closes the session in any case.
A rollback always ends the unit: nothing is buffered, and the thread has no lock.  A
commit ends it too, unless a cache refuses a buffered value.  What the commit has not
come to is then kept, for a rollback that ends the unit later.

1. why a commit fails
2. what a refused commit keeps
3. the unit after a close
4. a lock that a close leaves behind
-/

namespace QueryCache

/-! ## Why a commit fails -/

namespace Buffer

variable {σ : Type} {d : Cache σ} {copies : Bool}

/-- A buffered value is the cause: a cache of copies cannot store it. -/
def Refused (copies : Bool) (id : String) (b : Buffer) (cause : CacheError) : Prop :=
  ∃ k x, (k, x) ∈ b.writes.toList ∧ Uncopied copies id x cause

/-- The values that a commit puts are those that were buffered. -/
theorem mem_writes_of_mem_planWith {b : Buffer} {misses : List CacheKey} {k : CacheKey} {v : Value}
    (h : .put k (some v) ∈ b.planWith misses) : (k, some v) ∈ b.writes.toList := by
  rcases List.mem_append.1 h with h | h
  · rcases List.mem_append.1 h with h | h
    · split at h
      · cases List.mem_singleton.1 h
      · cases h
    · obtain ⟨⟨k', x⟩, he, heq⟩ := List.mem_map.1 h
      cases heq
      exact he
  · obtain ⟨k', -, heq⟩ := List.mem_map.1 h
    cases heq

/-- The buffer is one that a commit has not emptied, or it is empty. -/
def EmptyOr (b : Buffer) (s : Buffer × σ) : Prop := s.1 = .empty ∨ s.1 = b

/-- Calls whose values were buffered fail because of one of these. -/
theorem runAll_refused (hd : RefusesUncopied d copies) (b : Buffer) {calls : List SharedCall}
    (hcalls : ∀ k v, .put k (some v) ∈ calls → (k, some v) ∈ b.writes.toList) :
    (SharedCall.runAll (shared d) calls).Throughout (EmptyOr b)
      (FailsOnlyAs (Refused copies d.id b)) := by
  induction calls with
  | nil => exact .pure (.of_ok ())
  | cons call rest ih =>
    have hcall : (call.run (shared d)).Throughout (EmptyOr b)
        (FailsOnlyAs (Refused copies d.id b)) := by
      cases call with
      | clear =>
        refine .mono (Await.Throughout.focus (fun _ _ => trivial) (fun _ _ hs _ => hs) hd.clear) ?_
        exact fun r hr e he => (hr e he).elim
      | put k x =>
        refine .mono (Await.Throughout.focus (fun _ _ => trivial) (fun _ _ hs _ => hs)
          (hd.put k x)) ?_
        intro r hr e he
        obtain ⟨hcopies, v, cause, rfl, hv⟩ := hr e he
        exact ⟨k, _, hcalls k v List.mem_cons_self, hcopies, v, cause, rfl, hv⟩
    exact hcall.bind (fun _ _ => ih fun k v h => hcalls k v (List.mem_cons_of_mem _ h))
      fun e he => .of_error (he e rfl)

theorem commitWith_refused (hd : RefusesUncopied d copies) (order : Buffer → List CacheKey)
    (b : Buffer) :
    (commitWith order d).Throughout (EmptyOr b) (FailsOnlyAs (Refused copies d.id b)) := by
  have hlayer : (Await.ofOp Op.layer : CacheCall (Buffer × σ) Buffer).Throughout (EmptyOr b)
      fun r => ∃ b', r = .ok b' ∧ (b' = .empty ∨ b' = b) :=
    .ofOp fun _ w hw => ⟨hw, w.state.1, rfl, hw⟩
  refine hlayer.bind ?_ ?_
  · rintro b' ⟨_, ⟨⟩, hb'⟩
    have hcalls : ∀ k v, .put k (some v) ∈ b'.planWith (order b') →
        (k, some v) ∈ b.writes.toList := by
      intro k v h
      rcases hb' with rfl | rfl
      · cases mem_writes_of_mem_planWith h
      · exact mem_writes_of_mem_planWith h
    refine (runAll_refused hd b hcalls).bind (fun _ _ => ?_) fun e he => .of_error (he e rfl)
    exact .ofOp fun _ _ _ => ⟨.inl rfl, .of_ok ()⟩
  · rintro e ⟨_, he, -⟩
    cases he

end Buffer

/-! ## What a refused commit keeps -/

namespace UnitOfWork

variable {ρ σ : Type} {caches : ρ → Cache σ} {copies : ρ → Bool}

/-- A value that was buffered for one of the caches is the cause. -/
def Refused (caches : ρ → Cache σ) (copies : ρ → Bool) (u : UnitOfWork ρ) (cause : CacheError) :
    Prop :=
  ∃ r, (u.buffer (caches r).id).Refused (copies r) (caches r).id cause

/-- One buffer after the other is emptied, up to one with a value that is refused. -/
theorem commitAll_refused (hd : ∀ r, RefusesUncopied (caches r) (copies r))
    (misses : Buffer → List CacheKey) (u : UnitOfWork ρ) {list : List (String × ρ)}
    (hlist : ∀ e ∈ list, (caches e.2).id = e.1) :
    (commitAll misses caches list).Throughout (fun s => Emptied u s.1)
      (FailsOnlyAs (Refused caches copies u)) := by
  induction list with
  | nil => exact .pure (.of_ok ())
  | cons entry rest ih =>
    obtain ⟨id, r⟩ := entry
    obtain rfl : (caches r).id = id := hlist (id, r) List.mem_cons_self
    have hset : ∀ (s : UnitOfWork ρ × σ) (x : Buffer × σ), Emptied u s.1 →
        Buffer.EmptyOr (u.buffer (caches r).id) x →
          Emptied u (s.1.setBuffer (caches r).id x.1) := by
      intro s x hs hx id'
      cases hfind : s.1.buffers.find? (caches r).id with
      | none =>
        rw [setBuffer, hfind]
        exact hs id'
      | some e =>
        rw [buffer_setBuffer s.1 hfind]
        split
        · rename_i hid
          rw [hid]
          exact hx
        · exact hs id'
    have hfirst := (Buffer.commitWith_refused (hd r) misses (u.buffer (caches r).id)).focus
      (f := focus (caches r).id) (fun s hs => hs _) hset
    refine hfirst.bind (fun _ _ => ih fun e he => hlist e (List.mem_cons_of_mem _ he)) ?_
    exact fun e he => .of_error ⟨r, he e rfl⟩

theorem commitWith_refused (hd : ∀ r, RefusesUncopied (caches r) (copies r))
    {order : UnitOfWork ρ → List (String × ρ)} (ho : ∀ u, (order u).Perm u.touched)
    {misses : Buffer → List CacheKey} {u : UnitOfWork ρ} (hu : Filed caches u)
    (others : σ → σ → Prop) (t : Thread) :
    (commitWith order misses caches).HoareAmid (Beside others) t (fun s => s.1 = u)
      fun x s => Emptied u s.1 ∧ FailsOnlyAs (Refused caches copies u) x := by
  have hlist : ∀ e ∈ order u, (caches e.2).id = e.1 := by
    intro e he
    obtain ⟨b, hb⟩ := touched_of_perm (ho u) e he
    exact hu e.1 e.2 b hb
  have hlayer : (Await.ofOp Op.layer : CacheCall (UnitOfWork ρ × σ) (UnitOfWork ρ)).HoareAmid
      (Beside others) t (fun s => s.1 = u) fun x s => x = .ok u ∧ Emptied u s.1 := by
    refine .ofOp ?_
    rintro c w - rfl
    exact ⟨rfl, fun _ => .inr rfl⟩
  have hall : (commitAll misses caches (order u)).HoareAmid (Beside others) t
      (fun s => Emptied u s.1) fun x s => Emptied u s.1 ∧ FailsOnlyAs (Refused caches copies u) x :=
    (commitAll_refused hd misses u hlist).amid
      (fun s s' (h : Beside others s s') hs => h.1 ▸ hs) t
  refine .bind_ok hlayer (.bind hall (fun _ => .ofOp ?_) fun _ _ hs => ?_)
  · rintro c w - ⟨hs, -⟩
    exact ⟨hs, .of_ok ()⟩
  · exact hs

end UnitOfWork

namespace CachingSession

variable {ρ σ : Type} {caches : ρ → Cache σ} {copies : ρ → Bool}

/-- A commit fails because of a buffered value, and what it has not emptied stays as it was. -/
theorem commitUnitIn_refused (hd : ∀ r, RefusesUncopied (caches r) (copies r)) (o : FlushOrder ρ)
    {u : UnitOfWork ρ} (hu : UnitOfWork.Filed (shared caches) u) (others : σ → σ → Prop)
    (t : Thread) :
    (commitUnitIn o caches).HoareAmid (Beside (Beside others)) t (fun s => s.1 = u)
      fun x s => UnitOfWork.Emptied u s.1 ∧
        FailsOnlyAs (fun e => ∃ cause, e = .cache cause ∧
          UnitOfWork.Refused (shared caches) copies u cause) x := by
  have hshared : ∀ r, RefusesUncopied (shared caches r) (copies r) := fun r => (hd r).within _
  refine .mapError ((UnitOfWork.commitWith_refused hshared o.buffers_perm hu (Beside others)
    t).mono (fun _ hs => hs) ?_)
  rintro x s ⟨hs, hx⟩
  exact ⟨hs, hx.mapError fun cause hcause => ⟨cause, rfl, hcause⟩⟩

end CachingSession

/-! ## The unit after a close -/

namespace Rack

open CachingSession

variable {ρ δ : Type} {stack : ρ → Stack} {t : Thread}

/-- The unit is at its end: nothing is buffered, and the thread has no lock. -/
structure Ended (t : Thread) (s : State ρ (Rack stack δ)) : Prop where
  buffers : NothingBuffered s.1
  locks : ∀ r k, ¬ HasLock t s.2.2 r k

variable [DecidableEq ρ] {held : ρ → Rack stack δ → List Value}
  {db : StatementRunner ρ (Rack stack δ)}

theorem ended_of_covered {s : State ρ (Rack stack δ)}
    (hs : Covered (Bounded t) (cache stack held) s) (hempty : NothingBuffered s.1) : Ended t s :=
  ⟨hempty, fun r k hk => UnitOfWork.Covered.unlocked hs hempty r k hk⟩

/-- A refused commit has left the unit open: what it has not emptied is as it was, each lock that
the thread has is that of a missed key, and a rollback ends the unit. -/
structure LeftOpen (held : ρ → Rack stack δ → List Value) (db : StatementRunner ρ (Rack stack δ))
    (t : Thread) (s s' : State ρ (Rack stack δ)) : Prop where
  buffers : UnitOfWork.Emptied s.1 s'.1
  locks : ∀ r k, HasLock t s'.2.2 r k → k ∈ (s'.1.buffer (stack r).id).misses
  rollback : ∀ call : Call ρ, call = .rollback true ∨ call = .close true →
    ∀ (y : Rack stack δ) (o : FlushOrder ρ) (c : Caller) (e : Environment), Spares t s'.2.2 y →
      c.thread = t → ∃ w, call.runIn o (cache stack held) db c ⟨e, (s'.1, s'.2.1, y)⟩ =
        .done (.ok .nothing) w ∧ Ended t w.state

section Rollback

variable (hl : LockingFamily (Spares t) t (Bounded t) (cache stack held)) {o : FlushOrder ρ}
  {c : Caller} {w : World (State ρ (Rack stack δ))} (hc : c.thread = t)
  (hw : Covered (Bounded t) (cache stack held) w.state)

include hl hc hw

/-- A rollback of a closed session ends the unit. -/
theorem runIn_rollback (hclosed : w.state.2.1.closed = true) :
    ∃ w', (Call.rollback true).runIn o (cache stack held) db c w = .done (.ok .nothing) w' ∧
      Ended t w'.state := by
  obtain ⟨w', hunit, hs, hempty⟩ := rollbackUnitIn_run hl o hc hw
  have hsession : (onSession (Session.rollback db true)).result c w =
      ((.ok (.ok ()) : Except Error (Except Error Unit)), w) := by
    show (Except.ok (onSession (Session.rollback db true) c w).1,
      (onSession (Session.rollback db true) c w).2) = _
    rw [Session.rollback, onSession_skipped _ hclosed]
  have hrun : rollbackIn o (cache stack held) db true c w = (.ok (), w') := by
    rw [rollbackIn, Op.bind_of_ok hsession, if_pos rfl, Op.bind_of_ok hunit]
    rfl
  exact ⟨w', (Await.bind_of_done (Await.ofOp_of_eq hrun)).trans rfl, ended_of_covered hs hempty⟩

/-- So does a close that forces a rollback. -/
theorem runIn_close (hdb : ∀ bound, db.Keeps (Bounded t bound)) :
    ∃ w', (Call.close true).runIn o (cache stack held) db c w = .done (.ok .nothing) w' ∧
      w'.state.2.1.closed = true ∧ Ended t w'.state := by
  obtain ⟨w', hrun, hclosed, hs, hempty⟩ := closeIn_true_run hl hdb o hc hw
  exact ⟨w', (Await.bind_of_done hrun).trans rfl, hclosed, ended_of_covered hs hempty⟩

end Rollback

/-- Whatever a thread has done with its session, a close leaves the session closed and ends
the unit: the thread has no lock, and nothing is buffered.  There is one exception: a
close that commits, and fails because a cache of copies refuses a buffered value that
has no snapshot, leaves the unit open for a rollback. -/
theorem close_ends_unit {b : ρ → CacheBuilder} (hbuilt : IsBuilt b stack)
    {cachesHeld : (∀ r, (stack r).State) → List Value} {db : StatementRunner ρ δ}
    {s₀ s : State ρ (Rack stack δ)} (hnew : s₀.1.buffers = .empty)
    (hfree : ∀ r k, ¬ HasLock t s₀.2.2 r k)
    (hsteps : Relation.ReflTransGen
      (Steps (cache stack held) (database stack cachesHeld db) (Spares t) t) s₀ s)
    {force : Bool} {o : FlushOrder ρ} {c : Caller} {e : Environment} {x : Except Error Reply}
    {w : World (State ρ (Rack stack δ))} (hc : c.thread = t)
    (hclose : ((Call.close force).runIn o (cache stack held) (database stack cachesHeld db) c
      ⟨e, s⟩).SettlesAmid (Beside (Beside (Spares t))) t x w) :
    w.state.2.1.closed = true ∧
      ((x = .ok .nothing ∧ Ended t w.state) ∨
        (force = false ∧
          (∃ cause, x = .error (.cache cause) ∧
            UnitOfWork.Refused (cache stack held) (fun r => (b r).readWrite) s.1 cause) ∧
          LeftOpen held (database stack cachesHeld db) t s w.state)) := by
  have hl := lockingFamily_cache hbuilt held t
  have hdb := database_keeps cachesHeld db t
  have hstart : Covered (Bounded t) (cache stack held) s₀ := by
    refine ⟨fun id r b hb => ?_, fun r k hk => absurd hk (hfree r k)⟩
    rw [hnew] at hb
    cases hb
  have hs := hstart.steps hl hdb hsteps
  cases force with
  | true =>
    obtain ⟨w', hrun, hclosed, hended⟩ := runIn_close hl (o := o) (w := ⟨e, s⟩) hc hs hdb
    rw [hrun] at hclose
    cases hclose
    exact ⟨hclosed, .inl ⟨rfl, hended⟩⟩
  | false =>
    have hrefuses : ∀ r, RefusesUncopied (cache stack held r) (b r).readWrite := fun r =>
      (CacheBuilder.refuses_of_build (hbuilt.implementation r) (hbuilt.decorators r)
        (hbuilt.build r)).within _
    have hunit := ((commitUnitIn_ends hl o).mono
      (fun s' (h : Covered (Bounded t) (cache stack held) s' ∧ s'.1 = s.1) => h.1)
      fun _ _ h => h).and ((commitUnitIn_refused hrefuses o hs.1 (Spares t) t).mono
        (fun _ h => h.2) fun _ _ h => h)
    have hends := closeIn_false_ends (P := fun x u => (x = .ok () → NothingBuffered u) ∧
      UnitOfWork.Emptied s.1 u ∧ FailsOnlyAs (fun e => ∃ cause, e = .cache cause ∧
        UnitOfWork.Refused (shared (cache stack held)) (fun r => (b r).readWrite) s.1 cause) x)
      hdb o (hunit.mono (fun _ h => h) fun _ _ h => ⟨h.1.1, h.1.2, h.2⟩)
    obtain ⟨y, hend, rfl⟩ := settles_of_reply hclose
    obtain ⟨hclosed, hs', hok, hemptied, herr⟩ := (hends c ⟨e, s⟩ hc ⟨hs, rfl⟩).settles hend
    refine ⟨hclosed, ?_⟩
    cases y with
    | ok u => exact .inl ⟨rfl, ended_of_covered hs' (hok rfl)⟩
    | error err =>
      obtain ⟨cause, rfl, hrefused⟩ := herr err rfl
      refine .inr ⟨rfl, ⟨cause, rfl, hrefused⟩, hemptied, fun r k hk => ?_, ?_⟩
      · rw [← id_cache held r]
        exact hs'.2 r k hk
      · intro call hcall y o c e hy hc
        have hs'' : Covered (Bounded t) (cache stack held) (w.state.1, w.state.2.1, y) :=
          ⟨hs'.1, hl.spared hs'.2 hy⟩
        rcases hcall with rfl | rfl
        · exact runIn_rollback hl (w := ⟨e, _⟩) hc hs'' hclosed
        · obtain ⟨w', hrun, -, hended⟩ := runIn_close hl (w := ⟨e, _⟩) hc hs'' hdb
          exact ⟨w', hrun, hended⟩

/-! ## A lock that a close leaves behind -/

/-- After a close nothing is buffered, and the thread has no lock, whatever the close gave. -/
def CloseEnds : Prop :=
  ∀ (ρ δ : Type) [DecidableEq ρ] (b : ρ → CacheBuilder) (stack : ρ → Stack),
    IsBuilt b stack → (∀ r, (b r).blocking = true) →
      ∀ (held : ρ → Rack stack δ → List Value) (cachesHeld : (∀ r, (stack r).State) → List Value)
        (db : StatementRunner ρ δ) (t : Thread) (s₀ s : State ρ (Rack stack δ)),
        s₀.1.buffers = .empty → (∀ r k, ¬ HasLock t s₀.2.2 r k) →
        Relation.ReflTransGen
          (Steps (cache stack held) (database stack cachesHeld db) (Spares t) t) s₀ s →
        ∀ (force : Bool) (o : FlushOrder ρ) (c : Caller) (e : Environment)
          (x : Except Error Reply) (w : World (State ρ (Rack stack δ))), c.thread = t →
          ((Call.close force).runIn o (cache stack held) (database stack cachesHeld db) c
            ⟨e, s⟩).SettlesAmid (Beside (Beside (Spares t))) t x w → Ended t w.state

/-- The builder of a blocking read-write cache for one entry. -/
def lockedBuilder : Unit → CacheBuilder :=
  fun _ => { id := "users", size := some 1, blocking := true }

/-- The cache. -/
def lockedStack : Unit → Stack :=
  fun _ => ⟨"users", [.blocking none, .synchronized, .statistics, .serialized, .lru 1]⟩

theorem isBuilt_locked : IsBuilt lockedBuilder lockedStack where
  implementation _ := rfl
  decorators _ := rfl
  build _ := rfl
  ids _ _ _ := rfl

/-- The cache, of which nothing else is held. -/
abbrev locked : Unit → Cache (Rack lockedStack UsersTable) := cache lockedStack fun _ _ => []

/-- An empty table beside the cache. -/
abbrev lockedTable : StatementRunner Unit (Rack lockedStack UsersTable) :=
  database lockedStack (fun _ => []) UsersTable.runner

/-- A new session over the empty cache; a value was allocated. -/
def unused : World (State Unit (Rack lockedStack UsersTable)) :=
  ⟨{ nextAlloc := 1 }, ({}, {}, (fun _ => (lockedStack ()).initial 0, { rows := [] }))⟩

/-- A read has missed. -/
def missedFirst : World (State Unit (Rack lockedStack UsersTable)) :=
  (getCached locked () .null ⟨"main", []⟩ unused).world

/-- A read of another key has missed. -/
def missedSecond : World (State Unit (Rack lockedStack UsersTable)) :=
  (getCached locked () KeyBuilder.empty.build ⟨"main", []⟩ missedFirst).world

/-- A plain value is buffered for the first key. -/
def wrotePlain : World (State Unit (Rack lockedStack UsersTable)) :=
  (putCached locked () .null (.data 0 (.bool true) false) ⟨"main", []⟩ missedSecond).2

/-- The session is closed. -/
def closedRefused : World (State Unit (Rack lockedStack UsersTable)) :=
  ((Call.close false).runIn .asTouched locked lockedTable ⟨"main", []⟩ wrotePlain).world

theorem steps_wrotePlain : Relation.ReflTransGen
    (Steps locked lockedTable (Spares "main") "main") unused.state wrotePlain.state := by
  have hget₁ : (getCached locked () .null ⟨"main", []⟩ ⟨unused.env, unused.state⟩).SettlesAmid
      (Beside (Beside (Spares "main"))) "main" (.ok none) missedFirst := .of_done ⟨_, by rfl⟩
  have hget₂ : (getCached locked () KeyBuilder.empty.build ⟨"main", []⟩
      ⟨missedFirst.env, missedFirst.state⟩).SettlesAmid (Beside (Beside (Spares "main"))) "main"
        (.ok none) missedSecond := .of_done ⟨_, by rfl⟩
  have h₁ : Steps locked lockedTable (Spares "main") "main" unused.state missedFirst.state :=
    .getCached rfl hget₁
  have h₂ : Steps locked lockedTable (Spares "main") "main" missedFirst.state missedSecond.state :=
    .getCached rfl hget₂
  have h₃ : Steps locked lockedTable (Spares "main") "main" missedSecond.state wrotePlain.state :=
    .putCached () .null (.data 0 (.bool true) false) (c := ⟨"main", []⟩) rfl
  exact ((Relation.ReflTransGen.single h₁).tail h₂).tail h₃

theorem close_wrotePlain : ((Call.close false).runIn .asTouched locked lockedTable ⟨"main", []⟩
    ⟨wrotePlain.env, wrotePlain.state⟩).SettlesAmid (Beside (Beside (Spares "main"))) "main"
      (.error (.cache (.notSerializable "users" "bool"))) closedRefused := .of_done ⟨_, by rfl⟩

/-- The thread still has the lock of the second key. -/
theorem not_closeEnds : ¬ CloseEnds := by
  intro h
  have hended := h Unit UsersTable lockedBuilder lockedStack isBuilt_locked (fun _ => rfl)
    (fun _ _ => []) (fun _ => []) UsersTable.runner "main" unused.state wrotePlain.state rfl
    (fun r k hk => nomatch hk) steps_wrotePlain false .asTouched ⟨"main", []⟩ wrotePlain.env _ _
    rfl close_wrotePlain
  exact hended.locks () KeyBuilder.empty.build (by rfl)

/-- The lock is left for the rollback that the refused commit leaves the unit open for. -/
theorem close_ends_unit_refused :
    HasLock "main" closedRefused.state.2.2 () KeyBuilder.empty.build ∧
      KeyBuilder.empty.build ∈ (closedRefused.state.1.buffer "users").misses ∧
      ∃ w, (Call.rollback true).run locked lockedTable ⟨"main", []⟩ closedRefused =
        .done (.ok .nothing) w ∧ Ended "main" w.state := by
  have hnew : unused.state.1.buffers = .empty := rfl
  have hclosed := close_ends_unit isBuilt_locked hnew
    (fun r k hk => nomatch hk) steps_wrotePlain rfl close_wrotePlain
  have hlock : HasLock "main" closedRefused.state.2.2 () KeyBuilder.empty.build := by rfl
  rcases hclosed.2 with ⟨hok, -⟩ | ⟨-, -, hopen⟩
  · cases hok
  · refine ⟨hlock, hopen.locks () _ hlock, ?_⟩
    rw [← Call.runIn_asTouched]
    exact hopen.rollback (.rollback true) (.inl rfl) closedRefused.state.2.2 .asTouched
      ⟨"main", []⟩ closedRefused.env (fun _ _ => .rfl) rfl

end Rack

end QueryCache
