import Mathlib
import QueryCache.Layer.Blocking
import QueryCache.Proofs.Cache.Operation
import QueryCache.Proofs.Transaction.LockedStore

/-!
# The steps of calls behind locks

Calls of many threads on a layer of locks, each split where another thread can
come in between: at its lock, at the cache below it, and where it gives the
lock back.  Every thread is at a *stage* of its call; a *step* takes one thread
on, at any time, and is labelled with what it did.

1. calls and stages
2. steps and runs
3. the cache below a layer leaves the layer alone
4. what a run keeps
5. calls are runs of steps
-/

namespace QueryCache.LockSteps

/-! ## Calls -/

/-- A call on a cache. -/
inductive Call where
  | put (key : CacheKey) (value : Option Value)
  | get (key : CacheKey)
  | remove (key : CacheKey)
  | releaseLock (key : CacheKey)
  | clear
  | size
deriving DecidableEq

namespace Call

/-- What a call gives. -/
def Answer : Call → Type
  | put _ _ | releaseLock _ | clear => Unit
  | get _ | remove _ => Option Value
  | size => Nat

/-- How a call ends. -/
abbrev Result (call : Call) : Type := Except CacheError call.Answer

/-- The key that a call is about. -/
def key? : Call → Option CacheKey
  | put k _ | get k | remove k | releaseLock k => some k
  | clear | size => none

/-- The call as an operation of a cache. -/
def on {σ : Type} (d : Cache σ) : (call : Call) → CacheCall σ call.Answer
  | put k x => d.put k x
  | get k => d.get k
  | remove k => d.remove k
  | releaseLock k => .ofOp (d.releaseLock k)
  | clear => d.clear
  | size => d.size

/-- A read that found nothing: the only call that ends with a lock. -/
def Missed : (call : Call) → call.Result → Prop
  | get _, r => r = .ok (none : Option Value)
  | _, _ => False

/-- Whether the thread has the lock of the call while the cache below runs. -/
def Guards (t : Thread) (locks : KeyLocks) : Call → Prop
  | get k => locks.find? k = some t
  | remove k | releaseLock k => locks.find? k ≠ some t
  | put _ _ | clear | size => True

end Call

/-! ## Stages -/

variable {σ : Type}

/-- The rest of a part of a call that waits. -/
abbrev Resume (σ α : Type) : Type :=
  Caller → World (KeyLocks × σ) → Outcome CacheError (KeyLocks × σ) α

/-- How far a thread is in its call. -/
inductive Stage (σ : Type) where
  | idle
  /-- A read has to take the lock next. -/
  | locking (key : CacheKey)
  /-- A read waits for the lock. -/
  | waiting (key : CacheKey) (wait : Wait (KeyLocks × σ)) (resume : Resume σ Unit)
  /-- The cache below is called next. -/
  | calling (call : Call)
  /-- The call of the cache below waits. -/
  | suspended (call : Call) (wait : Wait (KeyLocks × σ)) (resume : Resume σ call.Answer)
  /-- The result is there, and the lock is given back next. -/
  | releasing (call : Call) (result : call.Result)
  /-- The lock is given back next, and then the cache below is told. -/
  | freeing (key : CacheKey)
  /-- The call returns next. -/
  | answering (call : Call) (result : call.Result)

namespace Stage

/-- The stage at which a call begins. -/
def first : Call → Stage σ
  | .get k => .locking k
  | .remove k => .releasing (.remove k) (.ok none)
  | .releaseLock k => .freeing k
  | call => .calling call

/-- The stage after the cache below has given its result: a put gives the lock
back, and so does a read that did not miss. -/
def afterBelow : (call : Call) → call.Result → Stage σ
  | .put k x, r => .releasing (.put k x) r
  | .get k, .ok none => .answering (.get k) (.ok none)
  | .get k, r => .releasing (.get k) r
  | call, r => .answering call r

end Stage

/-- The locks, the cache below, and how far each thread is. -/
structure State (σ : Type) where
  locks : KeyLocks
  below : σ
  stages : Thread → Stage σ

/-- No thread is in a call. -/
def State.opening (locks : KeyLocks) (below : σ) : State σ := ⟨locks, below, fun _ => .idle⟩

namespace State

/-- What a call finds. -/
def world (s : State σ) (e : Environment) : World (KeyLocks × σ) := ⟨e, (s.locks, s.below)⟩

/-- The state after a thread has left this world and gone on to a stage. -/
def after (s : State σ) (t : Thread) (w : World (KeyLocks × σ)) (stage : Stage σ) : State σ :=
  ⟨w.state.1, w.state.2, Function.update s.stages t stage⟩

/-- The state after a thread has gone on to a stage and done nothing else. -/
def move (s : State σ) (t : Thread) (stage : Stage σ) : State σ :=
  { s with stages := Function.update s.stages t stage }

@[simp]
theorem stages_after_self (s : State σ) (t : Thread) (w : World (KeyLocks × σ))
    (stage : Stage σ) : (s.after t w stage).stages t = stage := Function.update_self ..

@[simp]
theorem stages_after_ne (s : State σ) {t t' : Thread} (h : t' ≠ t) (w : World (KeyLocks × σ))
    (stage : Stage σ) : (s.after t w stage).stages t' = s.stages t' := Function.update_of_ne h ..

@[simp]
theorem stages_move_self (s : State σ) (t : Thread) (stage : Stage σ) :
    (s.move t stage).stages t = stage := Function.update_self ..

@[simp]
theorem stages_move_ne (s : State σ) {t t' : Thread} (h : t' ≠ t) (stage : Stage σ) :
    (s.move t stage).stages t' = s.stages t' := Function.update_of_ne h ..

/-- The state after the lock of a read was taken, or was not. -/
def afterLock (s : State σ) (t : Thread) (k : CacheKey) :
    Outcome CacheError (KeyLocks × σ) Unit → State σ
  | .done (.ok ()) w => s.after t w (.calling (.get k))
  | .done (.error e) w => s.after t w (.answering (.get k) (.error e))
  | .waiting w wait resume => s.after t w (.waiting k wait resume)

/-- The state after a call of the cache below came to its end, or to a wait. -/
def afterBelow (s : State σ) (t : Thread) (call : Call) :
    Outcome CacheError (KeyLocks × σ) call.Answer → State σ
  | .done r w => s.after t w (.afterBelow call r)
  | .waiting w wait resume => s.after t w (.suspended call wait resume)

end State

/-! ## Steps -/

/-- What a thread does in a step. -/
inductive Act where
  | start (call : Call)
  /-- A read takes the lock. -/
  | lock (key : CacheKey)
  /-- A read begins to wait for the lock. -/
  | wait (key : CacheKey)
  /-- A read gives up waiting for the lock. -/
  | giveUp (key : CacheKey)
  /-- The cache below is called, or goes on after a wait of its own. -/
  | below (call : Call)
  /-- The lock is given back, if the thread holds it. -/
  | release (call : Call)
  | answer (call : Call) (result : call.Result)

namespace Act

/-- The key that a step is about. -/
def key? : Act → Option CacheKey
  | start call | below call | release call | answer call _ => call.key?
  | lock k | wait k | giveUp k => some k

/-- The step looks at the locks at most. -/
def IsQuiet : Act → Prop
  | start _ | wait _ | giveUp _ | answer _ _ => True
  | lock _ | below _ | release _ => False

/-- What a step at the lock of a read was. -/
def ofLock (k : CacheKey) : Outcome CacheError (KeyLocks × σ) Unit → Act
  | .done (.ok _) _ => lock k
  | .done (.error _) _ => giveUp k
  | .waiting .. => wait k

/-- Who holds the lock of a key after a step of a thread. -/
def holder (t : Thread) (k : CacheKey) (before : Option Thread) : Act → Option Thread
  | lock k' => if k = k' then some t else before
  | release call => if call.key? = some k ∧ before = some t then none else before
  | _ => before

end Act

section Steps

variable (timeout : Option Duration) (d : Cache σ)

/-- A read of the thread comes to its lock, at first or after its wait. -/
def State.AtLock (s : State σ) (t : Thread) (k : CacheKey)
    (o : Outcome CacheError (KeyLocks × σ) Unit) : Prop :=
  ∃ c e, c.thread = t ∧
    ((s.stages t = .locking k ∧ o = Blocking.acquire timeout d.id k c (s.world e)) ∨
      ∃ wait resume, s.stages t = .waiting k wait resume ∧ wait.IsOver (s.world e) ∧
        o = resume c (s.world e))

/-- A call of the thread comes to the cache below, at first or after a wait there. -/
def State.AtBelow (s : State σ) (t : Thread) (call : Call)
    (o : Outcome CacheError (KeyLocks × σ) call.Answer) : Prop :=
  ∃ c e, c.thread = t ∧
    ((s.stages t = .calling call ∧ o = call.on (Blocking.below d) c (s.world e)) ∨
      ∃ wait resume, s.stages t = .suspended call wait resume ∧ wait.IsOver (s.world e) ∧
        o = resume c (s.world e))

/-- One step of one thread, at any time. -/
inductive Step : State σ → Thread → Act → State σ → Prop where
  | start {s t} (call : Call) (hs : s.stages t = .idle) :
      Step s t (.start call) (s.move t (.first call))
  | lock {s t k o} (h : s.AtLock timeout d t k o) : Step s t (.ofLock k o) (s.afterLock t k o)
  | below {s t call o} (h : s.AtBelow d t call o) : Step s t (.below call) (s.afterBelow t call o)
  | release {s t call r k c e w} (hc : c.thread = t) (hs : s.stages t = .releasing call r)
      (hk : call.key? = some k)
      (hr : Blocking.release k c (s.world e) = ((.ok (), w) : Except CacheError Unit × _)) :
      Step s t (.release call) (s.after t w (.answering call r))
  | free {s t k c e w} (hc : c.thread = t) (hs : s.stages t = .freeing k)
      (hr : Blocking.release k c (s.world e) = ((.ok (), w) : Except CacheError Unit × _)) :
      Step s t (.release (.releaseLock k)) (s.after t w (.calling (.releaseLock k)))
  | answer {s t call r} (hs : s.stages t = .answering call r) :
      Step s t (.answer call r) (s.move t .idle)

/-- Any number of steps of any threads, with what each step did. -/
inductive Run : State σ → List (Thread × Act) → State σ → Prop where
  | nil (s) : Run s [] s
  | cons {s t act s₁ acts s₂} (h : Step timeout d s t act s₁) (hr : Run s₁ acts s₂) :
      Run s ((t, act) :: acts) s₂

end Steps

/-! ## The cache below leaves the layer alone -/

/-- The rest of a call on the cache below leaves the locks as it finds them,
whatever happened to them while it waited. -/
def LeavesLocks {α : Type} (locks : KeyLocks) :
    Outcome CacheError (KeyLocks × σ) α → Prop
  | .done _ w => w.state.1 = locks
  | .waiting w _ resume =>
    w.state.1 = locks ∧ ∀ c w', LeavesLocks w'.state.1 (resume c w')

theorem leavesLocks_widen {α : Type} (o : Outcome CacheError σ α)
    (held : KeyLocks → List Value) (outer : KeyLocks × σ) :
    LeavesLocks outer.1 (o.widen (Focus.second held) outer) := by
  induction o generalizing outer with
  | done r w => rfl
  | waiting w wait resume ih =>
    refine ⟨rfl, ?_⟩
    intro c w'
    exact ih _ _ w'.state

theorem leavesLocks_below (d : Cache σ) (call : Call) (c : Caller)
    (w : World (KeyLocks × σ)) :
    LeavesLocks w.state.1 (call.on (Blocking.below d) c w) := by
  cases call with
  | releaseLock k => rfl
  | put k x => exact leavesLocks_widen _ _ w.state
  | get k => exact leavesLocks_widen _ _ w.state
  | remove k => exact leavesLocks_widen _ _ w.state
  | clear => exact leavesLocks_widen _ _ w.state
  | size => exact leavesLocks_widen _ _ w.state

/-! ## What a run keeps -/

/-- The rest of a read that waits for a lock: it takes the lock if it is free by
then, and else it fails and touches nothing. -/
structure AwaitsLock (timeout : Option Duration) (id : String) (k : CacheKey) (t : Thread)
    (resume : Resume σ Unit) : Prop where
  free : ∀ c w, c.thread = t → w.state.1.isFree k t = true →
    resume c w = .done (.ok ()) ⟨w.env, (w.state.1.acquire k t, w.state.2)⟩
  late : ∀ c w, c.thread = t → ¬ w.state.1.isFree k t = true →
    resume c w = .done (.error (.lockTimeout id k (timeout.getD ⟨0⟩))) w

/-- A stage fits the locks.  While a read runs the cache below, its thread has
the lock; after a call its thread has the lock exactly if the call was a read
that missed. -/
def Stage.Fits (timeout : Option Duration) (id : String) (t : Thread) (locks : KeyLocks) :
    Stage σ → Prop
  | .idle | .locking _ | .freeing _ => True
  | .waiting k _ resume => AwaitsLock timeout id k t resume
  | .calling call => call.Guards t locks
  | .suspended call _ resume =>
    call.Guards t locks ∧ ∀ c w, LeavesLocks w.state.1 (resume c w)
  | .releasing call r => ¬ call.Missed r
  | .answering call r => ∀ k, call.key? = some k → (call.Missed r ↔ locks.find? k = some t)

/-- What holds in every reachable state. -/
def Inv (timeout : Option Duration) (d : Cache σ) (s : State σ) : Prop :=
  ∀ t, (s.stages t).Fits timeout d.id t s.locks

section Inv

variable {timeout : Option Duration} {d : Cache σ} {s s' : State σ} {t t' : Thread}

theorem opening_inv (timeout : Option Duration) (d : Cache σ) (locks : KeyLocks) (below : σ) :
    Inv timeout d (.opening locks below) := fun _ => trivial

theorem Call.Guards.congr {call : Call} {locks locks' : KeyLocks} (h : call.Guards t locks)
    (hl : ∀ k, locks'.find? k = some t ↔ locks.find? k = some t) : call.Guards t locks' := by
  cases call with
  | get k => exact (hl k).2 h
  | remove k => exact fun hk => h ((hl k).1 hk)
  | releaseLock k => exact fun hk => h ((hl k).1 hk)
  | put k x => trivial
  | clear => trivial
  | size => trivial

/-- Only the locks of the thread itself matter to its stage. -/
theorem Stage.Fits.congr {id : String} {stage : Stage σ} {locks locks' : KeyLocks}
    (h : stage.Fits timeout id t locks)
    (hl : ∀ k, locks'.find? k = some t ↔ locks.find? k = some t) :
    stage.Fits timeout id t locks' := by
  cases stage with
  | idle => trivial
  | locking k => trivial
  | freeing k => trivial
  | waiting k wait resume => exact h
  | calling call => exact Call.Guards.congr h hl
  | suspended call wait resume => exact ⟨Call.Guards.congr h.1 hl, h.2⟩
  | releasing call r => exact h
  | answering call r =>
    intro k hk
    exact (h k hk).trans (hl k).symm

/-! ### At a lock and at the cache below -/

/-- The first try of a read takes a free lock, and else waits. -/
theorem acquire_cases (timeout : Option Duration) (id : String) (k : CacheKey) (c : Caller)
    (w : World (KeyLocks × σ)) :
    (w.state.1.isFree k c.thread = true ∧ Blocking.acquire timeout id k c w =
      .done (.ok ()) ⟨w.env, (w.state.1.acquire k c.thread, w.state.2)⟩) ∨
    (¬ w.state.1.isFree k c.thread = true ∧ ∃ wait resume,
      Blocking.acquire timeout id k c w = .waiting w wait resume ∧
        AwaitsLock timeout id k c.thread resume) := by
  unfold Blocking.acquire Blocking.isReady
  by_cases hf : w.state.1.isFree k c.thread = true
  · left
    refine ⟨hf, ?_⟩
    rw [if_pos hf]
    rfl
  · right
    refine ⟨hf, _, _, if_neg hf, ?_, ?_⟩
    · intro c' w' hc hfree
      rw [← hc] at hfree ⊢
      simp only [hfree, if_true]
      rfl
    · intro c' w' hc hfree
      rw [← hc] at hfree
      simp only [hfree]
      rfl

/-- At its lock a read takes it if it is free, and else waits, or gives up if it
has waited. -/
theorem Inv.atLock_cases (hi : Inv timeout d s) {k : CacheKey}
    {o : Outcome CacheError (KeyLocks × σ) Unit} (h : s.AtLock timeout d t k o) :
    (s.locks.isFree k t = true ∧ ∃ e, o = .done (.ok ()) ⟨e, (s.locks.acquire k t, s.below)⟩) ∨
    (¬ s.locks.isFree k t = true ∧ s.stages t = .locking k ∧ ∃ e wait resume,
      o = .waiting ⟨e, (s.locks, s.below)⟩ wait resume ∧ AwaitsLock timeout d.id k t resume) ∨
    (¬ s.locks.isFree k t = true ∧ (∃ wait resume, s.stages t = .waiting k wait resume) ∧ ∃ e,
      o = .done (.error (.lockTimeout d.id k (timeout.getD ⟨0⟩))) ⟨e, (s.locks, s.below)⟩) := by
  obtain ⟨c, e, rfl, ⟨hs, rfl⟩ | ⟨wait, resume, hs, -, rfl⟩⟩ := h
  · rcases acquire_cases timeout d.id k c (s.world e) with ⟨hf, ho⟩ | ⟨hf, wait, resume, ho, ha⟩
    · exact .inl ⟨hf, e, ho⟩
    · exact .inr (.inl ⟨hf, hs, e, wait, resume, ho, ha⟩)
  · have ha : AwaitsLock timeout d.id k c.thread resume := by
      have hfits := hi c.thread
      rw [hs] at hfits
      exact hfits
    by_cases hf : s.locks.isFree k c.thread = true
    · exact .inl ⟨hf, e, ha.free c (s.world e) rfl hf⟩
    · exact .inr (.inr ⟨hf, ⟨wait, resume, hs⟩, e, ha.late c (s.world e) rfl hf⟩)

/-- At the cache below the locks stay as they are. -/
theorem Inv.atBelow (hi : Inv timeout d s) {call : Call}
    {o : Outcome CacheError (KeyLocks × σ) call.Answer} (h : s.AtBelow d t call o) :
    call.Guards t s.locks ∧ LeavesLocks s.locks o := by
  obtain ⟨c, e, rfl, ⟨hs, rfl⟩ | ⟨wait, resume, hs, -, rfl⟩⟩ := h
  · have hfits := hi c.thread
    rw [hs] at hfits
    exact ⟨hfits, leavesLocks_below d call c (s.world e)⟩
  · have hfits := hi c.thread
    rw [hs] at hfits
    exact ⟨hfits.1, hfits.2 c (s.world e)⟩

/-! ### The locks after a step -/

/-- What a step does to the locks, and to whom. -/
structure Step.Effect (s : State σ) (t : Thread) (act : Act) (s' : State σ) : Prop where
  holder : ∀ k, s'.locks.find? k = act.holder t k (s.locks.find? k)
  others : ∀ t', t' ≠ t → s'.stages t' = s.stages t'
  quiet : act.IsQuiet → s'.locks = s.locks ∧ s'.below = s.below
  /-- Only a free lock is taken. -/
  free : ∀ k, act = .lock k → s.locks.isFree k t = true

theorem effect_of_same {act : Act} {w : World (KeyLocks × σ)} (stage : Stage σ)
    (hw : w.state.1 = s.locks) (hq : act.IsQuiet → w.state.2 = s.below)
    (hact : ∀ k, act.holder t k (s.locks.find? k) = s.locks.find? k)
    (hlock : ∀ k, act ≠ .lock k) : Step.Effect s t act (s.after t w stage) where
  holder k := by
    rw [hact]
    show w.state.1.find? k = _
    rw [hw]
  others t' ht' := s.stages_after_ne ht' w stage
  quiet h := ⟨hw, hq h⟩
  free k h := absurd h (hlock k)

theorem effect_of_release {c : Caller} {e : Environment} {k : CacheKey} {call : Call}
    {w : World (KeyLocks × σ)} (stage : Stage σ) (hk : call.key? = some k)
    (hr : Blocking.release k c (s.world e) = ((.ok (), w) : Except CacheError Unit × _)) :
    Step.Effect s c.thread (.release call) (s.after c.thread w stage) where
  holder k' := by
    cases hr
    show (s.locks.release k c.thread).find? k' = _
    rw [KeyLocks.find?_release, Act.holder, hk]
    by_cases h : k' = k
    · subst h
      simp
    · have h' : ¬ k = k' := fun hc => h hc.symm
      simp [h, h']
  others t' ht' := s.stages_after_ne ht' w stage
  quiet h := h.elim
  free k h := by cases h

theorem Step.effect (hi : Inv timeout d s) {act : Act} (h : Step timeout d s t act s') :
    Step.Effect s t act s' := by
  cases h with
  | start call hs =>
    exact ⟨fun _ => rfl, fun t' ht' => s.stages_move_ne ht' _, fun _ => ⟨rfl, rfl⟩,
      fun k h => by cases h⟩
  | @lock k o h =>
    rcases hi.atLock_cases h with ⟨hf, e, rfl⟩ | ⟨-, -, e, wait, resume, rfl, -⟩ | ⟨-, -, e, rfl⟩
    · refine ⟨?_, fun t' ht' => s.stages_after_ne ht' _ _, fun h => h.elim, ?_⟩
      · intro k'
        exact KeyLocks.find?_acquire k'
      · intro k' hk'
        cases hk'
        exact hf
    · exact effect_of_same _ rfl (fun _ => rfl) (fun _ => rfl) (fun k h => by cases h)
    · exact effect_of_same _ rfl (fun _ => rfl) (fun _ => rfl) (fun k h => by cases h)
  | @below call o h =>
    have hl := (hi.atBelow h).2
    cases o with
    | done r w => exact effect_of_same _ hl (fun h => h.elim) (fun _ => rfl) (fun k h => by cases h)
    | waiting w wait resume =>
      exact effect_of_same _ hl.1 (fun h => h.elim) (fun _ => rfl) (fun k h => by cases h)
  | release hc hs hk hr =>
    subst hc
    exact effect_of_release _ hk hr
  | free hc hs hr =>
    subst hc
    exact effect_of_release _ rfl hr
  | answer hs =>
    exact ⟨fun _ => rfl, fun t' ht' => s.stages_move_ne ht' _, fun _ => ⟨rfl, rfl⟩,
      fun k h => by cases h⟩

/-- No step of a thread gives another one a lock, or takes one from it. -/
theorem Step.Effect.find?_others {act : Act} (h : Step.Effect s t act s') (ht : t' ≠ t)
    (k : CacheKey) : s'.locks.find? k = some t' ↔ s.locks.find? k = some t' := by
  rw [h.holder]
  cases act with
  | lock k' =>
    by_cases hk : k = k'
    · -- the lock was free, so the other thread did not have it
      subst hk
      have hfree := KeyLocks.isFree_iff.1 (h.free k rfl)
      simp only [Act.holder, if_true]
      constructor
      · intro heq
        exact absurd (Option.some.inj heq).symm ht
      · intro heq
        exact absurd (hfree t' heq) ht
    · simp only [Act.holder, if_neg hk]
  | release call =>
    by_cases hc : call.key? = some k ∧ s.locks.find? k = some t
    · -- the lock was that of the thread itself
      have hne : ¬ t = t' := fun heq => ht heq.symm
      simp [Act.holder, hc, hne]
    · simp only [Act.holder, if_neg hc]
  | start call => exact Iff.rfl
  | wait k' => exact Iff.rfl
  | giveUp k' => exact Iff.rfl
  | below call => exact Iff.rfl
  | answer call r => exact Iff.rfl

/-! ### The invariant -/

theorem fits_first (id : String) (locks : KeyLocks) (call : Call) :
    (Stage.first call : Stage σ).Fits timeout id t locks := by
  cases call with
  | remove k => exact not_false
  | put k x => trivial
  | get k => trivial
  | releaseLock k => trivial
  | clear => trivial
  | size => trivial

/-- Once the cache below has answered, a put gives the lock back, and so does a
read that did not miss. -/
theorem fits_afterBelow (id : String) {locks : KeyLocks} {call : Call}
    (h : call.Guards t locks) (r : call.Result) :
    (Stage.afterBelow call r : Stage σ).Fits timeout id t locks := by
  cases call with
  | put k x => exact not_false
  | get k =>
    match r with
    | .ok none =>
      intro k' hk'
      cases hk'
      exact iff_of_true rfl h
    | .ok (some v) => exact nofun
    | .error e => exact nofun
  | remove k =>
    intro k' hk'
    cases hk'
    exact iff_of_false not_false h
  | releaseLock k =>
    intro k' hk'
    cases hk'
    exact iff_of_false not_false h
  | clear => exact nofun
  | size => exact nofun

/-- A thread that gave a lock back does not have it. -/
theorem Step.Effect.not_held_of_release {call : Call} (h : Step.Effect s t (.release call) s')
    {k : CacheKey} (hk : call.key? = some k) : s'.locks.find? k ≠ some t := by
  rw [h.holder, Act.holder]
  by_cases hheld : s.locks.find? k = some t
  · rw [if_pos ⟨hk, hheld⟩]
    exact nofun
  · rw [if_neg (fun hc => hheld hc.2)]
    exact hheld

/-- The stage that a read comes to at its lock fits the locks. -/
theorem Inv.fits_lock (hi : Inv timeout d s) {k : CacheKey}
    {o : Outcome CacheError (KeyLocks × σ) Unit} (h : s.AtLock timeout d t k o) :
    ((s.afterLock t k o).stages t).Fits timeout d.id t (s.afterLock t k o).locks := by
  rcases hi.atLock_cases h with ⟨hf, e, rfl⟩ | ⟨-, -, e, wait, resume, rfl, ha⟩ | ⟨hf, -, e, rfl⟩
  · -- taken
    have hself : (s.locks.acquire k t).find? k = some t := by
      rw [KeyLocks.find?_acquire, if_pos rfl]
    rw [State.afterLock, State.stages_after_self]
    exact hself
  · rw [State.afterLock, State.stages_after_self]
    exact ha
  · -- given up: another thread has the lock
    rw [State.afterLock, State.stages_after_self]
    intro k' hk'
    cases hk'
    refine iff_of_false (by rintro ⟨⟩) ?_
    intro hheld
    refine hf (KeyLocks.isFree_iff.2 ?_)
    intro t' ht'
    exact Option.some.inj (ht'.symm.trans hheld)

/-- The stage that a call comes to at the cache below fits the locks. -/
theorem Inv.fits_below (hi : Inv timeout d s) {call : Call}
    {o : Outcome CacheError (KeyLocks × σ) call.Answer} (h : s.AtBelow d t call o) :
    ((s.afterBelow t call o).stages t).Fits timeout d.id t (s.afterBelow t call o).locks := by
  obtain ⟨hg, hl⟩ := hi.atBelow h
  cases o with
  | done r w =>
    have hw : w.state.1 = s.locks := hl
    rw [State.afterBelow, State.stages_after_self]
    show Stage.Fits timeout d.id t w.state.1 _
    rw [hw]
    exact fits_afterBelow d.id hg r
  | waiting w wait resume =>
    have hw : w.state.1 = s.locks := hl.1
    rw [State.afterBelow, State.stages_after_self]
    show Call.Guards t w.state.1 call ∧ _
    rw [hw]
    exact ⟨hg, hl.2⟩

/-- The stage that a thread comes to in a step fits the locks. -/
theorem Inv.fits_own (hi : Inv timeout d s) {act : Act} (h : Step timeout d s t act s') :
    (s'.stages t).Fits timeout d.id t s'.locks := by
  have heffect := h.effect hi
  cases h with
  | start call hs =>
    rw [State.stages_move_self]
    exact fits_first d.id s.locks call
  | lock h => exact hi.fits_lock h
  | below h => exact hi.fits_below h
  | @release call r k c e w hc hs hk hr =>
    have hmissed : ¬ call.Missed r := by
      have hfits := hi t
      rw [hs] at hfits
      exact hfits
    rw [State.stages_after_self]
    intro k' hk'
    exact iff_of_false hmissed (heffect.not_held_of_release hk')
  | @free k c e w hc hs hr =>
    rw [State.stages_after_self]
    exact heffect.not_held_of_release rfl
  | answer hs =>
    rw [State.stages_move_self]
    trivial

/-- Every step keeps the invariant. -/
theorem Inv.step (hi : Inv timeout d s) {act : Act} (h : Step timeout d s t act s') :
    Inv timeout d s' := by
  intro t'
  by_cases ht : t' = t
  · subst ht
    exact hi.fits_own h
  · have heffect := h.effect hi
    rw [heffect.others t' ht]
    exact (hi t').congr fun k => heffect.find?_others ht k

theorem Inv.run (hi : Inv timeout d s) {acts : List (Thread × Act)}
    (h : Run timeout d s acts s') : Inv timeout d s' := by
  induction h with
  | nil s => exact hi
  | cons hstep _ ih => exact ih (hi.step hstep)

end Inv

/-! ## Calls are runs of steps -/

@[simp]
theorem State.after_after (s : State σ) (t : Thread) (w w' : World (KeyLocks × σ))
    (stage stage' : Stage σ) : (s.after t w stage).after t w' stage' = s.after t w' stage' := by
  simp [State.after]

section Calls

variable {timeout : Option Duration} {d : Cache σ} {s s' : State σ} {t : Thread} {call : Call}

/-- One step is a run. -/
theorem Step.run {act : Act} (h : Step timeout d s t act s') : Run timeout d s [(t, act)] s' :=
  .cons h (.nil s')

theorem Run.trans {s'' : State σ} {acts acts' : List (Thread × Act)} (h : Run timeout d s acts s')
    (h' : Run timeout d s' acts' s'') : Run timeout d s (acts ++ acts') s'' := by
  induction h with
  | nil s => exact h'
  | cons hstep _ ih => exact .cons hstep (ih h')

variable (timeout d) in
/-- Steps of the thread alone lead to a world and a stage. -/
def Leads (t : Thread) (s : State σ) (w : World (KeyLocks × σ)) (stage : Stage σ) : Prop :=
  ∃ acts : List Act, Run timeout d s (acts.map fun act => (t, act)) (s.after t w stage)

variable (timeout d) in
/-- An outcome of a call is what steps of the thread lead to.  Where the call
waits the others go on, and from whatever state it is resumed in, the rest of
the call is steps of the thread again. -/
def Follows (t : Thread) (call : Call) :
    State σ → Outcome CacheError (KeyLocks × σ) call.Answer → Prop
  | s, .done r w => Leads timeout d t s w (.answering call r)
  | s, .waiting w wait resume => ∃ stage, Leads timeout d t s w stage ∧
      ∀ c e s', c.thread = t → s'.stages t = stage → wait.IsOver (s'.world e) →
        Follows t call s' (resume c (s'.world e))

theorem Leads.of_step {act : Act} {w : World (KeyLocks × σ)} {stage : Stage σ}
    (h : Step timeout d s t act (s.after t w stage)) : Leads timeout d t s w stage :=
  ⟨[act], h.run⟩

/-- No step leads to the stage at which the thread is. -/
theorem Leads.of_stage {stage : Stage σ} (hs : s.stages t = stage) (e : Environment) :
    Leads timeout d t s (s.world e) stage := by
  have hafter : s.after t (s.world e) stage = s := by
    rw [← hs]
    show State.mk s.locks s.below (Function.update s.stages t (s.stages t)) = s
    rw [Function.update_eq_self]
  refine ⟨[], ?_⟩
  rw [hafter]
  exact .nil s

theorem Leads.trans {w w' : World (KeyLocks × σ)} {stage stage' : Stage σ}
    (h : Leads timeout d t s w stage) (h' : Leads timeout d t (s.after t w stage) w' stage') :
    Leads timeout d t s w' stage' := by
  obtain ⟨acts, hr⟩ := h
  obtain ⟨acts', hr'⟩ := h'
  rw [State.after_after] at hr'
  refine ⟨acts ++ acts', ?_⟩
  rw [List.map_append]
  exact hr.trans hr'

theorem Follows.of_leads {w : World (KeyLocks × σ)} {stage : Stage σ}
    {o : Outcome CacheError (KeyLocks × σ) call.Answer} (h : Leads timeout d t s w stage)
    (ho : Follows timeout d t call (s.after t w stage) o) : Follows timeout d t call s o := by
  cases o with
  | done r w' => exact h.trans ho
  | waiting w' wait resume =>
    obtain ⟨stage', hleads, hrest⟩ := ho
    exact ⟨stage', h.trans hleads, hrest⟩

/-- Giving the lock back ends a call that has its result. -/
theorem Leads.release {c : Caller} {k : CacheKey} {r : call.Result} (hc : c.thread = t)
    (hs : s.stages t = .releasing call r) (hk : call.key? = some k) (e : Environment) :
    Leads timeout d t s ⟨e, (s.locks.release k c.thread, s.below)⟩ (.answering call r) :=
  .of_step (.release (e := e) hc hs hk rfl)

/-- The call on the cache below is steps of the thread, if what comes after it is. -/
theorem Follows.below {c : Caller}
    {f : call.Result → Await CacheError (KeyLocks × σ) call.Answer}
    {o : Outcome CacheError (KeyLocks × σ) call.Answer} (hc : c.thread = t)
    (h : s.AtBelow d t call o)
    (hf : ∀ c s' r e, c.thread = t → s'.stages t = .afterBelow call r →
      Follows timeout d t call s' (f r c (s'.world e))) :
    Follows timeout d t call s (o.result.bind f c) := by
  have hstep : Step timeout d s t (.below call) (s.afterBelow t call o) := .below h
  -- What comes after a wait is done for the caller that resumes the call.
  induction o generalizing s c with
  | done r w =>
    have hrest := hf c (s.after t w (.afterBelow call r)) r w.env hc (s.stages_after_self t w _)
    exact .of_leads (.of_step hstep) hrest
  | waiting w wait resume ih =>
    refine ⟨.suspended call wait resume, .of_step hstep, ?_⟩
    intro c' e s' hc' hs' hover
    have hat : s'.AtBelow d t call (resume c' (s'.world e)) :=
      ⟨c', e, hc', .inr ⟨wait, resume, hs', hover, rfl⟩⟩
    exact ih c' (s'.world e) hc' hat (.below hat)

/-- A call that ends with what the cache below gives. -/
theorem Follows.below_last {o : Outcome CacheError (KeyLocks × σ) call.Answer}
    (h : s.AtBelow d t call o)
    (hlast : ∀ r, (Stage.afterBelow call r : Stage σ) = .answering call r) :
    Follows timeout d t call s o := by
  have hstep : Step timeout d s t (.below call) (s.afterBelow t call o) := .below h
  induction o generalizing s with
  | done r w =>
    rw [State.afterBelow, hlast] at hstep
    exact .of_step hstep
  | waiting w wait resume ih =>
    refine ⟨.suspended call wait resume, .of_step hstep, ?_⟩
    intro c' e s' hc' hs' hover
    have hat : s'.AtBelow d t call (resume c' (s'.world e)) :=
      ⟨c', e, hc', .inr ⟨wait, resume, hs', hover, rfl⟩⟩
    exact ih c' (s'.world e) hat (.below hat)

/-- Taking the lock is steps of the thread, if the rest of the read is. -/
theorem Follows.lock {c : Caller} {k : CacheKey}
    {f : Unit → Await CacheError (KeyLocks × σ) (Option Value)}
    {o : Outcome CacheError (KeyLocks × σ) Unit} (hc : c.thread = t)
    (h : s.AtLock timeout d t k o)
    (hf : ∀ c s' e, c.thread = t → s'.stages t = .calling (.get k) →
      Follows timeout d t (.get k) s' (f () c (s'.world e))) :
    Follows timeout d t (.get k) s (o.bind f c) := by
  have hstep : Step timeout d s t (.ofLock k o) (s.afterLock t k o) := .lock h
  induction o generalizing s c with
  | done r w =>
    cases r with
    | ok _ =>
      have hrest := hf c (s.after t w (.calling (.get k))) w.env hc (s.stages_after_self t w _)
      exact .of_leads (.of_step hstep) hrest
    | error e => exact Leads.of_step hstep
  | waiting w wait resume ih =>
    refine ⟨.waiting k wait resume, .of_step hstep, ?_⟩
    intro c' e s' hc' hs' hover
    have hat : s'.AtLock timeout d t k (resume c' (s'.world e)) :=
      ⟨c', e, hc', .inr ⟨wait, resume, hs', hover, rfl⟩⟩
    exact ih c' (s'.world e) hc' hat (.lock hat)

/-- The part of a call that comes after its first stage. -/
theorem Follows.first {c : Caller} (hc : c.thread = t) (hs : s.stages t = .first call)
    (e : Environment) :
    Follows timeout d t call s (call.on (Blocking.around timeout d) c (s.world e)) := by
  cases call with
  | put k x =>
    have hat : s.AtBelow d t (.put k x) ((Blocking.below d).put k x c (s.world e)) :=
      ⟨c, e, hc, .inl ⟨hs, rfl⟩⟩
    refine .below hc hat ?_
    intro c' s' r e' hc' hs'
    exact .release hc' hs' rfl e'
  | get k =>
    have hlock : s.AtLock timeout d t k (Blocking.acquire timeout d.id k c (s.world e)) :=
      ⟨c, e, hc, .inl ⟨hs, rfl⟩⟩
    refine .lock hc hlock ?_
    intro c' s' e' hc' hs'
    have hat : s'.AtBelow d t (.get k) ((Blocking.below d).get k c' (s'.world e')) :=
      ⟨c', e', hc', .inl ⟨hs', rfl⟩⟩
    refine .below hc' hat ?_
    intro c'' s'' r e'' hc'' hs''
    match r with
    | .ok (some v) => exact .release hc'' hs'' rfl e''
    | .ok none => exact .of_stage hs'' e''
    | .error err => exact .release hc'' hs'' rfl e''
  | remove k => exact Leads.release hc hs rfl e
  | releaseLock k =>
    have hfree : Step timeout d s t (.release (.releaseLock k))
        (s.after t ⟨e, (s.locks.release k c.thread, s.below)⟩ (.calling (.releaseLock k))) :=
      .free (e := e) hc hs rfl
    refine .of_leads (.of_step hfree) (.below_last ?_ fun _ => rfl)
    exact ⟨c, e, hc, .inl ⟨State.stages_after_self .., rfl⟩⟩
  | clear => exact .below_last ⟨c, e, hc, .inl ⟨hs, rfl⟩⟩ fun _ => rfl
  | size => exact .below_last ⟨c, e, hc, .inl ⟨hs, rfl⟩⟩ fun _ => rfl

/-- Every call on the layer by a thread that is in no other one is steps of the thread. -/
theorem follows_call {c : Caller} (hc : c.thread = t) (hs : s.stages t = .idle)
    (e : Environment) :
    Follows timeout d t call s (call.on (Blocking.around timeout d) c (s.world e)) := by
  have hstart : Step timeout d s t (.start call) (s.after t (s.world e) (.first call)) :=
    .start call hs
  refine .of_leads (.of_step hstart) ?_
  exact Follows.first hc (State.stages_after_self ..) e

end Calls

end QueryCache.LockSteps
