import Mathlib
import QueryCache.Layer.Probe
import QueryCache.Layer.Store
import QueryCache.Proofs.Transaction.LockedUnit

/-!
# No lock is left behind

One thread drives a unit of work over any number of caches, each behind a layer
of locks of its own.  The caches below may fail in any call, also when a lock is
given back, and other threads go on between the calls of the unit and while a
call waits.

1. many caches, each behind its locks
2. what the thread and the others do
3. no lock is left behind
-/

namespace QueryCache.UnitOfWork

/-! ## Many caches -/

variable {ρ : Type} [DecidableEq ρ] {T : ρ → Type}

/-- The state of one of many caches; `held` gives the values that the others hold. -/
def place {S : ρ → Type} (held : (∀ r, S r) → List Value) (r : ρ) : Focus (∀ r, S r) (S r) where
  get s := s r
  set x s := Function.update s r x
  held := held

/-- The state of many caches, each behind its locks. -/
abbrev LockedStates (T : ρ → Type) : Type := ∀ r, KeyLocks × T r

section Family

variable (timeout : ρ → Option Duration) (d : ∀ r, Cache (T r))
  (held : ρ → LockedStates T → List Value)

/-- One of many caches, behind its locks. -/
def lockedCache (r : ρ) : Cache (LockedStates T) :=
  (Blocking.around (timeout r) (d r)).within (place (held r) r)

/-- The others take no lock from the thread, and give it none. -/
def SparesAll (t : Thread) (s s' : LockedStates T) : Prop := ∀ r, Blocking.Spares t (s r) (s' r)

/-- The thread has the lock of a key in a cache. -/
def HasLock (t : Thread) (s : LockedStates T) (r : ρ) (k : CacheKey) : Prop :=
  (s r).1.find? k = some t

theorem lockingFamily_lockedCache (t : Thread) (hids : Function.Injective fun r => (d r).id) :
    LockingFamily (SparesAll t) t (fun bound s => ∀ r k, HasLock t s r k → k ∈ bound r)
      (lockedCache timeout d held) :=
  LockingFamily.of_parts (fun r => place (held r) r)
    (fun r => Blocking.locking_around (timeout r) (d r))
    (fun _ _ _ _ h hs => Blocking.Within.spared h hs) (fun _ _ _ => Function.update_self ..)
    (fun _ _ _ _ hr => Function.update_of_ne hr ..) (fun r _ _ h => h r) hids

end Family

/-! ## What the thread and the others do -/

/-- The thread makes a call on its unit of work, or the others do something. -/
inductive Works {σ : Type} (caches : ρ → Cache σ) (others : σ → σ → Prop) (t : Thread) :
    UnitOfWork ρ × σ → UnitOfWork ρ × σ → Prop where
  | others {u : UnitOfWork ρ} {y y' : σ} (h : others y y') : Works caches others t (u, y) (u, y')
  | get {c : Caller} {e : Environment} {s : UnitOfWork ρ × σ} {r : ρ} {k : CacheKey}
      {x : Except CacheError (Option Value)} {w : World (UnitOfWork ρ × σ)} (hc : c.thread = t)
      (h : (get caches r k c ⟨e, s⟩).SettlesAmid (Beside others) t x w) :
      Works caches others t s w.state
  | put {c : Caller} {e : Environment} {s : UnitOfWork ρ × σ} (r : ρ) (k : CacheKey)
      (x : Option Value) (hc : c.thread = t) :
      Works caches others t s (put caches r k x c ⟨e, s⟩).2.state
  | clear {c : Caller} {e : Environment} {s : UnitOfWork ρ × σ} (r : ρ) (hc : c.thread = t) :
      Works caches others t s (clear caches r c ⟨e, s⟩).2.state
  | commit {c : Caller} {e : Environment} {s : UnitOfWork ρ × σ}
      {order : UnitOfWork ρ → List (String × ρ)} {misses : Buffer → List CacheKey}
      {x : Except CacheError Unit} {w : World (UnitOfWork ρ × σ)} (hc : c.thread = t)
      (ho : ∀ u, (order u).Perm u.touched) (hm : ∀ b, (misses b).Perm b.misses)
      (h : (commitWith order misses caches c ⟨e, s⟩).SettlesAmid (Beside others) t x w) :
      Works caches others t s w.state
  | rollback {c : Caller} {e : Environment} {s : UnitOfWork ρ × σ}
      {order : UnitOfWork ρ → List (String × ρ)} {misses : Buffer → List CacheKey}
      (hc : c.thread = t) (ho : ∀ u, (order u).Perm u.touched)
      (hm : ∀ b, (misses b).Perm b.misses) :
      Works caches others t s (rollbackWith order misses caches c ⟨e, s⟩).2.state

variable {σ : Type} {caches : ρ → Cache σ} {others : σ → σ → Prop} {t : Thread}
  {bounded : (ρ → Set CacheKey) → σ → Prop}

/-- Whatever happens, each lock that the thread has is that of a missed key. -/
theorem Covered.works (hl : LockingFamily others t bounded caches) {s s' : UnitOfWork ρ × σ}
    (h : Works caches others t s s') (hs : Covered bounded caches s) :
    Covered bounded caches s' := by
  cases h with
  | others h => exact ⟨hs.1, hl.spared hs.2 h⟩
  | get hc h => exact (get_covered hl _ _ _ _ hc hs).settles h
  | put r k x hc => exact put_covered hl r k x _ _ hc hs
  | clear r hc => exact clear_covered hl r _ _ hc hs
  | commit hc ho hm h => exact ((commitWith_covered hl ho hm _ _ hc hs).settles h).1
  | rollback hc ho hm => exact (rollbackWith_covered hl ho hm _ _ hc hs).2.1

theorem Covered.run (hl : LockingFamily others t bounded caches) {s s' : UnitOfWork ρ × σ}
    (h : Relation.ReflTransGen (Works caches others t) s s') (hs : Covered bounded caches s) :
    Covered bounded caches s' := by
  induction h with
  | refl => exact hs
  | tail _ hstep ih => exact ih.works hl hstep

/-! ## No lock is left behind -/

/-- A thread that begins a unit of work without locks has, after any calls on the
unit, no locks but those of keys that the unit has missed.  A commit that
succeeds leaves it without locks, and a rollback, which always succeeds, does so
in any case. -/
theorem no_lock_left_behind {timeout : ρ → Option Duration} {d : ∀ r, Cache (T r)}
    {held : ρ → LockedStates T → List Value} (hids : Function.Injective fun r => (d r).id)
    {n : Nat} {y : LockedStates T} (hy : ∀ r k, ¬ HasLock t y r k)
    {s : UnitOfWork ρ × LockedStates T}
    (h : Relation.ReflTransGen (Works (lockedCache timeout d held) (SparesAll t) t)
      ({ unit := n }, y) s) :
    (∀ r k, HasLock t s.2 r k → k ∈ (s.1.buffer (d r).id).misses) ∧
      ∀ {c : Caller} {e : Environment} {order : UnitOfWork ρ → List (String × ρ)}
        {misses : Buffer → List CacheKey}, c.thread = t → (∀ u, (order u).Perm u.touched) →
        (∀ b, (misses b).Perm b.misses) →
        (∀ w, (commitWith order misses (lockedCache timeout d held) c ⟨e, s⟩).SettlesAmid
            (Beside (SparesAll t)) t (.ok ()) w → ∀ r k, ¬ HasLock t w.state.2 r k) ∧
          ∃ w, rollbackWith order misses (lockedCache timeout d held) c ⟨e, s⟩ = (.ok (), w) ∧
            ∀ r k, ¬ HasLock t w.state.2 r k := by
  have hl := lockingFamily_lockedCache timeout d held t hids
  have hstart : Covered (fun bound s => ∀ r k, HasLock t s r k → k ∈ bound r)
      (lockedCache timeout d held) ({ unit := n }, y) :=
    ⟨fun id r b hb => (nomatch hb), fun r k hk => absurd hk (hy r k)⟩
  have hcovered := hstart.run hl h
  refine ⟨hcovered.2, ?_⟩
  intro c e order misses hc ho hm
  constructor
  · intro w hw r k hk
    obtain ⟨hs, hempty⟩ := (commitWith_covered hl ho hm c ⟨e, s⟩ hc hcovered).settles hw
    exact hs.unlocked (hempty rfl) r k hk
  · obtain ⟨hok, hs, hempty⟩ := rollbackWith_covered hl ho hm c ⟨e, s⟩ hc hcovered
    exact ⟨_, Prod.ext hok rfl, fun r k hk => hs.unlocked hempty r k hk⟩

/-- Two caches of which neither takes a put or gives a lock back. -/
def refusing (r : Bool) : Cache (Refusals × Store) :=
  Probe.around "refusing" (Store.cache (if r then "users" else "orders"))

/-- The states of the two caches and of their locks. -/
abbrev RefusingStates : Type := LockedStates fun _ : Bool => Refusals × Store

/-- Neither entries nor locks. -/
def refusingStates : RefusingStates :=
  fun _ => (.empty, ([(.put, .always), (.releaseLock, .always)], .empty))

/-- The two caches, behind their locks. -/
def refusingCaches : Bool → Cache RefusingStates :=
  lockedCache (fun _ => none) refusing fun _ _ => []

/-- After a read that missed in the first cache. -/
def missedOnce : World (UnitOfWork Bool × RefusingStates) :=
  (get refusingCaches true .null ⟨"main", []⟩ ⟨{}, ({}, refusingStates)⟩).world

/-- After a read that missed in the second cache too. -/
def missedTwice : World (UnitOfWork Bool × RefusingStates) :=
  (get refusingCaches false .null ⟨"main", []⟩ ⟨{}, missedOnce.state⟩).world

/-- After a commit that failed in the first cache. -/
def halfCommitted : World (UnitOfWork Bool × RefusingStates) :=
  (commitWith touched Buffer.misses refusingCaches ⟨"main", []⟩ ⟨{}, missedTwice.state⟩).world

/-- The lock in the second cache is left, until the unit is rolled back. -/
theorem no_lock_left_behind_refusing :
    Relation.ReflTransGen (Works refusingCaches (SparesAll "main") "main") ({}, refusingStates)
        halfCommitted.state ∧
      HasLock "main" halfCommitted.state.2 false .null ∧
      .null ∈ (halfCommitted.state.1.buffer "orders").misses ∧
      ∃ w, rollback refusingCaches ⟨"main", []⟩ halfCommitted = (.ok (), w) ∧
        ∀ r k, ¬ HasLock "main" w.state.2 r k := by
  have hget₁ : (get refusingCaches true .null ⟨"main", []⟩ ⟨{}, ({}, refusingStates)⟩).SettlesAmid
      (Beside (SparesAll "main")) "main" (.ok none) missedOnce := .of_done ⟨_, by rfl⟩
  have hget₂ : (get refusingCaches false .null ⟨"main", []⟩ ⟨{}, missedOnce.state⟩).SettlesAmid
      (Beside (SparesAll "main")) "main" (.ok none) missedTwice := .of_done ⟨_, by rfl⟩
  have hcommit : (commitWith touched Buffer.misses refusingCaches ⟨"main", []⟩
      ⟨{}, missedTwice.state⟩).SettlesAmid (Beside (SparesAll "main")) "main"
        (.error (.serialization "users" "refused put")) halfCommitted := .of_done ⟨_, by rfl⟩
  have h₁ : Works refusingCaches (SparesAll "main") "main" ({}, refusingStates) missedOnce.state :=
    .get rfl hget₁
  have h₂ : Works refusingCaches (SparesAll "main") "main" missedOnce.state missedTwice.state :=
    .get rfl hget₂
  have h₃ : Works refusingCaches (SparesAll "main") "main" missedTwice.state halfCommitted.state :=
    .commit rfl (fun u => .refl _) (fun b => .refl _) hcommit
  have hrun := ((Relation.ReflTransGen.single h₁).tail h₂).tail h₃
  have hids : Function.Injective fun r => (refusing r).id := by decide
  have hfree : ∀ r k, ¬ HasLock "main" refusingStates r k := fun r k h => nomatch h
  have hnone := no_lock_left_behind hids hfree hrun
  refine ⟨hrun, rfl, hnone.1 false .null rfl, ?_⟩
  rw [← rollbackWith_touched]
  exact (hnone.2 (c := ⟨"main", []⟩) rfl (fun u => .refl _) (fun b => .refl _)).2

end QueryCache.UnitOfWork
