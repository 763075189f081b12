import Mathlib
import QueryCache.Proofs.Transaction.LockedStore

/-!
# The steps of threads that load missing entries

Many threads, each with a buffer of its own, share one store behind a layer of
locks.  A thread reads, writes under keys that it missed, commits call by call,
or rolls back, and other threads go on between any two of its steps.  Every
step is labelled with what it did.

A thread holds the lock of a key from its miss until it has stored something
under the key or has rolled back.  While a key is locked the store has no value
for it, so no commit takes a value away.

1. the threads and their steps
2. the invariant
3. what a step does
4. each step keeps the invariant
5. what a step stores
-/

namespace QueryCache.SingleLoader

open Buffer (SharedCall)
open LockedStore (Base Awaits cache)

/-! ## Threads -/

/-- What a thread is in the middle of. -/
inductive Phase where
  | idle
  /-- It waits for the lock of a key that it reads. -/
  | reading (key : CacheKey) (wait : Wait (Buffer × Base))
      (resume : Caller → World (Buffer × Base) →
        Outcome CacheError (Buffer × Base) (Option Value))
  /-- It commits, and has these calls left to make. -/
  | committing (calls : List SharedCall)

/-- The buffer of a thread, and what the thread is in the middle of. -/
structure Loader where
  buffer : Buffer := .empty
  phase : Phase := .idle

/-- The thread is in the middle of a commit. -/
def Loader.isCommitting (l : Loader) : Prop := ∃ calls, l.phase = .committing calls

/-- The locks, the store, and the threads. -/
structure State where
  locks : KeyLocks := .empty
  store : Store := .empty
  loaders : Thread → Loader := fun _ => {}

namespace State

/-- What a thread sees. -/
def world (s : State) (t : Thread) (e : Environment) : World (Buffer × Base) :=
  ⟨e, ((s.loaders t).buffer, (s.locks, s.store))⟩

/-- The state after a thread changed what it sees. -/
def after (s : State) (t : Thread) (w : World (Buffer × Base)) (phase : Phase) : State :=
  ⟨w.state.2.1, w.state.2.2, Function.update s.loaders t ⟨w.state.1, phase⟩⟩

/-- The state after a read of a thread came to its end, or to a wait. -/
def afterRead (s : State) (t : Thread) (k : CacheKey) :
    Outcome CacheError (Buffer × Base) (Option Value) → State
  | .done _ w => s.after t w .idle
  | .waiting w wait resume => s.after t w (.reading k wait resume)

variable (s : State) (t : Thread) (w w' : World (Buffer × Base)) (phase phase' : Phase)

@[simp]
theorem loaders_after_self : (s.after t w phase).loaders t = ⟨w.state.1, phase⟩ :=
  Function.update_self ..

@[simp]
theorem loaders_after_ne {t t' : Thread} (h : t' ≠ t) :
    (s.after t w phase).loaders t' = s.loaders t' := Function.update_of_ne h ..

theorem after_after : (s.after t w phase).after t w' phase' = s.after t w' phase' := by
  unfold after
  rw [Function.update_idem]

theorem world_after (e : Environment) : (s.after t w phase).world t e = ⟨e, w.state⟩ := by
  unfold world
  rw [loaders_after_self]
  rfl

end State

/-- What a thread does in a step. -/
inductive Act where
  /-- A read begins, or goes on after its wait. -/
  | read (key : CacheKey)
  | put (key : CacheKey) (value : Value)
  | beginCommit
  /-- A commit makes a call on the shared cache. -/
  | call (call : SharedCall)
  | endCommit
  | rollback
deriving DecidableEq

/-- One step of one thread, at any time.  A commit is begun, makes one call on
the shared cache a step, its missed keys in any order, and empties the buffer
when no call is left. -/
inductive Step (timeout : Option Duration) (id : String) :
    State → Thread → Act → State → Prop where
  | get {s t k c e} (hc : c.thread = t) (hp : (s.loaders t).phase = .idle) :
      Step timeout id s t (.read k)
        (s.afterRead t k (Buffer.get (cache timeout id) k c (s.world t e)))
  | resume {s t k wait resume c e} (hc : c.thread = t)
      (hp : (s.loaders t).phase = .reading k wait resume) (hw : wait.IsOver (s.world t e)) :
      Step timeout id s t (.read k) (s.afterRead t k (resume c (s.world t e)))
  | put {s t k v c e w} (hc : c.thread = t) (hp : (s.loaders t).phase = .idle)
      (hk : k ∈ (s.loaders t).buffer.misses)
      (hrun : Buffer.put k (some v) c (s.world t e) = (.ok (), w)) :
      Step timeout id s t (.put k v) (s.after t w .idle)
  | beginCommit {s t misses e} (hp : (s.loaders t).phase = .idle)
      (hm : misses.Perm (s.loaders t).buffer.misses) :
      Step timeout id s t .beginCommit
        (s.after t (s.world t e) (.committing ((s.loaders t).buffer.planWith misses)))
  | call {s t call rest c e w} (hc : c.thread = t)
      (hp : (s.loaders t).phase = .committing (call :: rest))
      (hrun : call.run (Buffer.shared (cache timeout id)) c (s.world t e) = .done (.ok ()) w) :
      Step timeout id s t (.call call) (s.after t w (.committing rest))
  | endCommit {s t e} (hp : (s.loaders t).phase = .committing []) :
      Step timeout id s t .endCommit (s.after t ⟨e, (.empty, (s.locks, s.store))⟩ .idle)
  | rollback {s t c e w} (hc : c.thread = t) (hp : (s.loaders t).phase = .idle)
      (hrun : Buffer.rollback (cache timeout id) c (s.world t e) = (.ok (), w)) :
      Step timeout id s t .rollback (s.after t w .idle)

/-! ## The invariant -/

/-- The puts of a list of entries. -/
def puts (entries : List (CacheKey × Option Value)) : List SharedCall :=
  entries.map fun e => .put e.1 e.2

/-- The key of a call. -/
def key? : SharedCall → Option CacheKey
  | .clear => none
  | .put k _ => some k

/-- The keys whose locks a thread has: those that it missed, and in a commit
those for which it has calls left. -/
def Loader.locked (l : Loader) : List CacheKey :=
  match l.phase with
  | .committing calls => calls.filterMap key?
  | _ => l.buffer.misses

/-- What holds of what a thread is in the middle of. -/
def Phase.Sound (timeout : Option Duration) (id : String) (t : Thread) : Phase → Prop
  | .idle => True
  | .reading k wait resume => Awaits timeout id k t wait resume
  | .committing calls => ∃ entries, calls = puts entries ∧ (entries.map Prod.fst).Nodup

/-- What holds of a thread: it requested no clear, it wrote only under keys that
it missed, and it missed each key once. -/
structure Loader.Sound (timeout : Option Duration) (id : String) (t : Thread) (l : Loader) :
    Prop where
  noClear : l.buffer.clearPending = false
  written : ∀ k, k ∈ l.buffer.writes.keys → k ∈ l.buffer.misses
  nodup : l.buffer.misses.Nodup
  phase : l.phase.Sound timeout id t

/-- What holds in every reachable state. -/
structure Inv (timeout : Option Duration) (id : String) (s : State) : Prop where
  sound : ∀ t, (s.loaders t).Sound timeout id t
  /-- A thread holds exactly the locks that it needs. -/
  locks : ∀ t k, s.locks.find? k = some t ↔ k ∈ (s.loaders t).locked
  /-- There is no value under a locked key. -/
  vacant : ∀ t k, s.locks.find? k = some t → s.store.lookup k = none

theorem puts_injective : Function.Injective puts := by
  refine List.map_injective_iff.2 ?_
  rintro ⟨k, x⟩ ⟨k', x'⟩ ⟨⟩
  rfl

theorem filterMap_puts (entries : List (CacheKey × Option Value)) :
    (puts entries).filterMap key? = entries.map Prod.fst := by
  induction entries with
  | nil => rfl
  | cons e rest ih =>
    show e.1 :: (puts rest).filterMap key? = _
    rw [ih]
    rfl

theorem locked_of_committing {l : Loader} {entries : List (CacheKey × Option Value)}
    (hp : l.phase = .committing (puts entries)) : l.locked = entries.map Prod.fst := by
  rw [Loader.locked, hp]
  exact filterMap_puts entries

theorem locked_of_not_committing {l : Loader} (h : ¬ l.isCommitting) :
    l.locked = l.buffer.misses := by
  cases hp : l.phase with
  | idle => rw [Loader.locked, hp]
  | reading k wait resume => rw [Loader.locked, hp]
  | committing calls => exact absurd ⟨calls, hp⟩ h

theorem not_isCommitting_of_idle {l : Loader} (hp : l.phase = .idle) : ¬ l.isCommitting := by
  rintro ⟨calls, hcalls⟩
  cases hp.symm.trans hcalls

theorem not_isCommitting_of_reading {l : Loader} {k : CacheKey} {wait : Wait (Buffer × Base)}
    {resume : Caller → World (Buffer × Base) → Outcome CacheError (Buffer × Base) (Option Value)}
    (hp : l.phase = .reading k wait resume) : ¬ l.isCommitting := by
  rintro ⟨calls, hcalls⟩
  cases hp.symm.trans hcalls

theorem sound_empty (timeout : Option Duration) (id : String) (t : Thread) :
    Loader.Sound timeout id t {} where
  noClear := rfl
  written k hk := by cases hk
  nodup := List.nodup_nil
  phase := trivial

theorem init_inv (timeout : Option Duration) (id : String) : Inv timeout id {} where
  sound t := sound_empty timeout id t
  locks t k := by simp [Loader.locked, Buffer.empty]
  vacant t k h := by cases h

/-! ## What a step does -/

/-- The entries that a commit of a buffer without a clear puts. -/
def entriesOf (b : Buffer) (misses : List CacheKey) : List (CacheKey × Option Value) :=
  b.writes.toList ++ (misses.filter fun k => !b.writes.contains k).map (·, none)

theorem planWith_eq_puts {b : Buffer} (hc : b.clearPending = false) (misses : List CacheKey) :
    b.planWith misses = puts (entriesOf b misses) := by
  unfold Buffer.planWith puts entriesOf
  rw [hc, List.map_append, List.map_map]
  rfl

/-- What one step of a thread does: what it leaves the thread to see, and what the
thread is in the middle of then. -/
inductive Effect (timeout : Option Duration) (id : String) (s : State) (t : Thread) :
    Act → World (Buffer × Base) → Phase → Prop where
  /-- Nobody else has the lock of the key: the read ends with what the store has. -/
  | answered {k e} (hopen : ¬ (s.loaders t).isCommitting) (hf : s.locks.isFree k t = true) :
      Effect timeout id s t (.read k)
        ⟨e, ((s.loaders t).buffer.afterGet k (s.store.lookup k),
          (s.locks.afterRead k t (s.store.lookup k), s.store))⟩ .idle
  /-- Another thread has the lock: the read waits for it, or fails after its wait. -/
  | refused {k e phase} (hopen : ¬ (s.loaders t).isCommitting)
      (hphase : phase.Sound timeout id t)
      (hnext : ¬ Loader.isCommitting ⟨(s.loaders t).buffer, phase⟩) :
      Effect timeout id s t (.read k) (s.world t e) phase
  | written {k v e} (hopen : ¬ (s.loaders t).isCommitting)
      (hk : k ∈ (s.loaders t).buffer.misses) :
      Effect timeout id s t (.put k v)
        ⟨e, ((s.loaders t).buffer.write k (some v), (s.locks, s.store))⟩ .idle
  | begun {misses e} (hopen : ¬ (s.loaders t).isCommitting)
      (hm : misses.Perm (s.loaders t).buffer.misses) :
      Effect timeout id s t .beginCommit (s.world t e)
        (.committing (puts (entriesOf (s.loaders t).buffer misses)))
  | stored {k x entries e}
      (hp : (s.loaders t).phase = .committing (puts ((k, x) :: entries)))
      (hnodup : (((k, x) :: entries).map Prod.fst).Nodup) :
      Effect timeout id s t (.call (.put k x))
        ⟨e, ((s.loaders t).buffer, (s.locks.release k t, s.store.insert k x))⟩
        (.committing (puts entries))
  | ended {e} (hp : (s.loaders t).phase = .committing (puts [])) :
      Effect timeout id s t .endCommit ⟨e, (.empty, (s.locks, s.store))⟩ .idle
  | rolledBack {e} (hopen : ¬ (s.loaders t).isCommitting) :
      Effect timeout id s t .rollback
        ⟨e, (.empty, (s.locks.releaseAll t (s.loaders t).buffer.misses, s.store))⟩ .idle

section Steps

variable {timeout : Option Duration} {id : String} {s s' : State} {t : Thread} {act : Act}
  {w : World (Buffer × Base)} {phase : Phase} {k : CacheKey}

/-- A read is answered, or it waits; it has changed nothing then. -/
theorem effect_get (hp : (s.loaders t).phase = .idle) {c : Caller} (hc : c.thread = t)
    (e : Environment) : ∃ w phase, Effect timeout id s t (.read k) w phase ∧
      s.afterRead t k (Buffer.get (cache timeout id) k c (s.world t e)) = s.after t w phase := by
  subst hc
  have hopen := not_isCommitting_of_idle hp
  by_cases hf : s.locks.isFree k c.thread = true
  · have hget := LockedStore.get_of_isFree timeout id (e := e)
      (b := (s.loaders c.thread).buffer) (s := s.store) hf
    rw [State.world, hget]
    exact ⟨_, _, .answered hopen hf, rfl⟩
  · obtain ⟨wait, resume, hget, hawaits⟩ := LockedStore.get_of_not_isFree timeout id
      (e := e) (b := (s.loaders c.thread).buffer) (s := s.store) hf
    have hphase : Phase.Sound timeout id c.thread (.reading k wait resume) := hawaits
    rw [State.world, hget]
    exact ⟨_, _, .refused hopen hphase (not_isCommitting_of_reading rfl), rfl⟩

/-- A read that waited is answered, or it fails and changes nothing. -/
theorem effect_resume (hi : Inv timeout id s) {wait : Wait (Buffer × Base)}
    {resume : Caller → World (Buffer × Base) → Outcome CacheError (Buffer × Base) (Option Value)}
    (hp : (s.loaders t).phase = .reading k wait resume) {c : Caller} (hc : c.thread = t)
    (e : Environment) : ∃ w phase, Effect timeout id s t (.read k) w phase ∧
      s.afterRead t k (resume c (s.world t e)) = s.after t w phase := by
  have hopen := not_isCommitting_of_reading hp
  have hawaits : Awaits timeout id k t wait resume := by
    have hphase := (hi.sound t).phase
    rw [hp] at hphase
    exact hphase
  by_cases hf : s.locks.isFree k t = true
  · rw [State.world, hawaits.free c e _ _ _ hc hf]
    exact ⟨_, _, .answered hopen hf, rfl⟩
  · have hphase : Phase.Sound timeout id t .idle := trivial
    rw [State.world, hawaits.late c e _ _ _ hc hf]
    exact ⟨_, _, .refused hopen hphase (not_isCommitting_of_idle rfl), rfl⟩

/-- The calls that are left in a commit are puts under different keys. -/
theorem Inv.exists_entries (hi : Inv timeout id s) {calls : List SharedCall}
    (hp : (s.loaders t).phase = .committing calls) :
    ∃ entries, calls = puts entries ∧ (entries.map Prod.fst).Nodup := by
  have hphase := (hi.sound t).phase
  rw [hp] at hphase
  exact hphase

/-- The step of a thread has one of the effects. -/
theorem Step.effect (hi : Inv timeout id s) (h : Step timeout id s t act s') :
    ∃ w phase, Effect timeout id s t act w phase ∧ s' = s.after t w phase := by
  cases h with
  | get hc hp => exact effect_get hp hc _
  | resume hc hp hw => exact effect_resume hi hp hc _
  | put hc hp hk hrun =>
    cases hrun
    exact ⟨_, _, .written (not_isCommitting_of_idle hp) hk, rfl⟩
  | beginCommit hp hm =>
    rw [planWith_eq_puts (hi.sound t).noClear]
    exact ⟨_, _, .begun (not_isCommitting_of_idle hp) hm, rfl⟩
  | @call call rest c e w hc hp hrun =>
    obtain ⟨entries, hcalls, hnodup⟩ := hi.exists_entries hp
    cases entries with
    | nil => cases hcalls
    | cons entry entries =>
      rcases List.cons.inj hcalls with ⟨rfl, rfl⟩
      rw [State.world, LockedStore.run_put timeout id, hc] at hrun
      cases hrun
      exact ⟨_, _, .stored hp hnodup, rfl⟩
  | endCommit hp => exact ⟨_, _, .ended hp, rfl⟩
  | rollback hc hp hrun =>
    rw [State.world, LockedStore.rollback_eq timeout id, hc] at hrun
    cases hrun
    exact ⟨_, _, .rolledBack (not_isCommitting_of_idle hp), rfl⟩

/-! ## Each step keeps the invariant -/

/-- A step of one thread keeps the invariant if it keeps what concerns the
thread, and the locks of the others. -/
theorem Inv.after (hi : Inv timeout id s) (hsound : Loader.Sound timeout id t ⟨w.state.1, phase⟩)
    (hown : ∀ k, w.state.2.1.find? k = some t ↔ k ∈ Loader.locked ⟨w.state.1, phase⟩)
    (hothers : ∀ t' k, t' ≠ t → (w.state.2.1.find? k = some t' ↔ s.locks.find? k = some t'))
    (hvacant : ∀ t' k, w.state.2.1.find? k = some t' → w.state.2.2.lookup k = none) :
    Inv timeout id (s.after t w phase) := by
  refine ⟨?_, ?_, hvacant⟩
  · intro t'
    by_cases ht : t' = t
    · subst ht
      rw [s.loaders_after_self]
      exact hsound
    · rw [s.loaders_after_ne _ _ ht]
      exact hi.sound t'
  · intro t' k
    by_cases ht : t' = t
    · subst ht
      rw [s.loaders_after_self]
      exact hown k
    · rw [s.loaders_after_ne _ _ ht]
      exact (hothers t' k ht).trans (hi.locks t' k)

/-- A step that changes no lock and not the store. -/
theorem Inv.relabel (hi : Inv timeout id s) {b : Buffer} {e : Environment}
    (hsound : Loader.Sound timeout id t ⟨b, phase⟩)
    (hlocked : ∀ k, k ∈ (s.loaders t).locked ↔ k ∈ Loader.locked ⟨b, phase⟩) :
    Inv timeout id (s.after t ⟨e, (b, (s.locks, s.store))⟩ phase) :=
  hi.after hsound (fun k => (hi.locks t k).trans (hlocked k)) (fun _ _ _ => Iff.rfl) hi.vacant

/-- A read keeps what holds of a thread. -/
theorem Loader.Sound.read {l : Loader} (hs : l.Sound timeout id t) (k : CacheKey)
    (found : Option Value) : Loader.Sound timeout id t ⟨l.buffer.afterGet k found, .idle⟩ := by
  cases found with
  | some v => exact ⟨hs.noClear, hs.written, hs.nodup, trivial⟩
  | none =>
    -- one more missed key
    refine ⟨?_, ?_, Buffer.nodup_misses_miss hs.nodup k, trivial⟩
    · show (l.buffer.miss k).clearPending = false
      rw [Buffer.clearPending_miss]
      exact hs.noClear
    · intro k' hk'
      show k' ∈ (l.buffer.miss k).misses
      have hw : k' ∈ (l.buffer.miss k).writes.keys := hk'
      rw [Buffer.writes_miss] at hw
      rw [Buffer.mem_misses_miss]
      exact Or.inr (hs.written k' hw)

/-- A read of a key whose lock is free for the thread: the thread keeps the lock
exactly if it found nothing. -/
theorem Inv.answered (hi : Inv timeout id s) (hopen : ¬ (s.loaders t).isCommitting)
    (hf : s.locks.isFree k t = true) (e : Environment) :
    Inv timeout id (s.after t
      ⟨e, ((s.loaders t).buffer.afterGet k (s.store.lookup k),
        (s.locks.afterRead k t (s.store.lookup k), s.store))⟩ .idle) := by
  have hmine : ∀ k', s.locks.find? k' = some t ↔ k' ∈ (s.loaders t).buffer.misses := by
    intro k'
    rw [hi.locks t k', locked_of_not_committing hopen]
  refine hi.after ((hi.sound t).read k _) ?_ ?_ ?_
  · -- the locks of the thread itself
    intro k'
    show (s.locks.afterRead k t (s.store.lookup k)).find? k' = some t ↔
      k' ∈ ((s.loaders t).buffer.afterGet k (s.store.lookup k)).misses
    rw [KeyLocks.find?_afterRead]
    cases hfound : s.store.lookup k with
    | some v =>
      by_cases hk : k' = k
      · subst hk
        -- A key that the thread missed before has no value yet.
        have hnot : ¬ k' ∈ (s.loaders t).buffer.misses := by
          intro hm
          rw [hi.vacant t k' ((hmine k').2 hm)] at hfound
          cases hfound
        simpa [Buffer.afterGet] using hnot
      · rw [if_neg hk]
        exact hmine k'
    | none =>
      show _ ↔ k' ∈ ((s.loaders t).buffer.miss k).misses
      rw [Buffer.mem_misses_miss]
      by_cases hk : k' = k
      · rw [if_pos hk]
        exact ⟨fun _ => Or.inl hk, fun _ => rfl⟩
      · rw [if_neg hk, hmine k']
        exact ⟨Or.inr, fun h => h.resolve_left hk⟩
  · -- the locks of the others
    intro t' k' ht
    exact KeyLocks.afterRead_others hf _ ht k'
  · -- a lock that is kept is on a key without a value
    intro t' k' h
    rcases KeyLocks.find?_of_afterRead h with ⟨rfl, hnone⟩ | h'
    · exact hnone
    · exact hi.vacant t' k' h'

theorem Inv.written (hi : Inv timeout id s) (hopen : ¬ (s.loaders t).isCommitting)
    (hk : k ∈ (s.loaders t).buffer.misses) (x : Option Value) (e : Environment) :
    Inv timeout id
      (s.after t ⟨e, ((s.loaders t).buffer.write k x, (s.locks, s.store))⟩ .idle) := by
  have hs := hi.sound t
  refine hi.relabel ⟨hs.noClear, ?_, hs.nodup, trivial⟩ ?_
  · intro k' hk'
    rcases Entries.mem_keys_insertList.1 hk' with rfl | hk'
    · exact hk
    · exact hs.written k' hk'
  · intro k'
    rw [locked_of_not_committing hopen]
    exact Iff.rfl

theorem keys_entriesOf (b : Buffer) (misses : List CacheKey) :
    (entriesOf b misses).map Prod.fst =
      b.writes.keys ++ misses.filter fun k => !b.writes.contains k := by
  unfold entriesOf
  rw [List.map_append, List.map_map]
  congr 1
  exact List.map_id _

theorem mem_filter_not_written {b : Buffer} {misses : List CacheKey} {k : CacheKey} :
    k ∈ misses.filter (fun k => !b.writes.contains k) ↔ k ∈ misses ∧ ¬ k ∈ b.writes.keys := by
  rw [List.mem_filter, Entries.contains_eq_isSome_find?, ← Entries.isSome_find?_iff]
  simp

theorem Inv.begun (hi : Inv timeout id s) (hopen : ¬ (s.loaders t).isCommitting)
    {misses : List CacheKey} (hm : misses.Perm (s.loaders t).buffer.misses) (e : Environment) :
    Inv timeout id (s.after t (s.world t e)
      (.committing (puts (entriesOf (s.loaders t).buffer misses)))) := by
  have hs := hi.sound t
  refine hi.relabel ⟨hs.noClear, hs.written, hs.nodup, _, rfl, ?_⟩ ?_
  · -- no key twice: the absences are under keys that were not written
    rw [keys_entriesOf]
    refine List.nodup_append.2 ⟨(s.loaders t).buffer.writes.nodup, ?_, ?_⟩
    · exact (hm.nodup_iff.2 hs.nodup).filter _
    · rintro k hw k' hk' rfl
      exact (mem_filter_not_written.1 hk').2 hw
  · -- written or not, exactly the missed keys are put
    intro k
    rw [locked_of_not_committing hopen, locked_of_committing rfl, keys_entriesOf, List.mem_append,
      mem_filter_not_written, hm.mem_iff]
    by_cases hw : k ∈ (s.loaders t).buffer.writes.keys
    · exact ⟨fun _ => .inl hw, fun _ => hs.written k hw⟩
    · exact ⟨fun h => .inr ⟨h, hw⟩, fun h => (h.resolve_left hw).1⟩

/-- A step that gives back locks of the thread, and stores at most under their
keys, keeps the invariant. -/
theorem Inv.release (hi : Inv timeout id s) (hsound : Loader.Sound timeout id t ⟨w.state.1, phase⟩)
    (released : List CacheKey) (hmine : ∀ k ∈ released, s.locks.find? k = some t)
    (hfind : ∀ k, w.state.2.1.find? k = if k ∈ released then none else s.locks.find? k)
    (hlocked : ∀ k, k ∈ Loader.locked ⟨w.state.1, phase⟩ ↔
      k ∈ (s.loaders t).locked ∧ ¬ k ∈ released)
    (hstore : ∀ k, ¬ k ∈ released → w.state.2.2.lookup k = s.store.lookup k) :
    Inv timeout id (s.after t w phase) := by
  -- A lock that is held after the step was held before it and was not given back.
  have hheld : ∀ t' k, w.state.2.1.find? k = some t' ↔
      s.locks.find? k = some t' ∧ ¬ k ∈ released := by
    intro t' k
    rw [hfind]
    by_cases hk : k ∈ released
    · simp [hk]
    · simp [hk]
  refine hi.after hsound ?_ ?_ ?_
  · intro k
    rw [hheld, hlocked, hi.locks t k]
  · intro t' k ht
    rw [hheld]
    constructor
    · intro h
      exact h.1
    · intro h
      refine ⟨h, fun hk => ht ?_⟩
      exact Option.some.inj (h.symm.trans (hmine k hk))
  · intro t' k h
    rcases (hheld t' k).1 h with ⟨h', hk⟩
    rw [hstore k hk]
    exact hi.vacant t' k h'

theorem Inv.stored (hi : Inv timeout id s) {x : Option Value}
    {entries : List (CacheKey × Option Value)}
    (hp : (s.loaders t).phase = .committing (puts ((k, x) :: entries)))
    (hnodup : (((k, x) :: entries).map Prod.fst).Nodup) (e : Environment) :
    Inv timeout id (s.after t
      ⟨e, ((s.loaders t).buffer, (s.locks.release k t, s.store.insert k x))⟩
      (.committing (puts entries))) := by
  have hs := hi.sound t
  have hlocked := locked_of_committing hp
  obtain ⟨hnew, hrest⟩ := List.nodup_cons.1 hnodup
  have hmine : s.locks.find? k = some t := by
    rw [hi.locks t k, hlocked]
    exact List.mem_cons_self
  refine hi.release ⟨hs.noClear, hs.written, hs.nodup, entries, rfl, hrest⟩ [k] ?_ ?_ ?_ ?_
  · intro k' hk'
    rw [List.mem_singleton.1 hk']
    exact hmine
  · -- The thread has the lock of the key, so the put really gives it back.
    intro k'
    show (s.locks.release k t).find? k' = _
    rw [KeyLocks.find?_release, hmine]
    simp
  · -- The calls that are left are on other keys.
    intro k'
    rw [locked_of_committing rfl, hlocked, List.map_cons, List.mem_cons, List.mem_singleton]
    constructor
    · intro h
      refine ⟨Or.inr h, ?_⟩
      rintro rfl
      exact hnew h
    · intro h
      exact h.1.resolve_left h.2
  · intro k' hk'
    show Store.lookup (s.store.insert k x) k' = _
    rw [Store.lookup_insert, if_neg (fun h => hk' (List.mem_singleton.2 h))]

theorem Inv.rolledBack (hi : Inv timeout id s) (hopen : ¬ (s.loaders t).isCommitting)
    (e : Environment) :
    Inv timeout id (s.after t
      ⟨e, (.empty, (s.locks.releaseAll t (s.loaders t).buffer.misses, s.store))⟩ .idle) := by
  have hlocked := locked_of_not_committing hopen
  -- The missed keys are all that the thread has locked.
  have hmine : ∀ k, k ∈ (s.loaders t).buffer.misses ↔ s.locks.find? k = some t := by
    intro k
    rw [hi.locks t k, hlocked]
  refine hi.release (sound_empty timeout id t) (s.loaders t).buffer.misses ?_ ?_ ?_ ?_
  · intro k hk
    exact (hmine k).1 hk
  · intro k
    rw [KeyLocks.find?_releaseAll]
    simp only [hmine, and_self]
  · intro k
    rw [hlocked]
    constructor
    · intro h
      cases h
    · intro h
      exact absurd h.1 h.2
  · intro k _
    rfl

/-- Every effect keeps the invariant. -/
theorem Effect.inv (hi : Inv timeout id s) (h : Effect timeout id s t act w phase) :
    Inv timeout id (s.after t w phase) := by
  cases h with
  | answered hopen hf => exact hi.answered hopen hf _
  | refused hopen hphase hnext =>
    have hs := hi.sound t
    refine hi.relabel ⟨hs.noClear, hs.written, hs.nodup, hphase⟩ fun k => ?_
    rw [locked_of_not_committing hopen, locked_of_not_committing hnext]
  | written hopen hk => exact hi.written hopen hk _ _
  | begun hopen hm => exact hi.begun hopen hm _
  | stored hp hnodup => exact hi.stored hp hnodup _
  | ended hp =>
    refine hi.relabel (sound_empty timeout id t) fun k => ?_
    rw [locked_of_committing hp]
    exact Iff.rfl
  | rolledBack hopen => exact hi.rolledBack hopen _

/-- Every step keeps the invariant. -/
theorem Step.inv (hi : Inv timeout id s) (h : Step timeout id s t act s') :
    Inv timeout id s' := by
  obtain ⟨w, phase, heffect, rfl⟩ := h.effect hi
  exact heffect.inv hi

/-! ## What a step stores -/

/-- A commit puts nothing under a key that has a value. -/
theorem Effect.vacant (hi : Inv timeout id s) {x : Option Value}
    (h : Effect timeout id s t (.call (.put k x)) w phase) : s.store.lookup k = none := by
  cases h with
  | stored hp hnodup =>
    refine hi.vacant t k ((hi.locks t k).2 ?_)
    rw [locked_of_committing hp]
    exact List.mem_cons_self

/-- The values in the store are those that were there and the one that the step puts. -/
theorem Effect.lookup_eq_some_iff (hi : Inv timeout id s)
    (h : Effect timeout id s t act w phase) {v : Value} :
    w.state.2.2.lookup k = some v ↔
      s.store.lookup k = some v ∨ act = .call (.put k (some v)) := by
  have hvacant : ∀ x, act = .call (.put k x) → s.store.lookup k = none := by
    rintro x rfl
    exact h.vacant hi
  cases h with
  | @stored k' x entries e hp hnodup =>
    show Store.lookup (s.store.insert k' x) k = some v ↔ _
    rw [Store.lookup_insert]
    by_cases hk : k = k'
    · subst hk
      rw [if_pos rfl, hvacant x rfl]
      simp
    · have hne : ¬ k' = k := fun h => hk h.symm
      rw [if_neg hk]
      simp [hne]
  | answered => exact ⟨.inl, fun h => h.resolve_right nofun⟩
  | refused => exact ⟨.inl, fun h => h.resolve_right nofun⟩
  | written => exact ⟨.inl, fun h => h.resolve_right nofun⟩
  | begun => exact ⟨.inl, fun h => h.resolve_right nofun⟩
  | ended => exact ⟨.inl, fun h => h.resolve_right nofun⟩
  | rolledBack => exact ⟨.inl, fun h => h.resolve_right nofun⟩

end Steps

end QueryCache.SingleLoader
