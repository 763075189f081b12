import Mathlib
import QueryCache.Proofs.Transaction.LoaderSteps

/-!
# One loader for each key

What happens to a key is told by the history of the steps.  The thread that
misses the key has its lock until it has stored something under the key or has
rolled back, and nobody else's read of the key is answered in the meantime.
Once the unit has committed a value, the value stays: it is the answer of every
later read of the key, and no commit puts anything under the key again.

1. histories
2. what is kept of a history
3. whole commits
4. blocked and answered reads
5. one loader for each key
-/

namespace QueryCache.SingleLoader

open Buffer (SharedCall)
open LockedStore (Base cache)

/-! ## Histories -/

/-- What the threads did, in order. -/
abbrev History := List (Thread × Act)

/-- Any number of steps of any threads. -/
inductive Run (timeout : Option Duration) (id : String) : State → History → State → Prop where
  | start (s) : Run timeout id s [] s
  | step {s history s' t act s''} (h : Run timeout id s history s')
      (hstep : Step timeout id s' t act s'') : Run timeout id s (history ++ [(t, act)]) s''

/-- The value put last under a key, after one more action of the same thread. -/
def Act.lastPut (k : CacheKey) (before : Option Value) : Act → Option Value
  | put k' v => if k = k' then some v else before
  | endCommit | rollback => none
  | read _ | beginCommit | call _ => before

/-- The value that a thread put last under a key since its last commit or rollback. -/
def lastPut (t : Thread) (k : CacheKey) (history : History) : Option Value :=
  history.foldl (fun before a => if a.1 = t then a.2.lastPut k before else before) none

/-- The beginning of a commit, and its calls, with no other thread in between. -/
def commitSteps (t : Thread) (calls : List SharedCall) : History :=
  (t, .beginCommit) :: calls.map fun call => (t, .call call)

section Histories

variable {timeout : Option Duration} {id : String} {s s' s'' : State} {t t' : Thread} {act : Act}
  {history later : History} {k : CacheKey} {v : Value}

theorem lastPut_concat_self (t : Thread) (k : CacheKey) (history : History) (act : Act) :
    lastPut t k (history ++ [(t, act)]) = act.lastPut k (lastPut t k history) := by
  rw [lastPut, List.foldl_append]
  exact if_pos rfl

theorem lastPut_concat_ne (h : t' ≠ t) (k : CacheKey) (history : History) (act : Act) :
    lastPut t' k (history ++ [(t, act)]) = lastPut t' k history := by
  rw [lastPut, List.foldl_append]
  exact if_neg (fun heq => h heq.symm)

/-- The steps of a commit put nothing into a buffer. -/
theorem lastPut_append_commitSteps (t : Thread) (k : CacheKey) (history : History)
    (calls : List SharedCall) :
    lastPut t k (history ++ commitSteps t calls) = lastPut t k history := by
  have hcalls : ∀ before : Option Value, (calls.map fun call => (t, Act.call call)).foldl
      (fun before a => if a.1 = t then a.2.lastPut k before else before) before = before := by
    intro before
    induction calls with
    | nil => rfl
    | cons call rest ih =>
      rw [List.map_cons, List.foldl_cons, if_pos rfl]
      exact ih
  rw [lastPut, List.foldl_append, commitSteps, List.foldl_cons, if_pos rfl, hcalls]
  rfl

/-- One step is a run. -/
theorem Step.run (h : Step timeout id s t act s') : Run timeout id s [(t, act)] s' :=
  .step (.start s) h

theorem Run.trans (h : Run timeout id s history s') (h' : Run timeout id s' later s'') :
    Run timeout id s (history ++ later) s'' := by
  induction h' with
  | start =>
    rw [List.append_nil]
    exact h
  | step _ hstep ih =>
    rw [← List.append_assoc]
    exact .step ih hstep

theorem Run.inv (hi : Inv timeout id s) (h : Run timeout id s history s') :
    Inv timeout id s' := by
  induction h with
  | start => exact hi
  | step _ hstep ih => exact hstep.inv ih

/-- No run takes a value out of the store or puts another one in its place. -/
theorem Run.lookup (hi : Inv timeout id s) (h : Run timeout id s history s')
    (hv : s.store.lookup k = some v) : s'.store.lookup k = some v := by
  induction h with
  | start => exact hv
  | step hrun hstep ih =>
    obtain ⟨w, phase, heffect, rfl⟩ := hstep.effect (hrun.inv hi)
    exact (heffect.lookup_eq_some_iff (hrun.inv hi)).2 (.inl ih)

/-! ## What is kept of a history -/

/-- The threads and the store know of a history what they need. -/
structure Keeps (timeout : Option Duration) (id : String) (history : History) (s : State) :
    Prop where
  inv : Inv timeout id s
  /-- A buffer has the values that its thread put last. -/
  written : ∀ t k, (s.loaders t).buffer.writes.find? k = (lastPut t k history).map some
  /-- What a commit has to store is in the store, or in a call that is left. -/
  flushed : ∀ t entries, (s.loaders t).phase = .committing (puts entries) →
    ∀ k v, lastPut t k history = some v → (k, some v) ∈ entries ∨ s.store.lookup k = some v
  /-- Commits have put the values into the store, and nothing else has. -/
  stored : ∀ k v, s.store.lookup k = some v ↔ ∃ t, (t, .call (.put k (some v))) ∈ history

theorem keeps_nil (timeout : Option Duration) (id : String) : Keeps timeout id [] {} where
  inv := init_inv timeout id
  written t k := rfl
  flushed t entries h := by cases h
  stored k v := ⟨nofun, fun ⟨_, h⟩ => (List.not_mem_nil h).elim⟩

/-- A step changes what a buffer has under a key as it changes the last put. -/
theorem Effect.find?_written {w : World (Buffer × Base)} {phase : Phase}
    (h : Effect timeout id s t act w phase) {last : Option Value}
    (hlast : (s.loaders t).buffer.writes.find? k = last.map some) :
    w.state.1.writes.find? k = (act.lastPut k last).map some := by
  cases h with
  | answered hopen hf =>
    rw [Buffer.writes_afterGet]
    exact hlast
  | @written k' v e hopen hk =>
    show ((s.loaders t).buffer.writes.insert k' (some v)).find? k = _
    rw [Entries.find?_insert, Act.lastPut]
    by_cases hk : k = k'
    · rw [if_pos hk, if_pos hk]
      rfl
    · rw [if_neg hk, if_neg hk]
      exact hlast
  | ended => rfl
  | rolledBack => rfl
  | refused => exact hlast
  | begun => exact hlast
  | stored => exact hlast

/-- What the buffer has under a key is among the entries that its commit puts. -/
theorem mem_entriesOf {b : Buffer} {x : Option Value} (h : b.writes.find? k = some x)
    (misses : List CacheKey) : (k, x) ∈ entriesOf b misses :=
  List.mem_append_left _ (Entries.mem_of_find? h)

/-- A commit goes on with the calls for all that was put last, or has stored it. -/
theorem Effect.flushed (hk : Keeps timeout id history s) {w : World (Buffer × Base)}
    {entries : List (CacheKey × Option Value)}
    (h : Effect timeout id s t act w (.committing (puts entries)))
    (hlast : act.lastPut k (lastPut t k history) = some v) :
    (k, some v) ∈ entries ∨ w.state.2.2.lookup k = some v := by
  generalize hphase : Phase.committing (puts entries) = phase at h
  cases h with
  | @begun misses e hopen hm =>
    have hwritten := hk.written t k
    rw [show lastPut t k history = some v from hlast] at hwritten
    rw [puts_injective (Phase.committing.inj hphase)]
    exact .inl (mem_entriesOf hwritten misses)
  | @stored k' x rest e hp hnodup =>
    rw [puts_injective (Phase.committing.inj hphase)]
    rcases hk.flushed t _ hp k v hlast with hmem | hv
    · rcases List.mem_cons.1 hmem with heq | hmem
      · -- It is this very call that stores the value.
        cases heq
        refine .inr ?_
        show Store.lookup (s.store.insert k (some v)) k = some v
        rw [Store.lookup_insert, if_pos rfl]
      · exact .inl hmem
    · exact .inr (((Effect.stored hp hnodup).lookup_eq_some_iff hk.inv).2 (.inl hv))
  | refused hopen hsound hnext => exact absurd ⟨_, hphase.symm⟩ hnext
  | answered => cases hphase
  | written => cases hphase
  | ended => cases hphase
  | rolledBack => cases hphase

theorem Keeps.step (hk : Keeps timeout id history s) (h : Step timeout id s t act s') :
    Keeps timeout id (history ++ [(t, act)]) s' := by
  obtain ⟨w, phase, heffect, rfl⟩ := h.effect hk.inv
  refine ⟨heffect.inv hk.inv, ?_, ?_, ?_⟩
  · intro t' k
    by_cases ht : t' = t
    · subst ht
      rw [s.loaders_after_self, lastPut_concat_self]
      exact heffect.find?_written (hk.written t' k)
    · rw [s.loaders_after_ne _ _ ht, lastPut_concat_ne ht]
      exact hk.written t' k
  · intro t' entries hp k v hlast
    by_cases ht : t' = t
    · subst ht
      rw [s.loaders_after_self] at hp
      rw [lastPut_concat_self] at hlast
      cases hp
      exact heffect.flushed hk hlast
    · -- The others go on with what they had, and what is stored stays.
      rw [s.loaders_after_ne _ _ ht] at hp
      rw [lastPut_concat_ne ht] at hlast
      refine (hk.flushed t' entries hp k v hlast).imp_right fun hv => ?_
      exact (heffect.lookup_eq_some_iff hk.inv).2 (.inl hv)
  · intro k v
    have hiff := heffect.lookup_eq_some_iff hk.inv (k := k) (v := v)
    refine hiff.trans ?_
    rw [hk.stored k v]
    constructor
    · rintro (⟨t', hmem⟩ | rfl)
      · exact ⟨t', List.mem_append_left _ hmem⟩
      · exact ⟨t, List.mem_append_right _ (List.mem_singleton.2 rfl)⟩
    · rintro ⟨t', hmem⟩
      rcases List.mem_append.1 hmem with hmem | hmem
      · exact .inl ⟨t', hmem⟩
      · cases List.mem_singleton.1 hmem
        exact .inr rfl

theorem Run.keeps (h : Run timeout id s history s') {before : History}
    (hk : Keeps timeout id before s) : Keeps timeout id (before ++ history) s' := by
  induction h with
  | start =>
    rw [List.append_nil]
    exact hk
  | step _ hstep ih =>
    rw [← List.append_assoc]
    exact ih.step hstep

/-! ## Whole commits -/

theorem runAll_run (s : State) {c : Caller} (hc : c.thread = t) (e : Environment)
    (entries : List (CacheKey × Option Value)) (b : Buffer) (base : Base) :
    ∃ base', SharedCall.runAll (Buffer.shared (cache timeout id)) (puts entries) c ⟨e, (b, base)⟩ =
        .done (.ok ()) ⟨e, (b, base')⟩ ∧
      Run timeout id (s.after t ⟨e, (b, base)⟩ (.committing (puts entries)))
        ((puts entries).map fun call => (t, .call call))
        (s.after t ⟨e, (b, base')⟩ (.committing [])) := by
  induction entries generalizing base with
  | nil => exact ⟨base, rfl, .start _⟩
  | cons entry rest ih =>
    rcases base with ⟨locks, store⟩
    obtain ⟨base', hrun, hsteps⟩ :=
      ih (locks.release entry.1 c.thread, store.insert entry.1 entry.2)
    refine ⟨base', hrun, ?_⟩
    let s₁ := s.after t ⟨e, (b, (locks, store))⟩ (.committing (puts (entry :: rest)))
    have hphase : (s₁.loaders t).phase = .committing (.put entry.1 entry.2 :: puts rest) := by
      rw [s.loaders_after_self]
      rfl
    have hput : (SharedCall.put entry.1 entry.2).run (Buffer.shared (cache timeout id)) c
        (s₁.world t e) = .done (.ok ())
          ⟨e, (b, (locks.release entry.1 c.thread, store.insert entry.1 entry.2))⟩ := by
      rw [s.world_after]
      exact LockedStore.run_put timeout id entry.2
    have hstep := Step.call hc hphase hput
    rw [s.after_after] at hstep
    exact hstep.run.trans hsteps

/-- A commit that nobody interrupts is the operation of the buffer. -/
theorem Inv.commitWith_steps (hi : Inv timeout id s) {c : Caller}
    (hp : (s.loaders c.thread).phase = .idle) {order : Buffer → List CacheKey}
    (hm : (order (s.loaders c.thread).buffer).Perm (s.loaders c.thread).buffer.misses)
    (e : Environment) :
    ∃ w s', Buffer.commitWith order (cache timeout id) c (s.world c.thread e) = .done (.ok ()) w ∧
      Run timeout id s
        (commitSteps c.thread
          ((s.loaders c.thread).buffer.planWith (order (s.loaders c.thread).buffer))) s' ∧
      Step timeout id s' c.thread .endCommit (s.after c.thread w .idle) := by
  let b := (s.loaders c.thread).buffer
  have hplan : b.planWith (order b) = puts (entriesOf b (order b)) :=
    planWith_eq_puts (hi.sound c.thread).noClear (order b)
  obtain ⟨base, hrun, hsteps⟩ :=
    runAll_run s rfl e (entriesOf b (order b)) b (s.locks, s.store)
  rw [← hplan] at hrun hsteps
  refine ⟨⟨e, (.empty, base)⟩, s.after c.thread ⟨e, (b, base)⟩ (.committing []), ?_, ?_, ?_⟩
  · show (SharedCall.runAll (Buffer.shared (cache timeout id)) _ c
      (s.world c.thread e)).bind _ c = _
    rw [State.world, hrun]
    rfl
  · have hbegin : Step timeout id s c.thread .beginCommit
        (s.after c.thread (s.world c.thread e) (.committing (b.planWith (order b)))) :=
      .beginCommit hp hm
    exact hbegin.run.trans hsteps
  · have hphase : ((s.after c.thread ⟨e, (b, base)⟩ (.committing [])).loaders c.thread).phase =
        .committing [] := by
      rw [s.loaders_after_self]
    have hend : Step timeout id _ _ _ _ := Step.endCommit (e := e) hphase
    rw [s.after_after] at hend
    exact hend

/-! ## Blocked and answered reads -/

/-- No read of the key by the thread ends with an answer: one that starts waits,
and one that waited fails when it goes on. -/
structure Blocked (timeout : Option Duration) (id : String) (s : State) (t : Thread)
    (k : CacheKey) : Prop where
  start : ∀ c e, c.thread = t → ∃ wait resume,
    Buffer.get (cache timeout id) k c (s.world t e) = .waiting (s.world t e) wait resume
  goOn : ∀ wait resume, (s.loaders t).phase = .reading k wait resume → ∀ c e, c.thread = t →
    resume c (s.world t e) =
      .done (.error (.lockTimeout id k (timeout.getD ⟨0⟩))) (s.world t e)

/-- Every read of the key by the thread ends at once with the value. -/
structure Answered (timeout : Option Duration) (id : String) (s : State) (t : Thread)
    (k : CacheKey) (v : Value) : Prop where
  start : ∀ c e, c.thread = t → ∃ w,
    Buffer.get (cache timeout id) k c (s.world t e) = .done (.ok (some v)) w
  goOn : ∀ wait resume, (s.loaders t).phase = .reading k wait resume → ∀ c e, c.thread = t →
    ∃ w, resume c (s.world t e) = .done (.ok (some v)) w

theorem Inv.blocked (hi : Inv timeout id s) (hk : s.locks.find? k = some t) (ht : t' ≠ t) :
    Blocked timeout id s t' k := by
  have hf : ¬ s.locks.isFree k t' = true := by
    intro hfree
    exact ht (KeyLocks.isFree_iff.1 hfree t hk).symm
  constructor
  · rintro c e rfl
    obtain ⟨wait, resume, hget, -⟩ := LockedStore.get_of_not_isFree timeout id
      (e := e) (b := (s.loaders c.thread).buffer) (s := s.store) hf
    exact ⟨wait, resume, hget⟩
  · intro wait resume hp c e hc
    have hphase := (hi.sound t').phase
    rw [hp] at hphase
    exact hphase.late c e _ _ _ hc hf

theorem Inv.allAnswered (hi : Inv timeout id s) (hv : s.store.lookup k = some v) (t : Thread) :
    Answered timeout id s t k v := by
  -- A key with a value is locked by nobody.
  have hf : s.locks.isFree k t = true := by
    rw [KeyLocks.isFree_iff]
    intro t' ht'
    rw [hi.vacant t' k ht'] at hv
    cases hv
  have hclear := (hi.sound t).noClear
  constructor
  · rintro c e rfl
    have hget := LockedStore.get_of_isFree timeout id (e := e)
      (b := (s.loaders c.thread).buffer) (s := s.store) hf
    rw [hclear, hv] at hget
    exact ⟨_, hget⟩
  · intro wait resume hp c e hc
    have hphase := (hi.sound t).phase
    rw [hp] at hphase
    have hresume := hphase.free c e (s.loaders t).buffer s.locks s.store hc hf
    rw [hclear, hv] at hresume
    exact ⟨_, hresume⟩

/-! ## One loader for each key -/

/-- In this state and in all that it leads to, the store has the value under the
key, and every read of the key is answered with it. -/
def Settled (timeout : Option Duration) (id : String) (s : State) (k : CacheKey) (v : Value) :
    Prop :=
  ∀ later s', Run timeout id s later s' →
    s'.store.lookup k = some v ∧ ∀ t, Answered timeout id s' t k v

theorem Inv.settled (hi : Inv timeout id s) (hv : s.store.lookup k = some v) :
    Settled timeout id s k v := by
  intro later s' h
  have hv' := h.lookup hi hv
  exact ⟨hv', (h.inv hi).allAnswered hv'⟩

theorem Keeps.settled_of_endCommit (hk : Keeps timeout id history s)
    (h : Step timeout id s t .endCommit s') (hlast : lastPut t k history = some v) :
    Settled timeout id s' k v := by
  have hi' := h.inv hk.inv
  obtain ⟨w, phase, heffect, rfl⟩ := h.effect hk.inv
  refine hi'.settled ((heffect.lookup_eq_some_iff hk.inv).2 (.inl ?_))
  cases heffect with
  | ended hp => exact (hk.flushed t [] hp k v hlast).resolve_left List.not_mem_nil

/-- What can be relied on after the steps of a history. -/
structure OneLoader (timeout : Option Duration) (id : String) (history : History) (s : State) :
    Prop where
  /-- Outside its commits a thread holds the lock of a key exactly if its unit missed the key. -/
  holds : ∀ t k, ¬ (s.loaders t).isCommitting →
    (s.locks.find? k = some t ↔ k ∈ (s.loaders t).buffer.misses)
  /-- Of the threads outside their commits only one has missed a key. -/
  unique : ∀ t t' k, ¬ (s.loaders t).isCommitting → ¬ (s.loaders t').isCommitting →
    k ∈ (s.loaders t).buffer.misses → k ∈ (s.loaders t').buffer.misses → t = t'
  /-- While a thread holds the lock of a key, no other thread's read of it is answered. -/
  blocked : ∀ t t' k, s.locks.find? k = some t → t' ≠ t → Blocked timeout id s t' k
  /-- No commit puts anything, a value or an absence, under a key that has a value. -/
  vacant : ∀ t k x s', Step timeout id s t (.call (.put k x)) s' → s.store.lookup k = none
  /-- The values in the store are those that commits have put there; they stay, and every read
  is answered with them. -/
  stored : ∀ k v, (s.store.lookup k = some v ↔ ∃ t, (t, .call (.put k (some v))) ∈ history) ∧
    (s.store.lookup k = some v → Settled timeout id s k v)
  /-- With the end of its commit, what a unit has put last under a key is settled. -/
  committed : ∀ t k v s', Step timeout id s t .endCommit s' → lastPut t k history = some v →
    Settled timeout id s' k v
  /-- The commit of an idle thread, as the buffer makes it, succeeds; it is a run of the steps of
  a commit, with the calls that the buffer has planned, and settles what was put last. -/
  commits : ∀ (c : Caller) (order : Buffer → List CacheKey) (e : Environment),
    (s.loaders c.thread).phase = .idle →
    (order (s.loaders c.thread).buffer).Perm (s.loaders c.thread).buffer.misses →
    ∃ w, Buffer.commitWith order (cache timeout id) c (s.world c.thread e) = .done (.ok ()) w ∧
      Run timeout id s
        (commitSteps c.thread
            ((s.loaders c.thread).buffer.planWith (order (s.loaders c.thread).buffer)) ++
          [(c.thread, .endCommit)])
        (s.after c.thread w .idle) ∧
      ∀ k v, lastPut c.thread k history = some v →
        Settled timeout id (s.after c.thread w .idle) k v

/-- In every state that the steps of any threads lead to: outside its commits a
thread holds the lock of a key exactly if its unit missed the key, so only one
unit can have missed it; while a thread holds the lock of a key no read of the
key by another thread is answered; a commit puts nothing under a key that has a
value; and once a unit has committed a value, the value stays in the store and
is the answer of every later read of its key. -/
theorem one_loader_per_key (h : Run timeout id {} history s) : OneLoader timeout id history s := by
  have hk : Keeps timeout id history s := h.keeps (keeps_nil timeout id)
  have hi := hk.inv
  have hholds : ∀ t k, ¬ (s.loaders t).isCommitting →
      (s.locks.find? k = some t ↔ k ∈ (s.loaders t).buffer.misses) := by
    intro t k ht
    rw [hi.locks t k, locked_of_not_committing ht]
  refine ⟨hholds, ?_, ?_, ?_, ?_, ?_, ?_⟩
  · intro t t' k ht ht' hm hm'
    have h₁ := (hholds t k ht).2 hm
    have h₂ := (hholds t' k ht').2 hm'
    exact Option.some.inj (h₁.symm.trans h₂)
  · intro t t' k hheld ht
    exact hi.blocked hheld ht
  · intro t k x s' hstep
    obtain ⟨w, phase, heffect, -⟩ := hstep.effect hi
    exact heffect.vacant hi
  · intro k v
    exact ⟨hk.stored k v, hi.settled⟩
  · intro t k v s' hstep hlast
    exact hk.settled_of_endCommit hstep hlast
  · intro c order e hp hm
    obtain ⟨w, s', hcommit, hrun, hend⟩ := hi.commitWith_steps hp hm e
    refine ⟨w, hcommit, .step hrun hend, fun k v hlast => ?_⟩
    refine (hrun.keeps hk).settled_of_endCommit hend ?_
    rw [lastPut_append_commitSteps]
    exact hlast

end Histories

section Sample

/-- The row that a thread loads. -/
def ada : Value := .data 0 (.row ⟨1, "ada"⟩) true

/-- A thread has read a key of the empty store. -/
def missed : State :=
  State.afterRead {} "loader" .null
    (Buffer.get (cache none "users") .null ⟨"loader", []⟩ (State.world {} "loader" {}))

/-- Another thread has come to read the key. -/
def awaited : State :=
  missed.afterRead "reader" .null
    (Buffer.get (cache none "users") .null ⟨"reader", []⟩ (missed.world "reader" {}))

/-- The first thread has put what it loaded. -/
def loaded : State :=
  awaited.after "loader"
    ((Buffer.put .null (some ada) : CacheOp (Buffer × Base) Unit) ⟨"loader", []⟩
      (awaited.world "loader" {})).2 .idle

/-- A thread misses a key and puts a value, while another one waits for the key.  The other one
is blocked until the commit, and then it is answered with the value, as is a third one. -/
theorem one_loader_per_key_loaded :
    ∃ s, Run none "users" {} [("loader", .read .null), ("reader", .read .null),
        ("loader", .put .null ada), ("loader", .beginCommit),
        ("loader", .call (.put .null (some ada))), ("loader", .endCommit)] s ∧
      Blocked none "users" loaded "reader" .null ∧
      (∃ wait resume w, (s.loaders "reader").phase = .reading .null wait resume ∧
        resume ⟨"reader", []⟩ (s.world "reader" {}) = .done (.ok (some ada)) w) ∧
      ∃ w, Buffer.get (cache none "users") .null ⟨"other", []⟩ (s.world "other" {}) =
        .done (.ok (some ada)) w := by
  have hmissed : Run none "users" {} [("loader", .read .null)] missed :=
    .step (.start _) (.get rfl rfl)
  have hawaited : Run none "users" {} [("loader", .read .null), ("reader", .read .null)] awaited :=
    .step hmissed (.get rfl rfl)
  have hloaded : Run none "users" {} [("loader", .read .null), ("reader", .read .null),
      ("loader", .put .null ada)] loaded :=
    .step hawaited (.put (c := ⟨"loader", []⟩) (e := {}) rfl rfl (List.mem_singleton.2 rfl) rfl)
  have hone := one_loader_per_key hloaded
  have hlock : loaded.locks.find? .null = some "loader" :=
    (hone.holds "loader" .null (not_isCommitting_of_idle rfl)).2 (List.mem_singleton.2 rfl)
  obtain ⟨w, -, hcommit, hsettled⟩ :=
    hone.commits ⟨"loader", []⟩ Buffer.misses {} rfl (List.Perm.refl _)
  have hanswered := (hsettled .null ada (by rfl) [] _ (.start _)).2
  have hreader : ((loaded.after "loader" w .idle).loaders "reader").phase =
      (loaded.loaders "reader").phase := by
    rw [loaded.loaders_after_ne _ _ (by decide)]
  obtain ⟨wait, resume, hwait⟩ : ∃ wait resume,
      (loaded.loaders "reader").phase = .reading .null wait resume := ⟨_, _, rfl⟩
  obtain ⟨w', hresume⟩ := (hanswered "reader").goOn wait resume (hreader.trans hwait)
    ⟨"reader", []⟩ {} rfl
  exact ⟨_, hloaded.trans hcommit, hone.blocked "loader" "reader" .null hlock (by decide),
    ⟨wait, resume, w', hreader.trans hwait, hresume⟩,
    (hanswered "other").start ⟨"other", []⟩ {} rfl⟩

end Sample

end QueryCache.SingleLoader
