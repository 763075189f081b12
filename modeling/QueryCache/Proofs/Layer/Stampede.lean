import Mathlib
import QueryCache.Layer.Store
import QueryCache.Proofs.Layer.LockSteps

/-!
# One thread at a time loads a missing entry

A read that finds nothing leaves its thread with the lock of the key.  Until
that thread gives the lock back, nobody else's read of the key gets as far as
the cache below, nothing that another thread does frees the lock, and a read
that gives up waiting leaves no trace.

1. the stages that a call goes through
2. a thread that has the lock is alone
3. a read that gives up
4. the protection of missing entries
-/

namespace QueryCache.LockSteps

variable {σ : Type} {timeout : Option Duration} {d : Cache σ} {s s' : State σ} {t t' : Thread}

/-! ## Stages in order -/

/-- What a thread can do next at a stage, and where that takes it. -/
def Stage.Allows (timeout : Option Duration) (id : String) : Stage σ → Act → Stage σ → Prop
  | .idle, act, next => ∃ call, act = .start call ∧ next = .first call
  | .locking k, act, next => (act = .lock k ∧ next = .calling (.get k)) ∨
      (act = .wait k ∧ ∃ wait resume, next = .waiting k wait resume)
  | .waiting k _ _, act, next => (act = .lock k ∧ next = .calling (.get k)) ∨
      (act = .giveUp k ∧
        next = .answering (.get k) (.error (.lockTimeout id k (timeout.getD ⟨0⟩))))
  | .calling call, act, _ | .suspended call _ _, act, _ => act = .below call
  | .releasing call r, act, next => act = .release call ∧ next = .answering call r
  | .freeing k, act, next =>
      act = .release (.releaseLock k) ∧ next = .calling (.releaseLock k)
  | .answering call r, act, next => act = .answer call r ∧ next = .idle

/-- Every step is one that the stage of its thread allows. -/
theorem Step.allows (hi : Inv timeout d s) {act : Act} (h : Step timeout d s t act s') :
    (s.stages t).Allows timeout d.id act (s'.stages t) := by
  cases h with
  | start call hs =>
    rw [hs, State.stages_move_self]
    exact ⟨call, rfl, rfl⟩
  | @lock k o h =>
    rcases hi.atLock_cases h with
      ⟨-, e, rfl⟩ | ⟨-, hs, e, wait, resume, rfl, -⟩ | ⟨-, ⟨wait, resume, hs⟩, e, rfl⟩
    · -- the lock was taken, at first or after a wait
      rw [State.afterLock, State.stages_after_self]
      obtain ⟨c, e', -, ⟨hs, -⟩ | ⟨wait, resume, hs, -⟩⟩ := h
      · rw [hs]
        exact .inl ⟨rfl, rfl⟩
      · rw [hs]
        exact .inl ⟨rfl, rfl⟩
    · rw [State.afterLock, State.stages_after_self, hs]
      exact .inr ⟨rfl, wait, resume, rfl⟩
    · rw [State.afterLock, State.stages_after_self, hs]
      exact .inr ⟨rfl, rfl⟩
  | @below call o h =>
    obtain ⟨c, e, -, ⟨hs, -⟩ | ⟨wait, resume, hs, -⟩⟩ := h
    · rw [hs]
      rfl
    · rw [hs]
      rfl
  | release hc hs hk hr =>
    rw [hs, State.stages_after_self]
    exact ⟨rfl, rfl⟩
  | free hc hs hr =>
    rw [hs, State.stages_after_self]
    exact ⟨rfl, rfl⟩
  | answer hs =>
    rw [hs, State.stages_move_self]
    exact ⟨rfl, rfl⟩

/-! ## Alone with a lock -/

theorem ofLock_cases (k : CacheKey) (o : Outcome CacheError (KeyLocks × σ) Unit) :
    Act.ofLock k o = .lock k ∨ Act.ofLock k o = .giveUp k ∨ Act.ofLock k o = .wait k := by
  rcases o with ⟨e | u, w⟩ | ⟨w, wait, resume⟩
  · exact .inr (.inl rfl)
  · exact .inl rfl
  · exact .inr (.inr rfl)

/-- Only the holder of the lock of a key reads the key in the cache below. -/
theorem Inv.holder_of_below (hi : Inv timeout d s) {k : CacheKey}
    (h : Step timeout d s t (.below (.get k)) s') : s.locks.find? k = some t := by
  generalize hact : Act.below (.get k) = act at h
  cases h with
  | @below call o h =>
    cases hact
    exact (hi.atBelow h).1
  | @lock k' o h => rcases ofLock_cases k' o with ho | ho | ho <;> rw [ho] at hact <;> cases hact
  | start call hs => cases hact
  | release hc hs hk hr => cases hact
  | free hc hs hr => cases hact
  | answer hs => cases hact

/-- A lock that is held is taken by its holder only. -/
theorem Inv.holder_of_lock (hi : Inv timeout d s) {k : CacheKey}
    (hheld : s.locks.find? k = some t) (h : Step timeout d s t' (.lock k) s') : t = t' :=
  KeyLocks.isFree_iff.1 ((h.effect hi).free k rfl) t hheld

/-- A thread keeps a lock until it gives it back itself. -/
theorem Inv.find?_kept (hi : Inv timeout d s) {k : CacheKey} {act : Act}
    (hheld : s.locks.find? k = some t) (h : Step timeout d s t' act s')
    (hkept : ∀ call, call.key? = some k → (t, Act.release call) ≠ (t', act)) :
    s'.locks.find? k = some t := by
  have heffect := h.effect hi
  by_cases ht : t = t'
  · -- its own step is no release of this key
    subst ht
    rw [heffect.holder, hheld]
    cases act with
    | lock k' =>
      by_cases hk : k = k'
      · rw [Act.holder, if_pos hk]
      · rw [Act.holder, if_neg hk]
    | release call =>
      have hk : call.key? ≠ some k := fun hk => hkept call hk rfl
      rw [Act.holder, if_neg fun hc => hk hc.1]
    | start call => rfl
    | wait k' => rfl
    | giveUp k' => rfl
    | below call => rfl
    | answer call r => rfl
  · exact (heffect.find?_others ht k).2 hheld

/-- As long as a thread that holds the lock of a key does not give it back, no
other thread takes the lock, or reads the key in the cache below. -/
theorem Run.alone (hi : Inv timeout d s) {k : CacheKey} {acts : List (Thread × Act)}
    (hheld : s.locks.find? k = some t) (h : Run timeout d s acts s')
    (hkept : ∀ call, call.key? = some k → (t, Act.release call) ∉ acts) (ht : t' ≠ t) :
    (t', Act.lock k) ∉ acts ∧ (t', Act.below (.get k)) ∉ acts := by
  induction h with
  | nil s => exact ⟨List.not_mem_nil, List.not_mem_nil⟩
  | @cons s t₁ act s₁ acts s₂ hstep hrun ih =>
    have hfirst : ∀ call, call.key? = some k → (t, Act.release call) ≠ (t₁, act) := by
      intro call hk heq
      exact hkept call hk (heq ▸ List.mem_cons_self)
    have hrest : ∀ call, call.key? = some k → (t, Act.release call) ∉ acts := by
      intro call hk hmem
      exact hkept call hk (List.mem_cons_of_mem _ hmem)
    obtain ⟨hlock, hbelow⟩ := ih (hi.step hstep) (hi.find?_kept hheld hstep hfirst) hrest
    constructor
    · intro hmem
      rcases List.mem_cons.1 hmem with heq | hmem
      · cases heq
        exact ht (hi.holder_of_lock hheld hstep).symm
      · exact hlock hmem
    · intro hmem
      rcases List.mem_cons.1 hmem with heq | hmem
      · cases heq
        exact ht (Option.some.inj ((hi.holder_of_below hstep).symm.trans hheld))
      · exact hbelow hmem

/-- A call ends with its thread holding the lock of the key exactly if it was a
read that missed. -/
theorem Inv.answered (hi : Inv timeout d s) {call : Call} {r : call.Result} {k : CacheKey}
    (h : Step timeout d s t (.answer call r) s') (hk : call.key? = some k) :
    s'.locks.find? k = some t ↔ call.Missed r := by
  have hquiet := ((h.effect hi).quiet trivial).1
  generalize hact : Act.answer call r = act at h
  cases h with
  | answer hs =>
    cases hact
    have hfits := hi t
    rw [hs] at hfits
    rw [hquiet]
    exact (hfits k hk).symm
  | @lock k' o h => rcases ofLock_cases k' o with ho | ho | ho <;> rw [ho] at hact <;> cases hact
  | start call hs => cases hact
  | below h => cases hact
  | release hc hs hk hr => cases hact
  | free hc hs hr => cases hact

/-- A step that is about another key, or about none, leaves the lock as it is. -/
theorem Inv.elsewhere (hi : Inv timeout d s) {act : Act} {k : CacheKey}
    (h : Step timeout d s t act s') (hk : act.key? ≠ some k) :
    s'.locks.find? k = s.locks.find? k := by
  rw [(h.effect hi).holder]
  cases act with
  | lock k' =>
    have hne : ¬ k = k' := fun heq => hk (heq ▸ rfl)
    rw [Act.holder, if_neg hne]
  | release call => rw [Act.holder, if_neg fun hc => hk hc.1]
  | start call => rfl
  | wait k' => rfl
  | giveUp k' => rfl
  | below call => rfl
  | answer call r => rfl

/-! ## Reads that give up -/

/-- What a thread itself did. -/
def own (t : Thread) (acts : List (Thread × Act)) : List Act :=
  acts.filterMap fun p => if p.1 = t then some p.2 else none

/-- The thread takes its next step at the stage at which it is. -/
theorem Run.next (hi : Inv timeout d s) {acts : List (Thread × Act)} {act : Act} {rest : List Act}
    (h : Run timeout d s acts s') (hown : own t acts = act :: rest) :
    ∃ next later s₁, (s.stages t).Allows timeout d.id act next ∧ s₁.stages t = next ∧
      Inv timeout d s₁ ∧ Run timeout d s₁ later s' ∧ own t later = rest := by
  induction h with
  | nil s => cases hown
  | @cons s t₁ act₁ s₁ acts s₂ hstep hrun ih =>
    by_cases ht : t₁ = t
    · subst ht
      simp only [own, List.filterMap_cons, if_true, List.cons.injEq] at hown
      obtain ⟨rfl, hrest⟩ := hown
      exact ⟨_, acts, s₁, hstep.allows hi, rfl, hi.step hstep, hrun, hrest⟩
    · simp only [own, List.filterMap_cons, if_neg ht] at hown
      rw [← (hstep.effect hi).others t fun heq => ht heq.symm]
      exact ih (hi.step hstep) hown

/-- A read that got its lock reads the cache below before it ends. -/
theorem Run.below_of_lock (hi : Inv timeout d s) {k : CacheKey} {acts : List (Thread × Act)}
    {mids : List Act} {r : (Call.get k).Result} (h : Run timeout d s acts s')
    (hs : s.stages t = .calling (.get k))
    (hown : own t acts = mids ++ [.answer (.get k) r]) : .below (.get k) ∈ mids := by
  cases mids with
  | nil =>
    obtain ⟨next, later, s₁, hallows, -⟩ := h.next hi hown
    rw [hs] at hallows
    cases hallows
  | cons act mids =>
    obtain ⟨next, later, s₁, hallows, -⟩ := h.next hi hown
    rw [hs] at hallows
    cases hallows
    exact List.mem_cons_self

/-- A read that fails, and has not read the cache below, has waited for its
lock and given up. -/
theorem Run.gave_up (hi : Inv timeout d s) {k : CacheKey} {acts : List (Thread × Act)}
    {mids : List Act} {e : CacheError} (h : Run timeout d s acts s') (hs : s.stages t = .idle)
    (hown : own t acts = .start (.get k) :: (mids ++ [.answer (.get k) (.error e)]))
    (hone : ∀ call r, Act.answer call r ∉ mids) (hbelow : .below (.get k) ∉ mids) :
    mids = [.wait k, .giveUp k] ∧ e = .lockTimeout d.id k (timeout.getD ⟨0⟩) := by
  obtain ⟨next, acts₁, s₁, hallows, hs₁, hi₁, h₁, hown₁⟩ := h.next hi hown
  rw [hs] at hallows
  obtain ⟨call, hcall, rfl⟩ := hallows
  cases hcall
  -- At the lock: a read that gets it goes on to the cache below.
  rcases mids with - | ⟨act, mids⟩
  · obtain ⟨next, acts₂, s₂, hallows, -⟩ := h₁.next hi₁ hown₁
    rw [hs₁] at hallows
    rcases hallows with ⟨hact, -⟩ | ⟨hact, -⟩ <;> cases hact
  obtain ⟨next, acts₂, s₂, hallows, hs₂, hi₂, h₂, hown₂⟩ := h₁.next hi₁ hown₁
  rw [hs₁] at hallows
  rcases hallows with ⟨-, hnext⟩ | ⟨rfl, wait, resume, hnext⟩
  · rw [hnext] at hs₂
    exact absurd (List.mem_cons_of_mem _ (h₂.below_of_lock hi₂ hs₂ hown₂)) hbelow
  rw [hnext] at hs₂
  -- After the wait: the same, or it gives up.
  rcases mids with - | ⟨act, mids⟩
  · obtain ⟨next, acts₃, s₃, hallows, -⟩ := h₂.next hi₂ hown₂
    rw [hs₂] at hallows
    rcases hallows with ⟨hact, -⟩ | ⟨hact, -⟩ <;> cases hact
  obtain ⟨next, acts₃, s₃, hallows, hs₃, hi₃, h₃, hown₃⟩ := h₂.next hi₂ hown₂
  rw [hs₂] at hallows
  rcases hallows with ⟨-, hnext⟩ | ⟨rfl, hnext⟩
  · rw [hnext] at hs₃
    have hmem := h₃.below_of_lock hi₃ hs₃ hown₃
    exact absurd (List.mem_cons_of_mem _ (List.mem_cons_of_mem _ hmem)) hbelow
  rw [hnext] at hs₃
  -- Having given up it answers.
  rcases mids with - | ⟨act, mids⟩
  · obtain ⟨next, acts₄, s₄, hallows, -⟩ := h₃.next hi₃ hown₃
    rw [hs₃] at hallows
    cases hallows.1
    exact ⟨rfl, rfl⟩
  · obtain ⟨next, acts₄, s₄, hallows, -⟩ := h₃.next hi₃ hown₃
    rw [hs₃] at hallows
    rw [hallows.1] at hone
    exact absurd (by simp) (hone (.get k) (.error (.lockTimeout d.id k (timeout.getD ⟨0⟩))))

/-! ## The protection of missing entries -/

variable (timeout d s) in
/-- What the layer promises from a state on. -/
structure Protected : Prop where
  /-- A call on the layer, by a thread that is in no other one, is a run of its steps: where the
  call waits the others go on, and the rest of it is steps of the thread again. -/
  follows : ∀ {c call} (e : Environment), s.stages c.thread = .idle →
    Follows timeout d c.thread call s (call.on (Blocking.around timeout d) c (s.world e))
  /-- After a read that missed, no other thread's read of the key takes the lock
  or comes to the cache below, until the thread gives the lock back. -/
  alone : ∀ {t k s₁ acts s₂}, Step timeout d s t (.answer (.get k) (.ok none)) s₁ →
    Run timeout d s₁ acts s₂ → (∀ call, call.key? = some k → (t, Act.release call) ∉ acts) →
    ∀ t', t' ≠ t → (t', Act.lock k) ∉ acts ∧ (t', Act.below (.get k)) ∉ acts
  /-- Nothing that another thread does frees a lock. -/
  kept : ∀ {t k t' act s₁}, s.locks.find? k = some t → t' ≠ t → Step timeout d s t' act s₁ →
    s₁.locks.find? k = some t
  /-- When a call returns, its thread holds the lock of the key exactly if the
  call was a read that missed. -/
  answered : ∀ {t call r s₁ k}, Step timeout d s t (.answer call r) s₁ → call.key? = some k →
    (s₁.locks.find? k = some t ↔ call.Missed r)
  /-- A read whose error is not that of the cache below timed out, and no step
  that it made changed a lock or the cache below. -/
  timedOut : ∀ {t k acts s₁ mids e}, s.stages t = .idle → Run timeout d s acts s₁ →
    own t acts = .start (.get k) :: (mids ++ [.answer (.get k) (.error e)]) →
    (∀ call r, Act.answer call r ∉ mids) → .below (.get k) ∉ mids →
    e = .lockTimeout d.id k (timeout.getD ⟨0⟩) ∧
      ∀ {before s₂ act s₃}, Run timeout d s before s₂ → Step timeout d s₂ t act s₃ →
        act ∈ own t acts → s₃.locks = s₂.locks ∧ s₃.below = s₂.below
  /-- A step of a call that is not about the key leaves its lock as it is. -/
  elsewhere : ∀ {t act s₁ k}, Step timeout d s t act s₁ → act.key? ≠ some k →
    s₁.locks.find? k = s.locks.find? k

/-- In every state that calls of any threads lead to, a call is a run of the
steps, and missing entries are protected: whatever the cache below does, and
wherever it fails. -/
theorem stampede_protection {locks : KeyLocks} {below : σ} {past : List (Thread × Act)}
    (h : Run timeout d (.opening locks below) past s) : Protected timeout d s := by
  have hi : Inv timeout d s := (opening_inv timeout d locks below).run h
  refine ⟨fun e hs => follows_call rfl hs e, ?_, ?_, ?_, ?_, ?_⟩
  · -- the read that missed left its thread with the lock
    intro t k s₁ acts s₂ hstep hrun hkept t' ht'
    have hheld : s₁.locks.find? k = some t := (hi.answered hstep rfl).2 rfl
    exact hrun.alone (hi.step hstep) hheld hkept ht'
  · intro t k t' act s₁ hheld ht' hstep
    exact ((hstep.effect hi).find?_others ht'.symm k).2 hheld
  · intro t call r s₁ k hstep hk
    exact hi.answered hstep hk
  · -- every step of a read that gave up is a quiet one
    intro t k acts s₁ mids e hs hrun hown hone hbelow
    obtain ⟨rfl, rfl⟩ := hrun.gave_up hi hs hown hone hbelow
    refine ⟨rfl, ?_⟩
    intro before s₂ act s₃ hbefore hstep hmem
    rw [hown] at hmem
    have hquiet : act.IsQuiet := by
      simp only [List.cons_append, List.nil_append, List.mem_cons, List.not_mem_nil,
        or_false] at hmem
      rcases hmem with rfl | rfl | rfl | rfl <;> trivial
    exact (hstep.effect (hi.run hbefore)).quiet hquiet
  · intro t act s₁ k hstep hk
    exact hi.elsewhere hstep hk

/-- One thread misses a key, and another one that reads it waits. -/
theorem stampede_protection_store :
    ∃ s s₁ s₂ : State Store,
      Step none (Store.cache "users") s "loader" (.answer (.get .null) (.ok none)) s₁ ∧
      s₁.locks.find? .null = some "loader" ∧
      Run none (Store.cache "users") s₁ [("reader", .start (.get .null)), ("reader", .wait .null)]
        s₂ ∧
      ("reader", Act.below (.get .null)) ∉
        [("reader", Act.start (.get .null)), ("reader", Act.wait .null)] := by
  let d := Store.cache "users"
  let loader : Caller := ⟨"loader", []⟩
  let reader : Caller := ⟨"reader", []⟩
  let s₀ : State Store := .opening .empty .empty
  -- the loader takes the lock, finds nothing, and returns
  let s₁ := s₀.move "loader" (.first (.get .null))
  let s₂ := s₁.afterLock "loader" .null (Blocking.acquire none "users" .null loader (s₁.world {}))
  let s₃ := s₂.afterBelow "loader" (.get .null) ((Blocking.below d).get .null loader (s₂.world {}))
  let s₄ := s₃.move "loader" .idle
  have h₁ : Step none d s₀ "loader" (.start (.get .null)) s₁ := .start _ rfl
  have h₂ : Step none d s₁ "loader" (.lock .null) s₂ :=
    Step.lock ⟨loader, {}, rfl, .inl ⟨rfl, rfl⟩⟩
  have h₃ : Step none d s₂ "loader" (.below (.get .null)) s₃ :=
    Step.below ⟨loader, {}, rfl, .inl ⟨rfl, rfl⟩⟩
  have h₄ : Step none d s₃ "loader" (.answer (.get .null) (.ok none)) s₄ := .answer rfl
  -- the reader comes to the lock
  let s₅ := s₄.move "reader" (.first (.get .null))
  let s₆ := s₅.afterLock "reader" .null (Blocking.acquire none "users" .null reader (s₅.world {}))
  have h₅ : Step none d s₄ "reader" (.start (.get .null)) s₅ := .start _ rfl
  have hat : s₅.AtLock none d "reader" .null
      (Blocking.acquire none "users" .null reader (s₅.world {})) :=
    ⟨reader, {}, rfl, .inl ⟨rfl, rfl⟩⟩
  have h₆ : Step none d s₅ "reader" (.wait .null) s₆ := .lock hat
  have hrun := Run.cons h₅ h₆.run
  have hprotected := stampede_protection (.cons h₁ (.cons h₂ h₃.run))
  refine ⟨s₃, s₄, s₆, h₄, (hprotected.answered h₄ rfl).2 rfl, hrun, ?_⟩
  exact (hprotected.alone h₄ hrun (fun call _ => by simp) "reader" (by decide)).2

end QueryCache.LockSteps
