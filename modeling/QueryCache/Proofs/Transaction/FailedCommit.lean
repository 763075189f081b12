import Mathlib
import QueryCache.Proofs.Layer.Contents
import QueryCache.Proofs.Transaction.LockedUnit

/-!
# What failed commits leave in a shared cache

A commit makes the calls of its plan one after the other and stops at the first
one that the shared cache refuses.  The calls before that one have been made,
and no rollback takes them back: it empties the buffer and gives locks back, and
touches no entry.  So after commits that failed, and a rollback, the shared cache
has what the calls before the refused ones make of its contents, and nothing of
the refused writes or of those behind them.

1. what a cache refuses
2. calls that are made
3. the operations of a unit
4. failed commits and a rollback
5. half a commit
-/

namespace QueryCache.Buffer

/-! ## What a cache refuses -/

/-- The cache takes the call: what is put has a snapshot, if the cache keeps copies. -/
def SharedCall.isTaken (copies : Bool) : SharedCall → Bool
  | clear => true
  | put _ none => true
  | put _ (some v) => !copies || v.toSnapshot.toBool

theorem SharedCall.isTaken_put {copies : Bool} {k : CacheKey} {x : Option Value} :
    (put k x).isTaken copies = true ↔ Storable copies x := by
  cases x with
  | none => exact ⟨fun _ => storable_none copies, fun _ => rfl⟩
  | some v =>
    cases copies with
    | false => exact ⟨fun _ => storable_of_not_copies _, fun _ => rfl⟩
    | true =>
      cases hv : v.toSnapshot with
      | ok sn => simp [isTaken, Storable, hv, Except.toBool]
      | error e => simp [isTaken, Storable, hv, Except.toBool]

/-- The calls before the first one that the cache refuses. -/
def SharedCall.taken (copies : Bool) (calls : List SharedCall) : List SharedCall :=
  calls.takeWhile (isTaken copies)

/-! ## Calls that are made -/

/-- The calls, made in order on a cache, take its store to another one. -/
inductive Flushed (copies : Bool) : Store → List SharedCall → Store → Prop where
  | nil (m : Store) : Flushed copies m [] m
  | clear {m m' : Store} {calls : List SharedCall} (h : Flushed copies .empty calls m') :
      Flushed copies m (.clear :: calls) m'
  | put {k : CacheKey} {x : Option Value} {m m₁ m' : Store} {calls : List SharedCall}
      (hw : Written copies k x m m₁) (h : Flushed copies m₁ calls m') :
      Flushed copies m (.put k x :: calls) m'

namespace Flushed

variable {copies : Bool} {m m₁ m₂ : Store} {calls more : List SharedCall}

theorem append (h : Flushed copies m calls m₁) (h' : Flushed copies m₁ more m₂) :
    Flushed copies m (calls ++ more) m₂ := by
  induction h with
  | nil m => exact h'
  | clear _ ih => exact .clear (ih h')
  | put hw _ ih => exact .put hw (ih h')

/-- Every entry was there before the calls, or one of them put it. -/
theorem find?_eq_some (h : Flushed copies m calls m₁) {k : CacheKey} {y : Option Value}
    (hy : m₁.find? k = some y) :
    m.find? k = some y ∨ ∃ x, .put k x ∈ calls ∧ Kept copies x y := by
  induction h with
  | nil m => exact .inl hy
  | clear _ ih =>
    rcases ih hy with hempty | ⟨x, hx, hkept⟩
    · cases hempty
    · exact .inr ⟨x, List.mem_cons_of_mem _ hx, hkept⟩
  | @put k' x' m m₂ m' calls hw _ ih =>
    rcases ih hy with hold | ⟨x, hx, hkept⟩
    · by_cases hk : k = k'
      · -- the entry is that of this put
        subst hk
        obtain ⟨y', hkept, hy'⟩ := hw.entry
        obtain rfl : y' = y := Option.some.inj (hy'.symm.trans hold)
        exact .inr ⟨x', List.mem_cons_self, hkept⟩
      · -- this put stores nothing under the key
        obtain ⟨victim, hrest⟩ := hw.rest
        have hbefore := hrest k hk
        rw [hold] at hbefore
        split at hbefore
        · cases hbefore
        · exact .inl hbefore.symm
    · exact .inr ⟨x, List.mem_cons_of_mem _ hx, hkept⟩

end Flushed

/-- How calls in order end: those before the first refused one are made, and the
result is an error if there is a refused one. -/
structure FlushEnds (copies : Bool) (calls : List SharedCall) (m : Store)
    (r : Except CacheError Unit) (m' : Store) : Prop where
  flushed : Flushed copies m (SharedCall.taken copies calls) m'
  ok_iff : r = .ok () ↔ ∀ call ∈ calls, call.isTaken copies = true

section Operations

variable {σ : Type} {d : Cache σ} {store : σ → Store} {copies : Bool}

theorem FlushEnds.cons {call : SharedCall} {calls : List SharedCall} {m m₁ m' : Store}
    {r : Except CacheError Unit} (h : FlushEnds copies calls m₁ r m')
    (hcall : call.isTaken copies = true)
    (hflush : ∀ more, Flushed copies m₁ more m' → Flushed copies m (call :: more) m') :
    FlushEnds copies (call :: calls) m r m' := by
  constructor
  · rw [SharedCall.taken, List.takeWhile_cons_of_pos hcall]
    exact hflush _ h.flushed
  · rw [h.ok_iff, List.forall_mem_cons]
    exact ⟨fun hrest => ⟨hcall, hrest⟩, fun hall => hall.2⟩

/-- A refused call ends the run. -/
theorem flushEnds_refused {k : CacheKey} {x : Option Value} (hx : ¬ Storable copies x)
    (calls : List SharedCall) (m : Store) (e : CacheError) :
    FlushEnds copies (.put k x :: calls) m (.error e) m := by
  have hcall : ¬ (SharedCall.put k x).isTaken copies = true :=
    fun h => hx (SharedCall.isTaken_put.1 h)
  constructor
  · rw [SharedCall.taken, List.takeWhile_cons_of_neg hcall]
    exact .nil m
  · constructor
    · intro h
      cases h
    · intro h
      exact absurd (h _ List.mem_cons_self) hcall

/-- The calls of a plan, made on the shared cache. -/
theorem runAll_flushes (hr : Records d store copies) (he : Empties d store)
    (calls : List SharedCall) (m : Store) :
    (SharedCall.runAll d calls).Hoare (fun s => store s = m)
      fun r s => FlushEnds copies calls m r (store s) := by
  induction calls generalizing m with
  | nil =>
    refine .pure ?_
    rintro s rfl
    refine ⟨.nil _, fun _ call hcall => ?_, fun _ => rfl⟩
    cases hcall
  | cons call rest ih =>
    cases call with
    | clear =>
      have hclear : d.clear.Hoare (fun s => store s = m) fun r s => r = .ok () ∧ store s = .empty :=
        he.mono (fun _ _ => trivial) fun _ _ hs => hs
      refine hclear.bind_ok ((ih .empty).mono (fun _ hs => hs) ?_)
      intro r s hs
      exact hs.cons rfl fun _ hmore => .clear hmore
    | put k x =>
      refine (hr.put m k x).bind (fun _ t w hw => ?_) fun e s hs => ?_
      · -- the put is made, and the rest goes on from there
        rcases hw with ⟨hx, -, hwritten⟩ | ⟨-, ⟨e, herr⟩, -⟩
        · refine (ih (store w.state) t w rfl).mono ?_
          intro r w' hs
          exact hs.cons (SharedCall.isTaken_put.2 hx) fun _ hmore => .put hwritten hmore
        · cases herr
      · -- the put is refused
        rcases hs with ⟨-, hok, -⟩ | ⟨hx, -, hkeep⟩
        · cases hok
        · rw [hkeep]
          exact flushEnds_refused hx rest m e

/-! ## The operations of a unit -/

theorem commitWith_flushes (hr : Records d store copies) (he : Empties d store)
    (order : Buffer → List CacheKey) (t : Thread) (w : World (Buffer × σ)) :
    (commitWith order d).Meets t w fun r w' =>
      FlushEnds copies (w.state.1.planWith (order w.state.1)) (store w.state.2) r
        (store w'.state.2) := by
  refine Await.Meets.bind_ofOp ?_
  intro _ _
  have hrun := runAll_flushes (hr.under held) (he.below held)
    (w.state.1.planWith (order w.state.1)) (store w.state.2) t w rfl
  refine Await.Meets.bind_of hrun ?_ ?_
  · intro _ w' h
    exact Await.Meets.modifyLayer h
  · intro e w' h
    exact h

/-- A read touches no entry. -/
theorem get_keeps (hr : Records d store copies) (k : CacheKey) (m : Store) :
    (Buffer.get d k).Keeps fun s => store s.2 = m :=
  .bind ((hr.under held).get m k) fun _ => same_ofLayer fun _ _ => rfl

theorem releaseAll_keeps (hr : Records d store copies) (keys : List CacheKey) (m : Store) :
    (releaseAll d keys).Hoare (fun s => store s.2 = m) fun r s => r = .ok () ∧ store s.2 = m := by
  induction keys with
  | nil => exact .pure fun _ hs => ⟨rfl, hs⟩
  | cons k rest ih => exact ((hr.under held).releaseLock m k).bind_result fun _ => ih

/-- A rollback ends well, with an empty buffer, and touches no entry. -/
theorem rollbackWith_keeps (hr : Records d store copies) (order : Buffer → List CacheKey)
    (m : Store) :
    (rollbackWith order d).Hoare (fun s => store s.2 = m)
      fun r s => r = .ok () ∧ s.1 = empty ∧ store s.2 = m := by
  refine Op.Hoare.bind_layer fun b => ?_
  have hrelease : (releaseAll d (order b)).Hoare (fun s => s.1 = b ∧ store s.2 = m)
      fun r s => r = .ok () ∧ store s.2 = m :=
    (releaseAll_keeps hr (order b) m).mono (fun _ hs => hs.2) fun _ _ hs => hs
  exact hrelease.bind_ok (.modifyLayer fun _ hs => ⟨rfl, rfl, hs⟩)

/-! ## Failed commits and a rollback -/

/-- Calls of one unit of work, of which every commit fails; the plans of the
commits are recorded.  Between two calls time passes. -/
inductive Attempts (d : Cache σ) (w₀ : World (Buffer × σ)) :
    List (List SharedCall) → World (Buffer × σ) → Prop where
  | start : Attempts d w₀ [] w₀
  | get {plans : List (List SharedCall)} {w w' : World (Buffer × σ)} {e : Environment}
      {c : Caller} {k : CacheKey} {r : Except CacheError (Option Value)}
      (h : Attempts d w₀ plans w) (he : w.env.Before e)
      (hget : (Buffer.get d k c ⟨e, w.state⟩).Settles c.thread r w') : Attempts d w₀ plans w'
  | put {plans : List (List SharedCall)} {w w' : World (Buffer × σ)} {e : Environment}
      {c : Caller} {k : CacheKey} {x : Option Value} {r : Except CacheError Unit}
      (h : Attempts d w₀ plans w) (he : w.env.Before e)
      (hput : Buffer.put k x c ⟨e, w.state⟩ = (r, w')) : Attempts d w₀ plans w'
  | clear {plans : List (List SharedCall)} {w w' : World (Buffer × σ)} {e : Environment}
      {c : Caller} {r : Except CacheError Unit} (h : Attempts d w₀ plans w) (he : w.env.Before e)
      (hclear : Buffer.clear c ⟨e, w.state⟩ = (r, w')) : Attempts d w₀ plans w'
  | commit {plans : List (List SharedCall)} {w w' : World (Buffer × σ)} {e : Environment}
      {c : Caller} {order : Buffer → List CacheKey} {err : CacheError}
      (h : Attempts d w₀ plans w) (he : w.env.Before e) (ho : ∀ b, (order b).Perm b.misses)
      (hcommit : (commitWith order d c ⟨e, w.state⟩).Settles c.thread (.error err) w') :
      Attempts d w₀ (plans ++ [w.state.1.planWith (order w.state.1)]) w'

theorem Attempts.flushed (hr : Records d store copies) (he : Empties d store)
    {w₀ w : World (Buffer × σ)} {plans : List (List SharedCall)} (h : Attempts d w₀ plans w) :
    Flushed copies (store w₀.state.2) (plans.flatMap (SharedCall.taken copies)) (store w.state.2) ∧
      ∀ plan ∈ plans, ∃ call ∈ plan, call.isTaken copies = false := by
  induction h with
  | start => exact ⟨.nil _, fun _ hplan => nomatch hplan⟩
  | @get plans w w' e c k r _ _ hget ih =>
    have hkeep := Await.Hoare.settles (get_keeps hr k (store w.state.2)) hget rfl
    rw [hkeep]
    exact ih
  | put _ _ hput ih =>
    cases hput
    exact ih
  | clear _ _ hclear ih =>
    cases hclear
    exact ih
  | @commit plans w w' e c order err _ _ _ hcommit ih =>
    have hends := (commitWith_flushes hr he order c.thread ⟨e, w.state⟩ c rfl).settles hcommit
    obtain ⟨hflushed, hrefused⟩ := ih
    constructor
    · rw [List.flatMap_append, List.flatMap_singleton]
      exact hflushed.append hends.flushed
    · intro plan hplan
      rcases List.mem_append.1 hplan with hplan | hplan
      · exact hrefused plan hplan
      · -- the commit failed, so one of its calls was refused
        rw [List.mem_singleton.1 hplan]
        by_contra hall
        push Not at hall
        have hok := hends.ok_iff.2 fun call hcall => by simpa using hall call hcall
        cases hok

end Operations

/-- What a unit of work leaves behind whose commits had the given plans and all
failed: the store is what the calls before the refused ones make of it. -/
structure LeavesTaken (copies : Bool) (plans : List (List SharedCall)) (m m' : Store) : Prop where
  flushed : Flushed copies m (plans.flatMap (SharedCall.taken copies)) m'
  refused : ∀ plan ∈ plans, ∃ call ∈ plan, call.isTaken copies = false
  entries : ∀ k y, m'.find? k = some y → m.find? k = some y ∨
    ∃ plan ∈ plans, ∃ x, .put k x ∈ SharedCall.taken copies plan ∧ Kept copies x y
  unchanged : (∀ plan ∈ plans, SharedCall.taken copies plan = []) → m' = m

theorem LeavesTaken.of_flushed {copies : Bool} {plans : List (List SharedCall)} {m m' : Store}
    (hflushed : Flushed copies m (plans.flatMap (SharedCall.taken copies)) m')
    (hrefused : ∀ plan ∈ plans, ∃ call ∈ plan, call.isTaken copies = false) :
    LeavesTaken copies plans m m' := by
  refine ⟨hflushed, hrefused, ?_, ?_⟩
  · intro k y hy
    rcases hflushed.find?_eq_some hy with hold | ⟨x, hx, hkept⟩
    · exact .inl hold
    · obtain ⟨plan, hplan, hx⟩ := List.mem_flatMap.1 hx
      exact .inr ⟨plan, hplan, x, hx, hkept⟩
  · intro hnone
    have hcalls : plans.flatMap (SharedCall.taken copies) = [] := List.flatMap_eq_nil_iff.2 hnone
    rw [hcalls] at hflushed
    cases hflushed
    rfl

end QueryCache.Buffer

namespace QueryCache.CacheBuilder

open Buffer

/-- After any calls of a unit of work of which every commit failed, a rollback
ends well and empties the buffer.  The shared cache has then what the calls
before the refused ones have made of its contents: it is unchanged if every
commit was refused at its first call. -/
theorem rollback_after_failed_commits {b : CacheBuilder} {s : Stack}
    (himpl : b.implementation = none) (hdec : b.decorators = []) (hb : b.build = .ok s)
    (hbounded : b.IsBounded) {w₀ w : World (Buffer × s.State)} {plans : List (List SharedCall)}
    (hrun : Attempts s.cache w₀ plans w) {e : Environment} {c : Caller}
    {order : Buffer → List CacheKey} {r : Except CacheError Unit} {w' : World (Buffer × s.State)}
    (hroll : rollbackWith order s.cache c ⟨e, w.state⟩ = (r, w')) :
    r = .ok () ∧ w'.state.1 = .empty ∧
      LeavesTaken b.readWrite plans (Stack.storeOf s.layers w₀.state.2)
        (Stack.storeOf s.layers w'.state.2) := by
  have hr := records_of_build himpl hdec hb hbounded
  have he := empties_of_build himpl hdec hb
  obtain ⟨hflushed, hrefused⟩ := hrun.flushed hr he
  obtain ⟨hok, hempty, hkeep⟩ := (rollbackWith_keeps hr order _).ends hroll rfl
  refine ⟨hok, hempty, ?_⟩
  rw [hkeep]
  exact .of_flushed hflushed hrefused

/-! ## Half a commit -/

/-- A rollback after failed commits takes the shared cache back to what it was. -/
def RollbackRestores : Prop :=
  ∀ (b : CacheBuilder) (s : Stack), b.implementation = none → b.decorators = [] →
    b.build = .ok s → b.IsBounded → ∀ (w₀ w w' : World (Buffer × s.State))
      (plans : List (List SharedCall)), w₀.state.1 = .empty → Attempts s.cache w₀ plans w →
        ∀ (e : Environment) (c : Caller) (r : Except CacheError Unit), w.env.Before e →
          Buffer.rollback s.cache c ⟨e, w.state⟩ = (r, w') →
            ∀ k, (Stack.storeOf s.layers w'.state.2).find? k =
              (Stack.storeOf s.layers w₀.state.2).find? k

/-- Two values were allocated; the cache is empty. -/
def untouched : World (Buffer × oneEntryStack.State) :=
  ⟨{ nextAlloc := 2 }, (.empty, oneEntryStack.initial 0)⟩

/-- A serializable value waits for the commit. -/
def oneWrite : World (Buffer × oneEntryStack.State) :=
  ((Buffer.put .null (some (.data 0 (.bool true) true)) : CacheOp _ Unit) ⟨"main", []⟩ untouched).2

/-- A plain value waits behind it. -/
def twoWrites : World (Buffer × oneEntryStack.State) :=
  ((Buffer.put KeyBuilder.empty.build (some (.data 1 (.bool true) false)) : CacheOp _ Unit)
    ⟨"main", []⟩ oneWrite).2

/-- The commit has failed at the plain value. -/
def halfFlushed : World (Buffer × oneEntryStack.State) :=
  (Buffer.commit oneEntryStack.cache ⟨"main", []⟩ twoWrites).world

/-- The unit is rolled back. -/
def rolledBack : World (Buffer × oneEntryStack.State) :=
  (Buffer.rollback oneEntryStack.cache ⟨"main", []⟩ halfFlushed).2

/-- The calls of the commit. -/
def halfPlan : List SharedCall :=
  [.put .null (some (.data 0 (.bool true) true)),
    .put KeyBuilder.empty.build (some (.data 1 (.bool true) false))]

theorem attempts_halfFlushed : Attempts oneEntryStack.cache untouched [halfPlan] halfFlushed := by
  have hput₁ : Buffer.put .null (some (.data 0 (.bool true) true)) ⟨"main", []⟩ untouched =
      (.ok (), oneWrite) := by rfl
  have hput₂ : Buffer.put KeyBuilder.empty.build (some (.data 1 (.bool true) false)) ⟨"main", []⟩
      oneWrite = (.ok (), twoWrites) := by rfl
  have hcommit : Buffer.commit oneEntryStack.cache ⟨"main", []⟩ twoWrites =
      .done (.error (.notSerializable "users" "bool")) halfFlushed := by rfl
  have hwrites : Attempts oneEntryStack.cache untouched [] twoWrites :=
    .put (.put .start (.refl _) hput₁) (.refl _) hput₂
  exact .commit hwrites (.refl _) (fun b => .refl _) (c := ⟨"main", []⟩)
    (Outcome.settles_of_eq hcommit)

/-- The first of two writes stays in the shared cache. -/
theorem not_rollbackRestores : ¬ RollbackRestores := by
  intro h
  have hbuild : oneEntry.build = .ok oneEntryStack := by rfl
  have hbounded : oneEntry.IsBounded := ⟨.inl rfl, rfl⟩
  have hroll : Buffer.rollback oneEntryStack.cache ⟨"main", []⟩ halfFlushed =
      (.ok (), rolledBack) := by rfl
  have hsame := h oneEntry oneEntryStack rfl rfl hbuild hbounded untouched halfFlushed rolledBack
    [halfPlan] rfl attempts_halfFlushed halfFlushed.env ⟨"main", []⟩ _ (.refl _) hroll .null
  have hbefore : (Stack.storeOf oneEntryStack.layers untouched.state.2).find? .null = none := by rfl
  have hafter : ((Stack.storeOf oneEntryStack.layers rolledBack.state.2).find? .null).isSome =
      true := by rfl
  rw [hsame, hbefore] at hafter
  cases hafter

/-- What is left of two writes: the first one. -/
theorem rollback_after_failed_commits_oneEntry :
    rolledBack.state.1 = .empty ∧
      LeavesTaken true [halfPlan] .empty (Stack.storeOf oneEntryStack.layers rolledBack.state.2) ∧
      SharedCall.taken true halfPlan = [.put .null (some (.data 0 (.bool true) true))] := by
  have hbuild : oneEntry.build = .ok oneEntryStack := by rfl
  have hroll : rollbackWith Buffer.misses oneEntryStack.cache ⟨"main", []⟩ halfFlushed =
      (.ok (), rolledBack) := by rfl
  have hleft := rollback_after_failed_commits (b := oneEntry) rfl rfl hbuild ⟨.inl rfl, rfl⟩
    attempts_halfFlushed hroll
  exact ⟨hleft.2.1, hleft.2.2, by rfl⟩

end QueryCache.CacheBuilder
