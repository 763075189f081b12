import Mathlib
import QueryCache.Proofs.Layer.Contents
import QueryCache.Proofs.Layer.FailedRead

/-!
# Calls that do not wait

A gate is open between two calls, so a call of a built cache has to wait for one
thing only: a read of a blocking cache waits for the lock of its key.  It waits
before it has done anything, and when it is resumed it is made anew, or fails
because the lock came too late.

1. operations that end at once
2. caches whose calls end at once
3. layers
4. reads that wait, and are made anew
5. built caches
-/

namespace QueryCache

variable {ε ε' σ τ lam α β : Type}

/-! ## Operations that end at once -/

/-- From a state that satisfies `pre` the operation ends at once, as `post` says. -/
def Await.EndsAtOnce (pre : σ → Prop) (m : Await ε σ α) (post : Except ε α → σ → Prop) : Prop :=
  ∀ c w, pre w.state → ∃ r w', m c w = .done r w' ∧ post r w'.state

/-- From an idle state the operation ends at once, in an idle state. -/
abbrev Await.Prompt (idle : σ → Prop) (m : Await ε σ α) : Prop :=
  m.EndsAtOnce idle fun _ s => idle s

namespace Await.EndsAtOnce

variable {pre idle : σ → Prop} {m : Await ε σ α} {post : Except ε α → σ → Prop}

theorem ofOp {m : Op ε σ α} (h : ∀ c w, pre w.state → post (m c w).1 (m c w).2.state) :
    (Await.ofOp m).EndsAtOnce pre post := fun c w hw => ⟨_, _, rfl, h c w hw⟩

/-- An operation that leaves the state as it is. -/
theorem ofStill {m : Op ε σ α} (h : ∀ c w, (m c w).2.state = w.state) :
    (Await.ofOp m).Prompt idle := ofOp fun c w hw => (h c w).symm ▸ hw

theorem pure {a : α} : (Pure.pure a : Await ε σ α).Prompt idle := ofStill fun _ _ => rfl

theorem bind_of {f : α → Await ε σ β} {mid : Except ε α → σ → Prop}
    {post : Except ε β → σ → Prop} (hm : m.EndsAtOnce pre mid)
    (hok : ∀ a, (f a).EndsAtOnce (mid (.ok a)) post)
    (herr : ∀ e s, mid (.error e) s → post (.error e) s) : (m >>= f).EndsAtOnce pre post := by
  intro c w hw
  obtain ⟨r, w', hrun, hw'⟩ := hm c w hw
  cases r with
  | ok a =>
    obtain ⟨r', w'', hrun', hw''⟩ := hok a c w' hw'
    exact ⟨r', w'', (Await.bind_of_done hrun).trans hrun', hw''⟩
  | error e => exact ⟨.error e, w', Await.bind_of_failed hrun, herr e _ hw'⟩

theorem bind {f : α → Await ε σ β} (hm : m.Prompt idle) (hf : ∀ a, (f a).Prompt idle) :
    (m >>= f).Prompt idle := hm.bind_of hf fun _ _ hs => hs

theorem result {post : Except ε' (Except ε α) → σ → Prop}
    (hm : m.EndsAtOnce pre fun r => post (.ok r)) : m.result.EndsAtOnce pre post := by
  intro c w hw
  obtain ⟨r, w', hrun, hw'⟩ := hm c w hw
  refine ⟨.ok r, w', ?_, hw'⟩
  show (m c w).result = _
  rw [hrun]
  rfl

theorem mapError {f : ε → ε'} (hm : m.Prompt idle) : (m.mapError f).Prompt idle := by
  intro c w hw
  obtain ⟨r, w', hrun, hw'⟩ := hm c w hw
  refine ⟨r.mapError f, w', ?_, hw'⟩
  show (m c w).mapError f = _
  rw [hrun]
  rfl

theorem holding {values : List Value} (hm : m.EndsAtOnce pre post) :
    (m.holding values).EndsAtOnce pre post := by
  intro c w hw
  obtain ⟨r, w', hrun, hw'⟩ := hm (c.holding values) w hw
  refine ⟨r, w', ?_, hw'⟩
  show (m (c.holding values) w).holding values = _
  rw [hrun]
  rfl

/-- An operation on a part of the state. -/
theorem focus {f : Focus τ σ} {whole : τ → Prop} (hget : ∀ s, whole s → idle (f.get s))
    (hset : ∀ s x, whole s → idle x → whole (f.set x s)) (hm : m.Prompt idle) :
    (f.await m).Prompt whole := by
  intro c w hw
  obtain ⟨r, w', hrun, hw'⟩ := hm (f.caller w.state c) (f.narrow w) (hget _ hw)
  refine ⟨r, f.widen w.state w', ?_, hset _ _ hw hw'⟩
  show (m (f.caller w.state c) (f.narrow w)).widen f w.state = _
  rw [hrun]
  rfl

/-- An operation on what lies below a layer. -/
theorem below (held : lam → List Value) (hm : m.Prompt idle) :
    ((Focus.second held).await m).Prompt fun s => idle s.2 :=
  hm.focus (fun _ hs => hs) fun _ _ _ hx => hx

/-- An operation of a layer alone. -/
theorem ofLayer {m : Op ε (lam × σ) α} (h : ∀ c w, (m c w).2.state.2 = w.state.2) :
    (Await.ofOp m).Prompt fun s : lam × σ => idle s.2 := by
  refine ofOp fun c w hw => ?_
  show idle (m c w).2.state.2
  rw [h c w]
  exact hw

end Await.EndsAtOnce

/-! ## Caches whose calls end at once -/

/-- Begun in an idle state, every call ends at once and leaves the cache idle. -/
structure Prompt (d : Cache σ) (idle : σ → Prop) : Prop where
  put : ∀ k x, (d.put k x).Prompt idle
  get : ∀ k, (d.get k).Prompt idle
  remove : ∀ k, (d.remove k).Prompt idle
  clear : d.clear.Prompt idle

namespace Prompt

variable {d : Cache σ} {idle : σ → Prop}

theorem focus (h : Prompt d idle) {f : Focus τ σ} {whole : τ → Prop}
    (hget : ∀ s, whole s → idle (f.get s)) (hset : ∀ s x, whole s → idle x → whole (f.set x s)) :
    Prompt (d.within f) whole where
  put k x := (h.put k x).focus hget hset
  get k := (h.get k).focus hget hset
  remove k := (h.remove k).focus hget hset
  clear := h.clear.focus hget hset

theorem under (h : Prompt d idle) (held : lam → List Value) :
    Prompt (d.under held) fun s => idle s.2 :=
  h.focus (fun _ hs => hs) fun _ _ _ hx => hx

/-- A cache below a layer that is left as it is. -/
theorem beside (h : Prompt d idle) (held : lam → List Value) (own : lam → Prop) :
    Prompt (d.under held) fun s => own s.1 ∧ idle s.2 :=
  h.focus (fun _ hs => hs.2) fun _ _ hs hx => ⟨hs.1, hx⟩

end Prompt

/-! ## Layers -/

theorem Store.prompt (id : String) : Prompt (Store.cache id) fun _ => True where
  put _ _ _ _ _ := ⟨_, _, rfl, trivial⟩
  get _ _ _ _ := ⟨_, _, rfl, trivial⟩
  remove _ _ _ _ := ⟨_, _, rfl, trivial⟩
  clear _ _ _ := ⟨_, _, rfl, trivial⟩

section Layers

variable {d : Cache σ} {idle : σ → Prop}

theorem Fifo.prompt (h : Prompt d idle) : Prompt (Fifo.around d) fun s => idle s.2 where
  put k x := by
    refine .bind (.ofLayer fun _ _ => rfl) fun oldest => ?_
    cases oldest with
    | some oldest => exact .bind ((h.remove oldest).below _).holding fun _ => (h.put k x).below _
    | none => exact (h.put k x).below _
  get := (h.under _).get
  remove := (h.under _).remove
  clear := .bind (h.clear.below _) fun _ => .ofLayer fun _ _ => rfl

theorem Lru.prompt (h : Prompt d idle) : Prompt (Lru.around d) fun s => idle s.2 where
  put k x := by
    refine .bind ((h.put k x).below _) fun _ => ?_
    refine .bind (.ofLayer fun _ _ => rfl) fun eldest => ?_
    cases eldest with
    | some eldest => exact .bind ((h.remove eldest).below _) fun _ => .pure
    | none => exact .pure
  get k := .bind (.ofLayer fun _ _ => rfl) fun _ => (h.get k).below _
  remove := (h.under _).remove
  clear := .bind (h.clear.below _) fun _ => .ofLayer fun _ _ => rfl

/-- Taking out keys whose value nobody owns. -/
theorem Reference.prompt_collect (h : Prompt d idle) (r : Reachability) :
    (collect r d).Prompt fun s => idle s.2 := by
  have hall : ∀ keys, (removeAll d keys).Prompt fun s => idle s.2 := by
    intro keys
    induction keys with
    | nil => exact .pure
    | cons key rest ih => exact .bind ((h.remove key).below _) fun _ => ih
  exact .bind (.ofLayer fun _ _ => rfl) hall

/-- Giving back the value behind a stored handle. -/
theorem Reference.prompt_follow (h : Prompt d idle) (k : CacheKey) (stored : Value)
    (generation : Nat) : (follow d k stored generation).Prompt fun s => idle s.2 := by
  refine .bind (.ofLayer fun _ _ => by cases stored <;> rfl) fun handle => ?_
  refine .bind (.ofLayer fun _ _ => rfl) fun target => ?_
  cases target with
  | some v =>
    refine .bind (.ofLayer fun _ _ => rfl) fun _ => ?_
    exact .bind (.ofLayer fun _ _ => rfl) fun _ => .pure
  | none =>
    refine .bind (.ofLayer fun _ _ => rfl) fun _ => ?_
    exact .bind ((h.remove k).below _).holding fun _ => .pure

theorem Reference.prompt (h : Prompt d idle) (r : Reachability) :
    Prompt (Reference.around r d) fun s => idle s.2 where
  put k x := by
    refine .holding (.bind (prompt_collect h r) fun _ => ?_)
    refine .bind (.ofLayer fun _ _ => rfl) fun generation => ?_
    cases x with
    | none => exact .bind (.ofLayer fun _ _ => rfl) fun _ => (h.put k none).below _
    | some v =>
      refine .bind (.ofLayer fun _ _ => rfl) fun handle => ?_
      exact .bind (.ofLayer fun _ _ => rfl) fun _ => (h.put k (some handle)).below _
  get k := by
    refine .bind (.ofLayer fun _ _ => rfl) fun generation => ?_
    refine .bind ((h.get k).below _) fun found => ?_
    cases found with
    | none => exact .pure
    | some stored => exact prompt_follow h k stored generation
  remove k := by
    refine .bind (prompt_collect h r) fun _ => ?_
    refine .bind (.ofLayer fun _ _ => rfl) fun _ => ?_
    refine .bind (.ofLayer fun _ _ => rfl) fun _ => ?_
    refine .bind ((h.remove k).below _) fun found => ?_
    cases found with
    | none => exact .pure
    | some stored => exact .ofLayer fun _ _ => by cases stored <;> rfl
  clear := .bind (.ofLayer fun _ _ => rfl) fun _ => h.clear.below _

theorem ReadCounts.prompt (h : Prompt d idle) :
    Prompt (ReadCounts.around d) fun s => idle s.2 where
  put := (h.under _).put
  get k := by
    refine .bind (.ofLayer fun _ _ => rfl) fun _ => ?_
    refine .bind ((h.get k).below _) fun found => ?_
    cases found with
    | some v => exact .bind (.ofLayer fun _ _ => rfl) fun _ => .pure
    | none => exact .pure
  remove := (h.under _).remove
  clear := (h.under _).clear

theorem Serialized.prompt (h : Prompt d idle) : Prompt (Serialized.around d) idle where
  put k x := by
    cases x with
    | none => exact h.put k none
    | some v => exact .bind (.ofStill (save_still d.id v)) fun stored => h.put k (some stored)
  get k := .bind (h.get k) fun found => .ofStill (restoreFound_still d.id found)
  remove k := .bind (h.remove k) fun found => .ofStill (restoreFound_still d.id found)
  clear := h.clear

/-- A call passes an open gate, and leaves it open. -/
theorem Gate.prompt_pass {gate : lam → Gate} {set : Gate → lam → lam}
    (hset : ∀ g l, gate (set g l) = g) {values : List Value} {m : Await ε (lam × σ) α}
    (hm : m.Prompt fun s => idle s.2) :
    (Gate.pass gate set values m).Prompt fun s => (gate s.1).isTaken = false ∧ idle s.2 := by
  have hready : (Await.waitFor fun s : lam × σ => !(gate s.1).isTaken :
      Await ε (lam × σ) Unit).Prompt fun s => (gate s.1).isTaken = false ∧ idle s.2 := by
    intro c w hw
    refine ⟨.ok (), w, ?_, hw⟩
    rw [Await.waitFor, hw.1]
    rfl
  refine .bind hready.holding fun _ => ?_
  have henter : (Await.ofOp (Op.modifyLayer (set ⟨true⟩)) : Await ε (lam × σ) Unit).EndsAtOnce
      (fun s => (gate s.1).isTaken = false ∧ idle s.2) fun r s => r = .ok () ∧ idle s.2 :=
    .ofOp fun _ _ hw => ⟨rfl, hw.2⟩
  have hleave : (Await.ofOp (Op.modifyLayer (set ⟨false⟩)) : Await ε (lam × σ) Unit).EndsAtOnce
      (fun s => idle s.2) fun _ s => (gate s.1).isTaken = false ∧ idle s.2 :=
    .ofOp fun _ _ hw => ⟨congrArg Gate.isTaken (hset _ _), hw⟩
  have hinside : (m.result : Await ε (lam × σ) (Except ε α)).EndsAtOnce (fun s => idle s.2)
      fun r s => (∃ x, r = .ok x) ∧ idle s.2 := .result fun c w hw => by
    obtain ⟨r, w', hrun, hw'⟩ := hm c w hw
    exact ⟨r, w', hrun, ⟨r, rfl⟩, hw'⟩
  have hend : ∀ r : Except ε α, (do
      .ofOp (Op.modifyLayer (set ⟨false⟩))
      .ofOp (Op.ofExcept r) : Await ε (lam × σ) α).EndsAtOnce (fun s => idle s.2)
        fun _ s => (gate s.1).isTaken = false ∧ idle s.2 := fun r =>
    hleave.bind_of (fun _ => .ofStill fun _ _ => rfl) fun _ _ hs => hs
  refine henter.bind_of (fun _ => ?_) fun _ _ hs => nomatch hs.1
  intro c w hw
  exact (hinside.bind_of (fun r c w hw => hend r c w hw.2) fun _ _ hs => nomatch hs.1) c w hw.2

theorem Gate.prompt (h : Prompt d idle) :
    Prompt (Gate.around d) fun s => s.1.isTaken = false ∧ idle s.2 := by
  have halone : ∀ {α : Type} {values : List Value} {m : CacheCall σ α}, m.Prompt idle →
      (alone values ((Focus.second fun _ : Gate => []).await m)).Prompt
        fun s => s.1.isTaken = false ∧ idle s.2 := by
    intro α values m hm
    show (pass id (fun g _ => g) values ((Focus.second fun _ : Gate => []).await m)).Prompt
      fun s => (id s.1).isTaken = false ∧ idle s.2
    exact prompt_pass (fun _ _ => rfl) (hm.below _)
  exact {
    put := fun k x => halone (h.put k x)
    get := fun k => halone (h.get k)
    remove := fun k => halone (h.remove k)
    clear := halone h.clear }

theorem Scheduled.prompt_clearWhenDue (h : Prompt d idle) (interval : Duration)
    (values : List Value) : (clearWhenDue interval d values).Prompt
      fun s => s.1.gate.isTaken = false ∧ idle s.2 := by
  refine .holding (Gate.prompt_pass (fun _ _ => rfl) ?_)
  refine .bind (.ofLayer fun _ _ => rfl) fun now => ?_
  refine .bind (.ofLayer fun _ _ => rfl) fun l => ?_
  split
  · refine .bind (.ofLayer fun _ _ => rfl) fun _ => ?_
    exact .bind (h.clear.below _) fun _ => .pure
  · exact .pure

theorem Scheduled.prompt (h : Prompt d idle) (interval : Duration) :
    Prompt (Scheduled.around interval d) fun s => s.1.gate.isTaken = false ∧ idle s.2 := by
  have hbelow : Prompt (below d) fun s => s.1.gate.isTaken = false ∧ idle s.2 :=
    h.beside (fun _ => []) fun l : LastClear => l.gate.isTaken = false
  have hdue := prompt_clearWhenDue h interval
  exact {
    put := fun k x => .bind (hdue _) fun _ => hbelow.put k x
    get := fun k => .bind (hdue _) fun cleared => by
      cases cleared with
      | true => exact .pure
      | false => exact hbelow.get k
    remove := fun k => .bind (hdue _) fun _ => hbelow.remove k
    clear := by
      refine .bind (.ofStill fun _ _ => rfl) fun now => ?_
      refine .bind (Gate.prompt_pass (fun _ _ => rfl) (.ofLayer fun _ _ => rfl)) fun _ => ?_
      exact hbelow.clear }

end Layers

/-! ## Reads that wait, and are made anew -/

/-- The operation ends at once; or it waits before it has done anything, and when it
is resumed it is made anew, or it is late and fails. -/
def Await.Restarts (idle : σ → Prop) (late : ε → Prop) (m : Await ε σ α) : Prop :=
  ∀ c w, idle w.state → (∃ r w', m c w = .done r w' ∧ idle w'.state) ∨
    ∃ wait resume, m c w = .waiting w wait resume ∧
      ∀ c' w', resume c' w' = m c' w' ∨ ∃ e, resume c' w' = .done (.error e) w' ∧ late e

namespace Await.Restarts

variable {idle : σ → Prop} {late : ε → Prop} {m : Await ε σ α}

theorem of_prompt (hm : m.Prompt idle) : m.Restarts idle late := fun c w hw => .inl (hm c w hw)

/-- What follows does not wait. -/
theorem bind {f : α → Await ε σ β} (hm : m.Restarts idle late) (hf : ∀ a, (f a).Prompt idle) :
    (m >>= f).Restarts idle late := by
  intro c w hw
  rcases hm c w hw with ⟨r, w', hrun, hw'⟩ | ⟨wait, resume, hrun, hresume⟩
  · cases r with
    | ok a =>
      obtain ⟨r', w'', hrun', hw''⟩ := hf a c w' hw'
      exact .inl ⟨r', w'', (Await.bind_of_done hrun).trans hrun', hw''⟩
    | error e => exact .inl ⟨.error e, w', Await.bind_of_failed hrun, hw'⟩
  · refine .inr ⟨wait, fun c w => (resume c w).bind f c, ?_, fun c' w' => ?_⟩
    · show (m c w).bind f c = _
      rw [hrun]
      rfl
    · have hgoes : ∀ {o}, resume c' w' = o → (resume c' w').bind (fun a => f a) c' =
          o.bind (fun a => f a) c' := fun heq => congrArg (fun o => o.bind (fun a => f a) c') heq
      exact (hresume c' w').imp hgoes fun ⟨e, heq, he⟩ => ⟨e, hgoes heq, he⟩

theorem mapError {f : ε → ε'} {late' : ε' → Prop} (hm : m.Restarts idle late)
    (hf : ∀ e, late e → late' (f e)) : (m.mapError f).Restarts idle late' := by
  intro c w hw
  rcases hm c w hw with ⟨r, w', hrun, hw'⟩ | ⟨wait, resume, hrun, hresume⟩
  · refine .inl ⟨r.mapError f, w', ?_, hw'⟩
    show (m c w).mapError f = _
    rw [hrun]
    rfl
  · refine .inr ⟨wait, fun c w => (resume c w).mapError f, ?_, fun c' w' => ?_⟩
    · show (m c w).mapError f = _
      rw [hrun]
      rfl
    · have hgoes : ∀ {o}, resume c' w' = o → (resume c' w').mapError f = o.mapError f :=
        congrArg (Outcome.mapError f)
      exact (hresume c' w').imp hgoes fun ⟨e, heq, he⟩ => ⟨f e, hgoes heq, hf e he⟩

/-- An operation on a part of the state: to wait is to leave the whole as it is. -/
theorem focus {f : Focus τ σ} {whole : τ → Prop} (hget : ∀ s, whole s → idle (f.get s))
    (hset : ∀ s x, whole s → idle x → whole (f.set x s)) (hsame : ∀ s, f.set (f.get s) s = s)
    (hm : m.Restarts idle late) : (f.await m).Restarts whole late := by
  have hwiden : ∀ w : World τ, f.widen w.state (f.narrow w) = w := fun w =>
    congrArg (World.mk w.env) (hsame w.state)
  intro c w hw
  rcases hm (f.caller w.state c) (f.narrow w) (hget _ hw) with
    ⟨r, w', hrun, hw'⟩ | ⟨wait, resume, hrun, hresume⟩
  · refine .inl ⟨r, f.widen w.state w', ?_, hset _ _ hw hw'⟩
    show (m (f.caller w.state c) (f.narrow w)).widen f w.state = _
    rw [hrun]
    rfl
  · refine .inr ⟨wait.widen f,
      fun c w => (resume (f.caller w.state c) (f.narrow w)).widen f w.state, ?_, fun c' w' => ?_⟩
    · show (m (f.caller w.state c) (f.narrow w)).widen f w.state = _
      rw [hrun, Outcome.widen, hwiden]
    · have hgoes : ∀ {o}, resume (f.caller w'.state c') (f.narrow w') = o →
          (resume (f.caller w'.state c') (f.narrow w')).widen f w'.state = o.widen f w'.state :=
        congrArg (Outcome.widen f w'.state)
      refine (hresume (f.caller w'.state c') (f.narrow w')).imp hgoes fun ⟨e, heq, he⟩ =>
        ⟨e, ?_, he⟩
      exact (hgoes heq).trans (congrArg (Outcome.done (.error e)) (hwiden w'))

end Await.Restarts

/-- Begun in an idle state, no call of the cache waits but a read, which is then made anew. -/
structure Restarting (d : Cache σ) (idle : σ → Prop) : Prop where
  put : ∀ k x, (d.put k x).Prompt idle
  get : ∀ k, (d.get k).Restarts idle CacheError.IsLate
  clear : d.clear.Prompt idle

namespace Restarting

variable {d : Cache σ} {idle : σ → Prop}

theorem of_prompt (h : Prompt d idle) : Restarting d idle where
  put := h.put
  get k := .of_prompt (h.get k)
  clear := h.clear

theorem within (h : Restarting d idle) {f : Focus τ σ} {whole : τ → Prop}
    (hget : ∀ s, whole s → idle (f.get s)) (hset : ∀ s x, whole s → idle x → whole (f.set x s))
    (hsame : ∀ s, f.set (f.get s) s = s) : Restarting (d.within f) whole where
  put k x := (h.put k x).focus hget hset
  get k := (h.get k).focus hget hset hsame
  clear := h.clear.focus hget hset

end Restarting

/-- A thread waits for the lock of a key with nothing done, and looks at it once more
when it is resumed. -/
theorem Blocking.restarts_acquire (timeout : Option Duration) (id : String) (k : CacheKey)
    (idle : σ → Prop) :
    (acquire timeout id k : CacheCall (KeyLocks × σ) Unit).Restarts (fun s => idle s.2)
      CacheError.IsLate := by
  intro c w hw
  by_cases hready : isReady k c.thread w = true
  · exact .inl ⟨.ok (), _, if_pos hready, hw⟩
  · refine .inr ⟨_, _, if_neg hready, fun c' w' => ?_⟩
    by_cases hready' : isReady k c'.thread w' = true
    · exact .inl ((if_pos hready').trans (if_pos hready').symm)
    · exact .inr ⟨_, if_neg hready', trivial⟩

theorem Blocking.restarting {d : Cache σ} {idle : σ → Prop} (h : Prompt d idle)
    (timeout : Option Duration) : Restarting (Blocking.around timeout d) fun s => idle s.2 where
  put k x := by
    refine .bind (.result ((h.put k x).below _)) fun r => ?_
    exact .bind (.ofLayer fun _ _ => rfl) fun _ => .ofStill fun _ _ => rfl
  get k := by
    refine (restarts_acquire timeout d.id k idle).bind fun _ => ?_
    refine .bind (.result ((h.get k).below _)) fun r => ?_
    match r with
    | .ok none => exact .pure
    | .ok (some v) => exact .bind (.ofLayer fun _ _ => rfl) fun _ => .pure
    | .error e => exact .bind (.ofLayer fun _ _ => rfl) fun _ => .ofStill fun _ _ => rfl
  clear := h.clear.below _

/-! ## Built caches -/

namespace Stack

/-- The layers make a cache whose calls end at once, and they are idle when they are set up. -/
def IsPrompt (id : String) (layers : List Layer) : Prop :=
  ∃ idle, Prompt (cacheOf id layers) idle ∧ ∀ now, idle (initialOf now layers)

/-- The same of layers whose reads may wait. -/
def IsRestarting (id : String) (layers : List Layer) : Prop :=
  ∃ idle, Restarting (cacheOf id layers) idle ∧ ∀ now, idle (initialOf now layers)

variable {id : String} {layers : List Layer}

theorem isPrompt_eviction (b : CacheBuilder) (id : String) : IsPrompt id [b.evictionLayer] := by
  unfold CacheBuilder.evictionLayer
  cases b.eviction with
  | lru => exact ⟨_, Lru.prompt (Store.prompt id), fun _ => trivial⟩
  | fifo => exact ⟨_, Fifo.prompt (Store.prompt id), fun _ => trivial⟩
  | soft => exact ⟨_, Reference.prompt (Store.prompt id) _, fun _ => trivial⟩
  | weak => exact ⟨_, Reference.prompt (Store.prompt id) _, fun _ => trivial⟩

theorem IsPrompt.serialized (h : IsPrompt id layers) : IsPrompt id (.serialized :: layers) := by
  rcases h with ⟨idle, hd, h₀⟩
  exact ⟨_, (Serialized.prompt hd).under fun _ : Unit => [], h₀⟩

theorem IsPrompt.statistics (h : IsPrompt id layers) : IsPrompt id (.statistics :: layers) := by
  rcases h with ⟨idle, hd, h₀⟩
  exact ⟨_, ReadCounts.prompt hd, h₀⟩

theorem IsPrompt.synchronized (h : IsPrompt id layers) :
    IsPrompt id (.synchronized :: layers) := by
  rcases h with ⟨idle, hd, h₀⟩
  exact ⟨_, Gate.prompt hd, fun now => ⟨rfl, h₀ now⟩⟩

theorem IsPrompt.scheduled (h : IsPrompt id layers) (interval : Duration) :
    IsPrompt id (.scheduled interval :: layers) := by
  rcases h with ⟨idle, hd, h₀⟩
  exact ⟨_, Scheduled.prompt hd interval, fun now => ⟨rfl, h₀ now⟩⟩

theorem IsPrompt.blocking (h : IsPrompt id layers) (timeout : Option Duration) :
    IsRestarting id (.blocking timeout :: layers) := by
  rcases h with ⟨idle, hd, h₀⟩
  exact ⟨_, Blocking.restarting hd timeout, h₀⟩

theorem IsPrompt.restarting (h : IsPrompt id layers) : IsRestarting id layers := by
  rcases h with ⟨idle, hd, h₀⟩
  exact ⟨_, .of_prompt hd, h₀⟩

end Stack

/-- No call of a built cache waits but a read of a blocking one, which is then made anew. -/
theorem CacheBuilder.restarting_of_build {b : CacheBuilder} {s : Stack}
    (himpl : b.implementation = none) (hdec : b.decorators = []) (hb : b.build = .ok s) :
    Stack.IsRestarting s.id s.layers := by
  obtain rfl := eq_of_build himpl hdec hb
  have hlayers : if !b.blocking then Stack.IsPrompt b.id (b.outerLayers ++ [b.evictionLayer])
      else Stack.IsRestarting b.id (b.outerLayers ++ [b.evictionLayer]) :=
    b.layers_induction (P := fun _ removes layers =>
        if removes then Stack.IsPrompt b.id layers else Stack.IsRestarting b.id layers)
      (Stack.isPrompt_eviction b b.id) Stack.IsPrompt.serialized Stack.IsPrompt.statistics
      Stack.IsPrompt.synchronized (fun interval h => Stack.IsPrompt.scheduled h interval)
      fun timeout h => Stack.IsPrompt.blocking h timeout
  split at hlayers
  · exact hlayers.restarting
  · exact hlayers

end QueryCache
