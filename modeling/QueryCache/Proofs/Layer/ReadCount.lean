import Mathlib
import QueryCache.Proofs.Layer.RefusedPut

/-!
# What the statistics of a cache count

The layer that counts reads sits below the schedule and the locks, so it does not see a read
that ends above it: one that made a clear on schedule, or one that came too late for the lock
of its key.  Every other read of a built cache is counted once, and nothing else is.

1. calls with the states around them
2. reads that are not late
3. how a read is counted
4. layers
5. built caches
-/

namespace QueryCache

variable {σ lam α : Type}

/-! ## Calls with the states around them -/

/-- A whole call, with the states before and after it. -/
structure Transition (σ : Type) where
  event : Event
  before : σ
  after : σ

/-- Whole calls of any callers, in order, as in a run, each with the states around it. -/
inductive Trace (d : Cache σ) (w₀ : World σ) : List (Transition σ) → World σ → Prop where
  | start : Trace d w₀ [] w₀
  | call {calls : List (Transition σ)} {w w' : World σ} {e : Environment} {c : Caller}
      {event : Event} (h : Trace d w₀ calls w) (he : w.env.Before e)
      (ho : event.Occurs d c ⟨e, w.state⟩ w') :
      Trace d w₀ (calls ++ [⟨event, w.state, w'.state⟩]) w'

/-- A trace without the states is a run. -/
theorem Trace.run {d : Cache σ} {w₀ w : World σ} {calls : List (Transition σ)}
    (h : Trace d w₀ calls w) : Run d w₀ (calls.map (·.event)) w := by
  induction h with
  | start => exact .start
  | call _ he ho ih =>
    rw [List.map_append]
    exact ih.call he ho

namespace Event

def isRead : Event → Bool
  | .get .. => true
  | _ => false

/-- A read that gave a value. -/
def givesValue : Event → Bool
  | .get _ (.ok (some _)) => true
  | _ => false

/-- A read that did not get the lock of its key in time. -/
def isLate : Event → Bool
  | .get _ (.error (.lockTimeout ..)) => true
  | _ => false

end Event

/-- The time of the last clear that the layers know of, if they clear on schedule. -/
def Stack.lastClear? : (layers : List Layer) → StateOf layers → Option Nat
  | [], _ => none
  | .scheduled _ :: _, ((last : LastClear), _) => some last.time
  | _ :: rest, (_, s) => lastClear? rest s

/-- A read that made a clear on schedule, and so noted its time. -/
def Transition.clears {layers : List Layer} (call : Transition (Stack.StateOf layers)) : Bool :=
  call.event.isRead && Stack.lastClear? layers call.before != Stack.lastClear? layers call.after

/-! ## Reads that are not late -/

/-- The error of a call that only fails as expected is an expected one. -/
theorem Await.FailsOnly.hoare {ε : Type} {expected : ε → Prop} {m : Await ε σ α}
    (h : m.FailsOnly expected) : m.Hoare (fun _ => True) fun r _ => FailsOnlyAs expected r := by
  intro t w _ c _
  have ho := h c w trivial
  generalize m c w = o at ho
  induction o with
  | done r w => exact ho.2
  | waiting w wait resume ih => exact fun c' e _ _ _ => ih c' ⟨e, w.state⟩ (ho.2 c' _ trivial)

/-- No read of the cache fails because it came too late. -/
def NeverLate (d : Cache σ) : Prop := ∀ k, (d.get k).FailsOnly fun e => ¬ e.IsLate

theorem Store.neverLate (id : String) : NeverLate (cache id) :=
  fun _ _ w _ => ⟨trivial, .of_ok (w.state.lookup _)⟩

theorem Reference.neverLate (id : String) (r : Reachability) :
    NeverLate (Reference.around r (Store.cache id)) := by
  intro k
  refine .bind (updateLayer_safe _) fun generation => .bind (Store.neverLate id k).focus ?_
  intro found
  cases found with
  | none => exact .pure none
  | some stored =>
    have hhandle : (Await.ofOp (expectHandle (Store.cache id) stored)).FailsOnly
        fun e => ¬ e.IsLate := by
      refine .ofOp fun c w => ?_
      cases stored with
      | handle a target => exact .of_ok _
      | data | snapshot => exact .of_error not_false
    refine .bind hhandle fun handle => .bind (.ofSafe fun _ _ => ⟨_, rfl⟩) fun target => ?_
    cases target with
    | some v =>
      exact .bind (.ofSafe fun _ _ => ⟨(), rfl⟩) fun _ => .bind (modifyLayer_safe _) fun _ => .pure _
    | none =>
      exact .bind (modifyLayer_safe _) fun _ =>
        .bind (.holding (Store.remove_safe id k).focus) fun _ => .pure none

/-- A snapshot that cannot be read back is another matter. -/
theorem Serialized.neverLate {d : Cache σ} (h : NeverLate d) : NeverLate (Serialized.around d) := by
  refine fun k => .bind (h k) fun found => .ofOp fun c w => ?_
  have hmap : ∀ e, ¬ (mapError d.id e).IsLate := fun e => by cases e <;> exact not_false
  cases found with
  | none => exact .of_ok none
  | some stored =>
    cases stored with
    | data | handle => exact .of_error not_false
    | snapshot a s =>
      show FailsOnlyAs _ (restoreFound d.id (some (.snapshot a s)) c w).1
      cases hs : s.restore with
      | ok x =>
        simp only [restoreFound, restore, hs]
        exact .of_ok _
      | error e =>
        simp only [restoreFound, restore, hs]
        exact .of_error (hmap e)

/-! ## How a read is counted -/

/-- How a read ends, with the counters and the time of the last clear before and after it. -/
inductive ReadEnds (n : ReadCounts) (t : Option Nat) :
    Except CacheError (Option Value) → ReadCounts → Option Nat → Prop where
  | found (v : Value) : ReadEnds n t (.ok (some v)) n.request.hit t
  | missed {r : Except CacheError (Option Value)} (hmissed : ∀ v, r ≠ .ok (some v))
      (hprompt : FailsOnlyAs (fun e => ¬ e.IsLate) r) : ReadEnds n t r n.request t
  | cleared {t' : Option Nat} (ht : t ≠ t') : ReadEnds n t (.ok none) n t'
  | late {e : CacheError} (he : e.IsLate) : ReadEnds n t (.error e) n t

/-- The cache, but its reads do nothing. -/
def Cache.withoutReads (d : Cache σ) : Cache σ := { d with get := fun _ => pure none }

/-- The statistics of the cache come from counters that only reads change.  `last` is the time
of the last clear, if the cache clears on schedule. -/
structure CountsReads (d : Cache σ) (counts : σ → ReadCounts) (last : σ → Option Nat)
    (idle : σ → Prop) : Prop where
  stats : ∀ s, d.stats s = some (counts s).stats
  clear : d.clear.FailsOnly fun _ => False
  others : ∀ n, Rests d.withoutReads fun s => idle s ∧ counts s = n
  get : ∀ k n t, (d.get k).Hoare (fun s => idle s ∧ counts s = n ∧ last s = t)
    fun r s => ReadEnds n t r (counts s) (last s)

/-- What the other calls keep without the reads, they keep with them. -/
theorem Rests.withoutReads {d : Cache σ} {idle : σ → Prop} (h : Rests d idle) :
    Rests d.withoutReads idle :=
  ⟨h.put, fun _ => .pure, h.remove, h.clear, h.size, h.releaseLock⟩

theorem Rests.congr {d : Cache σ} {idle idle' : σ → Prop} (h : Rests d idle)
    (hiff : ∀ s, idle s ↔ idle' s) : Rests d idle' := by
  obtain rfl : idle = idle' := funext fun s => propext (hiff s)
  exact h

/-! ## Layers -/

section Layers

variable {d : Cache σ} {counts : σ → ReadCounts} {last : σ → Option Nat} {idle : σ → Prop}

/-- The layer that counts, around a cache without a gate whose reads are never late. -/
theorem ReadCounts.countsReads (hget : NeverLate d) (hclear : d.clear.FailsOnly fun _ => False)
    (hidle : ∀ s, idle s) :
    CountsReads (ReadCounts.around d) Prod.fst (fun _ => none) fun s => idle s.2 where
  stats _ := rfl
  clear := hclear.focus
  others n := by
    have hbelow : Rests (d.under fun _ : ReadCounts => []) fun s => s.1 = n ∧ idle s.2 :=
      (Rests.of_forall hidle d).beside _ fun counts : ReadCounts => counts = n
    have hothers := hbelow.congr fun s => and_comm
    exact ⟨hothers.put, fun _ => .pure, hothers.remove, hothers.clear, hothers.size,
      hothers.releaseLock⟩
  get k n t := by
    have hrequest : (Await.ofOp (Op.modifyLayer request) : CacheCall (ReadCounts × σ) Unit).Hoare
        (fun s => idle s.2 ∧ s.1 = n ∧ none = t)
        fun r s => r = .ok () ∧ s.1 = n.request ∧ none = t := by
      refine .ofOp (.modifyLayer ?_)
      rintro s ⟨-, hs, ht⟩
      exact ⟨rfl, congrArg request hs, ht⟩
    have hbelow : ((Focus.second fun _ : ReadCounts => []).await (d.get k)).Hoare
        (fun s => s.1 = n.request ∧ none = t)
        fun r s => (s.1 = n.request ∧ none = t) ∧ FailsOnlyAs (fun e => ¬ e.IsLate) r := by
      have hfocus : ((Focus.second fun _ : ReadCounts => []).await (d.get k)).Hoare
          (fun s => (s.1 = n.request ∧ none = t) ∧ True)
          fun r s => (s.1 = n.request ∧ none = t) ∧ FailsOnlyAs (fun e => ¬ e.IsLate) r :=
        (hget k).hoare.focus (Focus.lawfulAt_second _) fun _ _ hs => hs
      exact hfocus.mono (fun _ hs => ⟨hs, trivial⟩) fun _ _ hs => hs
    have hhit : (Await.ofOp (Op.modifyLayer hit) : CacheCall (ReadCounts × σ) Unit).Hoare
        (fun s => s.1 = n.request ∧ none = t)
        fun r s => r = .ok () ∧ s.1 = n.request.hit ∧ none = t := by
      refine .ofOp (.modifyLayer ?_)
      rintro s ⟨hs, ht⟩
      exact ⟨rfl, congrArg hit hs, ht⟩
    refine hrequest.bind_ok (hbelow.bind ?_ ?_)
    · intro found
      cases found with
      | none =>
        refine .pure ?_
        rintro s ⟨⟨hs, rfl⟩, -⟩
        rw [hs]
        exact .missed nofun (.of_ok none)
      | some v =>
        have hfound : (do
            .ofOp (Op.modifyLayer hit)
            pure (some v) : CacheCall (ReadCounts × σ) (Option Value)).Hoare
              (fun s => s.1 = n.request ∧ none = t) fun r s => ReadEnds n t r s.1 none := by
          refine hhit.bind_ok (.pure ?_)
          rintro s ⟨hs, rfl⟩
          rw [hs]
          exact .found v
        exact hfound.mono (fun _ hs => hs.1) fun _ _ hs => hs
    · rintro e s ⟨⟨hs, rfl⟩, he⟩
      rw [hs]
      refine .missed nofun ?_
      rintro _ ⟨⟩
      exact he e rfl

/-- A call behind a gate of its own ends as it does without the gate. -/
theorem Gate.alone_hoare {m : CacheCall σ α} {values : List Value} {pre : σ → Prop}
    {post : Except CacheError α → σ → Prop} (h : m.Hoare pre post) :
    (alone values ((Focus.second fun _ : Gate => []).await m)).Hoare (fun s => pre s.2)
      fun r s => post r s.2 := by
  intro t w hw
  exact pass_meets (fun e l _ => h.below _ t ⟨e, (l, w.state.2)⟩ hw) fun _ _ _ _ _ hp => hp

theorem Gate.countsReads (h : CountsReads d counts last idle) :
    CountsReads (Gate.around d) (fun s => counts s.2) (fun s => last s.2)
      fun s => s.1.isTaken = false ∧ idle s.2 where
  stats s := h.stats s.2
  clear := by
    show (alone [] (below d).clear).FailsOnly _
    exact pass_fails h.clear.focus
  others n := (Gate.rests (h.others n)).withoutReads.congr fun s => and_assoc.symm
  get k n t := (alone_hoare (h.get k n t)).mono (fun _ hs => ⟨hs.1.2, hs.2⟩) fun _ _ hs => hs

/-- A gate neither looks at what a call does nor changes it. -/
theorem Gate.pass_hoare {gate : lam → Gate} {set : Gate → lam → lam} {values : List Value}
    {m : CacheCall (lam × σ) α} {pre : lam × σ → Prop}
    {post : Except CacheError α → lam × σ → Prop}
    (hpre : ∀ g l s, pre (l, s) → pre (set g l, s))
    (hpost : ∀ r g l s, post r (l, s) → post r (set g l, s)) (hm : m.Hoare pre post) :
    (pass gate set values m).Hoare pre post := by
  have hwait : ((Await.waitFor fun s : lam × σ => !(gate s.1).isTaken).holding values :
      CacheCall (lam × σ) Unit).Hoare pre fun r s => r = .ok () ∧ pre s :=
    fun _ _ hw => .holding (.waitFor fun _ _ => ⟨rfl, hw⟩)
  have henter : (Await.ofOp (Op.modifyLayer (set ⟨true⟩)) : CacheCall (lam × σ) Unit).Hoare pre
      fun r s => r = .ok () ∧ pre s :=
    .ofOp (.modifyLayer fun s hs => ⟨rfl, hpre _ s.1 s.2 hs⟩)
  refine hwait.bind_ok (henter.bind_ok (Await.Hoare.bind_result hm fun r => ?_))
  have hleave : (Await.ofOp (Op.modifyLayer (set ⟨false⟩)) : CacheCall (lam × σ) Unit).Hoare
      (post r) fun x s => x = .ok () ∧ post r s :=
    .ofOp (.modifyLayer fun s hs => ⟨rfl, hpost r _ s.1 s.2 hs⟩)
  exact hleave.bind_ok (.ofOp (.ofExcept fun _ hs => hs))

/-- The clear on schedule is made, and its time is noted, or it is not due. -/
theorem Scheduled.clearWhenDue_counts (h : CountsReads d counts last idle) (interval : Duration)
    (n : ReadCounts) (t : Nat) : (clearWhenDue interval d []).Hoare
      (fun s => (idle s.2 ∧ counts s.2 = n) ∧ s.1.time = t)
      fun r s => ∃ due, r = .ok due ∧ (idle s.2 ∧ counts s.2 = n) ∧
        (s.1.time = t ↔ due = false) := by
  have hclear : (below d).clear.Hoare (fun s => s.1.time ≠ t ∧ idle s.2 ∧ counts s.2 = n)
      fun r s => r = .ok () ∧ s.1.time ≠ t ∧ idle s.2 ∧ counts s.2 = n := by
    have hkeeps : (below d).clear.Keeps fun s => s.1.time ≠ t ∧ idle s.2 ∧ counts s.2 = n :=
      ((h.others n).beside (fun _ => []) fun l : LastClear => l.time ≠ t).clear
    have hsafe : (below d).clear.FailsOnly fun _ => False := h.clear.focus
    intro thread w hw
    refine ((hsafe.hoare thread w trivial).and (hkeeps thread w hw)).mono ?_
    rintro r w' ⟨hr, hw'⟩
    cases r with
    | ok _ => exact ⟨rfl, hw'⟩
    | error e => exact (hr e rfl).elim
  have hinside : (clearInside interval d).Hoare (fun s => (idle s.2 ∧ counts s.2 = n) ∧ s.1.time = t)
      fun r s => ∃ due, r = .ok due ∧ (idle s.2 ∧ counts s.2 = n) ∧
        (s.1.time = t ↔ due = false) := by
    intro thread w hw
    refine Await.Meets.bind_ofOp fun _ _ => Await.Meets.bind_ofOp fun _ _ => ?_
    show (if isDue interval w.env.now w.state.1 then _ else _ :
      CacheCall (LastClear × σ) Bool).Meets thread ⟨_, w.state⟩ _
    by_cases hdue : isDue interval w.env.now w.state.1 = true
    · rw [if_pos hdue]
      -- A clear that is due comes at another time than the last one.
      have hlater : w.env.now ≠ t := by
        have hlt : interval.nanos < w.env.now - w.state.1.time := of_decide_eq_true hdue
        have ht := hw.2
        omega
      refine Await.Meets.bind_modifyLayer (Await.Meets.bind_of
        (hclear thread ⟨_, w.state.1.note w.env.now, w.state.2⟩ ⟨hlater, hw.1⟩) ?_ ?_)
      · rintro _ w' ⟨-, hne, hcounts⟩
        exact Await.Meets.pure ⟨true, rfl, hcounts, iff_of_false hne (by decide)⟩
      · rintro e w' ⟨⟨⟩, -⟩
    · rw [if_neg hdue]
      exact Await.Meets.pure ⟨false, rfl, hw.1, iff_of_true hw.2 rfl⟩
  refine fun thread w hw => .holding (Gate.pass_hoare ?_ ?_ hinside thread w hw)
  · exact fun _ _ _ hs => hs
  · exact fun _ _ _ _ hs => hs

/-- Where no time is noted, a read ends in the same way at any time. -/
theorem ReadEnds.at_time {n n' : ReadCounts} {r : Except CacheError (Option Value)}
    (h : ReadEnds n none r n' none) (t : Option Nat) : ReadEnds n t r n' t := by
  cases h with
  | found v => exact .found v
  | missed hmissed hprompt => exact .missed hmissed hprompt
  | cleared ht => exact (ht rfl).elim
  | late he => exact .late he

/-- A read that makes a clear is not counted. -/
theorem Scheduled.countsReads (h : CountsReads d counts (fun _ => none) idle)
    (interval : Duration) :
    CountsReads (Scheduled.around interval d) (fun s => counts s.2) (fun s => some s.1.time)
      fun s => s.1.gate.isTaken = false ∧ idle s.2 where
  stats s := h.stats s.2
  clear := by
    refine .bind (.ofSafe fun _ w => ⟨w.env.now, rfl⟩) fun now => ?_
    exact .bind (Gate.pass_fails (modifyLayer_safe _)) fun _ => h.clear.focus
  others n :=
    (Scheduled.rests (h.others n) interval).withoutReads.congr fun s => and_assoc.symm
  get k n t := by
    rintro thread w ⟨⟨-, hidle⟩, hcounts, rfl⟩
    refine Await.Meets.bind_of (clearWhenDue_counts h interval n w.state.1.time thread w
      ⟨⟨hidle, hcounts⟩, rfl⟩) ?_ ?_
    · rintro due w₁ ⟨_, ⟨⟩, ⟨hidle₁, hcounts₁⟩, htime⟩
      cases due with
      | true =>
        refine Await.Meets.pure ?_
        show ReadEnds n _ _ (counts w₁.state.2) _
        rw [hcounts₁]
        exact .cleared fun heq => nomatch htime.1 (Option.some.inj heq).symm
      | false =>
        have hbelow : ((below d).get k).Hoare
            (fun s => s.1.time = w.state.1.time ∧ idle s.2 ∧ counts s.2 = n ∧ none = none)
            fun r s => s.1.time = w.state.1.time ∧ ReadEnds n none r (counts s.2) none :=
          (h.get k n none).focus (Focus.lawfulAt_second _) fun _ _ hs => hs
        refine (hbelow thread w₁ ⟨htime.2 rfl, hidle₁, hcounts₁, rfl⟩).mono ?_
        rintro r w₂ ⟨htime₂, hr⟩
        show ReadEnds n _ r _ (some w₂.state.1.time)
        rw [htime₂]
        exact hr.at_time _
    · rintro e w₁ ⟨due, ⟨⟩, -⟩

/-- A read that comes too late for the lock of its key is not counted. -/
theorem Blocking.countsReads (h : CountsReads d counts last idle) (timeout : Option Duration) :
    CountsReads (Blocking.around timeout d) (fun s => counts s.2) (fun s => last s.2)
      fun s => idle s.2 where
  stats s := h.stats s.2
  clear := h.clear.focus
  others n := (Blocking.rests (h.others n) timeout).withoutReads
  get k n t := by
    have hacquire : (acquire timeout d.id k : CacheCall (KeyLocks × σ) Unit).Hoare
        (fun s => idle s.2 ∧ counts s.2 = n ∧ last s.2 = t)
        fun r s => (idle s.2 ∧ counts s.2 = n ∧ last s.2 = t) ∧
          FailsOnlyAs CacheError.IsLate r := by
      intro thread w hw c _
      unfold acquire
      split
      · exact ⟨hw, .of_ok ()⟩
      · intro c' e _ _ _
        dsimp only
        split
        · exact ⟨hw, .of_ok ()⟩
        · exact ⟨hw, .of_error trivial⟩
    refine hacquire.bind (fun _ => ?_) ?_
    · have hbelow : ((below d).get k).Hoare (fun s => idle s.2 ∧ counts s.2 = n ∧ last s.2 = t)
          fun r s => ReadEnds n t r (counts s.2) (last s.2) := (h.get k n t).below _
      have hrelease : ∀ r : Except CacheError (Option Value),
          (Await.ofOp (release k) : CacheCall (KeyLocks × σ) Unit).Hoare
            (fun s => ReadEnds n t r (counts s.2) (last s.2))
            fun x s => x = .ok () ∧ ReadEnds n t r (counts s.2) (last s.2) :=
        fun r => .ofOp fun _ _ hw _ _ => ⟨rfl, hw⟩
      refine Await.Hoare.mono (Await.Hoare.bind_result hbelow fun r => ?_) (fun _ hs => hs.1)
        fun _ _ hs => hs
      match r with
      | .ok none => exact .pure fun _ hs => hs
      | .ok (some v) => exact (hrelease _).bind_ok (.pure fun _ hs => hs)
      | .error e => exact (hrelease _).bind_ok (.ofOp (.fail fun _ hs => hs))
    · rintro e s ⟨⟨-, rfl, rfl⟩, he⟩
      exact .late (he e rfl)

end Layers

/-! ## Built caches -/

/-- The layers count reads, from none on. -/
def Stack.CountsFromZero (id : String) (layers : List Layer) : Prop :=
  ∃ counts, CountsReads (cacheOf id layers) counts (lastClear? layers) (IsIdle layers) ∧
    ∀ now, counts (initialOf now layers) = {}

namespace CacheBuilder

variable {b : CacheBuilder} {s : Stack}

/-- The gate and the layers behind it. -/
theorem countsFromZero_gated (b : CacheBuilder) :
    ∃ counts, CountsReads (Stack.cacheOf b.id b.gated) counts (fun _ => none)
      (Stack.IsIdle b.gated) ∧ ∀ now, counts (Stack.initialOf now b.gated) = {} := by
  let inner := (if b.readWrite then [Layer.serialized] else []) ++ [b.evictionLayer]
  have hidle : ∀ s, Stack.IsIdle inner s := by
    unfold inner evictionLayer
    cases b.readWrite <;> cases b.eviction <;> exact fun _ => trivial
  have heviction : NeverLate (Stack.cacheOf b.id [b.evictionLayer]) ∧
      RefusesUncopied (Stack.cacheOf b.id [b.evictionLayer]) false := by
    have hstore := Store.neverLate b.id
    unfold evictionLayer
    cases b.eviction with
    | lru =>
      exact ⟨fun k => .bind (modifyLayer_safe _) fun _ => (hstore k).focus, Lru.refuses b.id⟩
    | fifo => exact ⟨fun k => (hstore k).focus, Fifo.refuses b.id⟩
    | soft => exact ⟨Reference.neverLate b.id _, Reference.refuses _ b.id⟩
    | weak => exact ⟨Reference.neverLate b.id _, Reference.refuses _ b.id⟩
  have hinner : NeverLate (Stack.cacheOf b.id inner) ∧
      (Stack.cacheOf b.id inner).clear.FailsOnly fun _ => False := by
    unfold inner
    cases b.readWrite with
    | true => exact ⟨fun k => (Serialized.neverLate heviction.1 k).focus, heviction.2.clear.focus⟩
    | false => exact ⟨heviction.1, heviction.2.clear⟩
  exact ⟨_, Gate.countsReads (ReadCounts.countsReads hinner.1 hinner.2 hidle), fun _ => rfl⟩

/-- Behind the gate nothing is cleared on schedule. -/
theorem lastClear?_gated (b : CacheBuilder) : Stack.lastClear? b.gated = fun _ => none := by
  unfold gated evictionLayer
  cases b.readWrite <;> cases b.eviction <;> rfl

theorem countsFromZero_layers (b : CacheBuilder) :
    Stack.CountsFromZero b.id (b.outerLayers ++ [b.evictionLayer]) := by
  obtain ⟨counts, hcounts, hzero⟩ := b.countsFromZero_gated
  refine b.outer_induction (P := Stack.CountsFromZero b.id) ⟨counts, ?_, hzero⟩ ?_ ?_
  · rw [lastClear?_gated]
    exact hcounts
  · exact fun interval => ⟨_, Scheduled.countsReads hcounts interval, hzero⟩
  · rintro layers timeout ⟨counts, hcounts, hzero⟩
    exact ⟨_, Blocking.countsReads hcounts timeout, hzero⟩

end CacheBuilder

namespace CountsReads

variable {layers : List Layer} {id : String}
  {counts : Stack.StateOf layers → ReadCounts} {c : Caller}
  {w w' : World (Stack.StateOf layers)} {event : Event}

/-- A call that is no read leaves the counters. -/
theorem of_not_read (h : CountsReads (Stack.cacheOf id layers) counts (Stack.lastClear? layers)
    (Stack.IsIdle layers)) (hidle : Stack.IsIdle layers w.state) (hread : event.isRead = false)
    (ho : event.Occurs (Stack.cacheOf id layers) c w w') : counts w'.state = counts w.state := by
  have hothers := h.others (counts w.state)
  have hw : Stack.IsIdle layers w.state ∧ counts w.state = counts w.state := ⟨hidle, rfl⟩
  cases event with
  | get k r => cases hread
  | put k x r => exact ((hothers.put k x).settles ho hw).2
  | remove k r => exact ((hothers.remove k).settles ho hw).2
  | clear r => exact (hothers.clear.settles ho hw).2
  | size r => exact (hothers.size.settles ho hw).2
  | releaseLock k r => exact ((hothers.releaseLock k).ends ho hw).2

/-- What the counters say after calls of which they have seen as many reads as stated: every
read that neither made a clear nor came too late, and every value that was given. -/
structure Tally (calls : List (Transition (Stack.StateOf layers))) (seen : Nat)
    (n : ReadCounts) : Prop where
  requests : n.requests = UInt64.ofNat seen
  hits : n.hits = UInt64.ofNat (calls.countP (·.event.givesValue))
  le : calls.countP (·.event.givesValue) ≤ seen
  sum : seen + calls.countP (·.clears) + calls.countP (·.event.isLate) =
    calls.countP (·.event.isRead)

/-- One more call, and what it adds to each number. -/
theorem Tally.append {calls : List (Transition (Stack.StateOf layers))} {seen more : Nat}
    {n n' : ReadCounts} {call : Transition (Stack.StateOf layers)} (h : Tally calls seen n)
    (hrequests : n'.requests = n.requests + UInt64.ofNat more)
    (hhits : n'.hits = n.hits + UInt64.ofNat call.event.givesValue.toNat)
    (hle : call.event.givesValue.toNat ≤ more)
    (hsum : more + call.clears.toNat + call.event.isLate.toNat = call.event.isRead.toNat) :
    Tally (calls ++ [call]) (seen + more) n' := by
  have hcount : ∀ p : Transition (Stack.StateOf layers) → Bool,
      (calls ++ [call]).countP p = calls.countP p + (p call).toNat := by
    intro p
    rw [List.countP_append, List.countP_singleton]
    cases p call <;> rfl
  have hle' := h.le
  have hsum' := h.sum
  refine ⟨?_, ?_, ?_, ?_⟩
  · rw [hrequests, h.requests, UInt64.ofNat_add]
  · rw [hhits, h.hits, hcount, UInt64.ofNat_add]
  · rw [hcount]
    omega
  · rw [hcount, hcount, hcount]
    omega

/-- A call is counted as it ends. -/
theorem tally_next (h : CountsReads (Stack.cacheOf id layers) counts (Stack.lastClear? layers)
    (Stack.IsIdle layers)) (hidle : Stack.IsIdle layers w.state)
    (ho : event.Occurs (Stack.cacheOf id layers) c w w')
    {calls : List (Transition (Stack.StateOf layers))} {seen : Nat}
    (ht : Tally calls seen (counts w.state)) :
    ∃ more, Tally (calls ++ [⟨event, w.state, w'.state⟩]) (seen + more) (counts w'.state) := by
  have hstill : event.isRead = false → counts w'.state = counts w.state := fun hread =>
    h.of_not_read hidle hread ho
  cases event with
  | get k r =>
    have hends := (h.get k _ _).settles ho ⟨hidle, rfl, rfl⟩
    have hclears : (⟨.get k r, w.state, w'.state⟩ : Transition (Stack.StateOf layers)).clears =
        (Stack.lastClear? layers w.state != Stack.lastClear? layers w'.state) := rfl
    generalize counts w'.state = n' at hends
    generalize Stack.lastClear? layers w'.state = t' at hends hclears
    cases hends with
    | found v => exact ⟨1, ht.append rfl rfl le_rfl (by rw [hclears, bne_self_eq_false]; rfl)⟩
    | missed hmissed hprompt =>
      have hgives : (Event.get k r).givesValue = false := by
        match r with
        | .ok none | .error e => rfl
        | .ok (some v) => exact (hmissed v rfl).elim
      have hlate : (Event.get k r).isLate = false := by
        match r with
        | .ok _ => rfl
        | .error e =>
          have he := hprompt e rfl
          cases e with
          | lockTimeout => exact (he trivial).elim
          | _ => rfl
      refine ⟨1, ht.append rfl ?_ ?_ ?_⟩
      · rw [hgives]
        exact (UInt64.add_zero _).symm
      · rw [hgives]
        exact Nat.zero_le 1
      · rw [hclears, hlate, bne_self_eq_false]
        rfl
    | cleared hne =>
      refine ⟨0, ht.append (UInt64.add_zero _).symm (UInt64.add_zero _).symm le_rfl ?_⟩
      rw [hclears, bne_iff_ne.2 hne]
      rfl
    | @late e he =>
      have hlate : (Event.get k (.error e)).isLate = true := by
        cases e with
        | lockTimeout => rfl
        | _ => exact he.elim
      refine ⟨0, ht.append (UInt64.add_zero _).symm (UInt64.add_zero _).symm le_rfl ?_⟩
      rw [hclears, hlate, bne_self_eq_false]
      rfl
  | put | remove | clear | size | releaseLock =>
    rw [hstill rfl]
    exact ⟨0, ht.append (UInt64.add_zero _).symm (UInt64.add_zero _).symm le_rfl rfl⟩

/-- The counters after a trace. -/
theorem tally_trace (h : CountsReads (Stack.cacheOf id layers) counts (Stack.lastClear? layers)
    (Stack.IsIdle layers)) (hrests : Rests (Stack.cacheOf id layers) (Stack.IsIdle layers))
    {w₀ : World (Stack.StateOf layers)} {calls : List (Transition (Stack.StateOf layers))}
    (hidle : Stack.IsIdle layers w₀.state) (hzero : counts w₀.state = {})
    (htrace : Trace (Stack.cacheOf id layers) w₀ calls w) :
    ∃ seen, Tally calls seen (counts w.state) := by
  induction htrace with
  | start =>
    rw [hzero]
    exact ⟨0, rfl, rfl, le_rfl, rfl⟩
  | @call calls w w' e c event htrace he ho ih =>
    obtain ⟨seen, ht⟩ := ih
    have hw : Stack.IsIdle layers w.state := hrests.run hidle htrace.run
    obtain ⟨more, hnext⟩ := h.tally_next (w := ⟨e, w.state⟩) hw ho ht
    exact ⟨_, hnext⟩

/-- Statistics made of numbers that did not overflow. -/
theorem Tally.stats {calls : List (Transition (Stack.StateOf layers))} {seen : Nat}
    {n : ReadCounts} (h : Tally calls seen n)
    (hfew : calls.countP (·.event.isRead) < 2 ^ 64) :
    n.stats.hits.toNat = calls.countP (·.event.givesValue) ∧
      n.stats.hits.toNat + n.stats.misses.toNat = seen := by
  have hle := h.le
  have hsum := h.sum
  have hseen : n.requests.toNat = seen := by
    rw [h.requests, UInt64.toNat_ofNat_of_lt']
    show seen < 2 ^ 64
    omega
  have hgiven : n.hits.toNat = calls.countP (·.event.givesValue) := by
    rw [h.hits, UInt64.toNat_ofNat_of_lt']
    show _ < 2 ^ 64
    omega
  have hmin : min n.hits n.requests = n.hits := by
    refine if_pos (UInt64.le_iff_toNat_le.2 ?_)
    rw [hseen, hgiven]
    exact hle
  have hmisses : (n.requests - n.hits).toNat = n.requests.toNat - n.hits.toNat := by
    refine UInt64.toNat_sub_of_le _ _ (UInt64.le_iff_toNat_le.2 ?_)
    rw [hseen, hgiven]
    exact hle
  unfold ReadCounts.stats
  rw [hmin]
  refine ⟨hgiven, ?_⟩
  show n.hits.toNat + (n.requests - n.hits).toNat = seen
  omega

end CountsReads

namespace CacheBuilder

variable {b : CacheBuilder} {s : Stack}

/-- The statistics of a built cache.  There are fewer than 2⁶⁴ reads; the hits are those that
gave a value, and hits and misses together are all but those that made a clear on schedule and
those that came too late for the lock of their key.  No other call changes the statistics. -/
theorem stats_count_reads (himpl : b.implementation = none) (hdec : b.decorators = [])
    (hb : b.build = .ok s) {env₀ : Environment} {calls : List (Transition s.State)}
    {w : World s.State} (htrace : Trace s.cache ⟨env₀, s.initial env₀.now⟩ calls w)
    (hfew : calls.countP (·.event.isRead) < 2 ^ 64) :
    (∃ n, s.cache.stats w.state = some n ∧
      n.hits.toNat = calls.countP (·.event.givesValue) ∧
      n.hits.toNat + n.misses.toNat + calls.countP (·.clears) +
        calls.countP (·.event.isLate) = calls.countP (·.event.isRead)) ∧
    ∀ (event : Event) (e : Environment) (c : Caller) (w' : World s.State),
      event.isRead = false → event.Occurs s.cache c ⟨e, w.state⟩ w' →
        s.cache.stats w'.state = s.cache.stats w.state := by
  obtain rfl := eq_of_build himpl hdec hb
  obtain ⟨counts, hcounts, hzero⟩ := b.countsFromZero_layers
  have hidle := Stack.isIdle_initialOf (b.outerLayers ++ [b.evictionLayer]) env₀.now
  obtain ⟨seen, ht⟩ := hcounts.tally_trace b.rests_layers hidle (hzero env₀.now) htrace
  obtain ⟨hhits, hall⟩ := ht.stats hfew
  refine ⟨⟨_, hcounts.stats w.state, hhits, ?_⟩, ?_⟩
  · rw [hall]
    exact ht.sum
  · intro event e c w' hread ho
    have hw : Stack.IsIdle _ w.state := b.rests_layers.run hidle htrace.run
    have hsame : counts w'.state = counts w.state :=
      hcounts.of_not_read (w := ⟨e, w.state⟩) hw hread ho
    have hafter := hcounts.stats w'.state
    rw [hsame] at hafter
    exact hafter.trans (hcounts.stats w.state).symm

/-- The world after a read that gave the value. -/
def servedWorld : World oneSecondStack.State :=
  (oneSecondStack.cache.get .null ⟨"main", []⟩ storedWorld).world

/-- The world after one more read, two seconds later. -/
def expiredWorld : World oneSecondStack.State :=
  (oneSecondStack.cache.get .null ⟨"main", []⟩
    ⟨{ now := 2000000000, nextAlloc := 4 }, servedWorld.state⟩).world

/-- A put and both reads. -/
def servedAndExpired : List (Transition oneSecondStack.State) :=
  [⟨.put .null (some (.data 0 (.bool true) true)) (.ok ()), newWorld.state, storedWorld.state⟩,
    ⟨.get .null (.ok (some (.data 3 (.bool true) true))), storedWorld.state, servedWorld.state⟩,
    ⟨.get .null (.ok none), servedWorld.state, expiredWorld.state⟩]

theorem trace_servedAndExpired :
    Trace oneSecondStack.cache newWorld servedAndExpired expiredWorld := by
  have hput : oneSecondStack.cache.put .null (some (.data 0 (.bool true) true)) ⟨"main", []⟩
      newWorld = .done (.ok ()) storedWorld := by rfl
  have hget : oneSecondStack.cache.get .null ⟨"main", []⟩ storedWorld =
      .done (.ok (some (.data 3 (.bool true) true))) servedWorld := by rfl
  have hclear : oneSecondStack.cache.get .null ⟨"main", []⟩
      ⟨{ now := 2000000000, nextAlloc := 4 }, servedWorld.state⟩ =
        .done (.ok none) expiredWorld := by rfl
  have hstored : Trace oneSecondStack.cache newWorld (servedAndExpired.take 1) storedWorld :=
    Trace.start.call (.refl _) (c := ⟨"main", []⟩) (Outcome.settles_of_eq hput)
  have hserved : Trace oneSecondStack.cache newWorld (servedAndExpired.take 2) servedWorld :=
    hstored.call (.refl _) (c := ⟨"main", []⟩) (Outcome.settles_of_eq hget)
  have hbefore : servedWorld.env.Before { now := 2000000000, nextAlloc := 4 } :=
    ⟨by decide, by decide⟩
  exact hserved.call hbefore (c := ⟨"main", []⟩) (Outcome.settles_of_eq hclear)

/-- One hit and no miss: the second read made a clear. -/
theorem stats_count_reads_oneSecond :
    servedAndExpired.countP (·.event.isRead) = 2 ∧ servedAndExpired.countP (·.clears) = 1 ∧
      ∃ n, oneSecondStack.cache.stats expiredWorld.state = some n ∧ n.hits.toNat = 1 ∧
        n.hits.toNat + n.misses.toNat + 1 + 0 = 2 := by
  have hbuild : oneSecond.build = .ok oneSecondStack := by rfl
  have hreads : servedAndExpired.countP (·.event.isRead) = 2 := by rfl
  obtain ⟨⟨n, hn, hhits, hsum⟩, -⟩ :=
    stats_count_reads (b := oneSecond) rfl rfl hbuild trace_servedAndExpired (by rw [hreads]; decide)
  exact ⟨hreads, by rfl, n, hn, hhits, hsum⟩

end CacheBuilder

end QueryCache
