import Mathlib
import QueryCache.Proofs.Layer.Prompt
import QueryCache.Proofs.Layer.Refusal
import QueryCache.Proofs.Layer.Schedule

/-!
# What a refused put leaves

A put that a cache of copies refuses is stopped by the layer of copies, above the evicting
layer and the store.  On its way there it makes a clear that is due, and on its way back it
gives up the lock of its key; nothing else changes.

1. the state of a stack
2. states between calls
3. what a clear, a release and a refused put do
4. layers
5. built caches
-/

namespace QueryCache

variable {ε σ lam α : Type}

/-! ## The state of a stack -/

namespace Stack

/-- No call is inside a gate. -/
def IsIdle : (layers : List Layer) → StateOf layers → Prop
  | [], _ => True
  | .synchronized :: rest, ((gate : Gate), s) => gate.isTaken = false ∧ IsIdle rest s
  | .scheduled _ :: rest, ((last : LastClear), s) => last.gate.isTaken = false ∧ IsIdle rest s
  | _ :: rest, (_, s) => IsIdle rest s

/-- The state after a clear: no entry, no order of use, no handle and no hard link.  Counters,
generations and locks stay. -/
def cleared (now : Nat) : (layers : List Layer) → StateOf layers → StateOf layers
  | [], _ => (Entries.empty : Store)
  | .fifo _ :: rest, ((order : Fifo), s) => ({ order with queue := [] }, cleared now rest s)
  | .lru _ :: rest, ((order : Recency), s) => ({ order with keys := [] }, cleared now rest s)
  | .reference .. :: rest, ((refs : References), s) => (refs.reset, cleared now rest s)
  | .scheduled _ :: rest, ((last : LastClear), s) => (last.note now, cleared now rest s)
  | _ :: rest, (l, s) => (l, cleared now rest s)

/-- A clear is due. -/
def isClearDue (now : Nat) : (layers : List Layer) → StateOf layers → Bool
  | [], _ => false
  | .scheduled interval :: _, ((last : LastClear), _) => Scheduled.isDue interval now last
  | _ :: rest, (_, s) => isClearDue now rest s

/-- The state after a clear that is due. -/
def clearedWhenDue (now : Nat) (layers : List Layer) (s : StateOf layers) : StateOf layers :=
  if isClearDue now layers s then cleared now layers s else s

/-- The state after a thread gave the lock of a key back, if it had it. -/
def unlocked (k : CacheKey) (t : Thread) : (layers : List Layer) → StateOf layers → StateOf layers
  | [], s => s
  | .blocking _ :: rest, ((locks : KeyLocks), s) => (locks.release k t, unlocked k t rest s)
  | _ :: rest, (l, s) => (l, unlocked k t rest s)

/-- The state after a put that was refused. -/
def refused (now : Nat) (k : CacheKey) (t : Thread) (layers : List Layer) (s : StateOf layers) :
    StateOf layers :=
  unlocked k t layers (clearedWhenDue now layers s)

/-- There is a schedule, so calls read the clock. -/
def isTimed (layers : List Layer) : Bool := layers.any fun
  | .scheduled _ => true
  | _ => false

/-- The environment after a call under the schedule, if there is one. -/
def elapsed (layers : List Layer) (e : Environment) : Environment :=
  if isTimed layers then { e with now := e.now + Environment.readingTime } else e

end Stack

/-! ## States between calls -/

/-- Every call leaves the cache idle if it finds it idle, however it ends. -/
structure Rests (d : Cache σ) (idle : σ → Prop) : Prop where
  put : ∀ k x, (d.put k x).Keeps idle
  get : ∀ k, (d.get k).Keeps idle
  remove : ∀ k, (d.remove k).Keeps idle
  clear : d.clear.Keeps idle
  size : d.size.Keeps idle
  releaseLock : ∀ k, (d.releaseLock k).Keeps idle

/-- A call on the part below leaves the layer as it is. -/
theorem Await.Keeps.beside {inv : σ → Prop} {m : Await ε σ α} (held : lam → List Value)
    (own : lam → Prop) (h : m.Keeps inv) :
    ((Focus.second held).await m).Keeps fun s => own s.1 ∧ inv s.2 :=
  Await.Hoare.focus (Focus.lawfulAt_second held) (fun _ _ hs => hs) h

/-- To wait for a condition changes nothing. -/
theorem Await.Keeps.waitFor {inv : σ → Prop} (ready : σ → Bool) :
    (Await.waitFor ready : Await ε σ Unit).Keeps inv :=
  fun _ _ hw => .waitFor fun _ _ => hw

/-- What holds of every state is kept by every call. -/
theorem Await.Keeps.of_forall {inv : σ → Prop} (h : ∀ s, inv s) (m : Await ε σ α) :
    m.Keeps inv := by
  intro t w _ c _
  generalize m c w = o
  induction o with
  | done r w => exact h w.state
  | waiting w wait resume ih => exact fun c' e _ _ _ => ih c' ⟨e, w.state⟩

namespace Rests

variable {d : Cache σ} {idle : σ → Prop}

/-- A cache without gates is always idle. -/
theorem of_forall (h : ∀ s, idle s) (d : Cache σ) : Rests d idle where
  put _ _ := .of_forall h _
  get _ := .of_forall h _
  remove _ := .of_forall h _
  clear := .of_forall h _
  size := .of_forall h _
  releaseLock _ _ _ _ _ _ := h _

/-- The cache below a layer that is left as it is. -/
theorem beside (h : Rests d idle) (held : lam → List Value) (own : lam → Prop) :
    Rests (d.under held) fun s => own s.1 ∧ idle s.2 where
  put k x := (h.put k x).beside held own
  get k := (h.get k).beside held own
  remove k := (h.remove k).beside held own
  clear := h.clear.beside held own
  size := h.size.beside held own
  releaseLock k := Op.Hoare.second (h.releaseLock k)

/-- The cache below a layer of which nothing is asked. -/
theorem below (h : Rests d idle) (held : lam → List Value) :
    Rests (d.under held) fun s => idle s.2 where
  put k x := (h.put k x).below held
  get k := (h.get k).below held
  remove k := (h.remove k).below held
  clear := h.clear.below held
  size := h.size.below held
  releaseLock k := (h.releaseLock k).below held

/-- A cache that was idle at the start is idle between any two calls. -/
theorem run (h : Rests d idle) {w₀ w : World σ} {events : List Event} (h₀ : idle w₀.state)
    (hrun : Run d w₀ events w) : idle w.state := by
  induction hrun with
  | start => exact h₀
  | @call events w w' e c event hrun he ho ih =>
    cases event with
    | put k x r => exact (h.put k x).settles ho ih
    | get k r => exact (h.get k).settles ho ih
    | remove k r => exact (h.remove k).settles ho ih
    | clear r => exact h.clear.settles ho ih
    | size r => exact h.size.settles ho ih
    | releaseLock k r => exact (h.releaseLock k).ends ho ih

end Rests

/-- A call that has passed a gate leaves it open. -/
theorem Gate.pass_keeps {inv : σ → Prop} {gate : lam → Gate} {set : Gate → lam → lam}
    (hset : ∀ g l, gate (set g l) = g) (values : List Value) {m : Await ε (lam × σ) α}
    (hm : m.Keeps fun s => inv s.2) :
    (pass gate set values m).Hoare (fun s => inv s.2)
      fun _ s => (gate s.1).isTaken = false ∧ inv s.2 := by
  have hwait : ((Await.waitFor fun s : lam × σ => !(gate s.1).isTaken).holding values :
      Await ε (lam × σ) Unit).Hoare (fun s => inv s.2) fun r s => r = .ok () ∧ inv s.2 :=
    fun _ _ hw => .holding (.waitFor fun _ _ => ⟨rfl, hw⟩)
  have henter : (Await.ofOp (Op.modifyLayer (set ⟨true⟩)) : Await ε (lam × σ) Unit).Hoare
      (fun s => inv s.2) fun r s => r = .ok () ∧ inv s.2 :=
    .ofOp (.modifyLayer fun _ hs => ⟨rfl, hs⟩)
  have hleave : (Await.ofOp (Op.modifyLayer (set ⟨false⟩)) : Await ε (lam × σ) Unit).Hoare
      (fun s => inv s.2) fun r s => r = .ok () ∧ (gate s.1).isTaken = false ∧ inv s.2 :=
    .ofOp (.modifyLayer fun _ hs => ⟨rfl, congrArg Gate.isTaken (hset _ _), hs⟩)
  -- Nothing is said of the gate while the call runs: it is open again when the call leaves it.
  refine hwait.bind_ok (henter.bind_ok (Await.Hoare.bind_result hm fun r => ?_))
  exact hleave.bind_ok (.ofOp (.ofExcept fun _ hs => hs))

section Layers

variable {d : Cache σ} {idle : σ → Prop}

theorem Gate.rests (h : Rests d idle) :
    Rests (Gate.around d) fun s => s.1.isTaken = false ∧ idle s.2 := by
  have halone : ∀ {α : Type} {values : List Value} {m : CacheCall σ α}, m.Keeps idle →
      (alone values ((Focus.second fun _ : Gate => []).await m)).Keeps
        fun s => s.1.isTaken = false ∧ idle s.2 := by
    intro α values m hm
    have hpass : (pass id (fun g _ => g) values ((Focus.second fun _ : Gate => []).await m)).Hoare
        (fun s => idle s.2) fun _ s => (id s.1).isTaken = false ∧ idle s.2 :=
      pass_keeps (fun _ _ => rfl) values (hm.below _)
    exact hpass.mono (fun _ hs => hs.2) fun _ _ hs => hs
  exact {
    put := fun k x => halone (h.put k x)
    get := fun k => halone (h.get k)
    remove := fun k => halone (h.remove k)
    clear := halone h.clear
    size := halone h.size
    releaseLock := (h.beside (fun _ => []) fun g : Gate => g.isTaken = false).releaseLock }

theorem Scheduled.rests (h : Rests d idle) (interval : Duration) :
    Rests (Scheduled.around interval d) fun s => s.1.gate.isTaken = false ∧ idle s.2 := by
  have hbelow : Rests (below d) fun s => s.1.gate.isTaken = false ∧ idle s.2 :=
    h.beside (fun _ => []) fun last : LastClear => last.gate.isTaken = false
  have hclear : (below d).clear.Keeps fun s => idle s.2 := h.clear.below _
  have hpass : ∀ {α : Type} {m : CacheCall (LastClear × σ) α}, (m.Keeps fun s => idle s.2) →
      (Gate.pass LastClear.gate LastClear.setGate [] m).Keeps
        fun s => s.1.gate.isTaken = false ∧ idle s.2 := fun hm =>
    (Gate.pass_keeps (fun _ _ => rfl) [] hm).mono (fun _ hs => hs.2) fun _ _ hs => hs
  have hdue : ∀ values, (clearWhenDue interval d values).Keeps
      fun s => s.1.gate.isTaken = false ∧ idle s.2 := by
    intro values
    refine .holding (hpass (.bind (.ofLayer fun _ _ => rfl) fun now => ?_))
    refine .bind (.ofLayer fun _ _ => rfl) fun last => ?_
    split
    · exact .bind (.ofLayer fun _ _ => rfl) fun _ => .bind hclear fun _ => .pure
    · exact .pure
  exact {
    put := fun k x => .bind (hdue _) fun _ => hbelow.put k x
    get := fun k => .bind (hdue _) fun cleared => by
      cases cleared with
      | true => exact .pure
      | false => exact hbelow.get k
    remove := fun k => .bind (hdue _) fun _ => hbelow.remove k
    clear := .bind (.ofStill fun _ _ => rfl) fun now =>
      .bind (hpass (.ofLayer fun _ _ => rfl)) fun _ => hbelow.clear
    size := .bind (hdue _) fun _ => hbelow.size
    releaseLock := hbelow.releaseLock }

theorem Blocking.rests (h : Rests d idle) (timeout : Option Duration) :
    Rests (Blocking.around timeout d) fun s => idle s.2 := by
  have hbelow : Rests (below d) fun s => idle s.2 := h.below _
  have hacquire : ∀ k, (acquire timeout d.id k : CacheCall (KeyLocks × σ) Unit).Keeps
      fun s => idle s.2 := by
    intro k t w hw c _
    -- Taken, waited for or given up, a lock is no part of the state below.
    unfold acquire
    split
    · exact hw
    · intro c' e _ _ _
      dsimp only
      split
      · exact hw
      · exact hw
  exact {
    put := fun k x => .bind (.result (hbelow.put k x)) fun r =>
      .bind (.ofLayer fun _ _ => rfl) fun _ => .ofStill fun _ _ => rfl
    get := fun k => .bind (hacquire k) fun _ => .bind (.result (hbelow.get k)) fun r => by
      match r with
      | .ok none => exact .pure
      | .ok (some v) => exact .bind (.ofLayer fun _ _ => rfl) fun _ => .pure
      | .error e => exact .bind (.ofLayer fun _ _ => rfl) fun _ => .ofStill fun _ _ => rfl
    remove := fun k => .bind (.ofLayer fun _ _ => rfl) fun _ => .pure
    clear := hbelow.clear
    size := hbelow.size
    releaseLock := fun k =>
      Op.Keeps.bind (.ofLayer fun _ _ => rfl) fun _ => hbelow.releaseLock k }

end Layers

/-! ## What a clear, a release and a refused put do -/

/-- A call inside a gate that is a layer of its own. -/
theorem Gate.alone_run {values : List Value} {m : CacheCall (Gate × σ) α} {c : Caller}
    {e e' : Environment} {gate : Gate} {y y' : σ} {r : Except CacheError α}
    (h : m c ⟨e, (⟨true⟩, y)⟩ = .done r ⟨e', (gate, y')⟩) :
    alone values m c ⟨e, ({}, y)⟩ = .done r ⟨e', ({}, y')⟩ := by
  have hpass : pass id (fun g _ => g) values m c ⟨e, ((⟨false⟩ : Gate), y)⟩ =
      .done r ⟨e', (⟨false⟩, y')⟩ :=
    pass_run (w := ⟨e, ((⟨false⟩ : Gate), y)⟩) (x := ⟨e', (gate, y')⟩) rfl h
  exact hpass

namespace Stack

/-- What the layers do at once, in a state between calls: clear, give a lock back, and refuse
a value of which they cannot keep a copy. -/
structure Refuses (id : String) (copies : Bool) (layers : List Layer) : Prop where
  clear : ∀ c w, IsIdle layers w.state → (cacheOf id layers).clear c w =
    .done (.ok ()) ⟨elapsed layers w.env, cleared w.env.now layers w.state⟩
  releaseLock : ∀ k c w, (cacheOf id layers).releaseLock k c w =
    (.ok (), ⟨w.env, unlocked k c.thread layers w.state⟩)
  put : copies = true → ∀ {v cause}, v.toSnapshot = .error cause → ∀ k c w,
    IsIdle layers w.state → (cacheOf id layers).put k (some v) c w =
      .done (.error (Serialized.mapError id cause))
        ⟨elapsed layers w.env, refused w.env.now k c.thread layers w.state⟩

/-! ### States of layers without a schedule -/

variable {id : String} {copies : Bool} {layers : List Layer}

theorem isTimed_tail {l : Layer} (h : isTimed (l :: layers) = false) : isTimed layers = false := by
  rw [isTimed, List.any_cons, Bool.or_eq_false_iff] at h
  exact h.2

/-- Without a schedule no clear is ever due. -/
theorem isClearDue_of_untimed (h : isTimed layers = false) (now : Nat) (s : StateOf layers) :
    isClearDue now layers s = false := by
  induction layers with
  | nil => rfl
  | cons l rest ih =>
    have hrest := isTimed_tail h
    cases l with
    | scheduled interval => cases h
    | _ => exact ih hrest s.2

/-- A clear leaves every gate as it is. -/
theorem IsIdle.cleared {now : Nat} {s : StateOf layers} (h : IsIdle layers s) :
    IsIdle layers (cleared now layers s) := by
  induction layers with
  | nil => trivial
  | cons l rest ih =>
    cases l with
    | synchronized => exact ⟨h.1, ih h.2⟩
    | scheduled interval => exact ⟨h.1, ih h.2⟩
    | _ => exact ih (s := s.2) h

/-- Without a schedule no time is noted. -/
theorem cleared_of_untimed (h : isTimed layers = false) (now now' : Nat) (s : StateOf layers) :
    cleared now layers s = cleared now' layers s := by
  induction layers with
  | nil => rfl
  | cons l rest ih =>
    have hrest := isTimed_tail h
    cases l with
    | scheduled interval => cases h
    | _ => exact congrArg (Prod.mk _) (ih hrest s.2)

theorem clearedWhenDue_of_untimed (h : isTimed layers = false) (now : Nat) (s : StateOf layers) :
    clearedWhenDue now layers s = s := by
  rw [clearedWhenDue, isClearDue_of_untimed h]
  rfl

theorem elapsed_of_untimed (h : isTimed layers = false) (e : Environment) :
    elapsed layers e = e := by
  rw [elapsed, h]
  rfl

/-- A put that is refused below a layer with no part in a clear. -/
theorem refused_cons {l : Layer} {now : Nat} {k : CacheKey} {t : Thread} {x x' : l.State}
    {s : StateOf layers} (hdue : isClearDue now (l :: layers) (x, s) = isClearDue now layers s)
    (hclear : cleared now (l :: layers) (x, s) = (x, cleared now layers s))
    (hlock : ∀ s, unlocked k t (l :: layers) (x, s) = (x', unlocked k t layers s)) :
    refused now k t (l :: layers) (x, s) = (x', refused now k t layers s) := by
  unfold refused clearedWhenDue
  rw [hdue, hclear]
  cases isClearDue now layers s with
  | true => exact hlock _
  | false => exact hlock _

/-! ### Layers -/

/-- The evicting layer and the store refuse nothing. -/
theorem refuses_eviction (b : CacheBuilder) : Refuses b.id false [b.evictionLayer] := by
  unfold CacheBuilder.evictionLayer
  cases b.eviction with
  | lru => exact ⟨fun _ _ _ => rfl, fun _ _ _ => rfl, nofun⟩
  | fifo => exact ⟨fun _ _ _ => rfl, fun _ _ _ => rfl, nofun⟩
  | soft => exact ⟨fun _ _ _ => rfl, fun _ _ _ => rfl, nofun⟩
  | weak => exact ⟨fun _ _ _ => rfl, fun _ _ _ => rfl, nofun⟩

/-- The layer of copies makes no call below for a value of which it cannot make a copy. -/
theorem Refuses.serialized (h : Refuses id false layers) (hl : isTimed layers = false)
    (hlocks : ∀ k t s, unlocked k t layers s = s) : Refuses id true (.serialized :: layers) where
  clear c w hw := Focus.await_second (h.clear _ ⟨w.env, w.state.2⟩ hw)
  releaseLock k c w := Focus.run_second (h.releaseLock k _ ⟨w.env, w.state.2⟩)
  put _ v cause hv k c w _ := by
    obtain ⟨e, x, s⟩ := w
    have hsave : ∀ c', (Serialized.around (cacheOf id layers)).put k (some v) c' ⟨e, s⟩ =
        .done (.error (Serialized.mapError id cause)) ⟨e, s⟩ := by
      intro c'
      refine Await.bind_of_failed (Await.ofOp_of_eq ?_)
      rw [id_cacheOf]
      exact Serialized.save_of_error hv id c' ⟨e, s⟩
    have hsame : refused e.now k c.thread (.serialized :: layers) (x, s) = (x, s) := by
      have huntimed : isTimed (.serialized :: layers) = false := hl
      refine (congrArg (unlocked k c.thread _) (clearedWhenDue_of_untimed huntimed ..)).trans ?_
      exact congrArg (Prod.mk x) (hlocks k c.thread s)
    have helapsed : elapsed (.serialized :: layers) e = e := elapsed_of_untimed hl e
    rw [hsame, helapsed]
    exact Focus.await_second (hsave _)

theorem Refuses.statistics (h : Refuses id copies layers) :
    Refuses id copies (.statistics :: layers) where
  clear c w hw := Focus.await_second (h.clear _ ⟨w.env, w.state.2⟩ hw)
  releaseLock k c w := Focus.run_second (h.releaseLock k _ ⟨w.env, w.state.2⟩)
  put hcopies v cause hv k c w hw := by
    obtain ⟨e, x, s⟩ := w
    have hstate : refused e.now k c.thread (.statistics :: layers) (x, s) =
        (x, refused e.now k c.thread layers s) := refused_cons rfl rfl fun _ => rfl
    rw [hstate]
    exact Focus.await_second (h.put hcopies hv k _ ⟨e, s⟩ hw)

/-- A call passes the open gate, and leaves it open. -/
theorem Refuses.synchronized (h : Refuses id copies layers) :
    Refuses id copies (.synchronized :: layers) where
  clear c w hw := by
    obtain ⟨e, ⟨taken⟩, s⟩ := w
    obtain ⟨rfl, hs⟩ := hw
    have hbelow : (Gate.below (cacheOf id layers)).clear c ⟨e, (⟨true⟩, s)⟩ =
        .done (.ok ()) ⟨elapsed layers e, (⟨true⟩, cleared e.now layers s)⟩ :=
      Focus.await_second (h.clear _ ⟨e, s⟩ hs)
    exact Gate.alone_run hbelow
  releaseLock k c w := Focus.run_second (h.releaseLock k _ ⟨w.env, w.state.2⟩)
  put hcopies v cause hv k c w hw := by
    obtain ⟨e, ⟨taken⟩, s⟩ := w
    obtain ⟨rfl, hs⟩ := hw
    have hbelow : (Gate.below (cacheOf id layers)).put k (some v) c ⟨e, (⟨true⟩, s)⟩ =
        .done (.error (Serialized.mapError id cause))
          ⟨elapsed layers e, (⟨true⟩, refused e.now k c.thread layers s)⟩ :=
      Focus.await_second (h.put hcopies hv k _ ⟨e, s⟩ hs)
    have hstate : refused e.now k c.thread (.synchronized :: layers) (({} : Gate), s) =
        (({} : Gate), refused e.now k c.thread layers s) := refused_cons rfl rfl fun _ => rfl
    rw [hstate]
    exact Gate.alone_run hbelow

/-- A put looks at the clock, and makes a clear that is due. -/
theorem Refuses.scheduled (h : Refuses id copies layers) (hl : isTimed layers = false)
    (interval : Duration) : Refuses id copies (.scheduled interval :: layers) where
  clear c w hw := by
    obtain ⟨e, ⟨time, ⟨taken⟩⟩, s⟩ := w
    obtain ⟨rfl, hs⟩ := hw
    refine (Await.bind_of_done rfl).trans ?_
    refine (Await.bind_of_done (Gate.pass_run rfl rfl)).trans ?_
    refine (Focus.await_second (h.clear _ ⟨_, s⟩ hs)).trans ?_
    rw [elapsed_of_untimed hl, cleared_of_untimed hl _ e.now]
    rfl
  releaseLock k c w := Focus.run_second (h.releaseLock k _ ⟨w.env, w.state.2⟩)
  put hcopies v cause hv k c w hw := by
    obtain ⟨e, ⟨time, ⟨taken⟩⟩, s⟩ := w
    obtain ⟨rfl, hs⟩ := hw
    have hclear : ∀ c' e', (cacheOf id layers).clear c' ⟨e', s⟩ =
        .done (.ok ()) ⟨e', cleared e.now layers s⟩ := by
      intro c' e'
      rw [h.clear c' ⟨e', s⟩ hs, elapsed_of_untimed hl, cleared_of_untimed hl _ e.now]
    refine (Await.bind_of_done (Scheduled.clearWhenDue_ends hclear interval _ c e time)).trans ?_
    -- The layer below knows no schedule, so it finds no clear due and does not look at the clock.
    have hput : ∀ e' last s', IsIdle layers s' →
        (Scheduled.below (cacheOf id layers)).put k (some v) c ⟨e', (last, s')⟩ =
          .done (.error (Serialized.mapError id cause))
            ⟨e', (last, unlocked k c.thread layers s')⟩ := by
      intro e' last s' hs'
      refine (Focus.await_second (h.put hcopies hv k _ ⟨e', s'⟩ hs')).trans ?_
      rw [refused, elapsed_of_untimed hl, clearedWhenDue_of_untimed hl]
      rfl
    have hstate : refused e.now k c.thread (.scheduled interval :: layers)
        (({ time } : LastClear), s) = if Scheduled.isDue interval e.now { time } then
          (({ time := e.now } : LastClear), unlocked k c.thread layers (cleared e.now layers s))
        else (({ time } : LastClear), unlocked k c.thread layers s) := by
      unfold refused clearedWhenDue
      show unlocked k c.thread (.scheduled interval :: layers)
        (if Scheduled.isDue interval e.now { time } then _ else _) = _
      cases Scheduled.isDue interval e.now { time } <;> rfl
    rw [hstate]
    split
    · exact hput _ _ _ hs.cleared
    · exact hput _ _ _ hs

/-- The lock of the key is given back, whether or not the put was refused. -/
theorem Refuses.blocking (h : Refuses id copies layers) (timeout : Option Duration) :
    Refuses id copies (.blocking timeout :: layers) where
  clear c w hw := Focus.await_second (h.clear _ ⟨w.env, w.state.2⟩ hw)
  releaseLock k c w := Op.bind_of_ok rfl |>.trans
    (Focus.run_second (h.releaseLock k _ ⟨w.env, w.state.2⟩))
  put hcopies v cause hv k c w hw := by
    obtain ⟨e, locks, s⟩ := w
    have hbelow : (Blocking.below (cacheOf id layers)).put k (some v) c ⟨e, (locks, s)⟩ =
        .done (.error (Serialized.mapError id cause))
          ⟨elapsed layers e, (locks, refused e.now k c.thread layers s)⟩ :=
      Focus.await_second (h.put hcopies hv k _ ⟨e, s⟩ hw)
    have hstate : refused e.now k c.thread (.blocking timeout :: layers) (locks, s) =
        (KeyLocks.release locks k c.thread, refused e.now k c.thread layers s) :=
      refused_cons rfl rfl fun _ => rfl
    rw [hstate]
    exact Await.bind_of_done (Await.result_of_done hbelow)

end Stack

/-! ## Built caches -/

/-- No snapshot can be made: the value is not serializable, or its encoding fails. -/
def Value.IsUnsavable (v : Value) : Prop :=
  v.isSerializable = false ∨ ∃ a d reason, v = .data a d true ∧ d.encode = .error reason

theorem Value.isUnsavable_iff {v : Value} :
    v.IsUnsavable ↔ ∃ cause, v.toSnapshot = .error cause := by
  constructor
  · rintro (hv | ⟨a, d, reason, rfl, hd⟩)
    · cases v with
      | data a d serializable =>
        obtain rfl : serializable = false := hv
        exact ⟨_, rfl⟩
      | snapshot a s => exact ⟨_, rfl⟩
      | handle a target => exact ⟨_, rfl⟩
    · exact ⟨.encode d.type.name reason, by rw [toSnapshot, hd]⟩
  · rintro ⟨cause, hv⟩
    cases v with
    | data a d serializable =>
      cases serializable with
      | false => exact .inl rfl
      | true =>
        cases hd : d.encode with
        | ok text =>
          rw [toSnapshot, hd] at hv
          cases hv
        | error reason => exact .inr ⟨a, d, reason, rfl, hd⟩
    | snapshot a s => exact .inl rfl
    | handle a target => exact .inl rfl

namespace CacheBuilder

variable {b : CacheBuilder} {s : Stack}

/-- The gate and the layers behind it. -/
def gated (b : CacheBuilder) : List Layer :=
  .synchronized :: .statistics :: ((if b.readWrite then [.serialized] else []) ++ [b.evictionLayer])

/-- What holds of the gate and the layers behind it, and is kept by a schedule around them and
by locks, holds of all the layers of a builder. -/
theorem outer_induction (b : CacheBuilder) {P : List Layer → Prop} (gate : P b.gated)
    (scheduled : ∀ interval, P (.scheduled interval :: b.gated))
    (blocking : ∀ {layers} timeout, P layers → P (.blocking timeout :: layers)) :
    P (b.outerLayers ++ [b.evictionLayer]) := by
  have hlocks : ∀ layers, P layers →
      P ((if b.blocking then [.blocking b.blockingTimeout] else []) ++ layers) := by
    intro layers hlayers
    cases b.blocking with
    | true => exact blocking _ hlayers
    | false => exact hlayers
  unfold outerLayers
  simp only [List.append_assoc, List.cons_append, List.nil_append]
  refine hlocks _ ?_
  cases b.clearInterval with
  | some interval => exact scheduled interval
  | none => exact gate

theorem isTimed_gated (b : CacheBuilder) : Stack.isTimed b.gated = false := by
  unfold gated evictionLayer
  cases b.readWrite <;> cases b.eviction <;> rfl

theorem refuses_gated (b : CacheBuilder) : Stack.Refuses b.id b.readWrite b.gated := by
  unfold gated
  refine (Stack.Refuses.statistics ?_).synchronized
  have heviction := Stack.refuses_eviction b
  cases b.readWrite with
  | false => exact heviction
  | true =>
    refine heviction.serialized ?_ ?_
    · unfold evictionLayer
      cases b.eviction <;> rfl
    · unfold evictionLayer
      cases b.eviction <;> exact fun _ _ _ => rfl

theorem refuses_layers (b : CacheBuilder) :
    Stack.Refuses b.id b.readWrite (b.outerLayers ++ [b.evictionLayer]) :=
  b.outer_induction (P := Stack.Refuses b.id b.readWrite) b.refuses_gated
    (b.refuses_gated.scheduled b.isTimed_gated) fun timeout h => h.blocking timeout

/-- Behind the gate there is no other gate. -/
theorem rests_gated (b : CacheBuilder) :
    Rests (Stack.cacheOf b.id b.gated) (Stack.IsIdle b.gated) := by
  refine Gate.rests (.of_forall ?_ _)
  unfold evictionLayer
  cases b.readWrite <;> cases b.eviction <;> exact fun _ => trivial

/-- Between two calls of a built cache no call is inside a gate. -/
theorem rests_layers (b : CacheBuilder) :
    Rests (Stack.cacheOf b.id (b.outerLayers ++ [b.evictionLayer])) (Stack.IsIdle _) :=
  b.outer_induction (P := fun layers => Rests (Stack.cacheOf b.id layers) (Stack.IsIdle layers))
    b.rests_gated (Scheduled.rests b.rests_gated) fun timeout h => Blocking.rests h timeout

/-- Begun in an idle state, no call waits but a read of a blocking cache. -/
theorem restarting_layers (b : CacheBuilder) :
    Restarting (Stack.cacheOf b.id (b.outerLayers ++ [b.evictionLayer])) (Stack.IsIdle _) := by
  have hstore := Store.prompt b.id
  have heviction : Prompt (Stack.cacheOf b.id [b.evictionLayer]) (Stack.IsIdle _) := by
    unfold evictionLayer
    cases b.eviction with
    | lru => exact Lru.prompt hstore
    | fifo => exact Fifo.prompt hstore
    | soft => exact Reference.prompt hstore _
    | weak => exact Reference.prompt hstore _
  have hlayers : if !b.blocking
      then Prompt (Stack.cacheOf b.id (b.outerLayers ++ [b.evictionLayer])) (Stack.IsIdle _)
      else Restarting (Stack.cacheOf b.id (b.outerLayers ++ [b.evictionLayer])) (Stack.IsIdle _) :=
    b.layers_induction (P := fun _ removes layers =>
        if removes then Prompt (Stack.cacheOf b.id layers) (Stack.IsIdle layers)
        else Restarting (Stack.cacheOf b.id layers) (Stack.IsIdle layers))
      heviction (fun h => (Serialized.prompt h).under fun _ : Unit => []) ReadCounts.prompt
      Gate.prompt (fun interval h => Scheduled.prompt h interval)
      fun timeout h => Blocking.restarting h timeout
  split at hlayers
  · exact .of_prompt hlayers
  · exact hlayers

end CacheBuilder

namespace Stack

variable {id : String} {layers : List Layer} {now : Nat}

/-- New layers are idle. -/
theorem isIdle_initialOf (layers : List Layer) (now : Nat) :
    IsIdle layers (initialOf now layers) := by
  induction layers with
  | nil => trivial
  | cons l rest ih =>
    cases l with
    | synchronized => exact ⟨rfl, ih⟩
    | scheduled interval => exact ⟨rfl, ih⟩
    | _ => exact ih

/-- A clear forgets no read. -/
theorem stats_cleared (s : StateOf layers) :
    (cacheOf id layers).stats (cleared now layers s) = (cacheOf id layers).stats s := by
  induction layers with
  | nil => rfl
  | cons l rest ih =>
    cases l with
    | statistics => rfl
    | _ => exact ih s.2

theorem stats_unlocked (k : CacheKey) (t : Thread) (s : StateOf layers) :
    (cacheOf id layers).stats (unlocked k t layers s) = (cacheOf id layers).stats s := by
  induction layers with
  | nil => rfl
  | cons l rest ih =>
    cases l with
    | statistics => rfl
    | _ => exact ih s.2

theorem stats_refused (k : CacheKey) (t : Thread) (s : StateOf layers) :
    (cacheOf id layers).stats (refused now k t layers s) = (cacheOf id layers).stats s := by
  rw [refused, stats_unlocked, clearedWhenDue]
  split
  · exact stats_cleared s
  · rfl

theorem before_elapsed (layers : List Layer) (e : Environment) : e.Before (elapsed layers e) := by
  unfold elapsed
  split
  · exact ⟨Nat.le_add_right .., le_refl _⟩
  · exact .refl e

/-- The calls that leave what a refused put leaves: a clear if it is due, and a release. -/
def standIns (now : Nat) (k : CacheKey) (layers : List Layer) (s : StateOf layers) : List Event :=
  (if isClearDue now layers s then [.clear (.ok ())] else []) ++ [.releaseLock k (.ok ())]

/-- The calls in place of a refused put, made by the same caller. -/
theorem Refuses.run_standIns {copies : Bool} (h : Refuses id copies layers) {e₀ e : Environment}
    {s : StateOf layers} (he : e₀.Before e) (hs : IsIdle layers s) (k : CacheKey) (c : Caller) :
    Run (cacheOf id layers) ⟨e₀, s⟩ (standIns e.now k layers s)
      ⟨elapsed layers e, refused e.now k c.thread layers s⟩ := by
  have hafter := he.trans (before_elapsed layers e)
  have hrelease : ∀ s', (Event.releaseLock k (.ok ())).Occurs (cacheOf id layers) c
      ⟨elapsed layers e, s'⟩ ⟨elapsed layers e, unlocked k c.thread layers s'⟩ := fun s' =>
    h.releaseLock k c ⟨elapsed layers e, s'⟩
  unfold standIns refused clearedWhenDue
  split
  · have hclear : (Event.clear (.ok ())).Occurs (cacheOf id layers) c ⟨e, s⟩
        ⟨elapsed layers e, cleared e.now layers s⟩ :=
      Outcome.settles_of_eq (h.clear c ⟨e, s⟩ hs)
    exact (Run.start.call he hclear).call (.refl _) (hrelease _)
  · exact Run.start.call hafter (hrelease s)

end Stack

/-! ## A refused put -/

namespace CacheBuilder

variable {b : CacheBuilder} {s : Stack}

/-- Between any two calls, a put of a built cache ends at once.  It fails exactly if the cache
keeps copies and the value cannot be saved.  Then a clear that was due has been made, and the
caller does not have the lock of the key any more; apart from that the state is as it was,
whatever the policy: entries, order, handles, hard links, generation, counters and the locks of
others.  So the calls that come later do as if these two calls had been made instead. -/
theorem refused_put_leaves (himpl : b.implementation = none) (hdec : b.decorators = [])
    (hb : b.build = .ok s) {env₀ : Environment} {events : List Event} {w : World s.State}
    (hrun : Run s.cache ⟨env₀, s.initial env₀.now⟩ events w) {e : Environment}
    (he : w.env.Before e) (c : Caller) (k : CacheKey) (x : Option Value) :
    ∃ r w', s.cache.put k x c ⟨e, w.state⟩ = .done r w' ∧
      ((∃ cause, r = .error cause) ↔ b.readWrite = true ∧ ∃ v, x = some v ∧ v.IsUnsavable) ∧
      ∀ cause, r = .error cause → Uncopied b.readWrite s.id x cause ∧
        w' = ⟨Stack.elapsed s.layers e, Stack.refused e.now k c.thread s.layers w.state⟩ ∧
        s.cache.stats w'.state = s.cache.stats w.state ∧
        ∀ later w'', Run s.cache w' later w'' → Run s.cache ⟨env₀, s.initial env₀.now⟩
          (events ++ Stack.standIns e.now k s.layers w.state ++ later) w'' := by
  have hfails : (s.cache.put k x).FailsOnly (Uncopied b.readWrite s.id x) := by
    have h := (refuses_of_build himpl hdec hb).put k x
    rwa [show s.cache.id = s.id from Stack.id_cacheOf s.id s.layers] at h
  obtain rfl := eq_of_build himpl hdec hb
  have hlayers := b.refuses_layers
  -- No gate is taken between two calls, so there is nothing for the put to wait for.
  have hidle : Stack.IsIdle _ w.state := b.rests_layers.run (Stack.isIdle_initialOf _ _) hrun
  obtain ⟨r, w', hput, -⟩ := b.restarting_layers.put k x c ⟨e, w.state⟩ hidle
  have hr : FailsOnlyAs (Uncopied b.readWrite b.id x) r := by
    have hend := hfails c ⟨e, w.state⟩ trivial
    rw [Stack.cache, hput] at hend
    exact hend.2
  have hrefused : ∀ {v cause}, b.readWrite = true → x = some v → v.toSnapshot = .error cause →
      r = .error (Serialized.mapError b.id cause) ∧
        w' = ⟨Stack.elapsed (b.outerLayers ++ [b.evictionLayer]) e,
          Stack.refused e.now k c.thread _ w.state⟩ := by
    rintro v cause hcopies rfl hv
    have hend := hput.symm.trans (hlayers.put hcopies hv k c ⟨e, w.state⟩ hidle)
    exact ⟨(Outcome.done.inj hend).1, (Outcome.done.inj hend).2⟩
  refine ⟨r, w', hput, ⟨?_, ?_⟩, ?_⟩
  · rintro ⟨cause, hcause⟩
    obtain ⟨hcopies, v, error, hx, hv, -⟩ := hr cause hcause
    exact ⟨hcopies, v, hx, Value.isUnsavable_iff.2 ⟨error, hv⟩⟩
  · rintro ⟨hcopies, v, hx, hv⟩
    obtain ⟨error, hv⟩ := Value.isUnsavable_iff.1 hv
    exact ⟨_, (hrefused hcopies hx hv).1⟩
  · intro cause hcause
    obtain ⟨hcopies, v, error, hx, hv, -⟩ := hr cause hcause
    obtain ⟨-, rfl⟩ := hrefused hcopies hx hv
    refine ⟨hr cause hcause, rfl, Stack.stats_refused k c.thread w.state, ?_⟩
    intro later w'' hlater
    exact (hrun.append (hlayers.run_standIns he hidle k c)).append hlater

/-- A read-write cache for one entry, which is cleared every second, with locks. -/
def oneSecond : CacheBuilder :=
  { id := "users", size := some 1, clearInterval := some (.ofSeconds 1), blocking := true }

/-- The layers of that cache. -/
def oneSecondStack : Stack := ⟨"users",
  [.blocking none, .scheduled (.ofSeconds 1), .synchronized, .statistics, .serialized, .lru 1]⟩

/-- The world in which the cache is set up. -/
def newWorld : World oneSecondStack.State := ⟨{ nextAlloc := 2 }, oneSecondStack.initial 0⟩

/-- The world after a put. -/
def storedWorld : World oneSecondStack.State :=
  (oneSecondStack.cache.put .null (some (.data 0 (.bool true) true)) ⟨"main", []⟩ newWorld).world

/-- The world after a read of another key, which left the thread with its lock. -/
def missedWorld : World oneSecondStack.State :=
  (oneSecondStack.cache.get KeyBuilder.empty.build ⟨"main", []⟩ storedWorld).world

/-- Two seconds later the thread puts a value that is not serializable. -/
theorem refused_put_leaves_oneSecond : ∃ r w',
    oneSecondStack.cache.put KeyBuilder.empty.build (some (.data 1 (.bool true) false)) ⟨"main", []⟩
      ⟨{ now := 2000000000, nextAlloc := 3 }, missedWorld.state⟩ = .done r w' ∧
    (∃ cause, r = .error cause) ∧ w'.state =
      (.empty, { time := 2000000000 }, {}, { requests := 1 }, (), { capacity := 1 }, .empty) := by
  have hbuild : oneSecond.build = .ok oneSecondStack := by rfl
  have hput : oneSecondStack.cache.put .null (some (.data 0 (.bool true) true)) ⟨"main", []⟩
      newWorld = .done (.ok ()) storedWorld := by rfl
  have hget : oneSecondStack.cache.get KeyBuilder.empty.build ⟨"main", []⟩ storedWorld =
      .done (.ok none) missedWorld := by rfl
  have hfirst : Run oneSecondStack.cache newWorld
      [.put .null (some (.data 0 (.bool true) true)) (.ok ())] storedWorld :=
    Run.call Run.start (.refl _) (c := ⟨"main", []⟩) (Outcome.settles_of_eq hput)
  have hrun : Run oneSecondStack.cache newWorld
      ([.put .null (some (.data 0 (.bool true) true)) (.ok ())] ++
        [.get KeyBuilder.empty.build (.ok none)]) missedWorld :=
    hfirst.call (.refl _) (c := ⟨"main", []⟩) (Outcome.settles_of_eq hget)
  obtain ⟨r, w', hrefused, hfails, hleaves⟩ := refused_put_leaves (b := oneSecond) rfl rfl hbuild
    hrun (e := { now := 2000000000, nextAlloc := 3 }) ⟨by decide, by decide⟩ ⟨"main", []⟩
    KeyBuilder.empty.build (some (.data 1 (.bool true) false))
  have herror : ∃ cause, r = .error cause := hfails.2 ⟨rfl, _, rfl, .inl rfl⟩
  obtain ⟨cause, hcause⟩ := herror
  refine ⟨r, w', hrefused, ⟨cause, hcause⟩, ?_⟩
  rw [(hleaves cause hcause).2.1]
  rfl

end CacheBuilder

end QueryCache
