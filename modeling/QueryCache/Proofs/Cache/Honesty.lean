import Mathlib
import QueryCache.Proofs.Cache.Validation
import QueryCache.Proofs.Layer.Eviction
import QueryCache.Proofs.Layer.Outer
import QueryCache.Proofs.Layer.Reference

/-!
# A built cache never lies

Any number of threads make whole calls on a cache, one after the other.  What a
read of a built cache finds was put by the last put on its key that succeeded,
and nothing has taken it out since.

1. calls and runs
2. the ideal map after a run
3. built caches are faithful
4. reads of a built cache
-/

namespace QueryCache

/-! ## Calls and runs -/

/-- A whole call on a cache, with its result. -/
inductive Event where
  | put (key : CacheKey) (value : Option Value) (result : Except CacheError Unit)
  | get (key : CacheKey) (result : Except CacheError (Option Value))
  | remove (key : CacheKey) (result : Except CacheError (Option Value))
  | clear (result : Except CacheError Unit)
  | size (result : Except CacheError Nat)
  | releaseLock (key : CacheKey) (result : Except CacheError Unit)

namespace Event

variable {σ : Type}

/-- The call of a caller takes one world to another, with the stated result. -/
def Occurs (d : Cache σ) (c : Caller) (w w' : World σ) : Event → Prop
  | put k x r => (d.put k x c w).Settles c.thread r w'
  | get k r => (d.get k c w).Settles c.thread r w'
  | remove k r => (d.remove k c w).Settles c.thread r w'
  | clear r => (d.clear c w).Settles c.thread r w'
  | size r => (d.size c w).Settles c.thread r w'
  | releaseLock k r => d.releaseLock k c w = (r, w')

/-- The call decides what is stored under a key from then on: a put on it that
succeeds, a clear, or a removal, where removals take keys out. -/
def Overwrites (removes : Bool) (k : CacheKey) : Event → Prop
  | put k' _ (.ok _) => k' = k
  | clear _ => True
  | remove k' _ => removes = true ∧ k' = k
  | _ => False

/-- The ideal map after a call. -/
def apply (removes : Bool) (m : Ideal) : Event → Ideal
  | put k x r => m.afterPut k x r
  | clear _ => .empty
  | remove k _ => if removes then m.set k none else m
  | _ => m

end Event

/-- Whole calls of any callers, in order, that take a cache from one world to
another.  Between two calls time passes, and owners outside the cache take and
drop values. -/
inductive Run {σ : Type} (d : Cache σ) (w₀ : World σ) : List Event → World σ → Prop where
  | start : Run d w₀ [] w₀
  | call {events : List Event} {w w' : World σ} {e : Environment} {c : Caller} {event : Event}
      (h : Run d w₀ events w) (he : w.env.Before e) (ho : event.Occurs d c ⟨e, w.state⟩ w') :
      Run d w₀ (events ++ [event]) w'

/-- One run after the other. -/
theorem Run.append {σ : Type} {d : Cache σ} {w w₁ w₂ : World σ} {events more : List Event}
    (h : Run d w events w₁) (h' : Run d w₁ more w₂) : Run d w (events ++ more) w₂ := by
  induction h' with
  | start =>
    rw [List.append_nil]
    exact h
  | call _ he ho ih =>
    rw [← List.append_assoc]
    exact ih.call he ho

/-! ## The ideal map after a run -/

/-- The ideal map after calls on an empty cache. -/
def Ideal.after (removes : Bool) (events : List Event) : Ideal :=
  events.foldl (Event.apply removes) .empty

theorem Ideal.after_append (removes : Bool) (events : List Event) (event : Event) :
    Ideal.after removes (events ++ [event]) = event.apply removes (Ideal.after removes events) := by
  rw [after, List.foldl_append]
  rfl

/-- A call that does not overwrite a key leaves what is stored under it. -/
theorem Event.apply_of_not_overwrites {removes : Bool} {k : CacheKey} {event : Event}
    (h : ¬ event.Overwrites removes k) (m : Ideal) : event.apply removes m k = m k := by
  cases event with
  | put k' x r =>
    cases r with
    | ok _ =>
      have hne : k ≠ k' := fun heq => h heq.symm
      rw [apply, Ideal.afterPut, Ideal.set_apply, if_neg hne]
    | error e => rfl
  | clear r => exact absurd trivial h
  | remove k' r =>
    cases removes with
    | true =>
      have hne : k ≠ k' := fun heq => h ⟨rfl, heq.symm⟩
      rw [apply, if_pos rfl, Ideal.set_apply, if_neg hne]
    | false => rfl
  | get k' r => rfl
  | size r => rfl
  | releaseLock k' r => rfl

/-- A call that overwrites a key and leaves a value there is the put of that value. -/
theorem Event.eq_put_of_apply {removes : Bool} {k : CacheKey} {event : Event} {m : Ideal}
    {v : Value} (h : event.Overwrites removes k) (hv : event.apply removes m k = some v) :
    event = .put k (some v) (.ok ()) := by
  cases event with
  | put k' x r =>
    cases r with
    | ok _ =>
      obtain rfl : k' = k := h
      rw [apply, Ideal.afterPut, Ideal.set_apply, if_pos rfl] at hv
      rw [hv]
    | error e => exact absurd h id
  | clear r => cases hv
  | remove k' r =>
    rcases h with ⟨rfl, rfl⟩
    rw [apply, if_pos rfl, Ideal.set_apply, if_pos rfl] at hv
    cases hv
  | get k' r => exact absurd h id
  | size r => exact absurd h id
  | releaseLock k' r => exact absurd h id

/-- What the ideal map has was put, and nothing has overwritten it since. -/
theorem Ideal.exists_put_of_after {removes : Bool} {events : List Event} {k : CacheKey} {v : Value}
    (h : Ideal.after removes events k = some v) :
    ∃ before later, events = before ++ .put k (some v) (.ok ()) :: later ∧
      ∀ event ∈ later, ¬ event.Overwrites removes k := by
  -- The last call comes first: either it put the value, or it left the key alone.
  induction events using List.reverseRecOn with
  | nil => cases h
  | append_singleton events event ih =>
    rw [after_append] at h
    by_cases ho : event.Overwrites removes k
    · -- the put is the last call
      obtain rfl := Event.eq_put_of_apply ho h
      refine ⟨events, [], rfl, ?_⟩
      intro event hmem
      cases hmem
    · -- the put is an earlier one, and one more call leaves the key alone
      rw [Event.apply_of_not_overwrites ho] at h
      rcases ih h with ⟨before, later, rfl, hlater⟩
      refine ⟨before, later ++ [event], by simp, ?_⟩
      intro event' hmem
      rcases List.mem_append.1 hmem with hmem | hmem
      · exact hlater event' hmem
      · rw [List.mem_singleton.1 hmem]
        exact ho

section Faithful

variable {σ : Type} {d : Cache σ} {agrees : σ → Ideal → Prop} {copies removes : Bool}

/-- One call of a faithful cache is one step of the ideal map. -/
theorem Faithful.step (h : Faithful d agrees copies removes) {c : Caller} {w w' : World σ}
    {m : Ideal} {event : Event} (hm : agrees w.state m) (ho : event.Occurs d c w w') :
    agrees w'.state (event.apply removes m) := by
  cases event with
  | put k x r => exact ((h.put k x hm c rfl).settles ho).1.agrees
  | get k r => exact ((h.get k hm c rfl).settles ho).1.agrees
  | remove k r => exact ((h.remove k hm c rfl).settles ho).1.agrees
  | clear r => exact ((h.clear hm c rfl).settles ho).1.agrees
  | size r => exact ((h.size hm c rfl).settles ho).agrees
  | releaseLock k r =>
    -- Giving back a lock never waits, so its occurrence is an equation.
    have hl := (h.releaseLock k hm c rfl).agrees
    have ho' : d.releaseLock k c w = (r, w') := ho
    rw [ho'] at hl
    exact hl

/-- After a run a faithful cache agrees with the ideal map of the run. -/
theorem Faithful.run (h : Faithful d agrees copies removes) {w₀ w : World σ} {events : List Event}
    (h₀ : agrees w₀.state .empty) (hr : Run d w₀ events w) :
    agrees w.state (Ideal.after removes events) := by
  induction hr with
  | start => exact h₀
  | @call events w w' e c event hrun he ho ih =>
    rw [Ideal.after_append]
    exact h.step (w := ⟨e, w.state⟩) ih ho

end Faithful

/-! ## Built caches -/

namespace Stack

/-- The layers make a faithful cache, and set up around an empty store they
agree with the empty map. -/
def IsFaithful (id : String) (layers : List Layer) (copies removes : Bool) : Prop :=
  ∃ agrees, Faithful (cacheOf id layers) agrees copies removes ∧
    ∀ now, agrees (initialOf now layers) .empty

variable {id : String} {layers : List Layer} {copies removes : Bool}

theorem isFaithful_fifo (id : String) (capacity : Nat) :
    IsFaithful id [.fifo capacity] false true :=
  ⟨_, Fifo.faithful (Store.faithful id), fun _ => Store.agrees_empty _⟩

theorem isFaithful_lru (id : String) (capacity : Nat) :
    IsFaithful id [.lru capacity] false true :=
  ⟨_, Lru.faithful (Store.faithful id), fun _ => Store.agrees_empty _⟩

theorem isFaithful_reference (id : String) (r : Reachability) (hardLinks : Nat) :
    IsFaithful id [.reference r hardLinks] false true :=
  ⟨_, Reference.faithful (Store.faithful id) r,
    fun _ => ⟨.empty, Store.agrees_empty _, Reference.refers_empty _⟩⟩

theorem IsFaithful.serialized (h : IsFaithful id layers false true) :
    IsFaithful id (.serialized :: layers) true true := by
  rcases h with ⟨agrees, hf, h₀⟩
  exact ⟨_, (Serialized.faithful hf).under fun _ : Unit => [],
    fun now => ⟨.empty, h₀ now, Serialized.saves_empty _⟩⟩

theorem IsFaithful.statistics (h : IsFaithful id layers copies removes) :
    IsFaithful id (.statistics :: layers) copies removes := by
  rcases h with ⟨agrees, hf, h₀⟩
  exact ⟨_, ReadCounts.faithful hf, h₀⟩

theorem IsFaithful.synchronized (h : IsFaithful id layers copies removes) :
    IsFaithful id (.synchronized :: layers) copies removes := by
  rcases h with ⟨agrees, hf, h₀⟩
  exact ⟨_, Gate.faithful hf, h₀⟩

theorem IsFaithful.scheduled (h : IsFaithful id layers copies removes) (interval : Duration) :
    IsFaithful id (.scheduled interval :: layers) copies removes := by
  rcases h with ⟨agrees, hf, h₀⟩
  exact ⟨_, Scheduled.faithful hf interval, h₀⟩

theorem IsFaithful.blocking (h : IsFaithful id layers copies removes) (timeout : Option Duration) :
    IsFaithful id (.blocking timeout :: layers) copies false := by
  rcases h with ⟨agrees, hf, h₀⟩
  exact ⟨_, Blocking.faithful hf timeout, h₀⟩

end Stack

namespace CacheBuilder

variable {b : CacheBuilder} {s : Stack}

/-- Without custom parts a builder makes its own layers and nothing else. -/
theorem eq_of_build (himpl : b.implementation = none) (hdec : b.decorators = [])
    (hb : b.build = .ok s) : s = ⟨b.id, b.outerLayers ++ [b.evictionLayer]⟩ :=
  ((build_eq_ok_iff himpl hdec).1 hb).2

theorem isFaithful_evictionLayer (b : CacheBuilder) :
    Stack.IsFaithful b.id [b.evictionLayer] false true := by
  unfold evictionLayer
  cases b.eviction with
  | lru => exact Stack.isFaithful_lru ..
  | fifo => exact Stack.isFaithful_fifo ..
  | soft => exact Stack.isFaithful_reference ..
  | weak => exact Stack.isFaithful_reference ..

/-- What holds of the evicting layer of a builder, and is kept by each layer that may stand
around it, holds of all its layers.  `copies`: there is a layer of copies.  `removes`:
there is no layer of locks. -/
theorem layers_induction (b : CacheBuilder) {P : Bool → Bool → List Layer → Prop}
    (eviction : P false true [b.evictionLayer])
    (serialized : ∀ {layers}, P false true layers → P true true (.serialized :: layers))
    (statistics : ∀ {copies layers}, P copies true layers →
      P copies true (.statistics :: layers))
    (synchronized : ∀ {copies layers}, P copies true layers →
      P copies true (.synchronized :: layers))
    (scheduled : ∀ {copies layers} interval, P copies true layers →
      P copies true (.scheduled interval :: layers))
    (blocking : ∀ {copies layers} timeout, P copies true layers →
      P copies false (.blocking timeout :: layers)) :
    P b.readWrite (!b.blocking) (b.outerLayers ++ [b.evictionLayer]) := by
  -- From the inside out; each setting adds one layer, or none.
  have hcopies : P b.readWrite true
      ((if b.readWrite then [.serialized] else []) ++ [b.evictionLayer]) := by
    cases b.readWrite with
    | true => exact serialized eviction
    | false => exact eviction
  have hgate := synchronized (statistics hcopies)
  have hlocks : ∀ layers, P b.readWrite true layers → P b.readWrite (!b.blocking)
      ((if b.blocking then [.blocking b.blockingTimeout] else []) ++ layers) := by
    intro layers hlayers
    cases b.blocking with
    | true => exact blocking _ hlayers
    | false => exact hlayers
  unfold outerLayers
  simp only [List.append_assoc, List.cons_append, List.nil_append]
  refine hlocks _ ?_
  cases b.clearInterval with
  | some interval => exact scheduled interval hgate
  | none => exact hgate

theorem isFaithful_layers (b : CacheBuilder) :
    Stack.IsFaithful b.id (b.outerLayers ++ [b.evictionLayer]) b.readWrite (!b.blocking) :=
  b.layers_induction (P := fun copies removes layers => Stack.IsFaithful b.id layers copies removes)
    b.isFaithful_evictionLayer .serialized .statistics .synchronized (fun interval h =>
      h.scheduled interval) fun timeout h => h.blocking timeout

/-- A built cache is faithful. -/
theorem isFaithful_of_build (himpl : b.implementation = none) (hdec : b.decorators = [])
    (hb : b.build = .ok s) : Stack.IsFaithful s.id s.layers b.readWrite (!b.blocking) := by
  obtain rfl := eq_of_build himpl hdec hb
  exact b.isFaithful_layers

/-! ## Reads of a built cache -/

/-- A read of a built cache that finds a value gives what the last successful
put on its key stored: the value itself, or from a read-write cache a new
serializable value with the same data.  Since that put there was no clear, and
no removal of the key unless the cache is blocking. -/
theorem get_gives_last_put (himpl : b.implementation = none) (hdec : b.decorators = [])
    (hb : b.build = .ok s) {env₀ : Environment} {events : List Event} {w w' : World s.State}
    (hrun : Run s.cache ⟨env₀, s.initial env₀.now⟩ events w) {e : Environment}
    {c : Caller} {k : CacheKey} {v : Value}
    (hget : (Event.get k (.ok (some v))).Occurs s.cache c ⟨e, w.state⟩ w') :
    ∃ x before later, events = before ++ .put k (some x) (.ok ()) :: later ∧
      (∀ event ∈ later, ¬ event.Overwrites (!b.blocking) k) ∧
      Served b.readWrite e w'.env x v := by
  rcases isFaithful_of_build himpl hdec hb with ⟨agrees, hf, h₀⟩
  have hagrees : agrees w.state (Ideal.after (!b.blocking) events) := hf.run (h₀ _) hrun
  have hread := (hf.get (w := ⟨e, w.state⟩) k hagrees c rfl).settles hget
  rcases hread.2 v rfl with ⟨x, hx, hserved⟩
  rcases Ideal.exists_put_of_after hx with ⟨before, later, hevents, hlater⟩
  exact ⟨x, before, later, hevents, hlater, hserved⟩

/-! ## A cache for one entry -/

/-- A read-write cache for one entry. -/
def oneEntry : CacheBuilder := { id := "users", size := some 1 }

/-- The layers of a read-write cache for one entry. -/
def oneEntryStack : Stack := ⟨"users", [.synchronized, .statistics, .serialized, .lru 1]⟩

/-- The world in which the cache is set up; one value was allocated before. -/
def emptyWorld : World oneEntryStack.State := ⟨{ nextAlloc := 1 }, oneEntryStack.initial 0⟩

/-- The world after a put of that value. -/
def filledWorld : World oneEntryStack.State :=
  (oneEntryStack.cache.put .null (some (.data 0 (.bool true) true)) ⟨"main", []⟩ emptyWorld).world

/-- A put and a read in a cache for one entry: the reader gets a copy. -/
theorem get_gives_last_put_oneEntry :
    ∃ x before later,
      [Event.put .null (some (.data 0 (.bool true) true)) (.ok ())] =
        before ++ .put .null (some x) (.ok ()) :: later ∧
      (∀ event ∈ later, ¬ event.Overwrites true .null) ∧
      Served true { nextAlloc := 2 } { nextAlloc := 3 } x (.data 2 (.bool true) true) := by
  have hbuild : oneEntry.build = .ok oneEntryStack := by rfl
  have hput : oneEntryStack.cache.put .null (some (.data 0 (.bool true) true)) ⟨"main", []⟩
      emptyWorld = .done (.ok ()) filledWorld := by rfl
  have hget : oneEntryStack.cache.get .null ⟨"main", []⟩ filledWorld =
      .done (.ok (some (.data 2 (.bool true) true)))
        (oneEntryStack.cache.get .null ⟨"main", []⟩ filledWorld).world := by rfl
  have hrun : Run oneEntryStack.cache emptyWorld
      [Event.put .null (some (.data 0 (.bool true) true)) (.ok ())] filledWorld :=
    Run.call Run.start (.refl _) (c := ⟨"main", []⟩) (Outcome.settles_of_eq hput)
  exact get_gives_last_put (b := oneEntry) rfl rfl hbuild hrun (c := ⟨"main", []⟩)
    (Outcome.settles_of_eq hget)

end CacheBuilder

end QueryCache
