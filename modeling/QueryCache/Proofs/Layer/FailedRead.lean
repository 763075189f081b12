import Mathlib
import QueryCache.Proofs.Cache.Guarded
import QueryCache.Proofs.Cache.Honesty
import QueryCache.Proofs.Cache.Triple

/-!
# Reads that fail

A read of a built cache fails for one reason only: another thread has the lock of
the key, and does not give it back in time.  A stored handle can be followed, to
a value or to none, and a stored snapshot can be read back unless it is one of a
float.

1. what a failed read tells
2. the store and the evicting layers
3. the layers around them
4. built caches
-/

namespace QueryCache

/-! ## What a failed read tells -/

/-- The lock of the key did not come in time. -/
def CacheError.IsLate : CacheError → Prop
  | .lockTimeout .. => True
  | _ => False

/-- The same of an error that leaves a session. -/
def Error.IsLate : Error → Prop
  | .cache cause => cause.IsLate
  | _ => False

/-- If the value has a snapshot, that can be read back. -/
def Value.IsRestorable (v : Value) : Prop := ∀ s, v.toSnapshot = .ok s → s.type ≠ .f64

/-- A read gives a result, unless it is late.  What a cache of copies holds has to be
restorable. -/
structure ReadsUnlessLate {σ : Type} (d : Cache σ) (agrees : σ → Ideal → Prop) (copies : Bool) :
    Prop where
  get : ∀ {t w m} k, agrees w.state m →
    (copies = true → ∀ k v, m k = some v → v.IsRestorable) →
      (d.get k).Meets t w fun r _ => FailsOnlyAs CacheError.IsLate r

variable {σ lam : Type} {d : Cache σ} {agrees : σ → Ideal → Prop} {copies removes : Bool}

/-- The cache below a layer. -/
theorem ReadsUnlessLate.under (h : ReadsUnlessLate d agrees copies) (held : lam → List Value) :
    ReadsUnlessLate (d.under held) (agreesBelow agrees) copies where
  get k hm hr := Await.Meets.focus (Focus.lawfulAt_second ..) (h.get k hm hr)

/-- The same of a cache that holds good values only, if these are restorable. -/
theorem ReadsUnlessLate.get_good (h : ReadsUnlessLate d agrees copies)
    (hf : Faithful d agrees copies removes) {good : CacheKey → Value → Prop}
    (hgood : ∀ k v, good k v → v.IsRestorable) (k : CacheKey) :
    (d.get k).Hoare (HoldsOnly agrees good) fun r s =>
      FailsOnlyAs CacheError.IsLate r ∧ HoldsOnly agrees good s := by
  rintro t w ⟨m, hm, hs⟩
  refine ((hf.get k hm).and (h.get k hm fun _ k v hv => hgood k v (hs k v hv))).mono ?_
  rintro r w' ⟨⟨hl, -⟩, hr⟩
  exact ⟨hr, m, hl.agrees, hs⟩

/-! ## The store and the evicting layers -/

theorem Store.reads (id : String) : ReadsUnlessLate (cache id) Agrees false where
  get _ _ _ _ _ := .of_ok _

theorem Fifo.reads (h : ReadsUnlessLate d agrees false) :
    ReadsUnlessLate (Fifo.around d) (agreesBelow agrees) false where
  get := (h.under _).get

theorem Lru.reads (h : ReadsUnlessLate d agrees false) :
    ReadsUnlessLate (Lru.around d) (agreesBelow agrees) false where
  get k hm hr := by
    have hb := h.under fun _ : Recency => []
    exact Await.Meets.bind_modifyLayer (hb.get k hm hr)

/-- To follow a handle is to find its target, or to take it out. -/
theorem Reference.follow_ok (hd : Faithful d agrees false true) {t : Thread}
    {w : World (References × σ)} {m : Ideal} (hm : agrees w.state.2 m) (k : CacheKey) (a : Nat)
    (v : Value) (generation : Nat) :
    (follow d k (.handle a v) generation).Meets t w fun r _ => ∃ u, r = .ok u := by
  have hb : Faithful (below d) (agreesBelow agrees) false true := hd.under References.held
  refine Await.Meets.bind_ofOp ?_
  intro _ _
  refine Await.Meets.bind_of (Await.Meets.ofOp (deref_meets a v)) ?_ ?_
  · rintro target _ ⟨rfl, -⟩
    cases target with
    | some u =>
      refine Await.Meets.bind_ofOp ?_
      intro _ _
      exact Await.Meets.bind_modifyLayer (Await.Meets.pure ⟨_, rfl⟩)
    | none =>
      refine Await.Meets.bind_modifyLayer ?_
      refine Await.Meets.bind_of (Await.Meets.holding (hb.remove_ok k hm)) ?_ ?_
      · intro _ _ _
        exact Await.Meets.pure ⟨_, rfl⟩
      · rintro e _ ⟨_, ⟨⟩, -⟩
  · rintro e _ ⟨-, hr | hr⟩
    · cases hr
    · cases hr

theorem Reference.reads (hd : Faithful d agrees false true) (h : ReadsUnlessLate d agrees false)
    (r : Reachability) :
    ReadsUnlessLate (Reference.around r d) (Reference.Agrees agrees) false := by
  have hb : Faithful (below d) (agreesBelow agrees) false true := hd.under References.held
  have hbelow : ReadsUnlessLate (below d) (agreesBelow agrees) false := h.under References.held
  refine ⟨?_⟩
  rintro t w m k ⟨m', hm', href⟩ -
  let w₁ : World (References × σ) :=
    ⟨w.env, ({ w.state.1 with generation := w.state.1.generation + 1 }, w.state.2)⟩
  refine Await.Meets.bind_updateLayer ?_
  refine Await.Meets.bind_of ((hb.get (w := w₁) k hm').and (hbelow.get k hm' nofun)) ?_ ?_
  · rintro found w₂ ⟨⟨hl, hf⟩, -⟩
    cases found with
    | none => exact Await.Meets.pure (.of_ok _)
    | some stored =>
      -- What is stored is a handle.
      obtain ⟨a, v, rfl, -⟩ := href k stored (hf.apply_eq rfl)
      refine (follow_ok hd hl.agrees k a v _).mono ?_
      rintro _ _ ⟨u, rfl⟩
      exact .of_ok u
  · rintro e w₂ ⟨-, he⟩
    exact he

/-! ## The layers around them -/

/-- A stored snapshot of a restorable value is read back. -/
theorem Serialized.restoreFound_ok {t : Thread} {w : World σ} {m' m : Ideal} (hs : Saves m' m)
    {k : CacheKey} {found : Option Value} (hf : ∀ u, found = some u → m' k = some u)
    (hr : ∀ v, m k = some v → v.IsRestorable) (id : String) :
    (restoreFound id found : CacheOp σ (Option Value)).Meets t w fun r _ => ∃ x, r = .ok x := by
  intro c _
  cases found with
  | none => exact ⟨none, rfl⟩
  | some stored =>
    obtain ⟨a, v, s, rfl, hv, hsave⟩ := hs k stored (hf stored rfl)
    obtain ⟨_, d', -, hrestore⟩ := Value.restore_toSnapshot hsave (hr v hv s hsave)
    rw [restoreFound_of_ok hrestore]
    exact ⟨_, rfl⟩

theorem Serialized.reads (hd : Faithful d agrees false true) (h : ReadsUnlessLate d agrees false) :
    ReadsUnlessLate (Serialized.around d) (Serialized.Agrees agrees) true := by
  refine ⟨?_⟩
  rintro t w m k ⟨m', hm', hs⟩ hr
  refine Await.Meets.bind_of ((hd.get k hm').and (h.get k hm' nofun)) ?_ ?_
  · rintro found w₁ ⟨⟨-, hf⟩, -⟩
    have hfound : ∀ u, found = some u → m' k = some u := fun u hu => hf.apply_eq hu
    refine Await.Meets.ofOp ((restoreFound_ok hs hfound (hr rfl k) d.id).mono ?_)
    rintro _ _ ⟨x, rfl⟩
    exact .of_ok x
  · rintro e w₁ ⟨-, he⟩
    exact he

theorem ReadCounts.reads (h : ReadsUnlessLate d agrees copies) :
    ReadsUnlessLate (ReadCounts.around d) (agreesBelow agrees) copies := by
  have hb := h.under fun _ : ReadCounts => []
  refine ⟨?_⟩
  intro t w m k hm hr
  refine Await.Meets.bind_modifyLayer ?_
  refine Await.Meets.bind_of (hb.get k hm hr) ?_ fun _ _ he => he
  intro found w₂ _
  cases found with
  | none => exact Await.Meets.pure (.of_ok _)
  | some v => exact Await.Meets.bind_modifyLayer (Await.Meets.pure (.of_ok _))

theorem Gate.reads (h : ReadsUnlessLate d agrees copies) :
    ReadsUnlessLate (Gate.around d) (agreesBelow agrees) copies := by
  have hb := h.under fun _ : Gate => []
  refine ⟨?_⟩
  intro t w m k hm hr
  show (alone [] ((below d).get k)).Meets t w _
  exact Gate.pass_meets (fun e l _ => hb.get k hm hr) fun _ _ _ _ _ hp => hp

theorem Scheduled.reads (hd : Faithful d agrees copies removes)
    (h : ReadsUnlessLate d agrees copies) (interval : Duration) :
    ReadsUnlessLate (Scheduled.around interval d) (agreesBelow agrees) copies := by
  have hb := h.under fun _ : LastClear => []
  refine ⟨?_⟩
  intro t w m k hm hr
  refine bind_clearWhenDue hd interval hm ?_
  intro cleared w₁ hl
  cases cleared with
  | true => exact Await.Meets.pure (.of_ok _)
  | false => exact hb.get k hl.agrees hr

theorem Blocking.reads (h : ReadsUnlessLate d agrees copies) (timeout : Option Duration) :
    ReadsUnlessLate (Blocking.around timeout d) (agreesBelow agrees) copies := by
  have hb := h.under fun _ : KeyLocks => []
  refine ⟨?_⟩
  intro t w m k hm hr
  have hlock : (acquire timeout d.id k : CacheCall (KeyLocks × σ) Unit).Meets t w fun r _ =>
      FailsOnlyAs CacheError.IsLate r := by
    intro c _
    unfold acquire
    split
    · exact .of_ok _
    · intro c' e _ _ _
      dsimp only
      split
      · exact .of_ok _
      · exact .of_error trivial
  refine Await.Meets.bind_of ((acquire_meets hm timeout d.id k).and hlock) ?_ fun _ _ he e heq =>
    he.2 e (by cases heq; rfl)
  rintro _ w₁ ⟨hl, -⟩
  refine Await.Meets.bind (Await.Meets.result ((hb.get k hl.agrees hr).mono ?_))
  intro r w₂ he
  match r with
  | .ok none => exact Await.Meets.pure (.of_ok _)
  | .ok (some v) =>
    refine Await.Meets.bind_ofOp ?_
    intro _ _
    exact Await.Meets.pure (.of_ok _)
  | .error e =>
    refine Await.Meets.bind_ofOp ?_
    intro _ _
    exact Await.Meets.ofOp fun _ _ => he

/-! ## Built caches -/

namespace Stack

/-- The layers make a faithful cache whose reads give a result unless they are late. -/
def IsReadable (id : String) (copies removes : Bool) (layers : List Layer) : Prop :=
  ∃ agrees, Faithful (cacheOf id layers) agrees copies removes ∧
    ReadsUnlessLate (cacheOf id layers) agrees copies ∧ ∀ now, agrees (initialOf now layers) .empty

variable {id : String} {layers : List Layer}

theorem isReadable_eviction (b : CacheBuilder) : IsReadable b.id false true [b.evictionLayer] := by
  have hstore := Store.faithful b.id
  have hreads := Store.reads b.id
  have hreference : ∀ r hardLinks, IsReadable b.id false true [.reference r hardLinks] :=
    fun r _ => ⟨_, Reference.faithful hstore r, Reference.reads hstore hreads r,
      fun _ => ⟨.empty, Store.agrees_empty _, Reference.refers_empty _⟩⟩
  unfold CacheBuilder.evictionLayer
  cases b.eviction with
  | lru => exact ⟨_, Lru.faithful hstore, Lru.reads hreads, fun _ => Store.agrees_empty _⟩
  | fifo => exact ⟨_, Fifo.faithful hstore, Fifo.reads hreads, fun _ => Store.agrees_empty _⟩
  | soft => exact hreference _ _
  | weak => exact hreference _ _

theorem IsReadable.serialized (h : IsReadable id false true layers) :
    IsReadable id true true (.serialized :: layers) := by
  obtain ⟨agrees, hf, hr, h₀⟩ := h
  exact ⟨_, (Serialized.faithful hf).under fun _ : Unit => [],
    (Serialized.reads hf hr).under fun _ : Unit => [],
    fun now => ⟨.empty, h₀ now, Serialized.saves_empty _⟩⟩

theorem IsReadable.statistics (h : IsReadable id copies true layers) :
    IsReadable id copies true (.statistics :: layers) := by
  obtain ⟨agrees, hf, hr, h₀⟩ := h
  exact ⟨_, ReadCounts.faithful hf, ReadCounts.reads hr, h₀⟩

theorem IsReadable.synchronized (h : IsReadable id copies true layers) :
    IsReadable id copies true (.synchronized :: layers) := by
  obtain ⟨agrees, hf, hr, h₀⟩ := h
  exact ⟨_, Gate.faithful hf, Gate.reads hr, h₀⟩

theorem IsReadable.scheduled (h : IsReadable id copies true layers) (interval : Duration) :
    IsReadable id copies true (.scheduled interval :: layers) := by
  obtain ⟨agrees, hf, hr, h₀⟩ := h
  exact ⟨_, Scheduled.faithful hf interval, Scheduled.reads hf hr interval, h₀⟩

theorem IsReadable.blocking (h : IsReadable id copies true layers) (timeout : Option Duration) :
    IsReadable id copies false (.blocking timeout :: layers) := by
  obtain ⟨agrees, hf, hr, h₀⟩ := h
  exact ⟨_, Blocking.faithful hf timeout, Blocking.reads hr timeout, h₀⟩

end Stack

/-- A read of a built cache gives a result unless it is late. -/
theorem CacheBuilder.isReadable_of_build {b : CacheBuilder} {s : Stack}
    (himpl : b.implementation = none) (hdec : b.decorators = []) (hb : b.build = .ok s) :
    Stack.IsReadable s.id b.readWrite (!b.blocking) s.layers := by
  obtain rfl := eq_of_build himpl hdec hb
  exact b.layers_induction (Stack.isReadable_eviction b) .serialized .statistics .synchronized
    (fun interval h => h.scheduled interval) fun timeout h => h.blocking timeout

end QueryCache
