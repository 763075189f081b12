import Mathlib
import QueryCache.Proofs.Cache.Honesty
import QueryCache.Proofs.Cache.Interference
import QueryCache.Proofs.Cache.Triple

/-!
# What a cache refuses

A built cache refuses a put for one reason only: it keeps copies, and the value has
no snapshot.  A clear it never refuses.  That is so in every state and whatever other
threads do, for nothing else that a put or a clear does can fail.

1. calls that fail as expected
2. the contract
3. the store and the evicting layers
4. the layers around them
5. built caches
-/

namespace QueryCache

variable {ε ε' σ τ lam α β : Type}

/-! ## Calls that fail as expected -/

/-- In whatever states the call is begun and resumed, its error is an expected one. -/
def Await.FailsOnly (expected : ε → Prop) (m : Await ε σ α) : Prop :=
  m.Throughout (fun _ => True) (FailsOnlyAs expected)

namespace Await.FailsOnly

variable {expected : ε → Prop} {m : Await ε σ α}

theorem ofOp {m : Op ε σ α} (h : ∀ c w, FailsOnlyAs expected (m c w).1) :
    (Await.ofOp m).FailsOnly expected := fun c w _ => ⟨trivial, h c w⟩

/-- An operation that gives a value in every state. -/
theorem ofSafe {m : Op ε σ α} (h : ∀ c w, ∃ a, (m c w).1 = .ok a) :
    (Await.ofOp m).FailsOnly expected := by
  refine ofOp fun c w => ?_
  obtain ⟨a, ha⟩ := h c w
  rw [ha]
  exact .of_ok a

theorem pure (a : α) : (Pure.pure a : Await ε σ α).FailsOnly expected :=
  Await.Throughout.pure (.of_ok a)

theorem bind {f : α → Await ε σ β} (h : m.FailsOnly expected)
    (hf : ∀ a, (f a).FailsOnly expected) : (m >>= f).FailsOnly expected :=
  Await.Throughout.bind h (fun a _ => hf a) fun _ he => .of_error (he _ rfl)

/-- The result of a call is a value, and what follows knows how it came about. -/
theorem bind_result {f : Except ε α → Await ε' σ β} {expected' : ε' → Prop}
    (h : m.FailsOnly expected) (hf : ∀ r, FailsOnlyAs expected r → (f r).FailsOnly expected') :
    (m.result >>= f).FailsOnly expected' := by
  have hresult : (m.result : Await ε' σ (Except ε α)).Throughout (fun _ => True)
      fun r => ∃ x, r = .ok x ∧ FailsOnlyAs expected x :=
    .result (Await.Throughout.mono h fun r hr => ⟨r, rfl, hr⟩)
  refine Await.Throughout.bind hresult ?_ ?_
  · rintro r ⟨_, ⟨⟩, hr⟩
    exact hf r hr
  · rintro e ⟨x, hx, -⟩
    cases hx

theorem mono {expected' : ε → Prop} (h : m.FailsOnly expected)
    (himp : ∀ e, expected e → expected' e) : m.FailsOnly expected' :=
  Await.Throughout.mono h fun _ hr e he => himp e (hr e he)

theorem holding {values : List Value} (h : m.FailsOnly expected) :
    (m.holding values).FailsOnly expected := by
  intro c w _
  have ho := h (c.holding values) w trivial
  show ((m (c.holding values) w).holding values).Throughout _ _
  generalize m (c.holding values) w = o at ho
  induction o with
  | done r w => exact ho
  | waiting w wait resume ih => exact ⟨trivial, fun c' w' _ => ih _ w' (ho.2 _ w' trivial)⟩

/-- A call on a part of the state. -/
theorem focus {f : Focus τ σ} (h : m.FailsOnly expected) : (f.await m).FailsOnly expected :=
  Await.Throughout.focus (fun _ _ => trivial) (fun _ _ _ _ => trivial) h

theorem waitFor (ready : σ → Bool) : (Await.waitFor ready).FailsOnly expected := by
  intro c w _
  unfold Await.waitFor
  split
  · exact ⟨trivial, .of_ok ()⟩
  · exact ⟨trivial, fun _ _ _ => ⟨trivial, .of_ok ()⟩⟩

end Await.FailsOnly

/-! ## The contract -/

/-- The cause for which a cache of copies refuses to store: there is no snapshot. -/
def Uncopied (copies : Bool) (id : String) (x : Option Value) (cause : CacheError) : Prop :=
  copies = true ∧ ∃ v e, x = some v ∧ v.toSnapshot = .error e ∧ cause = Serialized.mapError id e

/-- The cache refuses what it has to copy and cannot, and nothing else. -/
structure RefusesUncopied (d : Cache σ) (copies : Bool) : Prop where
  put : ∀ k x, (d.put k x).FailsOnly (Uncopied copies d.id x)
  clear : d.clear.FailsOnly fun _ => False

variable {d : Cache σ} {copies : Bool}

/-- A cache is refusing in the same way as a part of a larger state. -/
theorem RefusesUncopied.within (h : RefusesUncopied d copies) (f : Focus τ σ) :
    RefusesUncopied (d.within f) copies where
  put k x := (h.put k x).focus
  clear := h.clear.focus

/-! ## The store and the evicting layers -/

theorem Store.put_safe {expected : CacheError → Prop} (id : String) (k : CacheKey)
    (x : Option Value) : ((cache id).put k x).FailsOnly expected :=
  fun _ _ _ => ⟨trivial, .of_ok ()⟩

theorem Store.remove_safe {expected : CacheError → Prop} (id : String) (k : CacheKey) :
    ((cache id).remove k).FailsOnly expected := fun _ w _ => ⟨trivial, .of_ok (w.state.lookup k)⟩

theorem Store.clear_safe {expected : CacheError → Prop} (id : String) :
    (cache id).clear.FailsOnly expected := fun _ _ _ => ⟨trivial, .of_ok ()⟩

/-- A change of the layer itself never fails. -/
theorem modifyLayer_safe {expected : ε → Prop} (g : lam → lam) :
    (Await.ofOp (Op.modifyLayer g : Op ε (lam × σ) Unit)).FailsOnly expected :=
  .ofSafe fun _ _ => ⟨(), rfl⟩

theorem updateLayer_safe {expected : ε → Prop} (g : lam → α × lam) :
    (Await.ofOp (Op.updateLayer g : Op ε (lam × σ) α)).FailsOnly expected :=
  .ofSafe fun _ w => ⟨(g w.state.1).1, rfl⟩

theorem Fifo.refuses (id : String) : RefusesUncopied (Fifo.around (Store.cache id)) false where
  put k x := by
    refine .bind (updateLayer_safe _) fun oldest => ?_
    cases oldest with
    | none => exact (Store.put_safe id k x).focus
    | some oldest =>
      exact .bind (.holding (Store.remove_safe id oldest).focus) fun _ =>
        (Store.put_safe id k x).focus
  clear := .bind (Store.clear_safe id).focus fun _ => modifyLayer_safe _

theorem Lru.refuses (id : String) : RefusesUncopied (Lru.around (Store.cache id)) false where
  put k x := by
    refine .bind (Store.put_safe id k x).focus fun _ => .bind (updateLayer_safe _) fun eldest => ?_
    cases eldest with
    | none => exact .pure ()
    | some eldest => exact .bind (Store.remove_safe id eldest).focus fun _ => .pure ()
  clear := .bind (Store.clear_safe id).focus fun _ => modifyLayer_safe _

theorem Reference.removeAll_safe {expected : CacheError → Prop} (id : String)
    (keys : List CacheKey) : (removeAll (Store.cache id) keys).FailsOnly expected := by
  induction keys with
  | nil => exact .pure ()
  | cons k rest ih => exact .bind (Store.remove_safe id k).focus fun _ => ih

theorem Reference.refuses (r : Reachability) (id : String) :
    RefusesUncopied (Reference.around r (Store.cache id)) false where
  put k x := by
    have hcollect : (collect r (Store.cache id)).FailsOnly (Uncopied false id x) :=
      .bind (.ofSafe fun _ _ => ⟨_, rfl⟩) fun keys => removeAll_safe id keys
    refine .holding (.bind hcollect fun _ => .bind (updateLayer_safe _) fun generation => ?_)
    cases x with
    | none => exact .bind (modifyLayer_safe _) fun _ => (Store.put_safe id k none).focus
    | some v =>
      refine .bind (.ofSafe fun _ w => ⟨.handle w.env.nextAlloc v, rfl⟩) fun handle => ?_
      exact .bind (modifyLayer_safe _) fun _ => (Store.put_safe id k (some handle)).focus
  clear := .bind (modifyLayer_safe _) fun _ => (Store.clear_safe id).focus

/-! ## The layers around them -/

theorem Serialized.save_fails (id : String) (v : Value) :
    (Await.ofOp (save id v : CacheOp σ Value)).FailsOnly (Uncopied true id (some v)) := by
  refine .ofOp fun c w => ?_
  cases hv : v.toSnapshot with
  | ok s =>
    rw [save, hv]
    exact .of_ok (Value.snapshot w.env.nextAlloc s)
  | error e =>
    rw [save, hv]
    exact .of_error ⟨rfl, v, e, rfl, hv, rfl⟩

theorem Serialized.refuses (h : RefusesUncopied d false) :
    RefusesUncopied (Serialized.around d) true where
  put k x := by
    have hbelow : ∀ y, (d.put k y).FailsOnly (Uncopied true d.id x) := fun y =>
      (h.put k y).mono fun _ he => absurd he.1 Bool.false_ne_true
    cases x with
    | none => exact hbelow none
    | some v => exact .bind (save_fails d.id v) fun stored => hbelow (some stored)
  clear := h.clear

theorem ReadCounts.refuses (h : RefusesUncopied d copies) :
    RefusesUncopied (ReadCounts.around d) copies where
  put k x := (h.put k x).focus
  clear := h.clear.focus

/-- A gate lets every error out, and adds none. -/
theorem Gate.pass_fails {expected : ε → Prop} {gate : lam → Gate} {set : Gate → lam → lam}
    {values : List Value} {m : Await ε (lam × σ) α} (h : m.FailsOnly expected) :
    (pass gate set values m).FailsOnly expected := by
  refine .bind (.holding (.waitFor _)) fun _ => .bind (modifyLayer_safe _) fun _ => ?_
  refine .bind_result h fun r hr => .bind (modifyLayer_safe _) fun _ => ?_
  exact .ofOp fun _ _ => hr

theorem Gate.refuses (h : RefusesUncopied d copies) :
    RefusesUncopied (Gate.around d) copies where
  put k x := by
    show (alone x.toList ((below d).put k x)).FailsOnly _
    exact pass_fails (h.put k x).focus
  clear := by
    show (alone [] (below d).clear).FailsOnly _
    exact pass_fails h.clear.focus

theorem Scheduled.refuses (h : RefusesUncopied d copies) (interval : Duration) :
    RefusesUncopied (Scheduled.around interval d) copies where
  put k x := by
    have hclear : (below d).clear.FailsOnly (Uncopied copies d.id x) :=
      h.clear.focus.mono fun _ he => he.elim
    have hdue : (clearWhenDue interval d x.toList).FailsOnly (Uncopied copies d.id x) := by
      refine .holding (Gate.pass_fails (.bind (.ofSafe fun _ w => ⟨w.env.now, rfl⟩) ?_))
      refine fun now => .bind (.ofSafe fun _ w => ⟨w.state.1, rfl⟩) fun last => ?_
      split
      · exact .bind (modifyLayer_safe _) fun _ => .bind hclear fun _ => .pure true
      · exact .pure false
    exact .bind hdue fun _ => (h.put k x).focus
  clear := by
    refine .bind (.ofSafe fun _ w => ⟨w.env.now, rfl⟩) fun now => ?_
    exact .bind (Gate.pass_fails (modifyLayer_safe _)) fun _ => h.clear.focus

theorem Blocking.refuses (h : RefusesUncopied d copies) (timeout : Option Duration) :
    RefusesUncopied (Blocking.around timeout d) copies where
  put k x := by
    have hrelease : ∀ {expected : CacheError → Prop},
        (Await.ofOp (release k : CacheOp (KeyLocks × σ) Unit)).FailsOnly expected :=
      .ofSafe fun _ _ => ⟨(), rfl⟩
    exact .bind_result (h.put k x).focus fun r hr => .bind hrelease fun _ => .ofOp fun _ _ => hr
  clear := h.clear.focus

/-! ## Built caches -/

/-- A built cache refuses a put if it cannot copy the value, and nothing else. -/
theorem CacheBuilder.refuses_of_build {b : CacheBuilder} {s : Stack}
    (himpl : b.implementation = none) (hdec : b.decorators = []) (hb : b.build = .ok s) :
    RefusesUncopied s.cache b.readWrite := by
  obtain rfl := eq_of_build himpl hdec hb
  have heviction : RefusesUncopied (Stack.cacheOf b.id [b.evictionLayer]) false := by
    unfold evictionLayer
    cases b.eviction with
    | lru => exact Lru.refuses b.id
    | fifo => exact Fifo.refuses b.id
    | soft => exact Reference.refuses _ b.id
    | weak => exact Reference.refuses _ b.id
  exact b.layers_induction
    (P := fun copies _ layers => RefusesUncopied (Stack.cacheOf b.id layers) copies) heviction
    (fun h => (Serialized.refuses h).within _) ReadCounts.refuses Gate.refuses
    (fun interval h => Scheduled.refuses h interval) fun timeout h => Blocking.refuses h timeout

end QueryCache
