import Mathlib
import QueryCache.Entries.Lemmas
import QueryCache.Layer.Fifo
import QueryCache.Layer.Lru
import QueryCache.Layer.Store
import QueryCache.Proofs.Cache.Faithful

/-!
# The store and the bounded layers

The store holds exactly what was put.  The bounded layers take keys out of the
cache below on their own account, and that is all that they do to it: their own
list of keys, whatever is in it, decides only which keys leave.
-/

namespace QueryCache

/-! ## The store -/

namespace Store

/-- Every value in the store stands in the map. -/
def Agrees (s : Store) (m : Ideal) : Prop := ∀ k v, s.lookup k = some v → m k = some v

@[simp]
theorem lookup_insert (s : Store) (k k' : CacheKey) (x : Option Value) :
    lookup (s.insert k x) k' = if k' = k then x else s.lookup k' := by
  rw [lookup, Entries.find?_insert]
  split
  · rfl
  · rfl

@[simp]
theorem lookup_erase (s : Store) (k k' : CacheKey) :
    lookup (s.erase k) k' = if k' = k then none else s.lookup k' := by
  rw [lookup, Entries.find?_erase]
  split
  · rfl
  · rfl

theorem lookup_eq_some_iff {s : Store} {k : CacheKey} {v : Value} :
    s.lookup k = some v ↔ s.find? k = some (some v) := by
  rw [lookup, Option.join_eq_some_iff]

theorem mem_held_iff {s : Store} {v : Value} : v ∈ s.held ↔ ∃ k, s.lookup k = some v := by
  simp only [held, List.mem_filterMap, exists_eq_right, Entries.mem_values_iff, lookup_eq_some_iff]

@[simp]
theorem agrees_empty (m : Ideal) : Agrees .empty m := by
  intro k v h
  cases h

theorem Agrees.insert {s : Store} {m : Ideal} (h : Agrees s m) (k : CacheKey) (x : Option Value) :
    Agrees (s.insert k x) (m.set k x) := by
  intro k' v hv
  rw [lookup_insert] at hv
  rw [Ideal.set_apply]
  split at hv
  · rwa [if_pos ‹_›]
  · rw [if_neg ‹_›]
    exact h k' v hv

theorem Agrees.erase {s : Store} {m : Ideal} (h : Agrees s m) (k : CacheKey) :
    Agrees (s.erase k) (m.set k none) := by
  intro k' v hv
  rw [lookup_erase] at hv
  rw [Ideal.set_apply]
  split at hv
  · cases hv
  · rw [if_neg ‹_›]
    exact h k' v hv

/-- The store is faithful. -/
theorem faithful (id : String) : Faithful (cache id) Agrees false true where
  mono h hm k v hv := hm k v (h k v hv)
  put k x hm _ _ := ⟨⟨.refl _, hm.insert k x⟩, fun _ => rfl⟩
  get k hm _ _ := by
    refine ⟨⟨.refl _, hm⟩, ?_⟩
    intro u hu
    exact ⟨u, hm k u (Except.ok.inj hu), rfl⟩
  remove k hm _ _ := by
    refine ⟨⟨.refl _, hm.erase k⟩, ?_, fun _ => ⟨_, rfl⟩⟩
    intro u hu
    exact ⟨u, hm k u (Except.ok.inj hu), rfl⟩
  clear hm _ _ := ⟨⟨.refl _, agrees_empty _⟩, rfl⟩
  size hm _ _ := ⟨.refl _, hm⟩
  releaseLock k hm _ _ := ⟨.refl _, hm⟩

end Store

/-! ## First in, first out -/

section Bounded

variable {σ : Type} {d : Cache σ} {agrees : σ → Ideal → Prop}

/-- A put that comes after the removal of another key. -/
theorem Faithful.put_after_remove {lam : Type} (h : Faithful d agrees false true)
    (held : lam → List Value) {t : Thread} {w : World (lam × σ)} {m : Ideal}
    (hm : agreesBelow agrees w.state m) (oldest k : CacheKey) (x : Option Value)
    (values : List Value) :
    (((d.under held).remove oldest).holding values >>= fun _ => (d.under held).put k x).Meets t w
      fun r w' => Leaves (agreesBelow agrees) (m.afterPut k x r) w w' ∧ r = .ok () := by
  have hb := h.under held
  refine Await.Meets.bind_of (Await.Meets.holding (hb.remove_ok oldest hm)) ?_ ?_
  · intro _ w₁ hpost
    rcases hpost with ⟨_, -, hl, -⟩
    have hm₁ := hb.mono hl.agrees (m.erase_le oldest)
    refine (hb.put k x hm₁).mono ?_
    intro r w' hpost
    rcases hpost with ⟨hl', hok⟩
    exact ⟨hl'.after hl.before, hok (storable_of_not_copies _)⟩
  · intro e w₁ hpost
    rcases hpost with ⟨_, ⟨⟩, -⟩

/-- A layer forgets its own list after a clear. -/
theorem Faithful.clear_then_forget {lam : Type} (h : Faithful d agrees false true)
    (held : lam → List Value) (g : lam → lam) {t : Thread} {w : World (lam × σ)} {m : Ideal}
    (hm : agreesBelow agrees w.state m) :
    ((d.under held).clear >>= fun _ => Await.ofOp (Op.modifyLayer g)).Meets t w fun r w' =>
      Leaves (agreesBelow agrees) .empty w w' ∧ r = .ok () := by
  refine Await.Meets.bind_of ((h.under held).clear hm) ?_ ?_
  · intro _ w₁ hpost
    rcases hpost with ⟨hl, -⟩
    exact Await.Meets.modifyLayer ⟨⟨hl.before, hl.agrees⟩, rfl⟩
  · intro e w₁ hpost
    rcases hpost with ⟨-, ⟨⟩⟩

/-- A layer that evicts the oldest key keeps the contract of a cache of values. -/
theorem Fifo.faithful (h : Faithful d agrees false true) :
    Faithful (Fifo.around d) (agreesBelow agrees) false true := by
  have hb := h.under fun _ : Fifo => []
  refine { mono := hb.mono, get := hb.get, remove := hb.remove, size := hb.size,
           releaseLock := hb.releaseLock, put := ?_, clear := ?_ }
  · intro t w m k x hm
    refine Await.Meets.bind_updateLayer ?_
    let w₁ : World (Fifo × σ) := ⟨w.env, ((enqueue k w.state.1).2, w.state.2)⟩
    -- The list has the new key already, so the oldest one leaves before the put.
    cases (enqueue k w.state.1).1 with
    | some oldest =>
      have hput := h.put_after_remove (fun _ => []) (t := t) (w := w₁) hm oldest k x x.toList
      refine hput.mono ?_
      intro r w' hpost
      rcases hpost with ⟨hl, hok⟩
      exact ⟨⟨hl.before, hl.agrees⟩, fun _ => hok⟩
    | none =>
      have hput := hb.put (t := t) (w := w₁) k x hm
      refine hput.mono ?_
      intro r w' hpost
      rcases hpost with ⟨hl, hok⟩
      exact ⟨⟨hl.before, hl.agrees⟩, hok⟩
  · intro t w m hm
    exact h.clear_then_forget _ _ hm

/-! ## Least recently used -/

/-- A layer that evicts the least recently used key keeps the contract of a
cache of values. -/
theorem Lru.faithful (h : Faithful d agrees false true) :
    Faithful (Lru.around d) (agreesBelow agrees) false true := by
  have hb := h.under fun _ : Recency => []
  refine { mono := hb.mono, remove := hb.remove, size := hb.size, releaseLock := hb.releaseLock,
           put := ?_, get := ?_, clear := ?_ }
  · intro t w m k x hm
    refine Await.Meets.bind_of (hb.put k x hm) ?_ ?_
    · intro _ w₁ hpost
      rcases hpost with ⟨hl, -⟩
      refine Await.Meets.bind_updateLayer ?_
      let w₂ : World (Recency × σ) := ⟨w₁.env, ((Recency.push k w₁.state.1).2, w₁.state.2)⟩
      have hm₂ : agreesBelow agrees w₂.state (m.set k x) := hl.agrees
      cases (Recency.push k w₁.state.1).1 with
      | some eldest =>
        -- The new entry is stored already when the eldest one leaves.
        refine Await.Meets.bind_of (hb.remove_ok eldest hm₂) ?_ ?_
        · intro _ w₃ hpost
          rcases hpost with ⟨_, -, hl', -⟩
          refine Await.Meets.pure ⟨⟨hl.before.trans hl'.before, ?_⟩, fun _ => rfl⟩
          exact hb.mono hl'.agrees (Ideal.erase_le _ eldest)
        · rintro e w₃ ⟨_, ⟨⟩, -⟩
      | none => exact Await.Meets.pure ⟨⟨hl.before, hl.agrees⟩, fun _ => rfl⟩
    · intro e w₁ hpost
      rcases hpost with ⟨-, hok⟩
      cases hok (storable_of_not_copies _)
  · intro t w m k hm
    let w₁ : World (Recency × σ) := ⟨w.env, (Recency.touch k w.state.1, w.state.2)⟩
    have hget := hb.get (t := t) (w := w₁) k hm
    refine Await.Meets.bind_modifyLayer (hget.mono ?_)
    intro r w' hpost
    rcases hpost with ⟨hl, hf⟩
    exact ⟨⟨hl.before, hl.agrees⟩, hf⟩
  · intro t w m hm
    exact h.clear_then_forget _ _ hm

end Bounded

end QueryCache
