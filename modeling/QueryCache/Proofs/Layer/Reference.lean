import Mathlib
import QueryCache.Layer.Reference
import QueryCache.Proofs.Cache.Faithful

/-!
# Handles in place of values

The cache below holds handles.  A handle that still has a value gives the value
that was put, and a handle without value is as good as no entry.  Which handles
hold their targets, what stands in the registry and in the ring, and who owns
which value decide only how many entries are left.
-/

namespace QueryCache.Reference

variable {σ : Type} {d : Cache σ} {agrees : σ → Ideal → Prop} {t : Thread}

/-! ## Maps of handles -/

/-- The first map has a handle where the second one has its target. -/
def Refers (m' m : Ideal) : Prop := ∀ k u, m' k = some u → ∃ a v, u = .handle a v ∧ m k = some v

/-- The cache below agrees with a map of handles to the values. -/
def Agrees (agrees : σ → Ideal → Prop) (s : References × σ) (m : Ideal) : Prop :=
  ∃ m', agrees s.2 m' ∧ Refers m' m

theorem refers_empty (m : Ideal) : Refers .empty m := by
  intro k u h
  cases h

theorem Refers.grow {m' m n : Ideal} (h : Refers m' m) (hm : m.Le n) : Refers m' n := by
  intro k u hu
  rcases h k u hu with ⟨a, v, rfl, hv⟩
  exact ⟨a, v, rfl, hm k v hv⟩

/-- An absence is stored as it is, a value as a handle to it. -/
theorem Refers.set {m' m : Ideal} (h : Refers m' m) (k : CacheKey) {x' x : Option Value}
    (hx : ∀ u, x' = some u → ∃ a v, u = .handle a v ∧ x = some v) :
    Refers (m'.set k x') (m.set k x) := by
  intro k' u hu
  rw [Ideal.set_apply] at hu ⊢
  split at hu
  · rw [if_pos ‹_›]
    exact hx u hu
  · rw [if_neg ‹_›]
    exact h k' u hu

/-- No handle is stored for an absence. -/
theorem Refers.erase {m' m : Ideal} (h : Refers m' m) (k : CacheKey) :
    Refers (m'.set k none) (m.set k none) := by
  refine h.set k ?_
  intro u heq
  cases heq

/-! ## The environment -/

theorem before_demoteIdle (r : Reachability) (generation : Nat) (handles : List Value)
    (e : Environment) : e.Before (e.demoteIdle r generation handles) := by
  induction handles generalizing e with
  | nil => exact .refl e
  | cons handle rest ih =>
    -- A demotion changes handles, and neither the clock nor the supply.
    refine Environment.Before.trans ?_ (ih _)
    split
    · exact ⟨le_refl _, le_refl _⟩
    · exact .refl e

/-- A handle that still has a value has its target. -/
theorem deref_handle {e : Environment} {owners : List Value} {a : Nat} {v u : Value}
    (h : e.deref owners (.handle a v) = some u) : u = v := by
  simp only [Environment.deref] at h
  split at h
  · exact (Option.some.inj h).symm
  · cases h

/-- In the middle of a call a handle gives its target or nothing. -/
theorem deref_meets (a : Nat) (v : Value) {w : World (References × σ)} :
    (deref d (.handle a v)).Meets t w fun r w' => w' = w ∧ (r = .ok none ∨ r = .ok (some v)) := by
  intro c _
  refine ⟨rfl, ?_⟩
  show Except.ok (w.env.deref (owners d c w.state) (.handle a v)) = .ok none ∨ _
  cases h : w.env.deref (owners d c w.state) (.handle a v) with
  | none => exact .inl rfl
  | some u =>
    obtain rfl := deref_handle h
    exact .inr (congrArg Except.ok h)

/-! ## Taking keys out -/

/-- Removing keys from the cache below loses entries and does nothing else. -/
theorem removeAll_meets (hd : Faithful d agrees false true) (keys : List CacheKey)
    {w : World (References × σ)} {m : Ideal} (hm : agreesBelow agrees w.state m) :
    (removeAll d keys).Meets t w fun r w' => Leaves (agreesBelow agrees) m w w' ∧ r = .ok () := by
  induction keys generalizing w with
  | nil => exact Await.Meets.pure ⟨.rfl' hm, rfl⟩
  | cons key rest ih =>
    have hb : Faithful (below d) (agreesBelow agrees) false true := hd.under References.held
    refine Await.Meets.bind_of (hb.remove_ok key hm) ?_ ?_
    · intro _ w₁ h
      rcases h with ⟨_, -, hl, -⟩
      refine (ih (hb.mono hl.agrees (m.erase_le key))).mono ?_
      intro r w₂ h
      rcases h with ⟨hl', hr⟩
      exact ⟨hl'.after hl.before, hr⟩
    · intro e w₁ h
      rcases h with ⟨_, ⟨⟩, -⟩

/-- A collection loses entries and does nothing else. -/
theorem collect_meets (hd : Faithful d agrees false true) (r : Reachability)
    {w : World (References × σ)} {m : Ideal} (hm : agreesBelow agrees w.state m) :
    (collect r d).Meets t w fun r' w' => Leaves (agreesBelow agrees) m w w' ∧ r' = .ok () := by
  refine Await.Meets.bind_ofOp ?_
  intro c _
  have hb := before_demoteIdle r w.state.1.generation w.state.1.registry.values w.env
  refine (removeAll_meets hd _ (w := (sweep r d c w).2) hm).mono ?_
  intro r' w' h
  rcases h with ⟨hl, hr⟩
  exact ⟨hl.after hb, hr⟩

/-! ## The operations -/

/-- A handle is followed to its target, or taken out of the cache below. -/
theorem follow_meets (hd : Faithful d agrees false true) {w : World (References × σ)} {m' m : Ideal}
    (hm' : agrees w.state.2 m') (href : Refers m' m) {k : CacheKey} {a : Nat} {v : Value}
    (hv : m k = some v) (generation : Nat) :
    (follow d k (.handle a v) generation).Meets t w fun res w' =>
      Leaves (Agrees agrees) m w w' ∧ Found false m k w.env w'.env res := by
  have hb : Faithful (below d) (agreesBelow agrees) false true := hd.under References.held
  refine Await.Meets.bind_ofOp ?_
  intro _ _
  refine Await.Meets.bind_of (Await.Meets.ofOp (deref_meets a v)) ?_ ?_
  · intro target _ h
    rcases h with ⟨rfl, hr⟩
    cases target with
    | some u =>
      obtain rfl : u = v := by
        rcases hr with hr | hr
        · cases hr
        · exact Option.some.inj (Except.ok.inj hr)
      refine Await.Meets.bind_ofOp ?_
      intro _ _
      refine Await.Meets.bind_modifyLayer (Await.Meets.pure ?_)
      refine ⟨⟨⟨le_refl _, le_refl _⟩, m', hm', href⟩, ?_⟩
      intro _ h
      cases h
      exact ⟨u, hv, rfl⟩
    | none =>
      -- The key is lost, which a cache may do at any time.
      refine Await.Meets.bind_modifyLayer ?_
      refine Await.Meets.bind_of (Await.Meets.holding (hb.remove_ok k hm')) ?_ ?_
      · intro _ w₂ h
        rcases h with ⟨_, -, hl, -⟩
        have hmap := hb.mono hl.agrees (m'.erase_le k)
        exact Await.Meets.pure ⟨⟨hl.before, m', hmap, href⟩, found_none⟩
      · intro e w₂ h
        rcases h with ⟨_, ⟨⟩, -⟩
  · intro e w₂ h
    rcases h with ⟨-, hr | hr⟩
    · cases hr
    · cases hr

section Operations

variable {w : World (References × σ)} {m : Ideal} (hd : Faithful d agrees false true)
  (hm : Agrees agrees w.state m)

include hd hm

theorem store_meets (r : Reachability) (k : CacheKey) (x : Option Value) :
    (store r d k x).Meets t w fun res w' =>
      Leaves (Agrees agrees) (m.afterPut k x res) w w' ∧ res = .ok () := by
  have hb : Faithful (below d) (agreesBelow agrees) false true := hd.under References.held
  rcases hm with ⟨m', hm', href⟩
  refine Await.Meets.bind_of (collect_meets hd r hm') ?_ ?_
  · intro _ w₁ h
    rcases h with ⟨hl, -⟩
    refine Await.Meets.bind_updateLayer ?_
    cases x with
    | none =>
      refine Await.Meets.bind_modifyLayer ((hb.put (m := m') k none ?_).mono ?_)
      · exact hl.agrees
      · intro res w₂ h
        rcases h with ⟨hl', hok⟩
        obtain rfl := hok (storable_none _)
        have hleaves : Leaves (Agrees agrees) (m.set k none) w w₂ :=
          ⟨hl.before.trans hl'.before, m'.set k none, hl'.agrees, href.erase k⟩
        exact ⟨hleaves, rfl⟩
    | some v =>
      refine Await.Meets.bind_ofOp ?_
      intro c _
      refine Await.Meets.bind_modifyLayer ((hb.put (m := m') k _ ?_).mono ?_)
      · exact hl.agrees
      · intro res w₂ h
        rcases h with ⟨hl', hok⟩
        obtain rfl := hok (storable_of_not_copies _)
        have hwrap : w₁.env.Before w₂.env :=
          ⟨hl'.before.now_le, le_trans (Nat.le_succ _) hl'.before.nextAlloc_le⟩
        have hrefers : Refers (m'.set k (some (.handle w₁.env.nextAlloc v)))
            (m.set k (some v)) := by
          refine href.set k ?_
          intro u hu
          cases hu
          exact ⟨_, v, rfl, rfl⟩
        have hleaves : Leaves (Agrees agrees) (m.set k (some v)) w w₂ :=
          ⟨hl.before.trans hwrap, _, hl'.agrees, hrefers⟩
        exact ⟨hleaves, rfl⟩
  · intro e w₁ h
    rcases h with ⟨-, hok⟩
    cases hok

theorem get_meets (k : CacheKey) (r : Reachability) :
    ((around r d).get k).Meets t w fun res w' =>
      Leaves (Agrees agrees) m w w' ∧ Found false m k w.env w'.env res := by
  have hb : Faithful (below d) (agreesBelow agrees) false true := hd.under References.held
  rcases hm with ⟨m', hm', href⟩
  refine Await.Meets.bind_updateLayer ?_
  refine Await.Meets.bind_of (hb.get k hm') ?_ ?_
  · intro found w₁ h
    rcases h with ⟨hl, hf⟩
    cases found with
    | none => exact Await.Meets.pure ⟨⟨hl.before, m', hl.agrees, href⟩, found_none⟩
    | some stored =>
      rcases href k stored (hf.apply_eq rfl) with ⟨a, v, rfl, hv⟩
      refine (follow_meets hd hl.agrees href hv _).mono ?_
      intro res w₂ h
      rcases h with ⟨hl', hf'⟩
      exact ⟨hl'.after hl.before, hf'.widen hl.before (.refl _)⟩
  · intro e w₁ h
    rcases h with ⟨hl, -⟩
    exact ⟨⟨hl.before, m', hl.agrees, href⟩, found_error⟩

theorem remove_meets (k : CacheKey) (r : Reachability) :
    ((around r d).remove k).Meets t w fun res w' =>
      Leaves (Agrees agrees) (m.set k none) w w' ∧ Found false m k w.env w'.env res ∧
        ∃ u, res = .ok u := by
  have hb : Faithful (below d) (agreesBelow agrees) false true := hd.under References.held
  rcases hm with ⟨m', hm', href⟩
  refine Await.Meets.bind_of (collect_meets hd r hm') ?_ ?_
  · intro _ w₁ h
    rcases h with ⟨hl, -⟩
    refine Await.Meets.bind_updateLayer (Await.Meets.bind_modifyLayer ?_)
    refine Await.Meets.bind_of (hb.remove_ok (m := m') k ?_) ?_ ?_
    · exact hl.agrees
    · intro found w₂ h
      rcases h with ⟨_, ⟨⟩, hl', hf⟩
      have hafter : Leaves (Agrees agrees) (m.set k none) w w₂ :=
        ⟨hl.before.trans hl'.before, m'.set k none, hl'.agrees, href.erase k⟩
      cases found with
      | none => exact Await.Meets.pure ⟨hafter, found_none, _, rfl⟩
      | some stored =>
        -- A dead handle reads as nothing, and its key is gone either way.
        rcases href k stored (hf stored rfl) with ⟨a, v, rfl, hv⟩
        refine Await.Meets.ofOp ?_
        intro c _
        refine ⟨hafter, ?_, w₂.env.deref (owners d c w₂.state) (.handle a v), rfl⟩
        intro u hu
        have hu' : w₂.env.deref (owners d c w₂.state) (.handle a v) = some u := Except.ok.inj hu
        exact ⟨v, hv, deref_handle hu'⟩
    · intro e w₂ h
      rcases h with ⟨_, ⟨⟩, -⟩
  · intro e w₁ h
    rcases h with ⟨-, ⟨⟩⟩

end Operations

/-- A layer that stores handles keeps the contract of a cache of values. -/
theorem faithful (hd : Faithful d agrees false true) (r : Reachability) :
    Faithful (around r d) (Agrees agrees) false true := by
  have hb : Faithful (below d) (agreesBelow agrees) false true := hd.under References.held
  refine { mono := ?_, put := ?_, get := ?_, remove := ?_, clear := ?_, size := ?_,
           releaseLock := ?_ }
  · rintro s m n ⟨m', hm', href⟩ hmn
    exact ⟨m', hm', href.grow hmn⟩
  · intro t w m k x hm
    refine Await.Meets.holding ((store_meets hd hm r k x).mono ?_)
    intro res w' h
    rcases h with ⟨hl, hok⟩
    exact ⟨hl, fun _ => hok⟩
  · intro t w m k hm
    exact get_meets hd hm k r
  · intro t w m k hm
    refine (remove_meets hd hm k r).mono ?_
    intro res w' h
    rcases h with ⟨hl, hf, hok⟩
    exact ⟨hl, hf, fun _ => hok⟩
  · intro t w m h
    rcases h with ⟨m', hm', href⟩
    refine Await.Meets.bind_modifyLayer ((hb.clear (m := m') ?_).mono ?_)
    · exact hm'
    · intro res w' h
      rcases h with ⟨hl, hok⟩
      exact ⟨⟨hl.before, .empty, hl.agrees, refers_empty _⟩, hok⟩
  · intro t w m h
    rcases h with ⟨m', hm', href⟩
    refine Await.Meets.bind_of (collect_meets hd r hm') ?_ ?_
    · intro _ w₁ h
      rcases h with ⟨hl, -⟩
      refine (hb.size hl.agrees).mono ?_
      intro res w' hl'
      exact ⟨hl.before.trans hl'.before, m', hl'.agrees, href⟩
    · intro e w₁ h
      rcases h with ⟨-, hok⟩
      cases hok
  · intro t w m k h
    rcases h with ⟨m', hm', href⟩
    refine (hb.releaseLock k hm').mono ?_
    intro res w' hl
    exact ⟨hl.before, m', hl.agrees, href⟩

end QueryCache.Reference
