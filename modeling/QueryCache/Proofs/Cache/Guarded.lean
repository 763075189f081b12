import Mathlib
import QueryCache.Proofs.Cache.Faithful
import QueryCache.Proofs.Cache.Triple

/-!
# Caches that hold good values only

Which values are good under a key is up to the users of a cache.  A cache is
guarded when it holds good values only as long as only good values are put, and
then gives good values only.  A faithful cache is guarded: whatever it holds
stands in the ideal map, and copies of good values are good.

1. good values
2. the contract
3. faithful caches are guarded
-/

namespace QueryCache

/-! ## Good values -/

/-- No value is good. -/
def noneGood : CacheKey → Value → Prop := fun _ _ => False

/-- What a reader gets for a good value is good too. -/
def Copied (copies : Bool) (good : CacheKey → Value → Prop) : Prop :=
  ∀ k v u e e', good k v → Served copies e e' v u → good k u

/-! ## The contract -/

/-- The cache holds good values only, and gives good values only.  `holds`: what
is known of a cache that holds values of a kind only. -/
structure Guarded {σ : Type} (d : Cache σ) (copies : Bool)
    (holds : (CacheKey → Value → Prop) → σ → Prop) : Prop where
  mono : ∀ {good good' s}, holds good s → (∀ k v, good k v → good' k v) → holds good' s
  put : ∀ {good} k x, Storable copies x → (∀ v, x = some v → good k v) →
    (d.put k x).Hoare (holds good) fun r s => r = .ok () ∧ holds good s
  get : ∀ {good} k, Copied copies good →
    (d.get k).Hoare (holds good) (Keeping (holds good) fun found => ∀ v, found = some v → good k v)
  /-- After a clear nothing is left, so nothing that is not good. -/
  clear : ∀ {good} good', d.clear.Hoare (holds good) fun r s => r = .ok () ∧ holds good' s
  releaseLock : ∀ {good} k, (d.releaseLock k).Hoare (holds good) fun _ s => holds good s

/-- A cache is guarded as a part of a larger state too, and leaves the rest alone. -/
theorem Guarded.within {σ τ : Type} {d : Cache σ} {copies : Bool}
    {holds : (CacheKey → Value → Prop) → σ → Prop} (h : Guarded d copies holds) {f : Focus τ σ}
    (hf : ∀ s, f.LawfulAt s) {rest : τ → Prop} (hrest : ∀ s x, rest s → rest (f.set x s)) :
    Guarded (d.within f) copies fun good s => rest s ∧ holds good (f.get s) where
  mono hs hgood := ⟨hs.1, h.mono hs.2 hgood⟩
  put k x hstore hx := by
    refine ((h.put k x hstore hx).focus hf hrest).mono (fun _ hs => hs) ?_
    intro r s hpost
    rcases hpost with ⟨hs, hr, hx⟩
    exact ⟨hr, hs, hx⟩
  get k hcopied := by
    refine ((h.get k hcopied).focus hf hrest).mono (fun _ hs => hs) ?_
    intro r s hpost
    rcases hpost with ⟨hs, hx, hfound⟩
    exact ⟨⟨hs, hx⟩, hfound⟩
  clear good' := by
    refine ((h.clear good').focus hf hrest).mono (fun _ hs => hs) ?_
    intro r s hpost
    rcases hpost with ⟨hs, hr, hx⟩
    exact ⟨hr, hs, hx⟩
  releaseLock k := (h.releaseLock k).focus hf hrest

/-- A cache is guarded below a layer too, and leaves the layer alone. -/
theorem Guarded.under {σ lam : Type} {d : Cache σ} {copies : Bool}
    {holds : (CacheKey → Value → Prop) → σ → Prop} (h : Guarded d copies holds)
    (held : lam → List Value) (own : lam → Prop) :
    Guarded (d.under held) copies fun good s => own s.1 ∧ holds good s.2 :=
  h.within (Focus.lawfulAt_second held) fun _ _ hs => hs

/-! ## Faithful caches -/

/-- The state agrees with an ideal map that has good values only. -/
def HoldsOnly {σ : Type} (agrees : σ → Ideal → Prop) (good : CacheKey → Value → Prop) (s : σ) :
    Prop :=
  ∃ m, agrees s m ∧ ∀ k v, m k = some v → good k v

theorem HoldsOnly.of_empty {σ : Type} {agrees : σ → Ideal → Prop}
    {good : CacheKey → Value → Prop} {s : σ} (h : agrees s .empty) : HoldsOnly agrees good s := by
  refine ⟨.empty, h, ?_⟩
  intro k v heq
  cases heq

/-- A faithful cache is guarded, whichever values are good. -/
theorem Faithful.guarded {σ : Type} {d : Cache σ} {agrees : σ → Ideal → Prop}
    {copies removes : Bool} (h : Faithful d agrees copies removes) :
    Guarded d copies (HoldsOnly agrees) where
  mono := by
    rintro good good' s ⟨m, hm, hs⟩ hgood
    exact ⟨m, hm, fun k v hv => hgood k v (hs k v hv)⟩
  put := by
    intro good k x hstore hx t w hpost
    rcases hpost with ⟨m, hm, hs⟩
    refine (h.put k x hm).mono ?_
    intro r w' hpost
    rcases hpost with ⟨hl, hok⟩
    obtain rfl := hok hstore
    refine ⟨rfl, _, hl.agrees, ?_⟩
    intro k' v hv
    rw [Ideal.afterPut, Ideal.set_apply] at hv
    by_cases hk : k' = k
    · -- the new value
      rw [if_pos hk] at hv
      rw [hk]
      exact hx v hv
    · -- a value from before
      rw [if_neg hk] at hv
      exact hs k' v hv
  get := by
    intro good k hcopied t w hpost
    rcases hpost with ⟨m, hm, hs⟩
    refine (h.get k hm).mono ?_
    intro r w' hpost
    rcases hpost with ⟨hl, hfound⟩
    refine ⟨⟨m, hl.agrees, hs⟩, ?_⟩
    -- What the reader has is a copy of a good value.
    rintro found rfl v rfl
    rcases hfound v rfl with ⟨x, hx, hserved⟩
    exact hcopied k x v _ _ (hs k x hx) hserved
  clear := by
    intro good good' t w hpost
    rcases hpost with ⟨m, hm, hs⟩
    refine (h.clear hm).mono ?_
    intro r w' hpost
    rcases hpost with ⟨hl, hr⟩
    exact ⟨hr, HoldsOnly.of_empty hl.agrees⟩
  releaseLock := by
    intro good k t w hpost
    rcases hpost with ⟨m, hm, hs⟩
    refine (h.releaseLock k hm).mono ?_
    intro r w' hl
    exact ⟨m, hl.agrees, hs⟩

end QueryCache
