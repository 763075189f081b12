import Mathlib
import QueryCache.Cache.Basic
import QueryCache.Proofs.Cache.Operation
import QueryCache.Proofs.Value.RoundTrip

/-!
# Caches that may lose entries but never lie

The ideal map of a cache has, for every key, the value that was put last.  A
cache agrees with an ideal map when everything that it holds stands in the map;
the map may know more, since entries get lost.  A cache is faithful when each
of its calls, however it ends, takes a state that agrees with a map to one that
agrees with the map after the call, and a read gives nothing but what the map
has.

The contract is the same for a store and for every layer, so a stack is
faithful because each of its layers keeps the contract.
-/

namespace QueryCache

/-! ## Ideal maps -/

/-- The value that was put last under each key. -/
abbrev Ideal := CacheKey → Option Value

namespace Ideal

/-- The map without entries. -/
def empty : Ideal := fun _ => none

/-- The first map has no entry that the second one does not have. -/
def Le (m m' : Ideal) : Prop := ∀ k v, m k = some v → m' k = some v

/-- The map with another entry, or none, under a key. -/
def set (m : Ideal) (k : CacheKey) (x : Option Value) : Ideal := Function.update m k x

@[simp]
theorem set_apply (m : Ideal) (k k' : CacheKey) (x : Option Value) :
    m.set k x k' = if k' = k then x else m k' := Function.update_apply ..

theorem empty_le (m : Ideal) : empty.Le m := by
  intro k v h
  cases h

theorem erase_le (m : Ideal) (k : CacheKey) : (m.set k none).Le m := by
  intro k' v h
  rw [set_apply] at h
  split at h
  · cases h
  · exact h

/-- The map after a put: a put that fails stores nothing. -/
def afterPut (m : Ideal) (k : CacheKey) (x : Option Value) : Except CacheError Unit → Ideal
  | .ok _ => m.set k x
  | .error _ => m

end Ideal

/-! ## The contract -/

/-- The cache can store the value: a cache of copies needs a snapshot of it. -/
def Storable (copies : Bool) (x : Option Value) : Prop :=
  copies = true → ∀ v, x = some v → ∃ s, v.toSnapshot = .ok s

/-- A cache that hands out the values themselves can store anything. -/
theorem storable_of_not_copies (x : Option Value) : Storable false x := by
  intro h
  cases h

theorem storable_none (copies : Bool) : Storable copies none := by
  rintro - v ⟨⟩

/-- What a read that runs from one environment to another gives for a value that
was put: the value itself, or else a new serializable value with a copy of its
data. -/
def Served (copies : Bool) (e e' : Environment) (v u : Value) : Prop :=
  if copies then
    ∃ a d a' d', v = .data a d true ∧ u = .data a' d' true ∧ e.nextAlloc ≤ a' ∧
      a' < e'.nextAlloc ∧ d'.IsCopyOf d
  else u = v

theorem Served.widen {copies : Bool} {e₁ e₂ e₃ e₄ : Environment} {v u : Value}
    (h : Served copies e₂ e₃ v u) (h₁ : e₁.Before e₂) (h₃ : e₃.Before e₄) :
    Served copies e₁ e₄ v u := by
  unfold Served at h ⊢
  cases copies with
  | false => exact h
  | true =>
    rcases h with ⟨a, d, a', d', hv, hu, hl, hr, hc⟩
    exact ⟨a, d, a', d', hv, hu, le_trans h₁.nextAlloc_le hl, lt_of_lt_of_le hr h₃.nextAlloc_le, hc⟩

variable {σ lam : Type}

/-- A call left a cache that agrees with an ideal map, at a later time. -/
structure Leaves (agrees : σ → Ideal → Prop) (m : Ideal) (w w' : World σ) : Prop where
  before : w.env.Before w'.env
  agrees : agrees w'.state m

/-- What a read found is what the ideal map has. -/
def Found (copies : Bool) (m : Ideal) (k : CacheKey) (e e' : Environment)
    (r : Except CacheError (Option Value)) : Prop :=
  ∀ u, r = .ok (some u) → ∃ v, m k = some v ∧ Served copies e e' v u

theorem found_none {copies : Bool} {m : Ideal} {k : CacheKey} {e e' : Environment} :
    Found copies m k e e' (.ok none) := by
  intro u h
  cases h

theorem found_error {copies : Bool} {m : Ideal} {k : CacheKey} {e e' : Environment}
    {err : CacheError} : Found copies m k e e' (.error err) := by
  intro u h
  cases h

/-- The read started earlier and ended later. -/
theorem Found.widen {copies : Bool} {m : Ideal} {k : CacheKey} {e₁ e₂ e₃ e₄ : Environment}
    {r : Except CacheError (Option Value)} (h : Found copies m k e₂ e₃ r) (h₁ : e₁.Before e₂)
    (h₃ : e₃.Before e₄) : Found copies m k e₁ e₄ r := by
  intro u hu
  rcases h u hu with ⟨v, hv, hserved⟩
  exact ⟨v, hv, hserved.widen h₁ h₃⟩

/-- Without copies in between, a read found the very value of the map. -/
theorem Found.apply_eq {m : Ideal} {k : CacheKey} {e e' : Environment} {found : Option Value}
    (h : Found false m k e e' (.ok found)) {u : Value} (hu : found = some u) : m k = some u := by
  subst hu
  rcases h u rfl with ⟨v, hv, hserved⟩
  have huv : u = v := hserved
  rw [huv]
  exact hv

/-- The cache never lies.  `copies`: a reader gets copies.  `removes`: a removal
takes the key out. -/
structure Faithful (d : Cache σ) (agrees : σ → Ideal → Prop) (copies removes : Bool) : Prop where
  /-- A state that agrees with a map agrees with every larger one: entries get lost. -/
  mono : ∀ {s m m'}, agrees s m → m.Le m' → agrees s m'
  put : ∀ {t w m} k x, agrees w.state m → (d.put k x).Meets t w fun r w' =>
    Leaves agrees (m.afterPut k x r) w w' ∧ (Storable copies x → r = .ok ())
  get : ∀ {t w m} k, agrees w.state m → (d.get k).Meets t w fun r w' =>
    Leaves agrees m w w' ∧ Found copies m k w.env w'.env r
  remove : ∀ {t w m} k, agrees w.state m → (d.remove k).Meets t w fun r w' =>
    Leaves agrees (if removes then m.set k none else m) w w' ∧ Found copies m k w.env w'.env r ∧
      (copies = false → ∃ u, r = .ok u)
  clear : ∀ {t w m}, agrees w.state m → d.clear.Meets t w fun r w' =>
    Leaves agrees .empty w w' ∧ r = .ok ()
  size : ∀ {t w m}, agrees w.state m → d.size.Meets t w fun _ w' => Leaves agrees m w w'
  releaseLock : ∀ {t w m} k, agrees w.state m → (d.releaseLock k).Meets t w fun _ w' =>
    Leaves agrees m w w'

namespace Leaves

variable {agrees : σ → Ideal → Prop} {m m' : Ideal} {w w' w'' : World σ}

/-- Nothing happened. -/
theorem rfl' (h : agrees w.state m) : Leaves agrees m w w := ⟨.refl _, h⟩

/-- The call started later. -/
theorem after (h : Leaves agrees m w' w'') (hb : w.env.Before w'.env) : Leaves agrees m w w'' :=
  ⟨hb.trans h.before, h.agrees⟩

end Leaves

/-- A removal from a cache of values never fails. -/
theorem Faithful.remove_ok {d : Cache σ} {agrees : σ → Ideal → Prop} {t : Thread} {w : World σ}
    {m : Ideal} (h : Faithful d agrees false true) (k : CacheKey) (hm : agrees w.state m) :
    (d.remove k).Meets t w fun r w' => ∃ found, r = .ok found ∧ Leaves agrees (m.set k none) w w' ∧
      ∀ u, found = some u → m k = some u := by
  refine (h.remove k hm).mono ?_
  intro r w' hpost
  rcases hpost with ⟨hl, hf, hok⟩
  rcases hok rfl with ⟨found, rfl⟩
  exact ⟨found, rfl, hl, fun u hu => hf.apply_eq hu⟩

/-! ## The cache below a layer -/

/-- The cache below a layer agrees with a map when it does so by itself. -/
def agreesBelow (agrees : σ → Ideal → Prop) (s : lam × σ) (m : Ideal) : Prop := agrees s.2 m

/-- A cache is faithful as part of a larger state too. -/
theorem Faithful.under {d : Cache σ} {agrees : σ → Ideal → Prop} {copies removes : Bool}
    (h : Faithful d agrees copies removes) (held : lam → List Value) :
    Faithful (d.under held) (agreesBelow agrees) copies removes where
  mono := h.mono
  put {t w m} k x hm := by
    have hput := h.put (t := t) (w := (Focus.second held).narrow w) k x hm
    refine Await.Meets.focus (Focus.lawfulAt_second ..) (hput.mono ?_)
    intro r w' hpost
    rcases hpost with ⟨hl, hok⟩
    exact ⟨⟨hl.before, hl.agrees⟩, hok⟩
  get {t w m} k hm := by
    have hget := h.get (t := t) (w := (Focus.second held).narrow w) k hm
    refine Await.Meets.focus (Focus.lawfulAt_second ..) (hget.mono ?_)
    intro r w' hpost
    rcases hpost with ⟨hl, hf⟩
    exact ⟨⟨hl.before, hl.agrees⟩, hf⟩
  remove {t w m} k hm := by
    have hremove := h.remove (t := t) (w := (Focus.second held).narrow w) k hm
    refine Await.Meets.focus (Focus.lawfulAt_second ..) (hremove.mono ?_)
    intro r w' hpost
    rcases hpost with ⟨hl, hf, hok⟩
    exact ⟨⟨hl.before, hl.agrees⟩, hf, hok⟩
  clear {t w m} hm := by
    have hclear := h.clear (t := t) (w := (Focus.second held).narrow w) hm
    refine Await.Meets.focus (Focus.lawfulAt_second ..) (hclear.mono ?_)
    intro r w' hpost
    rcases hpost with ⟨hl, hok⟩
    exact ⟨⟨hl.before, hl.agrees⟩, hok⟩
  size {t w m} hm := by
    have hsize := h.size (t := t) (w := (Focus.second held).narrow w) hm
    refine Await.Meets.focus (Focus.lawfulAt_second ..) (hsize.mono ?_)
    intro r w' hl
    exact ⟨hl.before, hl.agrees⟩
  releaseLock {t w m} k hm := by
    have hrelease := h.releaseLock (t := t) (w := (Focus.second held).narrow w) k hm
    refine Op.Meets.focus (hrelease.mono ?_)
    intro r w' hl
    exact ⟨hl.before, hl.agrees⟩

/-! ## Steps of a layer of its own -/

namespace Await.Meets

variable {ε α β : Type} {t : Thread} {w : World (lam × σ)} {f : α → Await ε (lam × σ) β}
  {post : Except ε β → World (lam × σ) → Prop}

/-- The layer changes its own state and goes on. -/
theorem bind_updateLayer {g : lam → α × lam}
    (h : (f (g w.state.1).1).Meets t ⟨w.env, ((g w.state.1).2, w.state.2)⟩ post) :
    (Await.ofOp (Op.updateLayer g) >>= f).Meets t w post :=
  bind_ofOp fun _ _ => h

theorem bind_modifyLayer {g : lam → lam} {f : Unit → Await ε (lam × σ) β}
    (h : (f ()).Meets t ⟨w.env, (g w.state.1, w.state.2)⟩ post) :
    (Await.ofOp (Op.modifyLayer g) >>= f).Meets t w post :=
  bind_ofOp fun _ _ => h

/-- The layer changes its own state at the end. -/
theorem modifyLayer {g : lam → lam} {post : Except ε Unit → World (lam × σ) → Prop}
    (h : post (.ok ()) ⟨w.env, (g w.state.1, w.state.2)⟩) :
    (Await.ofOp (Op.modifyLayer g)).Meets t w post :=
  ofOp fun _ _ => h

theorem ofExcept {r : Except ε α} {post : Except ε α → World σ → Prop} {w : World σ}
    (h : post r w) : (Await.ofOp (Op.ofExcept r)).Meets t w post :=
  ofOp fun _ _ => h

end Await.Meets

end QueryCache
