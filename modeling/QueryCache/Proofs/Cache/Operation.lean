import Mathlib
import QueryCache.Cache.Basic

/-!
# Reasoning about operations

`Meets` says that an operation, made by a thread as one whole call, can come to
no other end than one that satisfies a postcondition.  The caller may hold any
values, and while the call waits time passes, allocations are made elsewhere
and the handles of references change, but nobody touches the state.

1. later environments
2. the end of a whole call: `Settles`
3. the postcondition of an operation: `Meets`
4. a rule for each way to build an operation
5. operations whose result is known
-/

namespace QueryCache

/-! ## Later environments -/

/-- The environment may have become the other one: neither the clock nor the
supply of allocations goes back. -/
structure Environment.Before (e e' : Environment) : Prop where
  now_le : e.now ≤ e'.now
  nextAlloc_le : e.nextAlloc ≤ e'.nextAlloc

namespace Environment.Before

@[refl]
theorem refl (e : Environment) : e.Before e := ⟨le_refl _, le_refl _⟩

@[trans]
theorem trans {e₁ e₂ e₃ : Environment} (h : e₁.Before e₂) (h' : e₂.Before e₃) : e₁.Before e₃ :=
  ⟨le_trans h.now_le h'.now_le, le_trans h.nextAlloc_le h'.nextAlloc_le⟩

end Environment.Before

/-! ## The end of a whole call -/

/-- The wait is over: the operation may go on, or its deadline has come. -/
def Wait.IsOver {σ : Type} (a : Wait σ) (w : World σ) : Prop :=
  a.ready w = true ∨ ∃ d, a.deadline = some d ∧ d ≤ w.env.now

/-- A call of a thread that is at an outcome comes to an end, with nobody else
touching the state. -/
inductive Outcome.Settles {ε σ α : Type} (t : Thread) :
    Outcome ε σ α → Except ε α → World σ → Prop where
  | done (r : Except ε α) (w : World σ) : Settles t (.done r w) r w
  | waiting {w w' : World σ} {wait : Wait σ} {resume : Caller → World σ → Outcome ε σ α}
      {c : Caller} {e : Environment} {r : Except ε α} (hc : c.thread = t) (he : w.env.Before e)
      (hw : wait.IsOver ⟨e, w.state⟩) (h : Settles t (resume c ⟨e, w.state⟩) r w') :
      Settles t (.waiting w wait resume) r w'

/-- A call that has come to its end has settled. -/
theorem Outcome.settles_of_eq {ε σ α : Type} {t : Thread} {o : Outcome ε σ α} {r : Except ε α}
    {w : World σ} (h : o = .done r w) : o.Settles t r w := by
  rw [h]
  exact .done r w

/-- Every end of a call that is at an outcome satisfies the postcondition. -/
def Outcome.Meets {ε σ α : Type} (t : Thread) (post : Except ε α → World σ → Prop) :
    Outcome ε σ α → Prop
  | .done r w => post r w
  | .waiting w wait resume => ∀ c e, c.thread = t → w.env.Before e → wait.IsOver ⟨e, w.state⟩ →
      (resume c ⟨e, w.state⟩).Meets t post

/-- The postcondition holds at the end of every whole call. -/
theorem Outcome.Meets.settles {ε σ α : Type} {t : Thread} {post : Except ε α → World σ → Prop}
    {o : Outcome ε σ α} {r : Except ε α} {w : World σ} (h : o.Meets t post) (hs : o.Settles t r w) :
    post r w := by
  induction hs with
  | done r w => exact h
  | waiting hc he hw _ ih => exact ih (h _ _ hc he hw)

theorem Outcome.Meets.mono {ε σ α : Type} {t : Thread} {p q : Except ε α → World σ → Prop}
    {o : Outcome ε σ α} (h : o.Meets t p) (hpq : ∀ r w, p r w → q r w) : o.Meets t q := by
  induction o with
  | done r w => exact hpq r w h
  | waiting w wait resume ih =>
    intro c e hc he hw
    exact ih c ⟨e, w.state⟩ (h c e hc he hw)

/-- Two postconditions of one call hold together. -/
theorem Outcome.Meets.and {ε σ α : Type} {t : Thread} {p q : Except ε α → World σ → Prop}
    {o : Outcome ε σ α} (hp : o.Meets t p) (hq : o.Meets t q) :
    o.Meets t fun r w => p r w ∧ q r w := by
  induction o with
  | done r w => exact ⟨hp, hq⟩
  | waiting w wait resume ih =>
    intro c e hc he hw
    exact ih c ⟨e, w.state⟩ (hp c e hc he hw) (hq c e hc he hw)

/-! ## Postconditions -/

/-- The operation, made by a thread in a world, ends as the postcondition says. -/
def Op.Meets {ε σ α : Type} (m : Op ε σ α) (t : Thread) (w : World σ)
    (post : Except ε α → World σ → Prop) : Prop :=
  ∀ c : Caller, c.thread = t → post (m c w).1 (m c w).2

/-- The call, made by a thread in a world, can only end as the postcondition says. -/
def Await.Meets {ε σ α : Type} (m : Await ε σ α) (t : Thread) (w : World σ)
    (post : Except ε α → World σ → Prop) : Prop :=
  ∀ c : Caller, c.thread = t → (m c w).Meets t post

/-- What has to hold after the first of two operations: the postcondition of
the second one if there is a value, or else that of both. -/
def thenMeets {ε σ α β : Type} (f : α → Await ε σ β) (t : Thread)
    (post : Except ε β → World σ → Prop) : Except ε α → World σ → Prop
  | .ok a, w => (f a).Meets t w post
  | .error e, w => post (.error e) w

namespace Await.Meets

variable {ε ε' σ τ α β : Type} {t : Thread} {w : World σ}

/-! ## Rules -/

theorem mono {m : Await ε σ α} {p q : Except ε α → World σ → Prop} (h : m.Meets t w p)
    (hpq : ∀ r w, p r w → q r w) : m.Meets t w q := by
  intro c hc
  exact (h c hc).mono hpq

theorem and {m : Await ε σ α} {p q : Except ε α → World σ → Prop} (hp : m.Meets t w p)
    (hq : m.Meets t w q) : m.Meets t w fun r w' => p r w' ∧ q r w' := by
  intro c hc
  exact (hp c hc).and (hq c hc)

theorem ofOp {m : Op ε σ α} {post : Except ε α → World σ → Prop} (h : m.Meets t w post) :
    (Await.ofOp m).Meets t w post := h

theorem pure {a : α} {post : Except ε α → World σ → Prop} (h : post (.ok a) w) :
    (Pure.pure a : Await ε σ α).Meets t w post := by
  intro _ _
  exact h

theorem bind {m : Await ε σ α} {f : α → Await ε σ β} {post : Except ε β → World σ → Prop}
    (h : m.Meets t w (thenMeets f t post)) : (m >>= f).Meets t w post := by
  intro c hc
  have hm : (m c w).Meets t (thenMeets f t post) := h c hc
  show ((m c w).bind f c).Meets t post
  generalize m c w = o at hm
  -- The continuation runs for whoever resumes the first operation.
  induction o generalizing c with
  | done r w =>
    cases r with
    | ok a => exact hm c hc
    | error e => exact hm
  | waiting w wait resume ih =>
    intro c' e hc' he hw
    exact ih c' ⟨e, w.state⟩ c' hc' (hm c' e hc' he hw)

/-- The rule of sequence with an assertion in between. -/
theorem bind_of {m : Await ε σ α} {f : α → Await ε σ β} {mid : Except ε α → World σ → Prop}
    {post : Except ε β → World σ → Prop} (hm : m.Meets t w mid)
    (hok : ∀ a w', mid (.ok a) w' → (f a).Meets t w' post)
    (herr : ∀ e w', mid (.error e) w' → post (.error e) w') : (m >>= f).Meets t w post := by
  refine bind (hm.mono ?_)
  intro r w' h
  cases r with
  | ok a => exact hok a w' h
  | error e => exact herr e w' h

/-- The rule of sequence after an operation that does not wait. -/
theorem bind_ofOp {m : Op ε σ α} {f : α → Await ε σ β} {post : Except ε β → World σ → Prop}
    (h : m.Meets t w (thenMeets f t post)) : (Await.ofOp m >>= f).Meets t w post :=
  bind (ofOp h)

theorem result {m : Await ε σ α} {post : Except ε' (Except ε α) → World σ → Prop}
    (h : m.Meets t w fun r w' => post (.ok r) w') : m.result.Meets t w post := by
  intro c hc
  have hm := h c hc
  show (m c w).result.Meets t post
  generalize m c w = o at hm
  induction o with
  | done r w => exact hm
  | waiting w wait resume ih =>
    intro c' e hc' he hw
    exact ih c' ⟨e, w.state⟩ (hm c' e hc' he hw)

theorem mapError {m : Await ε σ α} {f : ε → ε'} {post : Except ε' α → World σ → Prop}
    (h : m.Meets t w fun r w' => post (r.mapError f) w') : (m.mapError f).Meets t w post := by
  intro c hc
  have hm := h c hc
  show ((m c w).mapError f).Meets t post
  generalize m c w = o at hm
  induction o with
  | done r w => exact hm
  | waiting w wait resume ih =>
    intro c' e hc' he hw
    exact ih c' ⟨e, w.state⟩ (hm c' e hc' he hw)

/-- Whatever the caller holds besides makes no difference. -/
theorem holding {m : Await ε σ α} {values : List Value} {post : Except ε α → World σ → Prop}
    (h : m.Meets t w post) : (m.holding values).Meets t w post := by
  intro c hc
  have hm := h (c.holding values) hc
  show ((m (c.holding values) w).holding values).Meets t post
  generalize m (c.holding values) w = o at hm
  induction o with
  | done r w => exact hm
  | waiting w wait resume ih =>
    intro c' e hc' he hw
    exact ih (c'.holding values) ⟨e, w.state⟩ (hm (c'.holding values) e hc' he hw)

/-- A call that waits for a condition of the state alone goes on where it
stood, unless it waits for ever. -/
theorem waitFor {ready : σ → Bool} {post : Except ε Unit → World σ → Prop}
    (h : ∀ e, w.env.Before e → post (.ok ()) ⟨e, w.state⟩) :
    (Await.waitFor ready).Meets t w post := by
  intro c hc
  unfold Await.waitFor
  split
  · exact h w.env (.refl _)
  · intro c' e _ he _
    exact h e he

end Await.Meets

/-! ## Operations that do not wait -/

namespace Op.Meets

variable {ε ε' σ τ α β : Type} {t : Thread} {w : World σ}

theorem mono {m : Op ε σ α} {p q : Except ε α → World σ → Prop} (h : m.Meets t w p)
    (hpq : ∀ r w, p r w → q r w) : m.Meets t w q := by
  intro c hc
  exact hpq _ _ (h c hc)

/-- The rule of sequence with an assertion in between. -/
theorem bind_of {m : Op ε σ α} {f : α → Op ε σ β} {mid : Except ε α → World σ → Prop}
    {post : Except ε β → World σ → Prop} (hm : m.Meets t w mid)
    (hok : ∀ a w', mid (.ok a) w' → (f a).Meets t w' post)
    (herr : ∀ e w', mid (.error e) w' → post (.error e) w') : (m >>= f).Meets t w post := by
  intro c hc
  have h := hm c hc
  show post (Op.bind m f c w).1 (Op.bind m f c w).2
  unfold Op.bind
  cases hr : m c w with
  | mk r w' =>
    rw [hr] at h
    cases r with
    | ok a => exact hok a w' h c hc
    | error e => exact herr e w' h

end Op.Meets

/-! ## Operations whose result is known -/

theorem Op.bind_of_ok {ε σ α β : Type} {m : Op ε σ α} {f : α → Op ε σ β} {c : Caller}
    {w w' : World σ} {a : α} (h : m c w = (.ok a, w')) : (m >>= f) c w = f a c w' := by
  show Op.bind m f c w = f a c w'
  rw [Op.bind, h]

theorem Op.bind_of_error {ε σ α β : Type} {m : Op ε σ α} {f : α → Op ε σ β} {c : Caller}
    {w w' : World σ} {e : ε} (h : m c w = (.error e, w')) : (m >>= f) c w = (.error e, w') := by
  show Op.bind m f c w = (.error e, w')
  rw [Op.bind, h]

theorem Op.mapError_of_ok {ε ε' σ α : Type} {m : Op ε σ α} {f : ε → ε'} {c : Caller}
    {w w' : World σ} {a : α} (h : m c w = (.ok a, w')) : m.mapError f c w = (.ok a, w') := by
  show ((m c w).1.mapError f, (m c w).2) = (.ok a, w')
  rw [h]
  rfl

theorem Op.mapError_of_error {ε ε' σ α : Type} {m : Op ε σ α} {f : ε → ε'} {c : Caller}
    {w w' : World σ} {e : ε} (h : m c w = (.error e, w')) :
    m.mapError f c w = (.error (f e), w') := by
  show ((m c w).1.mapError f, (m c w).2) = (.error (f e), w')
  rw [h]
  rfl

theorem Await.bind_of_done {ε σ α β : Type} {m : Await ε σ α} {f : α → Await ε σ β} {c : Caller}
    {w w' : World σ} {a : α} (h : m c w = .done (.ok a) w') : (m >>= f) c w = f a c w' := by
  show (m c w).bind f c = f a c w'
  rw [h]
  rfl

theorem Await.bind_of_failed {ε σ α β : Type} {m : Await ε σ α} {f : α → Await ε σ β}
    {c : Caller} {w w' : World σ} {e : ε} (h : m c w = .done (.error e) w') :
    (m >>= f) c w = .done (.error e) w' := by
  show (m c w).bind f c = .done (.error e) w'
  rw [h]
  rfl

theorem Await.holding_of_done {ε σ α : Type} {m : Await ε σ α} {values : List Value} {c : Caller}
    {w w' : World σ} {r : Except ε α} (h : m (c.holding values) w = .done r w') :
    m.holding values c w = .done r w' := by
  rw [Await.holding, h]
  rfl

theorem Await.result_of_done {ε ε' σ α : Type} {m : Await ε σ α} {c : Caller} {w w' : World σ}
    {r : Except ε α} (h : m c w = .done r w') :
    (m.result : Await ε' σ (Except ε α)) c w = .done (.ok r) w' := by
  rw [Await.result, h]
  rfl

theorem Await.ofOp_of_eq {ε σ α : Type} {m : Op ε σ α} {c : Caller} {w w' : World σ}
    {r : Except ε α} (h : m c w = (r, w')) : Await.ofOp m c w = .done r w' := by
  show Outcome.done (m c w).1 (m c w).2 = .done r w'
  rw [h]

theorem Op.ofExcept_run {ε σ α : Type} {r : Except ε α} {c : Caller} {w : World σ} :
    (ofExcept r : Op ε σ α) c w = (r, w) := rfl

theorem Op.layer_run {ε lam σ : Type} {c : Caller} {e : Environment} {l : lam} {y : σ} :
    (layer : Op ε (lam × σ) lam) c ⟨e, (l, y)⟩ = (.ok l, ⟨e, (l, y)⟩) := rfl

theorem Await.layer_run {ε lam σ : Type} {c : Caller} {e : Environment} {l : lam} {y : σ} :
    (ofOp Op.layer : Await ε (lam × σ) lam) c ⟨e, (l, y)⟩ = .done (.ok l) ⟨e, (l, y)⟩ := rfl

/-! ## Operations on a part of the state -/

/-- The part can be read back after it was set, and set again. -/
structure Focus.LawfulAt {τ σ : Type} (f : Focus τ σ) (outer : τ) : Prop where
  get_set : ∀ s, f.get (f.set s outer) = s
  set_set : ∀ s s', f.set s' (f.set s outer) = f.set s' outer

theorem Focus.lawfulAt_second {lam σ : Type} (held : lam → List Value) (outer : lam × σ) :
    (Focus.second held).LawfulAt outer := ⟨fun _ => rfl, fun _ _ => rfl⟩

/-- An operation on the part below, whose end is known, leaves the layer as it is. -/
theorem Focus.run_second {ε lam σ α : Type} {held : lam → List Value} {m : Op ε σ α} {c : Caller}
    {e e' : Environment} {l : lam} {y y' : σ} {r : Except ε α}
    (h : m ((second held).caller (l, y) c) ⟨e, y⟩ = (r, ⟨e', y'⟩)) :
    (second held).run m c ⟨e, (l, y)⟩ = (r, ⟨e', (l, y')⟩) := by
  have hnarrow : (second held).narrow (⟨e, (l, y)⟩ : World (lam × σ)) = ⟨e, y⟩ := rfl
  rw [Focus.run, hnarrow, h]
  rfl

/-- A call on the part that ends at once. -/
theorem Focus.await_of_done {ε τ σ α : Type} {f : Focus τ σ} {m : Await ε σ α} {c : Caller}
    {w : World τ} {w' : World σ} {r : Except ε α}
    (h : m (f.caller w.state c) (f.narrow w) = .done r w') :
    f.await m c w = .done r (f.widen w.state w') := by
  rw [Focus.await, h]
  rfl

/-- A call on the part below that ends at once leaves the layer as it is. -/
theorem Focus.await_second {ε lam σ α : Type} {held : lam → List Value} {m : Await ε σ α}
    {c : Caller} {e e' : Environment} {l : lam} {y y' : σ} {r : Except ε α}
    (h : m ((second held).caller (l, y) c) ⟨e, y⟩ = .done r ⟨e', y'⟩) :
    (second held).await m c ⟨e, (l, y)⟩ = .done r ⟨e', (l, y')⟩ :=
  await_of_done (f := second held) (w := ⟨e, (l, y)⟩) h

theorem Op.Meets.focus {ε τ σ α : Type} {f : Focus τ σ} {m : Op ε σ α} {t : Thread} {w : World τ}
    {post : Except ε α → World τ → Prop}
    (h : m.Meets t (f.narrow w) fun r w' => post r (f.widen w.state w')) :
    (f.run m).Meets t w post := by
  intro c hc
  exact h (f.caller w.state c) hc

/-- Setting the part leaves a state in which the laws hold again. -/
theorem Focus.LawfulAt.set {τ σ : Type} {f : Focus τ σ} {outer : τ} (h : f.LawfulAt outer)
    (s : σ) : f.LawfulAt (f.set s outer) := by
  constructor
  · intro s'
    rw [h.set_set, h.get_set]
  · intro s₁ s₂
    rw [h.set_set, h.set_set, h.set_set]

theorem Outcome.Meets.widen {ε τ σ α : Type} {f : Focus τ σ} {t : Thread} {o : Outcome ε σ α}
    {outer : τ} {post : Except ε α → World τ → Prop} (hf : f.LawfulAt outer)
    (h : o.Meets t fun r w => post r (f.widen outer w)) : (o.widen f outer).Meets t post := by
  induction o generalizing outer with
  | done r w => exact h
  | waiting w wait resume ih =>
    intro c e hc he hw
    have hn : f.narrow ⟨e, f.set w.state outer⟩ = ⟨e, w.state⟩ := by
      rw [Focus.narrow, hf.get_set]
    have hwait : wait.IsOver ⟨e, w.state⟩ := by
      rw [← hn]
      exact hw
    show ((resume _ (f.narrow ⟨e, f.set w.state outer⟩)).widen f (f.set w.state outer)).Meets t post
    rw [hn]
    have hresume := h (f.caller (f.set w.state outer) c) e hc he hwait
    refine ih _ _ (hf.set w.state) (hresume.mono ?_)
    intro r w' hp
    -- The state around the part is the same as at the start of the call.
    rw [Focus.widen, hf.set_set]
    exact hp

theorem Await.Meets.focus {ε τ σ α : Type} {f : Focus τ σ} {m : Await ε σ α} {t : Thread}
    {w : World τ} {post : Except ε α → World τ → Prop} (hf : f.LawfulAt w.state)
    (h : m.Meets t (f.narrow w) fun r w' => post r (f.widen w.state w')) :
    (f.await m).Meets t w post := by
  intro c hc
  exact (h (f.caller w.state c) hc).widen hf

end QueryCache
