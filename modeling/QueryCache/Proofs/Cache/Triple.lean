import Mathlib
import QueryCache.Cache.Basic
import QueryCache.Proofs.Cache.Operation

/-!
# Triples of operations

A triple says from which states an operation comes to which results and states,
whoever makes it and however long it waits.  Operations that keep an invariant
compose without a word about the states in between, so most triples have the
same invariant before and after and say more only about a value.

1. triples of operations that end
2. triples of calls that may wait
3. calls that keep an invariant
-/

namespace QueryCache

variable {ε ε' σ lam α β : Type}

/-- The invariant holds, and a value is as stated. -/
def Keeping (inv : σ → Prop) (good : α → Prop) (r : Except ε α) (s : σ) : Prop :=
  inv s ∧ ∀ a, r = .ok a → good a

theorem Keeping.error {inv : σ → Prop} {good : α → Prop} {e : ε} {s : σ} (h : inv s) :
    Keeping inv good (.error e) s := by
  refine ⟨h, ?_⟩
  intro a heq
  cases heq

/-- Another error makes no difference. -/
theorem Keeping.mapError {inv : σ → Prop} {good : α → Prop} {r : Except ε α} {s : σ} (f : ε → ε')
    (h : Keeping inv good r s) : Keeping inv good (r.mapError f) s := by
  cases r with
  | ok a =>
    refine ⟨h.1, ?_⟩
    intro b heq
    cases heq
    exact h.2 a rfl
  | error e => exact .error h.1

/-- If there is an error, then one that is expected. -/
def FailsOnlyAs (expected : ε → Prop) (r : Except ε α) : Prop := ∀ e, r = .error e → expected e

theorem FailsOnlyAs.of_ok {expected : ε → Prop} (a : α) :
    FailsOnlyAs expected (.ok a : Except ε α) := by
  intro e heq
  cases heq

theorem FailsOnlyAs.of_error {expected : ε → Prop} {e : ε} (h : expected e) :
    FailsOnlyAs expected (.error e : Except ε α) := by
  rintro _ ⟨⟩
  exact h

theorem FailsOnlyAs.mapError {expected : ε → Prop} {expected' : ε' → Prop} {f : ε → ε'}
    {r : Except ε α} (h : FailsOnlyAs expected r) (hf : ∀ e, expected e → expected' (f e)) :
    FailsOnlyAs expected' (r.mapError f) := by
  cases r with
  | ok a => exact .of_ok a
  | error e => exact .of_error (hf e (h e rfl))

/-! ## Operations that end -/

/-- From a state that satisfies `pre` the operation ends as `post` says. -/
def Op.Hoare (pre : σ → Prop) (m : Op ε σ α) (post : Except ε α → σ → Prop) : Prop :=
  ∀ t w, pre w.state → m.Meets t w fun r w' => post r w'.state

namespace Op.Hoare

variable {pre : σ → Prop} {m : Op ε σ α} {post : Except ε α → σ → Prop}

theorem mono {pre' : σ → Prop} {post' : Except ε α → σ → Prop} (h : m.Hoare pre post)
    (hpre : ∀ s, pre' s → pre s) (hpost : ∀ r s, post r s → post' r s) : m.Hoare pre' post' := by
  intro t w hw
  exact (h t w (hpre _ hw)).mono fun r w' => hpost r w'.state

theorem bind {f : α → Op ε σ β} {mid : Except ε α → σ → Prop} {post : Except ε β → σ → Prop}
    (hm : m.Hoare pre mid) (hok : ∀ a, (f a).Hoare (mid (.ok a)) post)
    (herr : ∀ e s, mid (.error e) s → post (.error e) s) : (m >>= f).Hoare pre post := by
  intro t w hw
  refine Op.Meets.bind_of (hm t w hw) ?_ ?_
  · intro a w' hmid
    exact hok a t w' hmid
  · intro e w' hmid
    exact herr e w'.state hmid

/-- An operation that gives a known value is followed by another one. -/
theorem bind_ok {f : α → Op ε σ β} {a : α} {mid : σ → Prop} {post : Except ε β → σ → Prop}
    (hm : m.Hoare pre fun r s => r = .ok a ∧ mid s) (hf : (f a).Hoare mid post) :
    (m >>= f).Hoare pre post := by
  refine bind hm ?_ ?_
  · intro a' t w h
    rcases h with ⟨ha, hw⟩
    cases ha
    exact hf t w hw
  · intro e s h
    rcases h with ⟨he, -⟩
    cases he

/-- Two operations that keep the same invariant. -/
theorem bind_keeping {inv : σ → Prop} {f : α → Op ε σ β} {good : α → Prop} {good' : β → Prop}
    (hm : m.Hoare inv (Keeping inv good))
    (hf : ∀ a, good a → (f a).Hoare inv (Keeping inv good')) :
    (m >>= f).Hoare inv (Keeping inv good') := by
  refine bind hm ?_ ?_
  · intro a t w hw
    exact hf a (hw.2 a rfl) t w hw.1
  · intro e s hs
    exact .error hs.1

theorem pure {a : α} (h : ∀ s, pre s → post (.ok a) s) :
    (Pure.pure a : Op ε σ α).Hoare pre post := by
  intro t w hw c _
  exact h w.state hw

theorem ofExcept {r : Except ε α} (h : ∀ s, pre s → post r s) : (Op.ofExcept r).Hoare pre post := by
  intro t w hw c _
  exact h w.state hw

theorem fail {e : ε} (h : ∀ s, pre s → post (.error e) s) :
    (Op.fail e : Op ε σ α).Hoare pre post := by
  intro t w hw c _
  exact h w.state hw

/-- An operation goes on with the result of another one, whether or not that failed. -/
theorem bind_result {f : Except ε α → Op ε' σ β} {mid : Except ε α → σ → Prop}
    {post : Except ε' β → σ → Prop} (hm : m.Hoare pre mid) (hf : ∀ r, (f r).Hoare (mid r) post) :
    (m.result >>= f).Hoare pre post := by
  intro t w hw c hc
  exact hf _ t _ (hm t w hw c hc) c hc

theorem mapError {f : ε → ε'} {post : Except ε' α → σ → Prop}
    (h : m.Hoare pre fun r => post (r.mapError f)) : (m.mapError f).Hoare pre post := by
  intro t w hw c hc
  exact h t w hw c hc

/-- An operation that cannot fail is followed by another one. -/
theorem bind_ofSafe {m : Op Empty σ α} {f : α → Op ε σ β} {mid : σ → Prop}
    {post : Except ε β → σ → Prop} (hm : m.Hoare pre fun _ s => mid s)
    (hf : ∀ a, (f a).Hoare mid post) : (Op.ofSafe m >>= f).Hoare pre post := by
  -- The result of `m` is a value, since there is no error in `Empty`.
  have hsafe : (Op.ofSafe m : Op ε σ α).Hoare pre fun r s => (∃ a, r = .ok a) ∧ mid s := by
    refine mapError (hm.mono (fun _ hs => hs) ?_)
    intro r s hs
    cases r with
    | ok a => exact ⟨⟨a, rfl⟩, hs⟩
    | error e => exact e.elim
  refine bind hsafe (fun a => (hf a).mono (fun _ hs => hs.2) fun _ _ hs => hs) ?_
  intro e s h
  rcases h with ⟨⟨a, ha⟩, -⟩
  cases ha

/-- An operation that keeps an invariant keeps it when its errors change. -/
theorem mapError_keeping {f : ε → ε'} {inv : σ → Prop} {good : α → Prop}
    (h : m.Hoare pre (Keeping inv good)) : (m.mapError f).Hoare pre (Keeping inv good) := by
  exact mapError (h.mono (fun _ hs => hs) fun _ _ hs => hs.mapError f)

theorem bind_state {f : σ → Op ε σ β} {post : Except ε β → σ → Prop}
    (h : ∀ x, (f x).Hoare (fun s => s = x ∧ pre s) post) : (Op.state >>= f).Hoare pre post := by
  intro t w hw c hc
  exact h w.state t w ⟨rfl, hw⟩ c hc

/-- An operation on a part of the state leaves the rest as it was. -/
theorem focus {τ : Type} {f : Focus τ σ} {rest : τ → Prop} (hf : ∀ s, f.LawfulAt s)
    (hrest : ∀ s x, rest s → rest (f.set x s)) (h : m.Hoare pre post) :
    (f.run m).Hoare (fun s => rest s ∧ pre (f.get s)) fun r s => rest s ∧ post r (f.get s) := by
  intro t w hw
  refine Op.Meets.focus ((h t _ hw.2).mono ?_)
  intro r w' hpost
  refine ⟨hrest _ _ hw.1, ?_⟩
  rw [Focus.widen, (hf w.state).get_set]
  exact hpost

/-- An operation on the part below leaves a layer as it was. -/
theorem second {m : Op ε σ α} {held : lam → List Value} {own : lam → Prop}
    (h : m.Hoare pre post) :
    ((Focus.second held).run m).Hoare (fun s => own s.1 ∧ pre s.2)
      fun r s => own s.1 ∧ post r s.2 :=
  focus (Focus.lawfulAt_second held) (fun _ _ hs => hs) h

/-- An operation on the part below that keeps an invariant. -/
theorem second_keeping {m : Op ε σ α} {held : lam → List Value} {own : lam → Prop}
    {inv : σ → Prop} {good : α → Prop} (h : m.Hoare inv (Keeping inv good)) :
    ((Focus.second held).run m).Hoare (fun s => own s.1 ∧ inv s.2)
      (Keeping (fun s => own s.1 ∧ inv s.2) good) := by
  refine h.second.mono (fun _ hs => hs) ?_
  intro r s hpost
  rcases hpost with ⟨hown, hinv, hgood⟩
  exact ⟨⟨hown, hinv⟩, hgood⟩

section Layer

variable {pre : lam × σ → Prop}

theorem bind_layer {f : lam → Op ε (lam × σ) β} {post : Except ε β → lam × σ → Prop}
    (h : ∀ l, (f l).Hoare (fun s => s.1 = l ∧ pre s) post) :
    (Op.layer >>= f).Hoare pre post := by
  intro t w hw c hc
  exact h w.state.1 t w ⟨rfl, hw⟩ c hc

/-- Reading the state of the layer keeps every invariant. -/
theorem layer_keeping {inv : lam × σ → Prop} :
    (Op.layer : Op ε (lam × σ) lam).Hoare inv (Keeping inv fun _ => True) := by
  intro t w hw c _
  exact ⟨hw, fun _ _ => trivial⟩

theorem modifyLayer {g : lam → lam} {post : Except ε Unit → lam × σ → Prop}
    (h : ∀ s, pre s → post (.ok ()) (g s.1, s.2)) : (Op.modifyLayer g).Hoare pre post := by
  intro t w hw c _
  exact h w.state hw

theorem updateLayer {g : lam → α × lam} {post : Except ε α → lam × σ → Prop}
    (h : ∀ s, pre s → post (.ok (g s.1).1) ((g s.1).2, s.2)) :
    (Op.updateLayer g).Hoare pre post := by
  intro t w hw c _
  exact h w.state hw

end Layer

/-- An operation ends as its triple says. -/
theorem ends {c : Caller} {w w' : World σ} {r : Except ε α} (h : m.Hoare pre post)
    (hs : m c w = (r, w')) (hw : pre w.state) : post r w'.state := by
  have hpost := h c.thread w hw c rfl
  rw [hs] at hpost
  exact hpost

end Op.Hoare

/-- The operation keeps the invariant, however it ends. -/
def Op.Keeps (inv : σ → Prop) (m : Op ε σ α) : Prop := m.Hoare inv fun _ s => inv s

namespace Op.Keeps

variable {inv : σ → Prop} {m : Op ε σ α}

/-- An operation of a layer alone keeps every invariant of what lies below. -/
theorem ofLayer {m : Op ε (lam × σ) α} (h : ∀ c w, (m c w).2.state.2 = w.state.2) :
    m.Keeps fun s => inv s.2 := by
  intro t w hw c _
  show inv (m c w).2.state.2
  rw [h c w]
  exact hw

theorem pure {a : α} : (Pure.pure a : Op ε σ α).Keeps inv := Op.Hoare.pure fun _ hs => hs

theorem ofExcept {r : Except ε α} : (Op.ofExcept r : Op ε σ α).Keeps inv :=
  Op.Hoare.ofExcept fun _ hs => hs

theorem bind {f : α → Op ε σ β} (h : m.Keeps inv) (hf : ∀ a, (f a).Keeps inv) :
    (m >>= f).Keeps inv :=
  Op.Hoare.bind h hf fun _ _ hs => hs

/-- An operation and what follows its result, whether or not it failed. -/
theorem bind_result {f : Except ε α → Op ε' σ β} (h : m.Keeps inv) (hf : ∀ r, (f r).Keeps inv) :
    (m.result >>= f).Keeps inv :=
  Op.Hoare.bind_result h hf

/-- An operation on the part below, of which alone something is known. -/
theorem below (held : lam → List Value) (h : m.Keeps inv) :
    ((Focus.second held).run m).Keeps fun s => inv s.2 := by
  have hsecond : ∀ own : lam → Prop, ((Focus.second held).run m).Hoare
      (fun s => own s.1 ∧ inv s.2) fun _ s => own s.1 ∧ inv s.2 := fun _ => Op.Hoare.second h
  exact (hsecond fun _ => True).mono (fun _ hs => ⟨trivial, hs⟩) fun _ _ hs => hs.2

end Op.Keeps

/-! ## Calls that may wait -/

/-- From a state that satisfies `pre` the call can only end as `post` says. -/
def Await.Hoare (pre : σ → Prop) (m : Await ε σ α) (post : Except ε α → σ → Prop) : Prop :=
  ∀ t w, pre w.state → m.Meets t w fun r w' => post r w'.state

namespace Await.Hoare

variable {pre : σ → Prop} {m : Await ε σ α} {post : Except ε α → σ → Prop}

theorem mono {pre' : σ → Prop} {post' : Except ε α → σ → Prop} (h : m.Hoare pre post)
    (hpre : ∀ s, pre' s → pre s) (hpost : ∀ r s, post r s → post' r s) : m.Hoare pre' post' := by
  intro t w hw
  exact (h t w (hpre _ hw)).mono fun r w' => hpost r w'.state

theorem ofOp {m : Op ε σ α} (h : m.Hoare pre post) : (Await.ofOp m).Hoare pre post := by
  intro t w hw
  exact Await.Meets.ofOp (h t w hw)

theorem bind {f : α → Await ε σ β} {mid : Except ε α → σ → Prop} {post : Except ε β → σ → Prop}
    (hm : m.Hoare pre mid) (hok : ∀ a, (f a).Hoare (mid (.ok a)) post)
    (herr : ∀ e s, mid (.error e) s → post (.error e) s) : (m >>= f).Hoare pre post := by
  intro t w hw
  refine Await.Meets.bind_of (hm t w hw) ?_ ?_
  · intro a w' hmid
    exact hok a t w' hmid
  · intro e w' hmid
    exact herr e w'.state hmid

/-- A call that gives a known value is followed by another one. -/
theorem bind_ok {f : α → Await ε σ β} {a : α} {mid : σ → Prop} {post : Except ε β → σ → Prop}
    (hm : m.Hoare pre fun r s => r = .ok a ∧ mid s) (hf : (f a).Hoare mid post) :
    (m >>= f).Hoare pre post := by
  refine bind hm ?_ ?_
  · intro a' t w h
    rcases h with ⟨ha, hw⟩
    cases ha
    exact hf t w hw
  · intro e s h
    rcases h with ⟨he, -⟩
    cases he

/-- Two calls that keep the same invariant. -/
theorem bind_keeping {inv : σ → Prop} {f : α → Await ε σ β} {good : α → Prop} {good' : β → Prop}
    (hm : m.Hoare inv (Keeping inv good))
    (hf : ∀ a, good a → (f a).Hoare inv (Keeping inv good')) :
    (m >>= f).Hoare inv (Keeping inv good') := by
  refine bind hm ?_ ?_
  · intro a t w hw
    exact hf a (hw.2 a rfl) t w hw.1
  · intro e s hs
    exact .error hs.1

theorem pure {a : α} (h : ∀ s, pre s → post (.ok a) s) :
    (Pure.pure a : Await ε σ α).Hoare pre post := ofOp (Op.Hoare.pure h)

theorem result {post : Except ε' (Except ε α) → σ → Prop}
    (h : m.Hoare pre fun r => post (.ok r)) : m.result.Hoare pre post := by
  intro t w hw
  exact Await.Meets.result (h t w hw)

theorem mapError {f : ε → ε'} {post : Except ε' α → σ → Prop}
    (h : m.Hoare pre fun r => post (r.mapError f)) : (m.mapError f).Hoare pre post := by
  intro t w hw
  exact Await.Meets.mapError (h t w hw)

/-- A call goes on with the result of another one, whether or not that failed. -/
theorem bind_result {f : Except ε α → Await ε' σ β} {mid : Except ε α → σ → Prop}
    {post : Except ε' β → σ → Prop} (hm : m.Hoare pre mid) (hf : ∀ r, (f r).Hoare (mid r) post) :
    (m.result >>= f).Hoare pre post := by
  have hresult : (m.result : Await ε' σ (Except ε α)).Hoare pre fun r s =>
      ∃ x, r = .ok x ∧ mid x s :=
    result (hm.mono (fun _ hs => hs) fun r s hs => ⟨r, rfl, hs⟩)
  refine bind hresult ?_ ?_
  · intro r t w h
    rcases h with ⟨x, hx, hs⟩
    cases hx
    exact hf r t w hs
  · intro e s h
    rcases h with ⟨x, hx, -⟩
    cases hx

/-- A call that keeps an invariant keeps it when its errors change. -/
theorem mapError_keeping {f : ε → ε'} {inv : σ → Prop} {good : α → Prop}
    (h : m.Hoare pre (Keeping inv good)) : (m.mapError f).Hoare pre (Keeping inv good) := by
  exact mapError (h.mono (fun _ hs => hs) fun _ _ hs => hs.mapError f)

/-- A call on a part of the state leaves the rest as it was. -/
theorem focus {τ : Type} {f : Focus τ σ} {rest : τ → Prop} (hf : ∀ s, f.LawfulAt s)
    (hrest : ∀ s x, rest s → rest (f.set x s)) (h : m.Hoare pre post) :
    (f.await m).Hoare (fun s => rest s ∧ pre (f.get s)) fun r s => rest s ∧ post r (f.get s) := by
  intro t w hw
  refine Await.Meets.focus (hf w.state) ((h t _ hw.2).mono ?_)
  intro r w' hpost
  refine ⟨hrest _ _ hw.1, ?_⟩
  rw [Focus.widen, (hf w.state).get_set]
  exact hpost

/-- A call reads the state of the layer, which is known. -/
theorem bind_layer {l : lam} {pre : lam × σ → Prop} {f : lam → Await ε (lam × σ) β}
    {post : Except ε β → lam × σ → Prop} (h : (f l).Hoare (fun s => s.1 = l ∧ pre s) post) :
    (Await.ofOp Op.layer >>= f).Hoare (fun s => s.1 = l ∧ pre s) post := by
  intro t w hpost
  rcases hpost with ⟨rfl, hw⟩
  exact Await.Meets.bind_ofOp fun _ _ => h t w ⟨rfl, hw⟩

/-- A whole call ends as its triple says. -/
theorem settles {c : Caller} {w w' : World σ} {r : Except ε α} (h : m.Hoare pre post)
    (hs : (m c w).Settles c.thread r w') (hw : pre w.state) : post r w'.state :=
  (h c.thread w hw c rfl).settles hs

/-- A call on the part below, about which alone something is known. -/
theorem below (held : lam → List Value) (h : m.Hoare pre post) :
    ((Focus.second held).await m).Hoare (fun s => pre s.2) fun r s => post r s.2 := by
  have hfocus : ((Focus.second held).await m).Hoare (fun s => True ∧ pre s.2)
      fun r s => True ∧ post r s.2 :=
    h.focus (Focus.lawfulAt_second held) fun _ _ hs => hs
  exact hfocus.mono (fun _ hs => ⟨trivial, hs⟩) fun _ _ hs => hs.2

end Await.Hoare

/-! ## Calls that keep an invariant -/

/-- The call keeps the invariant, however it ends. -/
def Await.Keeps (inv : σ → Prop) (m : Await ε σ α) : Prop := m.Hoare inv fun _ s => inv s

namespace Await.Keeps

variable {inv : σ → Prop} {m : Await ε σ α}

theorem ofOp {m : Op ε σ α} (h : m.Hoare inv fun _ s => inv s) : (Await.ofOp m).Keeps inv :=
  Await.Hoare.ofOp h

/-- An operation that changes no state keeps every invariant. -/
theorem ofStill {m : Op ε σ α} (h : ∀ c w, (m c w).2.state = w.state) :
    (Await.ofOp m).Keeps inv := by
  refine ofOp ?_
  intro t w hw c _
  show inv (m c w).2.state
  rw [h c w]
  exact hw

/-- An operation of a layer alone keeps every invariant of what lies below. -/
theorem ofLayer {m : Op ε (lam × σ) α} (h : ∀ c w, (m c w).2.state.2 = w.state.2) :
    (Await.ofOp m).Keeps fun s => inv s.2 := by
  refine ofOp ?_
  intro t w hw c _
  show inv (m c w).2.state.2
  rw [h c w]
  exact hw

theorem pure {a : α} : (Pure.pure a : Await ε σ α).Keeps inv := ofStill fun _ _ => rfl

theorem bind {f : α → Await ε σ β} (h : m.Keeps inv) (hf : ∀ a, (f a).Keeps inv) :
    (m >>= f).Keeps inv :=
  Await.Hoare.bind h hf fun _ _ hs => hs

theorem result (h : m.Keeps inv) : (m.result : Await ε' σ (Except ε α)).Keeps inv :=
  Await.Hoare.result h

theorem holding {values : List Value} (h : m.Keeps inv) : (m.holding values).Keeps inv := by
  intro t w hw
  exact Await.Meets.holding (h t w hw)

theorem below (held : lam → List Value) (h : m.Keeps inv) :
    ((Focus.second held).await m).Keeps fun s => inv s.2 :=
  Await.Hoare.below held h

end Await.Keeps

end QueryCache
