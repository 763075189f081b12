import Mathlib
import QueryCache.Cache.Basic
import QueryCache.Proofs.Cache.Operation

/-!
# Two caches side by side

Two operations on different states are alike when, begun in states that belong
together, both end at once and without an error, what they give belongs together,
and the states that they leave do.  Two caches whose operations are alike give the
same answers to the same calls, whatever the environment does between the calls.

1. operations side by side
2. rules
3. operations on parts of the states
4. caches side by side
5. calls and answers
6. runs of calls
-/

namespace QueryCache

variable {ε σ τ lam α β α' β' : Type}

/-! ## Operations side by side -/

/-- Begun by a thread in states that `R` relates, both operations end at once with values and
in states that `Q` relates.  The second one may be anybody's. -/
def Await.Alike (t : Thread) (R : σ → τ → Prop) (m : Await ε σ α) (n : Await ε τ β)
    (Q : α → β → σ → τ → Prop) : Prop :=
  ∀ c w c' w', c.thread = t → R w.state w'.state →
    ∃ a x b y, m c w = .done (.ok a) x ∧ n c' w' = .done (.ok b) y ∧ Q a b x.state y.state

namespace Await.Alike

variable {t : Thread} {R : σ → τ → Prop} {m : Await ε σ α} {n : Await ε τ β}
  {Q : α → β → σ → τ → Prop}

/-! ## Rules -/

theorem mono {Q' : α → β → σ → τ → Prop} (h : m.Alike t R n Q)
    (hQ : ∀ a b s s', Q a b s s' → Q' a b s s') : m.Alike t R n Q' := by
  intro c w c' w' hc hR
  obtain ⟨a, x, b, y, hm, hn, hq⟩ := h c w c' w' hc hR
  exact ⟨a, x, b, y, hm, hn, hQ _ _ _ _ hq⟩

/-- What holds of related states may be used. -/
theorem given {p : Prop} (h : p → m.Alike t R n Q) :
    m.Alike t (fun s s' => p ∧ R s s') n Q :=
  fun c w c' w' hc hR => h hR.1 c w c' w' hc hR.2

theorem pure {a : α} {b : β} (h : ∀ s s', R s s' → Q a b s s') :
    (Pure.pure a : Await ε σ α).Alike t R (Pure.pure b : Await ε τ β) Q :=
  fun _ w _ w' _ hR => ⟨a, w, b, w', rfl, rfl, h _ _ hR⟩

/-- Two operations that change the states and give values. -/
theorem update {f : σ → α × σ} {g : τ → β × τ}
    (h : ∀ s s', R s s' → Q (f s).1 (g s').1 (f s).2 (g s').2) :
    (Await.ofOp (Op.update f) : Await ε σ α).Alike t R (.ofOp (Op.update g)) Q :=
  fun _ w _ w' _ hR => ⟨_, _, _, _, rfl, rfl, h w.state w'.state hR⟩

/-- Two operations that change the states. -/
theorem modify {f : σ → σ} {g : τ → τ} {Q : Unit → Unit → σ → τ → Prop}
    (h : ∀ s s', R s s' → Q () () (f s) (g s')) :
    (Await.ofOp (Op.modify f) : Await ε σ Unit).Alike t R (.ofOp (Op.modify g)) Q :=
  fun _ w _ w' _ hR => ⟨_, _, _, _, rfl, rfl, h w.state w'.state hR⟩

theorem bind {f : α → Await ε σ α'} {g : β → Await ε τ β'} {Q' : α' → β' → σ → τ → Prop}
    (h : m.Alike t R n Q) (hf : ∀ a b, (f a).Alike t (Q a b) (g b) Q') :
    (m >>= f).Alike t R (n >>= g) Q' := by
  intro c w c' w' hc hR
  obtain ⟨a, x, b, y, hm, hn, hq⟩ := h c w c' w' hc hR
  obtain ⟨a', x', b', y', hfa, hgb, hq'⟩ := hf a b c x c' y hc hq
  exact ⟨a', x', b', y', (bind_of_done hm).trans hfa, (bind_of_done hn).trans hgb, hq'⟩

/-- The first operation has a step before the second one begins. -/
theorem before {m : Await ε σ α'} {f : α' → Await ε σ α} {P : α' → σ → τ → Prop}
    (h : m.Alike t R (Pure.pure () : Await ε τ Unit) fun a _ => P a)
    (hf : ∀ a, (f a).Alike t (P a) n Q) : (m >>= f).Alike t R n Q :=
  -- An operation is itself after one that does nothing.
  bind (g := fun _ => n) h fun a _ => hf a

/-- The first operation has a step after the second one has ended. -/
theorem after {f : α → Await ε σ α'} {Q' : α' → β → σ → τ → Prop} (h : m.Alike t R n Q)
    (hf : ∀ a b, (f a).Alike t (Q a b) (Pure.pure b : Await ε τ β) Q') :
    (m >>= f).Alike t R n Q' := by
  intro c w c' w' hc hR
  obtain ⟨a, x, b, y, hm, hn, hq⟩ := h c w c' w' hc hR
  obtain ⟨a', x', b', y', hfa, hgb, hq'⟩ := hf a b c x c' y hc hq
  obtain ⟨rfl, rfl⟩ : b = b' ∧ y = y' := by
    cases hgb
    exact ⟨rfl, rfl⟩
  exact ⟨a', x', b, y, (bind_of_done hm).trans hfa, hn, hq'⟩

/-- The first operation catches its errors; there are none. -/
theorem result (h : m.Alike t R n Q) :
    (m.result : Await ε σ (Except ε α)).Alike t R n fun r b s s' =>
      ∃ a, r = .ok a ∧ Q a b s s' := by
  intro c w c' w' hc hR
  obtain ⟨a, x, b, y, hm, hn, hq⟩ := h c w c' w' hc hR
  refine ⟨.ok a, x, b, y, ?_, hn, a, rfl, hq⟩
  show (m c w).result = _
  rw [hm]
  rfl

/-- Whatever the callers hold besides makes no difference. -/
theorem holding (h : m.Alike t R n Q) (values values' : List Value) :
    (m.holding values).Alike t R (n.holding values') Q := by
  intro c w c' w' hc hR
  obtain ⟨a, x, b, y, hm, hn, hq⟩ := h (c.holding values) w (c'.holding values') w' hc hR
  refine ⟨a, x, b, y, ?_, ?_, hq⟩
  · show (m (c.holding values) w).holding values = _
    rw [hm]
    rfl
  · show (n (c'.holding values') w').holding values' = _
    rw [hn]
    rfl

/-! ## Operations on parts of the states -/

/-- The first operation runs below a layer, whose state it leaves as it is. -/
theorem below (h : m.Alike t R n Q) (held : lam → List Value) (own : lam → Prop) :
    ((Focus.second held).await m).Alike t (fun s s' => own s.1 ∧ R s.2 s') n fun a b s s' =>
      own s.1 ∧ Q a b s.2 s' := by
  intro c w c' w' hc hR
  obtain ⟨a, x, b, y, hm, hn, hq⟩ :=
    h ((Focus.second held).caller w.state c) ((Focus.second held).narrow w) c' w' hc hR.2
  refine ⟨a, (Focus.second held).widen w.state x, b, y, ?_, hn, hR.1, hq⟩
  show (m _ _).widen _ _ = _
  rw [hm]
  rfl

/-- Both operations run below layers, which are in the same state. -/
theorem beside (h : m.Alike t R n Q) (held held' : lam → List Value) :
    ((Focus.second held).await m).Alike t (fun s s' => s.1 = s'.1 ∧ R s.2 s'.2)
      ((Focus.second held').await n) fun a b s s' => s.1 = s'.1 ∧ Q a b s.2 s'.2 := by
  intro c w c' w' hc hR
  obtain ⟨a, x, b, y, hm, hn, hq⟩ :=
    h ((Focus.second held).caller w.state c) ((Focus.second held).narrow w)
      ((Focus.second held').caller w'.state c') ((Focus.second held').narrow w') hc hR.2
  refine ⟨a, (Focus.second held).widen w.state x, b, (Focus.second held').widen w'.state y,
    ?_, ?_, hR.1, hq⟩
  · show (m _ _).widen _ _ = _
    rw [hm]
    rfl
  · show (n _ _).widen _ _ = _
    rw [hn]
    rfl

end Await.Alike

/-! ## Caches side by side -/

/-- The operations of two caches are alike.  Values that are put, and values that are found,
belong together as `V` says. -/
structure Cache.Alike (t : Thread) (R : σ → τ → Prop) (V : Value → Value → Prop) (d : Cache σ)
    (d' : Cache τ) : Prop where
  put : ∀ k x y, Option.Rel V x y → (d.put k x).Alike t R (d'.put k y) fun _ _ => R
  get : ∀ k, (d.get k).Alike t R (d'.get k) fun x y s s' => Option.Rel V x y ∧ R s s'
  remove : ∀ k, (d.remove k).Alike t R (d'.remove k) fun x y s s' => Option.Rel V x y ∧ R s s'
  clear : d.clear.Alike t R d'.clear fun _ _ => R
  size : d.size.Alike t R d'.size fun a b s s' => a = b ∧ R s s'
  releaseLock : ∀ k, (Await.ofOp (d.releaseLock k)).Alike t R (.ofOp (d'.releaseLock k))
    fun _ _ => R

namespace Cache.Alike

variable {t : Thread} {R : σ → τ → Prop} {V : Value → Value → Prop} {d : Cache σ} {d' : Cache τ}

/-- The first cache below a layer, whose state it leaves as it is. -/
theorem under (h : Cache.Alike t R V d d') (held : lam → List Value) (own : lam → Prop) :
    Cache.Alike t (fun s s' => own s.1 ∧ R s.2 s') V (d.under held) d' where
  put k x y hV := (h.put k x y hV).below held own
  get k := ((h.get k).below held own).mono fun _ _ _ _ hq => ⟨hq.2.1, hq.1, hq.2.2⟩
  remove k := ((h.remove k).below held own).mono fun _ _ _ _ hq => ⟨hq.2.1, hq.1, hq.2.2⟩
  clear := h.clear.below held own
  size := (h.size.below held own).mono fun _ _ _ _ hq => ⟨hq.2.1, hq.1, hq.2.2⟩
  releaseLock k := (h.releaseLock k).below held own

/-- Both caches below layers in the same state. -/
theorem beside (h : Cache.Alike t R V d d') (held held' : lam → List Value) :
    Cache.Alike t (fun s s' => s.1 = s'.1 ∧ R s.2 s'.2) V (d.under held) (d'.under held') where
  put k x y hV := (h.put k x y hV).beside held held'
  get k := ((h.get k).beside held held').mono fun _ _ _ _ hq => ⟨hq.2.1, hq.1, hq.2.2⟩
  remove k := ((h.remove k).beside held held').mono fun _ _ _ _ hq => ⟨hq.2.1, hq.1, hq.2.2⟩
  clear := h.clear.beside held held'
  size := (h.size.beside held held').mono fun _ _ _ _ hq => ⟨hq.2.1, hq.1, hq.2.2⟩
  releaseLock k := (h.releaseLock k).beside held held'

end Cache.Alike

/-! ## Calls and answers -/

/-- What a call asks of a cache. -/
inductive Request where
  | put (key : CacheKey) (value : Option Value)
  | get (key : CacheKey)
  | remove (key : CacheKey)
  | clear
  | size
  | releaseLock (key : CacheKey)

/-- What a call without an error gives. -/
inductive Answer where
  | done
  | value (found : Option Value)
  | number (n : Nat)

/-- The call that a request asks for. -/
def Cache.serve (d : Cache σ) : Request → CacheCall σ Answer
  | .put k x => do
    d.put k x
    pure .done
  | .get k => do pure (.value (← d.get k))
  | .remove k => do pure (.value (← d.remove k))
  | .clear => do
    d.clear
    pure .done
  | .size => do pure (.number (← d.size))
  | .releaseLock k => do
    .ofOp (d.releaseLock k)
    pure .done

/-- The value that a request puts, if it puts one, satisfies `p`. -/
def Request.Brings (p : Value → Prop) : Request → Prop
  | put _ (some v) => p v
  | _ => True

theorem Request.Brings.mono {p q : Value → Prop} {r : Request} (h : r.Brings p)
    (hpq : ∀ v, p v → q v) : r.Brings q := by
  cases r with
  | put k x =>
    cases x with
    | none => trivial
    | some v => exact hpq v h
  | _ => trivial

/-- The answers agree; for values this means what `V` says. -/
inductive Answer.Agrees (V : Value → Value → Prop) : Answer → Answer → Prop where
  | done : Agrees V .done .done
  | value {x y : Option Value} (h : Option.Rel V x y) : Agrees V (.value x) (.value y)
  | number (n : Nat) : Agrees V (.number n) (.number n)

section Serve

variable {t : Thread} {R : σ → τ → Prop} {V : Value → Value → Prop} {d : Cache σ} {d' : Cache τ}

theorem Cache.Alike.serve (h : Cache.Alike t R V d d') {r : Request}
    (hr : r.Brings fun v => V v v) :
    (d.serve r).Alike t R (d'.serve r) fun a b s s' => a.Agrees V b ∧ R s s' := by
  cases r with
  | put k x =>
    have hx : Option.Rel V x x := by
      cases x with
      | none => exact .none
      | some v => exact .some hr
    exact (h.put k x x hx).bind fun _ _ => .pure fun _ _ hR => ⟨.done, hR⟩
  | get k => exact (h.get k).bind fun _ _ => .pure fun _ _ hR => ⟨.value hR.1, hR.2⟩
  | remove k => exact (h.remove k).bind fun _ _ => .pure fun _ _ hR => ⟨.value hR.1, hR.2⟩
  | clear => exact h.clear.bind fun _ _ => .pure fun _ _ hR => ⟨.done, hR⟩
  | size => exact h.size.bind fun a _ => .pure fun _ _ hR => ⟨hR.1 ▸ .number a, hR.2⟩
  | releaseLock k =>
    exact (h.releaseLock k).bind fun _ _ => .pure fun _ _ hR => ⟨.done, hR⟩

/-! ## Runs of calls -/

/-- A call as it is made: by whom, in which environment, and what it asks. -/
structure Visit where
  caller : Caller
  env : Environment
  request : Request

/-- The answers to calls that are made one after the other; there are none if a call fails or
has to wait. -/
def Cache.answers (d : Cache σ) (s : σ) : List Visit → Option (List Answer)
  | [] => some []
  | v :: rest =>
    match d.serve v.request v.caller ⟨v.env, s⟩ with
    | .done (.ok a) w => (d.answers w.state rest).map (a :: ·)
    | _ => none

/-- Two caches that are alike answer all calls of a thread, and their answers agree. -/
theorem Cache.Alike.answers (h : Cache.Alike t R V d d') {visits visits' : List Visit}
    (hsame : List.Forall₂ (fun v v' => v.request = v'.request) visits visits')
    (hvisits : ∀ v ∈ visits, v.caller.thread = t ∧ v.request.Brings fun v => V v v) :
    ∀ {s s'}, R s s' → ∃ as bs, d.answers s visits = some as ∧ d'.answers s' visits' = some bs ∧
      List.Forall₂ (Answer.Agrees V) as bs := by
  induction hsame with
  | nil => exact fun _ => ⟨[], [], rfl, rfl, .nil⟩
  | @cons v v' rest rest' hv _ ih =>
    intro s s' hR
    obtain ⟨hthread, hbrings⟩ := hvisits v List.mem_cons_self
    obtain ⟨a, x, b, y, hd, hd', hab, hxy⟩ :=
      h.serve hbrings v.caller ⟨v.env, s⟩ v'.caller ⟨v'.env, s'⟩ hthread hR
    obtain ⟨as, bs, has, hbs, hall⟩ :=
      ih (fun u hu => hvisits u (List.mem_cons_of_mem v hu)) hxy
    refine ⟨a :: as, b :: bs, ?_, ?_, .cons hab hall⟩
    · rw [Cache.answers, hd]
      show (d.answers x.state rest).map (a :: ·) = _
      rw [has]
      rfl
    · rw [Cache.answers, ← hv, hd']
      show (d'.answers y.state rest').map (b :: ·) = _
      rw [hbs]
      rfl

end Serve

end QueryCache
