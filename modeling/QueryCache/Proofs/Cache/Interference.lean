import Mathlib
import QueryCache.Cache.Basic
import QueryCache.Proofs.Cache.Operation

/-!
# Calls while other threads go on

A call that waits leaves the state to others, and when it is resumed the state
may be another one.  What the others may have done is a relation between the
state at the wait and the state at the resumption.

A triple amid others says to which results and states a call of one thread can
come.  An operation that always comes to its end is the call `Await.ofOp`, so
there is one set of rules for both.

1. the end of a call amid others
2. triples, with a rule for each way to build a call
3. what two triples say together
4. invariants that hold at every wait
5. calls that end as their first part does
-/

namespace QueryCache

variable {ε ε' σ τ lam α β : Type}

/-! ## The end of a call -/

/-- A call of a thread that is at an outcome comes to an end, while others
change the state as they may whenever it waits. -/
inductive Outcome.SettlesAmid (others : σ → σ → Prop) (t : Thread) :
    Outcome ε σ α → Except ε α → World σ → Prop where
  | done (r : Except ε α) (w : World σ) : SettlesAmid others t (.done r w) r w
  | waiting {w w' w'' : World σ} {wait : Wait σ} {resume : Caller → World σ → Outcome ε σ α}
      {c : Caller} {r : Except ε α} (hc : c.thread = t) (ho : others w.state w'.state)
      (hw : wait.IsOver w') (h : SettlesAmid others t (resume c w') r w'') :
      SettlesAmid others t (.waiting w wait resume) r w''

/-- A call that has come to its end has settled. -/
theorem Outcome.SettlesAmid.of_done {others : σ → σ → Prop} {t : Thread} {o : Outcome ε σ α}
    {r : Except ε α} (h : ∃ w, o = .done r w) : o.SettlesAmid others t r o.world := by
  obtain ⟨w, rfl⟩ := h
  exact .done r w

/-- Every end of a call that is at an outcome satisfies the postcondition,
whatever the others do. -/
def Outcome.Amid (others : σ → σ → Prop) (t : Thread) (post : Except ε α → σ → Prop) :
    Outcome ε σ α → Prop
  | .done r w => post r w.state
  | .waiting w wait resume => ∀ c w', c.thread = t → others w.state w'.state → wait.IsOver w' →
      (resume c w').Amid others t post

namespace Outcome.Amid

variable {others : σ → σ → Prop} {t : Thread} {o : Outcome ε σ α}

theorem settles {post : Except ε α → σ → Prop} (h : o.Amid others t post) {r : Except ε α}
    {w : World σ} (hs : o.SettlesAmid others t r w) : post r w.state := by
  induction hs with
  | done r w => exact h
  | waiting hc ho hw _ ih => exact ih (h _ _ hc ho hw)

theorem mono {p q : Except ε α → σ → Prop} (h : o.Amid others t p)
    (hpq : ∀ r s, p r s → q r s) : o.Amid others t q := by
  induction o with
  | done r w => exact hpq r w.state h
  | waiting w wait resume ih =>
    intro c w' hc ho hw
    exact ih c w' (h c w' hc ho hw)

/-- A call on a part of the state, around which the rest is as the others leave it. -/
theorem widen {others' : τ → τ → Prop} {f : Focus τ σ} {rest : τ → Prop}
    {post : Except ε α → σ → Prop} (hget : ∀ s x, rest s → f.get (f.set x s) = x)
    (hset : ∀ s x, rest s → rest (f.set x s))
    (hothers : ∀ s s', rest s → others' s s' → rest s' ∧ others (f.get s) (f.get s')) {outer : τ}
    (hrest : rest outer) (h : o.Amid others t post) :
    (o.widen f outer).Amid others' t fun r s => rest s ∧ post r (f.get s) := by
  induction o generalizing outer with
  | done r w =>
    show rest (f.set w.state outer) ∧ post r (f.get (f.set w.state outer))
    rw [hget outer w.state hrest]
    exact ⟨hset outer w.state hrest, h⟩
  | waiting w wait resume ih =>
    intro c w' hc hstep hover
    obtain ⟨hrest', hpart⟩ := hothers _ _ (hset outer w.state hrest) hstep
    have hpart' : others w.state (f.get w'.state) := by
      rw [← hget outer w.state hrest]
      exact hpart
    exact ih _ _ hrest' (h (f.caller w'.state c) (f.narrow w') hc hpart' hover)

end Outcome.Amid

/-! ## Triples -/

/-- Operations in sequence are calls in sequence. -/
theorem Await.ofOp_bind (m : Op ε σ α) (f : α → Op ε σ β) :
    Await.ofOp (m >>= f) = Await.ofOp m >>= fun a => Await.ofOp (f a) := by
  funext c w
  show Outcome.done (Op.bind m f c w).1 (Op.bind m f c w).2 =
    (Outcome.done (m c w).1 (m c w).2).bind (fun a => Await.ofOp (f a)) c
  unfold Op.bind
  rcases m c w with ⟨a | e, w'⟩
  · rfl
  · rfl

/-- From a state that satisfies `pre` the call, made by a thread amid others,
can only end as `post` says. -/
def Await.HoareAmid (others : σ → σ → Prop) (t : Thread) (pre : σ → Prop) (m : Await ε σ α)
    (post : Except ε α → σ → Prop) : Prop :=
  ∀ c w, c.thread = t → pre w.state → (m c w).Amid others t post

namespace Await.HoareAmid

variable {others : σ → σ → Prop} {t : Thread} {pre : σ → Prop} {m : Await ε σ α}
  {post : Except ε α → σ → Prop}

theorem mono {pre' : σ → Prop} {post' : Except ε α → σ → Prop} (h : m.HoareAmid others t pre post)
    (hpre : ∀ s, pre' s → pre s) (hpost : ∀ r s, post r s → post' r s) :
    m.HoareAmid others t pre' post' := by
  intro c w hc hw
  exact (h c w hc (hpre _ hw)).mono hpost

/-- It is enough to know what holds for each state before the call. -/
theorem of_state (h : ∀ x, pre x → m.HoareAmid others t (fun s => s = x) post) :
    m.HoareAmid others t pre post := by
  intro c w hc hw
  exact h w.state hw c w hc rfl

theorem ofOp {m : Op ε σ α}
    (h : ∀ c w, c.thread = t → pre w.state → post (m c w).1 (m c w).2.state) :
    (Await.ofOp m).HoareAmid others t pre post := h

theorem pure {a : α} (h : ∀ s, pre s → post (.ok a) s) :
    (Pure.pure a : Await ε σ α).HoareAmid others t pre post := by
  intro c w _ hw
  exact h w.state hw

theorem bind {f : α → Await ε σ β} {mid : Except ε α → σ → Prop} {post : Except ε β → σ → Prop}
    (hm : m.HoareAmid others t pre mid) (hok : ∀ a, (f a).HoareAmid others t (mid (.ok a)) post)
    (herr : ∀ e s, mid (.error e) s → post (.error e) s) :
    (m >>= f).HoareAmid others t pre post := by
  intro c w hc hw
  have ho : (m c w).Amid others t mid := hm c w hc hw
  show ((m c w).bind f c).Amid others t post
  generalize m c w = o at ho
  -- The continuation runs for whoever resumes the first call.
  induction o generalizing c with
  | done r w =>
    cases r with
    | ok a => exact hok a c w hc ho
    | error e => exact herr e w.state ho
  | waiting w wait resume ih =>
    intro c' w' hc' hothers hover
    exact ih c' w' c' hc' (ho c' w' hc' hothers hover)

/-- A call that gives a known value is followed by another one. -/
theorem bind_ok {f : α → Await ε σ β} {a : α} {mid : σ → Prop} {post : Except ε β → σ → Prop}
    (hm : m.HoareAmid others t pre fun r s => r = .ok a ∧ mid s)
    (hf : (f a).HoareAmid others t mid post) : (m >>= f).HoareAmid others t pre post := by
  refine bind hm ?_ ?_
  · intro a' c w hc hs
    rcases hs with ⟨ha, hs⟩
    cases ha
    exact hf c w hc hs
  · intro e s hs
    cases hs.1

theorem result {post : Except ε' (Except ε α) → σ → Prop}
    (h : m.HoareAmid others t pre fun r => post (.ok r)) :
    m.result.HoareAmid others t pre post := by
  intro c w hc hw
  have ho := h c w hc hw
  show ((m c w).result).Amid others t post
  generalize m c w = o at ho
  induction o with
  | done r w => exact ho
  | waiting w wait resume ih =>
    intro c' w' hc' hothers hover
    exact ih c' w' (ho c' w' hc' hothers hover)

theorem mapError {f : ε → ε'} {post : Except ε' α → σ → Prop}
    (h : m.HoareAmid others t pre fun r => post (r.mapError f)) :
    (m.mapError f).HoareAmid others t pre post := by
  intro c w hc hw
  have ho := h c w hc hw
  show ((m c w).mapError f).Amid others t post
  generalize m c w = o at ho
  induction o with
  | done r w => exact ho
  | waiting w wait resume ih =>
    intro c' w' hc' hothers hover
    exact ih c' w' (ho c' w' hc' hothers hover)

/-- A call goes on with the result of another one, whether or not that failed. -/
theorem bind_result {f : Except ε α → Await ε' σ β} {mid : Except ε α → σ → Prop}
    {post : Except ε' β → σ → Prop} (hm : m.HoareAmid others t pre mid)
    (hf : ∀ r, (f r).HoareAmid others t (mid r) post) :
    (m.result >>= f).HoareAmid others t pre post := by
  have hresult : (m.result : Await ε' σ (Except ε α)).HoareAmid others t pre fun r s =>
      ∃ x, r = .ok x ∧ mid x s :=
    result (hm.mono (fun _ hs => hs) fun r s hs => ⟨r, rfl, hs⟩)
  refine bind hresult ?_ ?_
  · intro r c w hc hs
    rcases hs with ⟨x, hx, hs⟩
    cases hx
    exact hf r c w hc hs
  · intro e s hs
    rcases hs with ⟨x, hx, -⟩
    cases hx

/-- Going on with the result of an operation, whether or not that failed. -/
theorem ofOp_bind_result {m : Op ε σ α} {f : Except ε α → Op ε' σ β}
    {mid : Except ε α → σ → Prop} {post : Except ε' β → σ → Prop}
    (hm : (Await.ofOp m).HoareAmid others t pre mid)
    (hf : ∀ r, (Await.ofOp (f r)).HoareAmid others t (mid r) post) :
    (Await.ofOp (m.result >>= f)).HoareAmid others t pre post := by
  intro c w hc hw
  exact hf _ c _ hc (hm c w hc hw)

theorem ofOp_bind {m : Op ε σ α} {f : α → Op ε σ β} {post : Except ε β → σ → Prop}
    (h : (Await.ofOp m >>= fun a => Await.ofOp (f a)).HoareAmid others t pre post) :
    (Await.ofOp (m >>= f)).HoareAmid others t pre post := by
  rw [Await.ofOp_bind]
  exact h

/-- A call on a part of the state, around which the rest is as the others leave it. -/
theorem focus {others' : τ → τ → Prop} {f : Focus τ σ} {rest : τ → Prop}
    (hget : ∀ s x, rest s → f.get (f.set x s) = x) (hset : ∀ s x, rest s → rest (f.set x s))
    (hothers : ∀ s s', rest s → others' s s' → rest s' ∧ others (f.get s) (f.get s'))
    (h : m.HoareAmid others t pre post) :
    (f.await m).HoareAmid others' t (fun s => rest s ∧ pre (f.get s))
      fun r s => rest s ∧ post r (f.get s) := by
  intro c w hc hw
  exact (h (f.caller w.state c) (f.narrow w) hc hw.2).widen hget hset hothers hw.1

end Await.HoareAmid

/-! ## Two triples of one call -/

theorem Outcome.Amid.and {others : σ → σ → Prop} {t : Thread} {o : Outcome ε σ α}
    {p q : Except ε α → σ → Prop} (hp : o.Amid others t p) (hq : o.Amid others t q) :
    o.Amid others t fun r s => p r s ∧ q r s := by
  induction o with
  | done r w => exact ⟨hp, hq⟩
  | waiting w wait resume ih =>
    intro c w' hc ho hw
    exact ih c w' (hp c w' hc ho hw) (hq c w' hc ho hw)

theorem Await.HoareAmid.and {others : σ → σ → Prop} {t : Thread} {pre : σ → Prop}
    {m : Await ε σ α} {p q : Except ε α → σ → Prop} (hp : m.HoareAmid others t pre p)
    (hq : m.HoareAmid others t pre q) : m.HoareAmid others t pre fun r s => p r s ∧ q r s := by
  intro c w hc hw
  exact (hp c w hc hw).and (hq c w hc hw)

/-! ## Invariants at every wait -/

/-- The invariant holds whenever the call waits, as long as the others keep it,
and at its end, and then the result is as stated. -/
def Outcome.Throughout (inv : σ → Prop) (good : Except ε α → Prop) : Outcome ε σ α → Prop
  | .done r w => inv w.state ∧ good r
  | .waiting w _ resume => inv w.state ∧ ∀ c w', inv w'.state → (resume c w').Throughout inv good

theorem Outcome.Throughout.mono {inv : σ → Prop} {good good' : Except ε α → Prop}
    {o : Outcome ε σ α} (h : o.Throughout inv good) (hgood : ∀ r, good r → good' r) :
    o.Throughout inv good' := by
  induction o with
  | done r w => exact ⟨h.1, hgood r h.2⟩
  | waiting w wait resume ih => exact ⟨h.1, fun c w' hw => ih c w' (h.2 c w' hw)⟩

/-- A call that is begun under the invariant keeps it at every step. -/
def Await.Throughout (inv : σ → Prop) (m : Await ε σ α) (good : Except ε α → Prop) : Prop :=
  ∀ c w, inv w.state → (m c w).Throughout inv good

namespace Await.Throughout

variable {inv : σ → Prop} {m : Await ε σ α} {good : Except ε α → Prop}

theorem mono {good' : Except ε α → Prop} (h : m.Throughout inv good)
    (hgood : ∀ r, good r → good' r) : m.Throughout inv good' := by
  intro c w hw
  exact (h c w hw).mono hgood

theorem ofOp {m : Op ε σ α} (h : ∀ c w, inv w.state → inv (m c w).2.state ∧ good (m c w).1) :
    (Await.ofOp m).Throughout inv good := h

theorem pure {a : α} (h : good (.ok a)) : (Pure.pure a : Await ε σ α).Throughout inv good :=
  fun _ _ hw => ⟨hw, h⟩

theorem bind {f : α → Await ε σ β} {good' : Except ε β → Prop} (hm : m.Throughout inv good)
    (hok : ∀ a, good (.ok a) → (f a).Throughout inv good')
    (herr : ∀ e, good (.error e) → good' (.error e)) : (m >>= f).Throughout inv good' := by
  intro c w hw
  have ho := hm c w hw
  show ((m c w).bind f c).Throughout inv good'
  generalize m c w = o at ho
  induction o generalizing c with
  | done r w =>
    cases r with
    | ok a => exact hok a ho.2 c w ho.1
    | error e => exact ⟨ho.1, herr e ho.2⟩
  | waiting w wait resume ih => exact ⟨ho.1, fun c' w' hw' => ih c' w' c' (ho.2 c' w' hw')⟩

theorem result {good : Except ε' (Except ε α) → Prop}
    (h : m.Throughout inv fun r => good (.ok r)) : m.result.Throughout inv good := by
  intro c w hw
  have ho := h c w hw
  show (m c w).result.Throughout inv good
  generalize m c w = o at ho
  induction o with
  | done r w => exact ho
  | waiting w wait resume ih => exact ⟨ho.1, fun c' w' hw' => ih c' w' (ho.2 c' w' hw')⟩

theorem mapError {f : ε → ε'} {good : Except ε' α → Prop}
    (h : m.Throughout inv fun r => good (r.mapError f)) : (m.mapError f).Throughout inv good := by
  intro c w hw
  have ho := h c w hw
  show ((m c w).mapError f).Throughout inv good
  generalize m c w = o at ho
  induction o with
  | done r w => exact ho
  | waiting w wait resume ih => exact ⟨ho.1, fun c' w' hw' => ih c' w' (ho.2 c' w' hw')⟩

/-- A call on a part of the state, which has an invariant of its own. -/
theorem focus {f : Focus τ σ} {outer : τ → Prop} (hget : ∀ s, outer s → inv (f.get s))
    (hset : ∀ s x, outer s → inv x → outer (f.set x s)) (h : m.Throughout inv good) :
    (f.await m).Throughout outer good := by
  intro c w hw
  have ho := h (f.caller w.state c) (f.narrow w) (hget _ hw)
  show ((m (f.caller w.state c) (f.narrow w)).widen f w.state).Throughout outer good
  generalize m (f.caller w.state c) (f.narrow w) = o at ho
  generalize w.state = s at hw
  induction o generalizing s with
  | done r w => exact ⟨hset s w.state hw ho.1, ho.2⟩
  | waiting w wait resume ih =>
    refine ⟨hset s w.state hw ho.1, fun c' w' hw' => ?_⟩
    exact ih _ _ (ho.2 _ (f.narrow w') (hget _ hw')) w'.state hw'

/-- Of a part of which nothing is asked, any call is kept. -/
theorem unasked (m : Await ε σ α) : m.Throughout (fun _ => True) fun _ => True := by
  intro c w _
  generalize m c w = o
  induction o with
  | done r w => exact ⟨trivial, trivial⟩
  | waiting w wait resume ih => exact ⟨trivial, fun c' w' _ => ih c' w'⟩

/-- The invariant holds at the end of the call, amid others that keep it. -/
theorem amid (h : m.Throughout inv good) {others : σ → σ → Prop}
    (hothers : ∀ s s', others s s' → inv s → inv s') (t : Thread) :
    m.HoareAmid others t inv fun r s => inv s ∧ good r := by
  intro c w _ hw
  have ho := h c w hw
  generalize m c w = o at ho
  induction o with
  | done r w => exact ho
  | waiting w wait resume ih =>
    intro c' w' _ hstep _
    exact ih c' w' (ho.2 c' w' (hothers _ _ hstep ho.1))

end Await.Throughout

/-! ## Calls that end as their first part does -/

/-- Where the invariant of a call holds, all that follows it ends at once. -/
theorem Outcome.Throughout.ends_of_bind {inv : σ → Prop} {good : Except ε α → Prop}
    {o : Outcome ε σ α} (ho : o.Throughout inv good) {others : σ → σ → Prop}
    (hothers : ∀ s s', others s s' → inv s → inv s')
    {f : α → Caller → World σ → Outcome ε σ β} {g : α → Except ε β}
    (hf : ∀ a c w, inv w.state → f a c w = .done (g a) w) {t : Thread} {c : Caller}
    {r : Except ε β} {w : World σ} (h : (o.bind f c).SettlesAmid others t r w) :
    ∃ y, o.SettlesAmid others t y w ∧ r = y >>= g := by
  induction o generalizing c with
  | done y w₁ =>
    cases y with
    | ok a =>
      have hend : (f a c w₁).SettlesAmid others t r w := h
      rw [hf a c w₁ ho.1] at hend
      cases hend
      exact ⟨.ok a, .done _ _, rfl⟩
    | error e =>
      cases h
      exact ⟨.error e, .done _ _, rfl⟩
  | waiting w₁ wait resume ih =>
    cases h with
    | waiting hc hstep hover h =>
      obtain ⟨y, hy, hr⟩ := ih _ _ (ho.2 _ _ (hothers _ _ hstep ho.1)) h
      exact ⟨y, .waiting hc hstep hover hy, hr⟩

/-- The result as a value is there when the call has come to its end. -/
theorem Outcome.SettlesAmid.of_result {others : σ → σ → Prop} {t : Thread} {o : Outcome ε σ α}
    {r : Except ε' (Except ε α)} {w : World σ} (h : o.result.SettlesAmid others t r w) :
    ∃ y, r = .ok y ∧ o.SettlesAmid others t y w := by
  induction o with
  | done y w₁ =>
    cases h
    exact ⟨y, rfl, .done _ _⟩
  | waiting w₁ wait resume ih =>
    cases h with
    | waiting hc hstep hover h =>
      obtain ⟨y, hr, hy⟩ := ih _ _ h
      exact ⟨y, hr, .waiting hc hstep hover hy⟩

end QueryCache
