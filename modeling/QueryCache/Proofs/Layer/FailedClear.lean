import Mathlib
import QueryCache.Proofs.Layer.Schedule

/-!
# A clear that fails

The layer that clears on schedule notes the time of a clear before it makes it, so a clear
that fails counts as one that was made.  The call for which it was made fails, and after that
calls find what there was before, until once more the interval has passed.

1. stores whose clear may fail
2. what a call comes to
3. calls with their results
4. the age of what is served
-/

namespace QueryCache

variable {σ : Type}

/-! ## Stores whose clear may fail -/

/-- Every call ends at once and does what it does with a store, but a clear may fail, and then
it leaves what there was. -/
structure ClearMayFail (d : Cache σ) (store : σ → Store) : Prop where
  put : ∀ k x c w, ∃ w', d.put k x c w = .done (.ok ()) w' ∧
    store w'.state = (store w.state).insert k x
  get : ∀ k c w, ∃ w', d.get k c w = .done (.ok ((store w.state).lookup k)) w' ∧
    store w'.state = store w.state
  remove : ∀ k c w, ∃ w', d.remove k c w = .done (.ok ((store w.state).lookup k)) w' ∧
    store w'.state = (store w.state).erase k
  size : ∀ c w, ∃ w', d.size c w = .done (.ok (store w.state).size) w' ∧
    store w'.state = store w.state
  releaseLock : ∀ k c w, d.releaseLock k c w = (.ok (), w)
  clear : ∀ c w, ∃ r w', d.clear c w = .done r w' ∧
    store w'.state = if r = .ok () then .empty else store w.state

/-- A clear of the cache, made in the state, has failed. -/
def Cache.ClearFails (d : Cache σ) (y : σ) (x : CacheError) : Prop :=
  ∃ c e w, d.clear c ⟨e, y⟩ = .done (.error x) w

/-- The values that a request brings along while it waits for a clear. -/
def Request.values : Request → List Value
  | .put _ x => x.toList
  | _ => []

/-- The first of three operations ends at once. -/
theorem Await.bind_bind_of_done {ε α β γ : Type} {m : Await ε σ α} {f : α → Await ε σ β}
    {g : β → Await ε σ γ} {c : Caller} {w w' : World σ} {a : α} (h : m c w = .done (.ok a) w') :
    ((m >>= f) >>= g) c w = (f a >>= g) c w' := by
  show ((m >>= f) c w).bind (fun b => g b) c = _
  rw [Await.bind_of_done h]
  rfl

namespace Scheduled

variable {d : Cache σ} {store : σ → Store} {interval : Duration}

/-- A call that is not held up by the schedule does what it does below. -/
theorem below_serve (h : ClearMayFail d store) {r : Request} (hr : r ≠ .clear) (c : Caller)
    (e : Environment) (last : LastClear) (y : σ) :
    ∃ e' y', (below d).serve r c ⟨e, (last, y)⟩ =
        .done (.ok ((store y).answer r)) ⟨e', (last, y')⟩ ∧ store y' = (store y).apply r := by
  let c' := (Focus.second fun _ : LastClear => []).caller (last, y) c
  cases r with
  | put k x =>
    obtain ⟨w', hrun, hstore⟩ := h.put k x c' ⟨e, y⟩
    exact ⟨_, _, Await.bind_of_done (Focus.await_second hrun), hstore⟩
  | get k =>
    obtain ⟨w', hrun, hstore⟩ := h.get k c' ⟨e, y⟩
    exact ⟨_, _, Await.bind_of_done (Focus.await_second hrun), hstore⟩
  | remove k =>
    obtain ⟨w', hrun, hstore⟩ := h.remove k c' ⟨e, y⟩
    exact ⟨_, _, Await.bind_of_done (Focus.await_second hrun), hstore⟩
  | size =>
    obtain ⟨w', hrun, hstore⟩ := h.size c' ⟨e, y⟩
    exact ⟨_, _, Await.bind_of_done (Focus.await_second hrun), hstore⟩
  | releaseLock k =>
    exact ⟨_, _, Await.bind_of_done
      (Await.ofOp_of_eq (Focus.run_second (h.releaseLock k c' ⟨e, y⟩))), rfl⟩
  | clear => exact absurd rfl hr

/-- A clear that is due is made; its time is noted, whether or not it fails. -/
theorem clearWhenDue_attempts (h : ClearMayFail d store) {time : Nat} {e : Environment}
    (hdue : isDue interval e.now { time } = true) (values : List Value) (c : Caller) (y : σ) :
    ∃ c' e' r e'' y', d.clear c' ⟨e', y⟩ = .done r ⟨e'', y'⟩ ∧
      store y' = (if r = .ok () then .empty else store y) ∧
      clearWhenDue interval d values c ⟨e, ({ time }, y)⟩ =
        .done (r.map fun _ => true) ⟨e'', ({ time := e.now }, y')⟩ := by
  let e' : Environment := { e with now := e.now + Environment.readingTime }
  let c' := (Focus.second fun _ : LastClear => []).caller (⟨e.now, ⟨true⟩⟩, y) (c.holding values)
  obtain ⟨r, ⟨e'', y'⟩, hclear, hstore⟩ := h.clear c' ⟨e', y⟩
  exact ⟨c', e', r, e'', y', hclear, hstore, clearWhenDue_makes hdue hclear⟩

/-! ## What a call comes to -/

/-- What a request comes to that is made at a time, with the result and the state that it
leaves; a state is the noted time with the store, and `fails` says how a clear can fail. -/
inductive Served (interval : Duration) (now : Nat) (fails : CacheError → Prop) (time : Nat)
    (s : Store) : Request → Except CacheError Answer → Nat → Store → Prop where
  /-- No clear is due. -/
  | timely {r : Request} (hr : r ≠ .clear)
      (hdue : r.isTimed = true → now ≤ time + interval.nanos) :
      Served interval now fails time s r (.ok (s.answer r)) time (s.apply r)
  /-- The clear that was due has been made. -/
  | late {r : Request} (hr : r.isTimed = true) (hdue : time + interval.nanos < now) :
      Served interval now fails time s r (.ok (Store.answer .empty r)) now (Store.apply .empty r)
  /-- The clear that was due has failed. -/
  | refused {r : Request} {x : CacheError} (hr : r.isTimed = true)
      (hdue : time + interval.nanos < now) (hx : fails x) :
      Served interval now fails time s r (.error x) now s
  | cleared : Served interval now fails time s .clear (.ok .done) now .empty
  | notCleared {x : CacheError} (hx : fails x) :
      Served interval now fails time s .clear (.error x) now s

theorem isDue_iff {now time : Nat} :
    isDue interval now { time } = true ↔ time + interval.nanos < now := by
  rw [isDue, decide_eq_true_iff]
  exact Nat.lt_sub_iff_add_lt'

variable {r : Request} {c : Caller} {w w' : World (LastClear × σ)}

/-- A request under the schedule for which no clear is made. -/
theorem serve_of_skipped (hr : r.isTimed = true)
    (h : clearWhenDue interval d r.values c w = .done (.ok false) w') :
    (around interval d).serve r c w = (below d).serve r c w' := by
  cases r with
  | put | get | remove | size => exact Await.bind_bind_of_done h
  | clear | releaseLock => cases hr

/-- A request under the schedule for which a clear has failed. -/
theorem serve_of_refused (hr : r.isTimed = true) {x : CacheError}
    (h : clearWhenDue interval d r.values c w = .done (.error x) w') :
    (around interval d).serve r c w = .done (.error x) w' := by
  cases r with
  | put | get | remove | size => exact Await.bind_of_failed (Await.bind_of_failed h)
  | clear | releaseLock => cases hr

/-- A request under the schedule after a clear; a read is not made any more. -/
theorem serve_of_cleared (hr : r.isTimed = true)
    (h : clearWhenDue interval d r.values c w = .done (.ok true) w') :
    (∃ k, r = .get k ∧ (around interval d).serve r c w = .done (.ok (.value none)) w') ∨
      (around interval d).serve r c w = (below d).serve r c w' := by
  cases r with
  | get k => exact .inl ⟨k, rfl, (Await.bind_bind_of_done h).trans rfl⟩
  | put | remove | size => exact .inr (Await.bind_bind_of_done h)
  | clear | releaseLock => cases hr

variable (interval) in
/-- Every call ends at once, in one of five ways. -/
theorem serve_served (h : ClearMayFail d store) (r : Request) (c : Caller) (e : Environment)
    (time : Nat) (y : σ) :
    ∃ x e' time' y', (around interval d).serve r c ⟨e, ({ time }, y)⟩ =
        .done x ⟨e', ({ time := time' }, y')⟩ ∧
      Served interval e.now (d.ClearFails y) time (store y) r x time' (store y') := by
  by_cases hclear : r = .clear
  · subst hclear
    let c' := (Focus.second fun _ : LastClear => []).caller ({ time := e.now }, y) c
    let e₁ : Environment := { e with now := e.now + Environment.readingTime }
    obtain ⟨x, ⟨e', y'⟩, hrun, hstore⟩ := h.clear c' ⟨e₁, y⟩
    have hbelow : (below d).clear c ⟨e₁, ({ time := e.now }, y)⟩ =
        .done x ⟨e', ({ time := e.now }, y')⟩ := Focus.await_second hrun
    have hlayer : (around interval d).clear c ⟨e, ({ time }, y)⟩ =
        .done x ⟨e', ({ time := e.now }, y')⟩ :=
      (Await.bind_of_done rfl).trans ((Await.bind_of_done (Gate.pass_run rfl rfl)).trans hbelow)
    cases x with
    | ok _ =>
      refine ⟨_, e', e.now, y', Await.bind_of_done hlayer, ?_⟩
      rw [hstore, if_pos rfl]
      exact .cleared
    | error x =>
      refine ⟨_, e', e.now, y', Await.bind_of_failed hlayer, ?_⟩
      rw [hstore, if_neg nofun]
      exact .notCleared ⟨c', e₁, _, hrun⟩
  by_cases htimed : r.isTimed = true
  · cases hdue : isDue interval e.now { time } with
    | false =>
      have hskipped := clearWhenDue_skips hdue r.values c y (d := d)
      obtain ⟨e', y', hrun, hstore⟩ := below_serve h hclear c
        { e with now := e.now + Environment.readingTime } { time } y
      refine ⟨_, e', time, y', (serve_of_skipped htimed hskipped).trans hrun, ?_⟩
      rw [hstore]
      refine .timely hclear fun _ => ?_
      by_contra hlate
      have hdue' := isDue_iff.2 (Nat.lt_of_not_le hlate)
      rw [hdue] at hdue'
      cases hdue'
    | true =>
      have hlate := isDue_iff.1 hdue
      obtain ⟨c', e₁, x, e₂, y₁, hattempt, hstore, hrun⟩ :=
        clearWhenDue_attempts h hdue r.values c y
      cases x with
      | error x =>
        refine ⟨_, e₂, e.now, y₁, serve_of_refused htimed hrun, ?_⟩
        rw [hstore, if_neg nofun]
        exact .refused htimed hlate ⟨c', e₁, _, hattempt⟩
      | ok _ =>
        rw [if_pos rfl] at hstore
        rcases serve_of_cleared htimed hrun with ⟨k, rfl, hread⟩ | hbelow
        · refine ⟨_, e₂, e.now, y₁, hread, ?_⟩
          rw [hstore]
          exact .late rfl hlate
        · obtain ⟨e', y', hrun', hstore'⟩ := below_serve h hclear c e₂ { time := e.now } y₁
          refine ⟨_, e', e.now, y', hbelow.trans hrun', ?_⟩
          rw [hstore', hstore]
          exact .late htimed hlate
  · cases r with
    | releaseLock k =>
      obtain ⟨e', y', hrun, hstore⟩ := below_serve h hclear c e { time } y
      refine ⟨_, e', time, y', hrun, ?_⟩
      rw [hstore]
      exact .timely hclear nofun
    | clear => exact absurd rfl hclear
    | put | get | remove | size => exact absurd rfl htimed

/-! ## What calls leave -/

/-- The noted time is that of the last clear, made or not; and what is stored was put since
then, or a clear failed at that time and the put came before it. -/
structure Noted (log : List (Visit × Except CacheError Answer)) (began : Nat) (s : Store) :
    Prop where
  stored : ∀ k u, s.lookup k = some u → ∃ v, (v, .ok .done) ∈ log ∧
    v.request = .put k (some u) ∧ (began ≤ v.env.now ∨
      ∃ v' y, (v', .error y) ∈ log ∧ v'.env.now = began ∧ v.env.now ≤ began)

theorem noted_nil (began : Nat) : Noted [] began .empty := ⟨nofun⟩

/-- One more call, which comes after all the others. -/
theorem Noted.next {log : List (Visit × Except CacheError Answer)} {time time' : Nat}
    {s s' : Store} {v : Visit} {x : Except CacheError Answer} {fails : CacheError → Prop}
    (h : Noted log time s) (htime : time ≤ v.env.now)
    (hlog : ∀ e ∈ log, e.1.env.now ≤ v.env.now)
    (hserved : Served interval v.env.now fails time s v.request x time' s') :
    Noted (log ++ [(v, x)]) time' s' := by
  have hput : ∀ {s₁ : Store}, x = .ok (s₁.answer v.request) → ∀ k u,
      v.request = .put k (some u) → (v, .ok .done) ∈ log ++ [(v, x)] := by
    rintro s₁ rfl k u hr
    rw [hr]
    exact List.mem_append_right _ (List.mem_singleton_self _)
  -- What survives a clear that fails was put before it.
  have hsurvives : ∀ y, x = .error y → Noted (log ++ [(v, x)]) v.env.now s := by
    rintro y rfl
    refine ⟨fun k u hu => ?_⟩
    obtain ⟨v', hv', hr, -⟩ := h.stored k u hu
    exact ⟨v', List.mem_append_left _ hv', hr,
      .inr ⟨v, y, List.mem_append_right _ (List.mem_singleton_self _), rfl, hlog _ hv'⟩⟩
  generalize hreq : v.request = r at hserved hput
  cases hserved with
  | timely hr hdue =>
    refine ⟨fun k u hu => ?_⟩
    by_cases hown : r = .put k (some u)
    · exact ⟨v, hput rfl k u hown, hreq.trans hown, .inl htime⟩
    · obtain ⟨v', hv', hr', hsince⟩ := h.stored k u (Store.lookup_of_apply hown hu)
      refine ⟨v', List.mem_append_left _ hv', hr', hsince.imp_right ?_⟩
      rintro ⟨v'', y, hv'', hy⟩
      exact ⟨v'', y, List.mem_append_left _ hv'', hy⟩
  | late hr hdue =>
    refine ⟨fun k u hu => ?_⟩
    by_cases hown : r = .put k (some u)
    · exact ⟨v, hput rfl k u hown, hreq.trans hown, .inl le_rfl⟩
    · cases Store.lookup_of_apply hown hu
  | refused hr hdue hx => exact hsurvives _ rfl
  | cleared => exact ⟨nofun⟩
  | notCleared hx => exact hsurvives _ rfl

/-- The noted time is that of the last clear that was asked for or due, made or not. -/
theorem Served.began {p : Period} {s s' : Store} {time' : Nat} {v : Visit}
    {x : Except CacheError Answer} {fails : CacheError → Prop}
    (h : Served interval v.env.now fails p.began s v.request x time' s') :
    (p.next interval v).began = time' := by
  generalize hreq : v.request = r at h
  cases h with
  | timely hr hdue =>
    have hover : ¬ p.IsOver interval v := by
      rintro ⟨htimed, hlate⟩
      exact Nat.not_le_of_lt hlate (hdue (hreq ▸ htimed))
    rw [Period.next_of_not_isOver (hreq ▸ hr) hover]
  | late hr hdue =>
    have hover : p.IsOver interval v := ⟨hreq ▸ hr, hdue⟩
    rw [Period.next_of_isOver hover]
  | refused hr hdue =>
    have hover : p.IsOver interval v := ⟨hreq ▸ hr, hdue⟩
    rw [Period.next_of_isOver hover]
  | cleared | notCleared => rw [Period.next_of_clear hreq]

theorem Served.le {now time time' : Nat} {s s' : Store} {r : Request}
    {x : Except CacheError Answer} {fails : CacheError → Prop}
    (h : Served interval now fails time s r x time' s') (htime : time ≤ now) : time' ≤ now := by
  cases h with
  | timely => exact htime
  | late | refused | cleared | notCleared => exact le_rfl

/-- Only a call that the schedule let pass finds a value. -/
theorem Served.timely_of_value {now time time' : Nat} {s s' : Store} {r : Request} {u : Value}
    {fails : CacheError → Prop}
    (h : Served interval now fails time s r (.ok (.value (some u))) time' s') :
    now ≤ time + interval.nanos ∧ s.answer r = .value (some u) := by
  generalize hx : (Except.ok (.value (some u)) : Except CacheError Answer) = x at h
  cases h with
  | timely hr hdue =>
    have hanswer := (Except.ok.inj hx).symm
    obtain ⟨k, hk, -⟩ := Store.exists_of_answer hanswer
    refine ⟨hdue ?_, hanswer⟩
    rcases hk with hk | hk <;> rw [hk] <;> rfl
  | late hr hdue =>
    obtain ⟨k, -, hlookup⟩ := Store.exists_of_answer (Except.ok.inj hx).symm
    cases hlookup
  | refused | notCleared | cleared => cases hx

end Scheduled

/-! ## Calls with their results -/

/-- Calls on a cache, one after the other, each with its result. -/
inductive Cache.Logged (d : Cache σ) (s₀ : σ) :
    List (Visit × Except CacheError Answer) → σ → Prop where
  | start : Logged d s₀ [] s₀
  | call {log : List (Visit × Except CacheError Answer)} {s : σ} {v : Visit}
      {x : Except CacheError Answer} {w : World σ} (h : Logged d s₀ log s)
      (hserve : d.serve v.request v.caller ⟨v.env, s⟩ = .done x w) :
      Logged d s₀ (log ++ [(v, x)]) w.state

namespace Scheduled

variable {d : Cache σ} {store : σ → Store} {interval : Duration} {start : Nat} {y₀ : σ}
  {log : List (Visit × Except CacheError Answer)} {s : LastClear × σ}

/-- What the calls leave, made at times that do not go back. -/
theorem noted_of_logged (h : ClearMayFail d store) (hempty : store y₀ = .empty)
    (hlog : (around interval d).Logged ({ time := start }, y₀) log s)
    (htimes : (start :: log.map (·.1.env.now)).Pairwise (· ≤ ·)) :
    s.1 = { time := (Period.after interval start (log.map Prod.fst)).began } ∧
      Noted log s.1.time (store s.2) ∧ ∀ now, (∀ t ∈ start :: log.map (·.1.env.now), t ≤ now) →
        s.1.time ≤ now := by
  induction hlog with
  | start =>
    rw [hempty]
    exact ⟨rfl, noted_nil start, fun now hnow => hnow start List.mem_cons_self⟩
  | @call log s v x w hlog hserve ih =>
    rw [List.map_append, ← List.cons_append, List.pairwise_append] at htimes
    obtain ⟨hearlier, -, hlast⟩ := htimes
    obtain ⟨hbegan, hnoted, hle⟩ := ih hearlier
    have hbefore : ∀ t ∈ start :: log.map (·.1.env.now), t ≤ v.env.now := fun t ht =>
      hlast t ht v.env.now (List.mem_singleton_self _)
    obtain ⟨⟨time, gate⟩, y⟩ := s
    cases hbegan
    obtain ⟨x', e', time', y', hrun, hserved⟩ :=
      serve_served interval h v.request v.caller v.env _ y
    cases hserve.symm.trans hrun
    have hlogged : ∀ e ∈ log, e.1.env.now ≤ v.env.now := fun e he =>
      hbefore _ (List.mem_cons_of_mem _ (List.mem_map_of_mem he))
    refine ⟨?_, hnoted.next (hle _ hbefore) hlogged hserved, ?_⟩
    · have hnext := hserved.began
      rw [List.map_append, Period.after, List.foldl_append]
      exact congrArg (fun t => ({ time := t } : LastClear)) hnext.symm
    · intro now hnow
      refine (hserved.le (hle _ hbefore)).trans (hnow _ ?_)
      rw [List.map_append]
      exact List.mem_cons_of_mem _ (List.mem_append_right _ (List.mem_singleton_self _))

/-! ## The age of what is served -/

/-- After any calls on a layer around an empty store whose clear may fail, at times that do not
go back, the noted time is that of the last clear that was asked for or due, whether or not it
was made.  The next call ends at once: as it would with the store alone, if it comes at most
the interval after that time or the schedule does not apply to it; or else a clear is asked
for, and if that fails the call gives its error, and leaves everything but the time.  So a value
that is read or removed was put at most the interval before, or else it was put before a clear
that failed, which was at most the interval before. -/
theorem age_despite_failed_clears (h : ClearMayFail d store) (hempty : store y₀ = .empty)
    (hlog : (around interval d).Logged ({ time := start }, y₀) log s) {v : Visit}
    (htimes : (start :: (log.map (·.1.env.now) ++ [v.env.now])).Pairwise (· ≤ ·)) :
    ∃ p x w, p = Period.after interval start (log.map Prod.fst) ∧ s.1 = { time := p.began } ∧
      (around interval d).serve v.request v.caller ⟨v.env, s⟩ = .done x w ∧
      Served interval v.env.now (d.ClearFails s.2) p.began (store s.2) v.request x
        w.state.1.time (store w.state.2) ∧
      ∀ u, x = .ok (.value (some u)) → ∃ k, (v.request = .get k ∨ v.request = .remove k) ∧
        ∃ v', (v', .ok .done) ∈ log ∧ v'.request = .put k (some u) ∧
          (v.env.now ≤ v'.env.now + interval.nanos ∨
            ∃ v'' y, (v'', .error y) ∈ log ∧ v'.env.now ≤ v''.env.now ∧
              v.env.now ≤ v''.env.now + interval.nanos) := by
  rw [← List.cons_append, List.pairwise_append] at htimes
  obtain ⟨hearlier, -, -⟩ := htimes
  obtain ⟨hbegan, hnoted, -⟩ := noted_of_logged h hempty hlog hearlier
  obtain ⟨⟨time, gate⟩, y⟩ := s
  cases hbegan
  obtain ⟨x, e', time', y', hrun, hserved⟩ :=
    serve_served interval h v.request v.caller v.env _ y
  refine ⟨_, x, _, rfl, rfl, hrun, hserved, ?_⟩
  rintro u rfl
  obtain ⟨hnow, hanswer⟩ := hserved.timely_of_value
  obtain ⟨k, hk, hlookup⟩ := Store.exists_of_answer hanswer
  obtain ⟨v', hv', hput, hsince⟩ := hnoted.stored k u hlookup
  refine ⟨k, hk, v', hv', hput, hsince.imp (fun hle => ?_) ?_⟩
  · exact hnow.trans (Nat.add_le_add_right hle _)
  · rintro ⟨v'', x, hv'', htime, hle⟩
    exact ⟨v'', x, hv'', hle.trans htime.ge, hnow.trans (Nat.add_le_add_right htime.ge _)⟩

/-- Whatever clears fail, a read never gives a value that was put more than the interval before. -/
def NeverStale : Prop :=
  ∀ (σ : Type) (d : Cache σ) (store : σ → Store) (interval : Duration) (start : Nat) (y₀ : σ)
    (log : List (Visit × Except CacheError Answer)) (s : LastClear × σ) (v : Visit) (k : CacheKey)
    (u : Value) (w : World (LastClear × σ)),
    ClearMayFail d store → store y₀ = .empty →
    (around interval d).Logged ({ time := start }, y₀) log s →
    (start :: (log.map (·.1.env.now) ++ [v.env.now])).Pairwise (· ≤ ·) →
    v.request = .get k →
    (around interval d).serve v.request v.caller ⟨v.env, s⟩ = .done (.ok (.value (some u))) w →
    ∃ v', (v', .ok .done) ∈ log ∧ v'.request = .put k (some u) ∧
      v.env.now ≤ v'.env.now + interval.nanos

/-- A store that refuses to be cleared before a time. -/
def clearableFrom (time : Nat) (id : String) : Cache Store :=
  { Store.cache id with
    clear := fun c w =>
      if w.env.now < time then .done (.error (.serialization id "refused clear")) w
      else (Store.cache id).clear c w }

theorem clearMayFail_clearableFrom (time : Nat) (id : String) :
    ClearMayFail (clearableFrom time id) fun s => s where
  put _ _ _ _ := ⟨_, rfl, rfl⟩
  get _ _ _ := ⟨_, rfl, rfl⟩
  remove _ _ _ := ⟨_, rfl, rfl⟩
  size _ _ := ⟨_, rfl, rfl⟩
  releaseLock _ _ _ := rfl
  clear c w := by
    by_cases hearly : w.env.now < time
    · exact ⟨.error (.serialization id "refused clear"), w, if_pos hearly, rfl⟩
    · exact ⟨.ok (), _, if_neg hearly, rfl⟩

/-- A put at the time 3000. -/
def earlyPut : Visit :=
  ⟨⟨"main", []⟩, { now := 3000 }, .put .null (some (.data 0 (.bool true) false))⟩

/-- A read at a time. -/
def readAt (now : Nat) : Visit := ⟨⟨"main", []⟩, { now }, .get .null⟩

/-- The put, and a read at the time 9000 that has to clear the store first. -/
def putThenRefused : List (Visit × Except CacheError Answer) :=
  [(earlyPut, .ok .done), (readAt 9000, .error (.serialization "users" "refused clear"))]

/-- What the two calls leave, with an interval of 5000. -/
def refusedState : LastClear × Store :=
  ({ time := 9000 }, (Entries.empty : Store).insert .null (some (.data 0 (.bool true) false)))

theorem logged_putThenRefused : (around ⟨5000⟩ (clearableFrom 20000 "users")).Logged
    ({ time := 1000 }, .empty) putThenRefused refusedState := by
  have hput : (around ⟨5000⟩ (clearableFrom 20000 "users")).serve earlyPut.request earlyPut.caller
      ⟨earlyPut.env, ({ time := 1000 }, .empty)⟩ =
        .done (.ok .done) ⟨{ now := 3100 }, ({ time := 1000 }, refusedState.2)⟩ := by rfl
  have hget : (around ⟨5000⟩ (clearableFrom 20000 "users")).serve (readAt 9000).request
      (readAt 9000).caller ⟨(readAt 9000).env, ({ time := 1000 }, refusedState.2)⟩ =
        .done (.error (.serialization "users" "refused clear"))
          ⟨{ now := 9100 }, refusedState⟩ := by rfl
  exact (Cache.Logged.start.call hput).call hget

/-- At the time 10000 a read gives the value that was put at 3000. -/
theorem not_neverStale : ¬ NeverStale := by
  intro h
  have hserve : (around ⟨5000⟩ (clearableFrom 20000 "users")).serve (readAt 10000).request
      (readAt 10000).caller ⟨(readAt 10000).env, refusedState⟩ =
        .done (.ok (.value (some (.data 0 (.bool true) false))))
          ⟨{ now := 10100 }, refusedState⟩ := by rfl
  obtain ⟨v, hv, -, hage⟩ := h _ _ _ _ _ _ _ _ (readAt 10000) _ _ _
    (clearMayFail_clearableFrom 20000 "users") rfl logged_putThenRefused (by decide) rfl hserve
  rcases List.mem_cons.1 hv with hv | hv
  · obtain rfl := (Prod.mk.inj hv).1
    exact absurd hage (by decide)
  · cases List.mem_singleton.1 hv

/-- The read at 10000 does not ask for a clear: the one that failed at 9000 counts as made. -/
theorem age_despite_failed_clears_refused : ∃ x w,
    (around ⟨5000⟩ (clearableFrom 20000 "users")).serve (readAt 10000).request
      (readAt 10000).caller ⟨(readAt 10000).env, refusedState⟩ = .done x w ∧
    x = .ok (.value (some (.data 0 (.bool true) false))) := by
  obtain ⟨p, x, w, hp, -, hserve, hserved, -⟩ :=
    age_despite_failed_clears (clearMayFail_clearableFrom 20000 "users") rfl logged_putThenRefused
      (v := readAt 10000) (by decide)
  refine ⟨x, w, hserve, ?_⟩
  subst hp
  generalize hx : w.state.1.time = time' at hserved
  generalize hy : w.state.2 = s' at hserved
  cases hserved with
  | timely => rfl
  | late _ hdue => exact absurd hdue (by decide)
  | refused _ hdue => exact absurd hdue (by decide)

end Scheduled

end QueryCache
