import Mathlib
import QueryCache.Entries.Lemmas
import QueryCache.Layer.Scheduled
import QueryCache.Proofs.Cache.Resizable
import QueryCache.Proofs.Layer.Eviction

/-!
# A bound on the age of what is served

The layer that clears on schedule, around a store.  It looks at the clock when it is called and
at no other time, so entries stay until a call comes too late for them.  The calls since the last
clear, explicit or on schedule, make a period.  A put, a read, a removal or a count that comes
more than the interval after the beginning of its period clears the store and begins the next
one; within a period the layer is the store.

1. calls through an open gate
2. values in a store
3. one call
4. periods and their times
5. the layer and the store
6. the age of what is served
-/

namespace QueryCache

/-! ## Calls through an open gate -/

/-- A call passes an open gate at once, and leaves it open. -/
theorem Gate.pass_run {ε lam σ α : Type} {gate : lam → Gate} {set : Gate → lam → lam}
    {values : List Value} {m : Await ε (lam × σ) α} {c : Caller} {w x : World (lam × σ)}
    {r : Except ε α} (hopen : (gate w.state.1).isTaken = false)
    (hm : m c ⟨w.env, (set ⟨true⟩ w.state.1, w.state.2)⟩ = .done r x) :
    Gate.pass gate set values m c w =
      .done r ⟨x.env, (set ⟨false⟩ x.state.1, x.state.2)⟩ := by
  have hwait : (Await.waitFor fun s : lam × σ => !(gate s.1).isTaken) (c.holding values) w =
      (.done (.ok ()) w : Outcome ε (lam × σ) Unit) := by
    simp [Await.waitFor, hopen]
  refine (Await.bind_of_done (Await.holding_of_done hwait)).trans ?_
  refine (Await.bind_of_done rfl).trans ?_
  exact (Await.bind_of_done (Await.result_of_done hm)).trans (Await.bind_of_done rfl)

/-! ## Values in a store -/

/-- A value in an answer is what was found under the key that was read or removed. -/
theorem Store.exists_of_answer {s : Store} {r : Request} {u : Value}
    (h : s.answer r = .value (some u)) :
    ∃ k, (r = .get k ∨ r = .remove k) ∧ s.lookup k = some u := by
  cases r with
  | get k => exact ⟨k, .inl rfl, Answer.value.inj h⟩
  | remove k => exact ⟨k, .inr rfl, Answer.value.inj h⟩
  | _ => cases h

/-- A value that is found after a request which did not put it was there before. -/
theorem Store.lookup_of_apply {s : Store} {r : Request} {k : CacheKey} {u : Value}
    (hr : r ≠ .put k (some u)) (h : (s.apply r).lookup k = some u) : s.lookup k = some u := by
  cases r with
  | put k' x =>
    rw [apply, lookup_insert] at h
    split at h
    · rename_i hk
      exact absurd (by rw [hk, h]) hr
    · exact h
  | remove k' =>
    rw [apply, lookup_erase] at h
    split at h
    · cases h
    · exact h
  | clear => cases h
  | _ => exact h

/-- What a store has was put into it. -/
theorem Store.exists_put {k : CacheKey} {u : Value} {calls : List Visit}
    (h : Store.lookup ((calls.map Visit.request).foldl Store.apply .empty) k = some u) :
    ∃ v ∈ calls, v.request = .put k (some u) := by
  induction calls using List.reverseRecOn with
  | nil => cases h
  | append_singleton calls v ih =>
    rw [List.map_append, List.foldl_append] at h
    by_cases hput : v.request = .put k (some u)
    · exact ⟨v, by simp, hput⟩
    · have hearlier :
          Store.lookup ((calls.map Visit.request).foldl Store.apply .empty) k = some u :=
        lookup_of_apply hput h
      obtain ⟨v', hv', hput'⟩ := ih hearlier
      exact ⟨v', by simp [hv'], hput'⟩

/-! ## One call -/

/-- The call comes under the schedule: a put, a read, a removal or a count. -/
def Request.isTimed : Request → Bool
  | .put .. => true
  | .get _ => true
  | .remove _ => true
  | .size => true
  | .clear => false
  | .releaseLock _ => false

namespace Scheduled

/-- A new layer, set up at a time, around an empty store. -/
def fresh (time : Nat) : LastClear × Store := ({ time }, .empty)

/-- The state once a clear that is due has been made. -/
def cleared (interval : Duration) (now : Nat) (s : LastClear × Store) : LastClear × Store :=
  if isDue interval now s.1 then fresh now else s

/-- What a request finds: a request under the schedule comes after a clear that is due. -/
def found (interval : Duration) (now : Nat) (s : LastClear × Store) (r : Request) :
    LastClear × Store :=
  if r.isTimed then cleared interval now s else s

/-- What a request leaves. -/
def step (interval : Duration) (now : Nat) (s : LastClear × Store) : Request → LastClear × Store
  | .clear => fresh now
  | r => ((found interval now s r).1, (found interval now s r).2.apply r)

variable {interval : Duration} {now : Nat} {s : LastClear × Store} {r : Request}

theorem snd_step : (step interval now s r).2 = (found interval now s r).2.apply r := by
  cases r <;> rfl

theorem fst_step (hr : r ≠ .clear) : (step interval now s r).1 = (found interval now s r).1 := by
  cases r with
  | clear => exact absurd rfl hr
  | _ => rfl

/-- Inside the gate: a clear that is due is made, after the time of the call is noted. -/
def clearInside {σ : Type} (interval : Duration) (d : Cache σ) :
    CacheCall (LastClear × σ) Bool := do
  let now ← .ofOp Op.clock
  if isDue interval now (← .ofOp Op.layer) then
    .ofOp (Op.modifyLayer (LastClear.note now))
    (below d).clear
    pure true
  else pure false

/-- A clear that is not due is not made. -/
theorem clearWhenDue_skips {σ : Type} {d : Cache σ} {time : Nat} {e : Environment}
    (hdue : isDue interval e.now { time } = false) (values : List Value) (c : Caller) (y : σ) :
    clearWhenDue interval d values c ⟨e, ({ time }, y)⟩ =
      .done (.ok false) ⟨{ e with now := e.now + Environment.readingTime }, ({ time }, y)⟩ := by
  have hinside : ∀ c', clearInside interval d c' ⟨e, (⟨time, ⟨true⟩⟩, y)⟩ = .done (.ok false)
      ⟨{ e with now := e.now + Environment.readingTime }, (⟨time, ⟨true⟩⟩, y)⟩ := by
    intro c'
    refine (Await.bind_of_done rfl).trans ((Await.bind_of_done rfl).trans ?_)
    have hdue' : isDue interval e.now ⟨time, ⟨true⟩⟩ = false := hdue
    rw [hdue']
    rfl
  exact (Await.holding_of_done (Gate.pass_run rfl (hinside _))).trans rfl

/-- A clear that is due is made after its time is noted, so the time stays whatever the clear
comes to. -/
theorem clearWhenDue_makes {σ : Type} {d : Cache σ} {time : Nat} {e e' : Environment}
    {values : List Value} {c : Caller} {y y' : σ} {r : Except CacheError Unit}
    (hdue : isDue interval e.now { time } = true)
    (hclear : d.clear
      ((Focus.second fun _ : LastClear => []).caller (⟨e.now, ⟨true⟩⟩, y) (c.holding values))
      ⟨{ e with now := e.now + Environment.readingTime }, y⟩ = .done r ⟨e', y'⟩) :
    clearWhenDue interval d values c ⟨e, ({ time }, y)⟩ =
      .done (r.map fun _ => true) ⟨e', ({ time := e.now }, y')⟩ := by
  have hbelow : (below d).clear (c.holding values)
      ⟨{ e with now := e.now + Environment.readingTime }, (⟨e.now, ⟨true⟩⟩, y)⟩ =
        .done r ⟨e', (⟨e.now, ⟨true⟩⟩, y')⟩ := Focus.await_second hclear
  have hinside : clearInside interval d (c.holding values) ⟨e, (⟨time, ⟨true⟩⟩, y)⟩ =
      .done (r.map fun _ => true) ⟨e', (⟨e.now, ⟨true⟩⟩, y')⟩ := by
    refine (Await.bind_of_done rfl).trans ((Await.bind_of_done rfl).trans ?_)
    have hdue' : isDue interval e.now ⟨time, ⟨true⟩⟩ = true := hdue
    rw [if_pos hdue']
    refine (Await.bind_of_done rfl).trans ?_
    cases r with
    | ok _ => exact Await.bind_of_done hbelow
    | error x => exact Await.bind_of_failed hbelow
  exact (Await.holding_of_done (Gate.pass_run rfl hinside)).trans rfl

/-- Through an open gate: the clear is made if it is due, and the gate is open afterwards. -/
theorem clearWhenDue_ends {σ : Type} {d : Cache σ} {y y' : σ}
    (hclear : ∀ c e, d.clear c ⟨e, y⟩ = .done (.ok ()) ⟨e, y'⟩) (interval : Duration)
    (values : List Value) (c : Caller) (e : Environment) (time : Nat) :
    clearWhenDue interval d values c ⟨e, ({ time }, y)⟩ =
      .done (.ok (isDue interval e.now { time }))
        ⟨{ e with now := e.now + Environment.readingTime },
          if isDue interval e.now { time } then ({ time := e.now }, y') else ({ time }, y)⟩ := by
  cases hdue : isDue interval e.now { time } with
  | false => exact clearWhenDue_skips hdue values c y
  | true => exact clearWhenDue_makes hdue (hclear _ _)

/-- A clear that is due is made, and the time of the call is noted. -/
theorem clearWhenDue_run (interval : Duration) (id : String) (values : List Value) (c : Caller)
    {w : World (LastClear × Store)} (hopen : w.state.1.gate = {}) :
    clearWhenDue interval (Store.cache id) values c w =
      .done (.ok (isDue interval w.env.now w.state.1))
        ⟨{ w.env with now := w.env.now + Environment.readingTime },
          cleared interval w.env.now w.state⟩ := by
  obtain ⟨e, ⟨time, gate⟩, store⟩ := w
  obtain rfl : gate = {} := hopen
  exact clearWhenDue_ends (fun _ _ => rfl) interval values c e time

/-- A read that clears gives nothing, as a read of an empty store does. -/
theorem get_run (interval : Duration) (id : String) (k : CacheKey) (c : Caller)
    {w : World (LastClear × Store)} (hopen : w.state.1.gate = {}) :
    (around interval (Store.cache id)).get k c w =
      .done (.ok ((cleared interval w.env.now w.state).2.lookup k))
        ⟨{ w.env with now := w.env.now + Environment.readingTime },
          cleared interval w.env.now w.state⟩ := by
  refine (Await.bind_of_done (clearWhenDue_run interval id [] c hopen)).trans ?_
  rw [cleared]
  by_cases hdue : isDue interval w.env.now w.state.1 = true
  · rw [if_pos hdue, if_pos hdue]
    rfl
  · rw [if_neg hdue, if_neg hdue]
    rfl

/-- An explicit clear notes its time too. -/
theorem clear_run (interval : Duration) (id : String) (c : Caller)
    {w : World (LastClear × Store)} (hopen : w.state.1.gate = {}) :
    (around interval (Store.cache id)).clear c w = .done (.ok ())
      ⟨{ w.env with now := w.env.now + Environment.readingTime }, fresh w.env.now⟩ := by
  obtain ⟨e, ⟨time, gate⟩, store⟩ := w
  obtain rfl : gate = {} := hopen
  refine (Await.bind_of_done rfl).trans ?_
  exact (Await.bind_of_done (Gate.pass_run rfl rfl)).trans rfl

/-- Every call ends at once, with the answer of a store that has what the request finds. -/
theorem serve_run (interval : Duration) (id : String) (r : Request) (c : Caller)
    {w : World (LastClear × Store)} (hopen : w.state.1.gate = {}) :
    ∃ e, (around interval (Store.cache id)).serve r c w =
      .done (.ok ((found interval w.env.now w.state r).2.answer r))
        ⟨e, step interval w.env.now w.state r⟩ := by
  have hdue := fun values => clearWhenDue_run interval id values c hopen
  cases r with
  | put k x => exact ⟨_, Await.bind_of_done ((Await.bind_of_done (hdue x.toList)).trans rfl)⟩
  | get k => exact ⟨_, Await.bind_of_done (get_run interval id k c hopen)⟩
  | remove k => exact ⟨_, Await.bind_of_done ((Await.bind_of_done (hdue [])).trans rfl)⟩
  | clear => exact ⟨_, Await.bind_of_done (clear_run interval id c hopen)⟩
  | size => exact ⟨_, Await.bind_of_done ((Await.bind_of_done (hdue [])).trans rfl)⟩
  | releaseLock k => exact ⟨_, rfl⟩

/-! ## Periods and their times -/

/-- What is known of the calls so far. -/
structure Period where
  /-- The time of the last clear, or that of the start. -/
  began : Nat
  /-- The calls since then. -/
  calls : List Visit := []
  /-- The times of the clears that were made on schedule, latest first. -/
  clears : List Nat := []

namespace Period

/-! ### One more call -/

/-- The call comes under the schedule, more than the interval after the last clear. -/
def IsOver (interval : Duration) (p : Period) (v : Visit) : Prop :=
  v.request.isTimed = true ∧ p.began + interval.nanos < v.env.now

instance (interval : Duration) (p : Period) (v : Visit) : Decidable (p.IsOver interval v) := by
  unfold IsOver
  infer_instance

/-- One more call. -/
def next (interval : Duration) (p : Period) (v : Visit) : Period :=
  match v.request with
  | .clear => { p with began := v.env.now, calls := [] }
  | _ =>
    if p.IsOver interval v then ⟨v.env.now, [v], v.env.now :: p.clears⟩
    else { p with calls := p.calls ++ [v] }

/-- What is known after calls on a cache that was set up at a time. -/
def after (interval : Duration) (start : Nat) (visits : List Visit) : Period :=
  visits.foldl (next interval) { began := start }

variable {interval : Duration} {p : Period} {v : Visit}

theorem next_of_clear (hv : v.request = .clear) :
    p.next interval v = { p with began := v.env.now, calls := [] } := by
  rw [next, hv]

theorem not_isOver_of_clear (hv : v.request = .clear) : ¬ p.IsOver interval v := by
  rintro ⟨htimed, -⟩
  rw [hv] at htimed
  cases htimed

theorem next_of_isOver (hv : p.IsOver interval v) :
    p.next interval v = ⟨v.env.now, [v], v.env.now :: p.clears⟩ := by
  rw [next]
  split
  · rename_i hclear
    exact absurd hv (not_isOver_of_clear hclear)
  · rw [if_pos hv]

theorem next_of_not_isOver (hclear : v.request ≠ .clear) (hv : ¬ p.IsOver interval v) :
    p.next interval v = { p with calls := p.calls ++ [v] } := by
  rw [next]
  split
  · exact absurd ‹_› hclear
  · rw [if_neg hv]

/-- The calls of the period are among those that were made. -/
theorem mem_visits {visits : List Visit} (hv : v ∈ (visits.foldl (next interval) p).calls) :
    v ∈ p.calls ∨ v ∈ visits := by
  induction visits generalizing p with
  | nil => exact .inl hv
  | cons u rest ih =>
    rcases ih hv with hv | hv
    · by_cases hclear : u.request = .clear
      · rw [next_of_clear hclear] at hv
        cases hv
      · by_cases hover : p.IsOver interval u
        · rw [next_of_isOver hover] at hv
          rw [List.mem_singleton.1 hv]
          exact .inr List.mem_cons_self
        · rw [next_of_not_isOver hclear hover, List.mem_append, List.mem_singleton] at hv
          rcases hv with hv | rfl
          · exact .inl hv
          · exact .inr List.mem_cons_self
    · exact .inr (List.mem_cons_of_mem u hv)

/-! ### Times -/

/-- Calls at times that do not go back, `now` being the last of them: those of the period came
after its beginning, and the clears on schedule are more than the interval apart. -/
structure Timed (interval : Duration) (p : Period) (now : Nat) : Prop where
  began_le : p.began ≤ now
  le_call : ∀ v ∈ p.calls, p.began ≤ v.env.now
  clear_le : ∀ t ∈ p.clears, t ≤ p.began
  apart : p.clears.Pairwise fun later earlier => earlier + interval.nanos < later

namespace Timed

variable {now : Nat}

theorem next (h : p.Timed interval now) (hv : now ≤ v.env.now) :
    (p.next interval v).Timed interval v.env.now := by
  have hbegan := h.began_le
  by_cases hclear : v.request = .clear
  · rw [next_of_clear hclear]
    refine ⟨le_refl _, by simp, ?_, h.apart⟩
    intro t ht
    exact (h.clear_le t ht).trans (hbegan.trans hv)
  · by_cases hover : p.IsOver interval v
    · rw [next_of_isOver hover]
      have hlate := hover.2
      refine ⟨le_refl _, by simp, ?_, .cons ?_ h.apart⟩
      · intro t ht
        rcases List.mem_cons.1 ht with rfl | ht
        · exact le_refl _
        · exact (h.clear_le t ht).trans (hbegan.trans hv)
      · intro t ht
        have hle := h.clear_le t ht
        omega
    · rw [next_of_not_isOver hclear hover]
      refine ⟨hbegan.trans hv, ?_, h.clear_le, h.apart⟩
      intro v' hv'
      rcases List.mem_append.1 hv' with hv' | hv'
      · exact h.le_call v' hv'
      · rw [List.mem_singleton.1 hv']
        exact hbegan.trans hv

theorem run {visits : List Visit} (h : p.Timed interval now)
    (hvisits : (now :: (visits ++ [v]).map fun u => u.env.now).Pairwise (· ≤ ·)) :
    (visits.foldl (Period.next interval) p).Timed interval v.env.now := by
  induction visits generalizing p now with
  | nil =>
    have hle : now ≤ v.env.now := by simpa using hvisits
    exact ⟨h.began_le.trans hle, h.le_call, h.clear_le, h.apart⟩
  | cons u rest ih =>
    obtain ⟨hle, hrest⟩ := List.pairwise_cons.1 hvisits
    exact ih (h.next (hle _ (by simp))) hrest

end Timed

end Period

/-! ## The layer and the store -/

/-- The layer has the time of the last clear, and the store what the calls since then left. -/
structure Keeps (p : Period) (s : LastClear × Store) : Prop where
  layer : s.1 = { time := p.began }
  store : s.2 = (p.calls.map Visit.request).foldl Store.apply .empty

namespace Keeps

variable {interval : Duration} {p : Period} {s : LastClear × Store} {v : Visit}

/-- A request finds an empty store if the period is over, and else what was there. -/
theorem found_eq (h : Keeps p s) (interval : Duration) (v : Visit) :
    found interval v.env.now s v.request =
      if p.IsOver interval v then fresh v.env.now else s := by
  have hdue : isDue interval v.env.now s.1 = true ↔ p.began + interval.nanos < v.env.now := by
    rw [isDue, h.layer, decide_eq_true_iff]
    exact Nat.lt_sub_iff_add_lt'
  rw [found, cleared]
  by_cases htimed : v.request.isTimed = true
  · simp only [htimed, if_true, hdue, Period.IsOver, true_and]
  · have hover : ¬ p.IsOver interval v := fun hover => htimed hover.1
    rw [if_neg htimed, if_neg hover]

theorem next (h : Keeps p s) (v : Visit) :
    Keeps (p.next interval v) (step interval v.env.now s v.request) := by
  by_cases hclear : v.request = .clear
  · rw [Period.next_of_clear hclear, hclear]
    exact ⟨rfl, rfl⟩
  · have hfound := h.found_eq interval v
    by_cases hover : p.IsOver interval v
    · rw [if_pos hover] at hfound
      rw [Period.next_of_isOver hover]
      constructor
      · rw [fst_step hclear, hfound]
        rfl
      · rw [snd_step, hfound]
        rfl
    · rw [if_neg hover] at hfound
      rw [Period.next_of_not_isOver hclear hover]
      constructor
      · rw [fst_step hclear, hfound]
        exact h.layer
      · rw [snd_step, hfound, h.store, List.map_append, List.foldl_append]
        rfl

/-- A call of the run. -/
theorem serve_run (h : Keeps p s) (interval : Duration) (id : String) (v : Visit) :
    ∃ e, (around interval (Store.cache id)).serve v.request v.caller ⟨v.env, s⟩ =
      .done (.ok ((if p.IsOver interval v then .empty else s.2 : Store).answer v.request))
        ⟨e, step interval v.env.now s v.request⟩ := by
  have hopen : s.1.gate = {} := by rw [h.layer]
  obtain ⟨e, he⟩ := Scheduled.serve_run interval id v.request v.caller (w := ⟨v.env, s⟩) hopen
  refine ⟨e, he.trans ?_⟩
  rw [h.found_eq interval v]
  split <;> rfl

theorem run (h : Keeps p s) (interval : Duration) (id : String) (visits : List Visit) :
    ∃ s', (around interval (Store.cache id)).after s visits = some s' ∧
      Keeps (visits.foldl (Period.next interval) p) s' := by
  induction visits generalizing p s with
  | nil => exact ⟨s, rfl, h⟩
  | cons v rest ih =>
    obtain ⟨e, he⟩ := h.serve_run interval id v
    obtain ⟨s', hafter, hkeeps⟩ := ih (h.next v)
    exact ⟨s', (Cache.after_cons he rest).trans hafter, hkeeps⟩

/-- A call that comes too late clears the store and begins anew. -/
theorem late_call (h : Keeps p s) (hover : p.IsOver interval v) (id : String) :
    ∃ a w, (around interval (Store.cache id)).serve v.request v.caller ⟨v.env, s⟩ =
        .done (.ok a) w ∧ w.state.1.time = v.env.now ∧
      (Store.cache id).serve v.request v.caller ⟨v.env, .empty⟩ =
        .done (.ok a) ⟨v.env, w.state.2⟩ ∧
      (∀ k, v.request = .get k → a = .value none) ∧
      ∀ k x, v.request = .put k x → w.state.2.toList = [(k, x)] := by
  have hclear : v.request ≠ .clear := fun hclear => Period.not_isOver_of_clear hclear hover
  have hfound := h.found_eq interval v
  obtain ⟨e, he⟩ := h.serve_run interval id v
  rw [if_pos hover] at hfound he
  refine ⟨_, _, he, ?_, ?_, ?_, ?_⟩
  · rw [fst_step hclear, hfound]
    rfl
  · rw [snd_step, hfound]
    exact Store.serve_run id v.request v.caller ⟨v.env, .empty⟩
  · intro k hget
    rw [hget]
    rfl
  · intro k x hput
    rw [snd_step, hfound, hput]
    rfl

/-- Any other call does what it does with the store alone. -/
theorem timely_call (h : Keeps p s) (hover : ¬ p.IsOver interval v) (id : String) :
    ∃ a w, (around interval (Store.cache id)).serve v.request v.caller ⟨v.env, s⟩ =
        .done (.ok a) w ∧
      (Store.cache id).serve v.request v.caller ⟨v.env, s.2⟩ = .done (.ok a) ⟨v.env, w.state.2⟩ ∧
      (v.request = .clear → w.state.1.time = v.env.now) ∧
      (v.request ≠ .clear → w.state.1.time = p.began) := by
  have hfound := h.found_eq interval v
  obtain ⟨e, he⟩ := h.serve_run interval id v
  rw [if_neg hover] at hfound he
  refine ⟨_, _, he, ?_, ?_, ?_⟩
  · rw [snd_step, hfound]
    exact Store.serve_run id v.request v.caller ⟨v.env, s.2⟩
  · intro hclear
    rw [hclear]
    rfl
  · intro hclear
    rw [fst_step hclear, hfound, h.layer]

end Keeps

/-! ## The age of what is served -/

/-- A value that a call gives was put in the period, at most the interval before. -/
theorem Keeps.age {interval : Duration} {p : Period} {s : LastClear × Store} {v : Visit}
    {id : String} {u : Value} {w : World (LastClear × Store)} (h : Keeps p s)
    (ht : p.Timed interval v.env.now)
    (hserve : (around interval (Store.cache id)).serve v.request v.caller ⟨v.env, s⟩ =
      .done (.ok (.value (some u))) w) :
    ∃ k, (v.request = .get k ∨ v.request = .remove k) ∧
      ∃ v' ∈ p.calls, v'.request = .put k (some u) ∧ v.env.now ≤ v'.env.now + interval.nanos := by
  have hanswer : (if p.IsOver interval v then .empty else s.2 : Store).answer v.request =
      .value (some u) := by
    obtain ⟨e, he⟩ := h.serve_run interval id v
    injection he.symm.trans hserve with hok
    exact Except.ok.inj hok
  obtain ⟨k, hr, hlookup⟩ := Store.exists_of_answer hanswer
  refine ⟨k, hr, ?_⟩
  have hover : ¬ p.IsOver interval v := by
    intro hover
    rw [if_pos hover] at hlookup
    cases hlookup
  rw [if_neg hover, h.store] at hlookup
  obtain ⟨v', hv', hput⟩ := Store.exists_put hlookup
  refine ⟨v', hv', hput, ?_⟩
  have htimed : v.request.isTimed = true := by
    rcases hr with hr | hr <;> rw [hr] <;> rfl
  have hlate : ¬ p.began + interval.nanos < v.env.now := fun hlate => hover ⟨htimed, hlate⟩
  have hbegan := ht.le_call v' hv'
  omega

/-- After any calls on a layer that was set up at a time around an empty store, at times that
do not go back, let the period be what is known of them: it began with the last clear, explicit
or on schedule, or else with the start.  A put, a read, a removal or a count that comes more than
the interval after the beginning of the period first clears the store, and its time is noted: it
does what it does with an empty store, so a read gives nothing, and a put leaves its own entry
alone.  Every other call answers and leaves what a bare store does that has had the calls of the
period, and only an explicit clear has its time noted.  So a value that is read or removed was put
at most the interval before, and any two clears on schedule are more than the interval apart. -/
theorem bounds_age (interval : Duration) (id : String) {start : Nat} {visits : List Visit}
    {v : Visit}
    (htimes : (start :: (visits ++ [v]).map fun u => u.env.now).Pairwise (· ≤ ·)) :
    ∃ p s, p = Period.after interval start visits ∧
      (around interval (Store.cache id)).after (fresh start) visits = some s ∧
      s.1 = { time := p.began } ∧ (Store.cache id).after .empty p.calls = some s.2 ∧
      (around interval (Store.cache id)).stats s = (Store.cache id).stats s.2 ∧
      p.clears.Pairwise (fun later earlier => earlier + interval.nanos < later) ∧
      ∃ a w, (around interval (Store.cache id)).serve v.request v.caller ⟨v.env, s⟩ =
          .done (.ok a) w ∧
        (p.IsOver interval v → w.state.1.time = v.env.now ∧
          (Store.cache id).serve v.request v.caller ⟨v.env, .empty⟩ =
            .done (.ok a) ⟨v.env, w.state.2⟩ ∧
          (∀ k, v.request = .get k → a = .value none) ∧
          ∀ k x, v.request = .put k x → w.state.2.toList = [(k, x)]) ∧
        (¬ p.IsOver interval v →
          (Store.cache id).serve v.request v.caller ⟨v.env, s.2⟩ =
            .done (.ok a) ⟨v.env, w.state.2⟩ ∧
          (v.request = .clear → w.state.1.time = v.env.now) ∧
          (v.request ≠ .clear → w.state.1.time = p.began)) ∧
        ∀ u, a = .value (some u) → ∃ k, (v.request = .get k ∨ v.request = .remove k) ∧
          ∃ v' ∈ visits, v'.request = .put k (some u) ∧
            v.env.now ≤ v'.env.now + interval.nanos := by
  have hstart : Keeps { began := start } (fresh start) := ⟨rfl, rfl⟩
  obtain ⟨s, hafter, hkeeps⟩ := hstart.run interval id visits
  have htimed : (Period.after interval start visits).Timed interval v.env.now :=
    Period.Timed.run ⟨le_refl start, by simp, by simp, .nil⟩ htimes
  have hstore : (Store.cache id).after .empty (Period.after interval start visits).calls =
      some s.2 := by
    rw [Store.after_eq, hkeeps.store]
    rfl
  have hage : ∀ a w, (around interval (Store.cache id)).serve v.request v.caller ⟨v.env, s⟩ =
      .done (.ok a) w → ∀ u, a = .value (some u) → ∃ k,
        (v.request = .get k ∨ v.request = .remove k) ∧ ∃ v' ∈ visits,
          v'.request = .put k (some u) ∧ v.env.now ≤ v'.env.now + interval.nanos := by
    rintro a w hserve u rfl
    obtain ⟨k, hr, v', hv', hput, hage⟩ := hkeeps.age htimed hserve
    have hmem := (Period.mem_visits hv').resolve_left List.not_mem_nil
    exact ⟨k, hr, v', hmem, hput, hage⟩
  refine ⟨_, s, rfl, hafter, hkeeps.layer, hstore, rfl, htimed.apart, ?_⟩
  by_cases hover : (Period.after interval start visits).IsOver interval v
  · obtain ⟨a, w, hserve, hlate⟩ := hkeeps.late_call hover id
    exact ⟨a, w, hserve, fun _ => hlate, fun h => absurd hover h, hage a w hserve⟩
  · obtain ⟨a, w, hserve, htimely⟩ := hkeeps.timely_call hover id
    exact ⟨a, w, hserve, fun h => absurd h hover, fun _ => htimely, hage a w hserve⟩

/-- A put at the time three. -/
def putAtThree : List Visit :=
  [⟨⟨"main", []⟩, { now := 3 }, .put .null (some (.data 0 (.bool true) false))⟩]

/-- With an interval of five, a read at the time nine finds nothing, and the next period begins. -/
theorem bounds_age_late : ∃ s w,
    (around ⟨5⟩ (Store.cache "users")).after (fresh 1) putAtThree = some s ∧
    (around ⟨5⟩ (Store.cache "users")).serve (.get .null) ⟨"main", []⟩ ⟨{ now := 9 }, s⟩ =
      .done (.ok (.value none)) w ∧ w.state.1.time = 9 := by
  let late : Visit := ⟨⟨"main", []⟩, { now := 9 }, .get .null⟩
  have htimes : (1 :: (putAtThree ++ [late]).map fun u => u.env.now).Pairwise (· ≤ ·) := by decide
  obtain ⟨p, s, hp, hafter, -, -, -, -, a, w, hserve, hlate, -⟩ := bounds_age ⟨5⟩ "users" htimes
  have hover : p.IsOver ⟨5⟩ late := by
    rw [hp]
    exact ⟨rfl, by decide⟩
  obtain ⟨htime, -, hget, -⟩ := hlate hover
  obtain rfl := hget .null rfl
  exact ⟨s, w, hafter, hserve, htime⟩

end Scheduled

end QueryCache
