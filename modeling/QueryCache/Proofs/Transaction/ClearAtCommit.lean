import Mathlib
import QueryCache.Proofs.Layer.Contents
import QueryCache.Proofs.Transaction.LockedUnit

/-!
# What a commit does to the caches that are to be cleared

A unit of work over many caches commits the buffers one after the other and
stops at the first failure.  A buffer with a pending clear makes it before
anything else.  So each cache with a pending clear is either cleared by the
commit, and then gets nothing but writes of the unit, or the commit does not get
so far: then it is as it was, its clear is still pending, and the commit fails.

1. calls on a part of the state
2. a cache that was cleared
3. the buffer for one cache
4. the buffers of a unit
-/

namespace QueryCache

/-! ## Calls on a part of the state -/

/-- A call settles with whatever end it comes to. -/
theorem Outcome.meets_settles {ε σ α : Type} (t : Thread) (o : Outcome ε σ α) :
    o.Meets t fun r w => o.Settles t r w := by
  induction o with
  | done r w => exact .done r w
  | waiting w wait resume ih =>
    intro c e hc he hw
    refine (ih c ⟨e, w.state⟩).mono ?_
    intro r w' hs
    exact .waiting hc he hw hs

/-- How a call ends that is made on a part of the state, for the same thread. -/
def Relayed {ε σ τ α : Type} (m : Await ε τ α) (part : σ → τ) (same : σ → σ → Prop) (t : Thread)
    (w : World σ) (r : Except ε α) (w' : World σ) : Prop :=
  (∃ c, c.thread = t ∧ (m c ⟨w.env, part w.state⟩).Settles t r ⟨w'.env, part w'.state⟩) ∧
    same w.state w'.state

/-- The puts and clears of a cache are those of another one on a part of the
state; `same` says what they leave as it was. -/
structure Relays {σ τ : Type} (d : Cache σ) (d₀ : Cache τ) (part : σ → τ) (same : σ → σ → Prop) :
    Prop where
  put : ∀ k x t w, (d.put k x).Meets t w (Relayed (d₀.put k x) part same t w)
  clear : ∀ t w, d.clear.Meets t w (Relayed d₀.clear part same t w)
  refl : ∀ s, same s s
  trans : ∀ {s s' s''}, same s s' → same s' s'' → same s s''

section Relays

variable {σ τ lam : Type} {d : Cache σ} {d₀ : Cache τ} {part : σ → τ} {same : σ → σ → Prop}

theorem relayed_focus {ε α : Type} {f : Focus σ τ} (hf : ∀ s, f.LawfulAt s)
    (hset : ∀ s x, same s (f.set x s)) (m : Await ε τ α) (t : Thread) (w : World σ) :
    (f.await m).Meets t w (Relayed m f.get same t w) := by
  refine Await.Meets.focus (hf w.state) ?_
  intro c hc
  refine (Outcome.meets_settles t (m c (f.narrow w))).mono ?_
  intro r w' hs
  refine ⟨⟨c, hc, ?_⟩, hset w.state w'.state⟩
  show (m c (f.narrow w)).Settles t r ⟨w'.env, f.get (f.set w'.state w.state)⟩
  rw [(hf w.state).get_set]
  exact hs

theorem Relays.within {f : Focus σ τ} (hf : ∀ s, f.LawfulAt s) (hset : ∀ s x, same s (f.set x s))
    (hrefl : ∀ s, same s s) (htrans : ∀ {s s' s''}, same s s' → same s' s'' → same s s'') :
    Relays (d₀.within f) d₀ f.get same where
  put k x t w := relayed_focus hf hset (d₀.put k x) t w
  clear t w := relayed_focus hf hset d₀.clear t w
  refl := hrefl
  trans := htrans

theorem Relayed.under {ε α : Type} {m : Await ε σ α} {m₀ : Await ε τ α}
    (h : ∀ t w, m.Meets t w (Relayed m₀ part same t w)) (held : lam → List Value) (t : Thread)
    (w : World (lam × σ)) :
    ((Focus.second held).await m).Meets t w
      (Relayed m₀ (fun s => part s.2) (fun s s' => s'.1 = s.1 ∧ same s.2 s'.2) t w) := by
  refine Await.Meets.focus (Focus.lawfulAt_second held w.state) ?_
  refine (h t _).mono ?_
  rintro r w' ⟨hs, hsame⟩
  exact ⟨hs, rfl, hsame⟩

/-- A layer above leaves its own state as it was too. -/
theorem Relays.under (h : Relays d d₀ part same) (held : lam → List Value) :
    Relays (d.under held) d₀ (fun s => part s.2) fun s s' => s'.1 = s.1 ∧ same s.2 s'.2 where
  put k x := Relayed.under (h.put k x) held
  clear := Relayed.under h.clear held
  refl s := ⟨rfl, h.refl s.2⟩
  trans hs hs' := ⟨hs'.1.trans hs.1, h.trans hs.2 hs'.2⟩

/-- Less may be known of what the calls leave as it was. -/
theorem Relays.mono {same' : σ → σ → Prop} (h : Relays d d₀ part same)
    (hsame : ∀ {s s'}, same s s' → same' s s') (hrefl : ∀ s, same' s s)
    (htrans : ∀ {s s' s''}, same' s s' → same' s' s'' → same' s s'') : Relays d d₀ part same' where
  put k x t w := (h.put k x t w).mono fun _ _ hs => ⟨hs.1, hsame hs.2⟩
  clear t w := (h.clear t w).mono fun _ _ hs => ⟨hs.1, hsame hs.2⟩
  refl := hrefl
  trans := htrans

end Relays

/-! ## A cache that was cleared -/

namespace Buffer

/-- The event is a put that is one of the calls. -/
def IsPutOf (calls : List SharedCall) (event : Event) : Prop :=
  ∃ k x r, event = .put k x r ∧ SharedCall.put k x ∈ calls

theorem IsPutOf.mono {calls calls' : List SharedCall} {event : Event} (h : IsPutOf calls event)
    (hsub : calls ⊆ calls') : IsPutOf calls' event := by
  obtain ⟨k, x, r, heq, hmem⟩ := h
  exact ⟨k, x, r, heq, hsub hmem⟩

/-- From the first state a clear and then puts of the plan lead to the second
one; after the clear there was no entry. -/
def Renewed {τ : Type} (d : Cache τ) (store : τ → Store) (plan : List SharedCall) (s s' : τ) :
    Prop :=
  ∃ (c : Caller) (e : Environment) (w₁ w₂ : World τ) (events : List Event),
    (d.clear c ⟨e, s⟩).Settles c.thread (.ok ()) w₁ ∧ store w₁.state = .empty ∧
      Run d w₁ events w₂ ∧ w₂.state = s' ∧ ∀ event ∈ events, IsPutOf plan event

/-- The second store still has an entry of the first one, under a key to which the
plan puts nothing. -/
def HoldsOld (plan : List SharedCall) (m m' : Store) : Prop :=
  ∃ k y, m.find? k = some y ∧ m'.find? k = some y ∧ ∀ x, .put k x ∉ plan

/-- A cache that was cleared has none of its old entries. -/
theorem Renewed.not_holdsOld {τ : Type} {d : Cache τ} {store : τ → Store}
    {plan : List SharedCall} {s s' : τ} (h : Renewed d store plan s s') (hd : AddsOwn d store)
    (m : Store) : ¬ HoldsOld plan m (store s') := by
  obtain ⟨c, e, w₁, w₂, events, -, hempty, hrun, rfl, hevents⟩ := h
  have hwithin : (store w₂.state).Within fun k => ∃ x, .put k x ∈ plan := by
    refine hd.run hrun ?_ ?_
    · intro event hevent
      obtain ⟨k, x, r, heq, hmem⟩ := hevents event hevent
      exact ⟨k, x, r, heq, x, hmem⟩
    · rw [hempty]
      exact Store.within_empty _
  rintro ⟨k, y, -, hy, hnone⟩
  obtain ⟨x, hx⟩ := hwithin k y hy
  exact hnone x hx

/-! ## The buffer for one cache -/

/-- The puts of a plan. -/
def puts (b : Buffer) (misses : List CacheKey) : List SharedCall :=
  b.writes.toList.map (fun e => .put e.1 e.2) ++
    (misses.filter fun k => !b.writes.contains k).map (.put · none)

theorem planWith_eq (b : Buffer) (misses : List CacheKey) :
    b.planWith misses = (if b.clearPending then [.clear] else []) ++ b.puts misses := by
  rw [planWith, puts, List.append_assoc]

theorem exists_put_of_mem_puts {b : Buffer} {misses : List CacheKey} {call : SharedCall}
    (h : call ∈ b.puts misses) : ∃ k x, call = .put k x := by
  rcases List.mem_append.1 h with h | h
  · obtain ⟨e, -, rfl⟩ := List.mem_map.1 h
    exact ⟨e.1, e.2, rfl⟩
  · obtain ⟨k, -, rfl⟩ := List.mem_map.1 h
    exact ⟨k, none, rfl⟩

/-- The order of the missed keys makes no difference to which calls there are. -/
theorem puts_subset_plan {b : Buffer} {misses : List CacheKey} (hm : misses.Perm b.misses) :
    b.puts misses ⊆ b.plan := by
  have hperm : (b.puts misses).Perm (b.puts b.misses) :=
    List.Perm.append_left _ ((hm.filter _).map _)
  rw [plan, planWith_eq]
  exact List.subset_append_of_subset_right _ hperm.subset

variable {σ τ : Type} {d : Cache σ} {d₀ : Cache τ} {part : σ → τ} {same : σ → σ → Prop}
  {store : τ → Store}

/-- Puts, up to the first one that fails. -/
theorem runAll_relayed (h : Relays d d₀ part same) {calls : List SharedCall}
    (hputs : ∀ call ∈ calls, ∃ k x, call = .put k x) (t : Thread) (w : World σ) :
    (SharedCall.runAll d calls).Meets t w fun _ w' =>
      (∃ events, Run d₀ ⟨w.env, part w.state⟩ events ⟨w'.env, part w'.state⟩ ∧
        ∀ event ∈ events, IsPutOf calls event) ∧ same w.state w'.state := by
  induction calls generalizing w with
  | nil => exact .pure ⟨⟨[], .start, fun _ hevent => nomatch hevent⟩, h.refl w.state⟩
  | cons call rest ih =>
    obtain ⟨k, x, rfl⟩ := hputs call List.mem_cons_self
    have hrest := ih fun call hcall => hputs call (List.mem_cons_of_mem _ hcall)
    -- The put is the first event of the run, whether or not it fails.
    have hone : ∀ {r w₁}, Relayed (d₀.put k x) part same t w r w₁ →
        Run d₀ ⟨w.env, part w.state⟩ [.put k x r] ⟨w₁.env, part w₁.state⟩ := by
      rintro r w₁ ⟨⟨c, rfl, hs⟩, -⟩
      exact .call .start (.refl _) hs
    have hput : ∀ r, IsPutOf (.put k x :: rest) (.put k x r) :=
      fun r => ⟨k, x, r, rfl, List.mem_cons_self⟩
    refine Await.Meets.bind_of (h.put k x t w) ?_ ?_
    · intro _ w₁ hfirst
      refine (hrest w₁).mono ?_
      rintro r w₂ ⟨⟨events, hrun, hevents⟩, hsame⟩
      refine ⟨⟨_, (hone hfirst).append hrun, ?_⟩, h.trans hfirst.2 hsame⟩
      intro event hevent
      rcases List.mem_cons.1 hevent with rfl | hevent
      · exact hput _
      · exact (hevents event hevent).mono (List.subset_cons_self _ _)
    · intro e w₁ hfirst
      refine ⟨⟨_, hone hfirst, ?_⟩, hfirst.2⟩
      intro event hevent
      rw [List.mem_singleton.1 hevent]
      exact hput _

/-- A commit with a pending clear makes it first. -/
theorem runAll_renews (h : Relays d d₀ part same) (he : Empties d₀ store) (b : Buffer)
    {misses : List CacheKey} (hm : misses.Perm b.misses) (t : Thread) (w : World σ) :
    (SharedCall.runAll d (b.planWith misses)).Meets t w fun _ w' =>
      (b.clearPending = true → Renewed d₀ store b.plan (part w.state) (part w'.state)) ∧
        same w.state w'.state := by
  have hisPut : ∀ c ∈ b.puts misses, ∃ k x, c = .put k x := fun _ => exists_put_of_mem_puts
  have hputs := runAll_relayed h hisPut t
  rw [planWith_eq]
  cases b.clearPending with
  | false =>
    refine (hputs w).mono ?_
    rintro r w' ⟨-, hsame⟩
    exact ⟨nofun, hsame⟩
  | true =>
    refine Await.Meets.bind_of (h.clear t w) ?_ ?_
    · rintro _ w₁ ⟨⟨c, rfl, hclear⟩, hsame₁⟩
      refine (hputs w₁).mono ?_
      rintro r w' ⟨⟨events, hrun, hevents⟩, hsame⟩
      refine ⟨fun _ => ?_, h.trans hsame₁ hsame⟩
      have hempty := he.settles hclear trivial
      refine ⟨c, w.env, _, _, events, hclear, hempty.2, hrun, rfl, ?_⟩
      intro event hevent
      exact (hevents event hevent).mono (puts_subset_plan hm)
    · -- the clear does not fail
      rintro e w₁ ⟨⟨c, rfl, hclear⟩, -⟩
      have hempty := he.settles hclear trivial
      cases hempty.1

theorem commitWith_renews (h : Relays d d₀ part same) (he : Empties d₀ store)
    {order : Buffer → List CacheKey} (ho : ∀ b, (order b).Perm b.misses) (t : Thread)
    (w : World (Buffer × σ)) :
    (commitWith order d).Meets t w fun _ w' =>
      (w.state.1.clearPending = true →
        Renewed d₀ store w.state.1.plan (part w.state.2) (part w'.state.2)) ∧
        same w.state.2 w'.state.2 := by
  refine Await.Meets.bind_ofOp ?_
  intro _ _
  refine Await.Meets.bind_of
    (runAll_renews (h.under held) he w.state.1 (ho w.state.1) t w) ?_ ?_
  · rintro _ w' ⟨hrenewed, -, hsame⟩
    exact Await.Meets.modifyLayer ⟨hrenewed, hsame⟩
  · rintro e w' ⟨hrenewed, -, hsame⟩
    exact ⟨hrenewed, hsame⟩

end Buffer

/-! ## The buffers of a unit -/

namespace UnitOfWork

variable {ρ σ : Type} {T : ρ → Type}

/-- Each cache makes its calls on a part of the state that is its own. -/
structure RelaysEach (caches : ρ → Cache σ) (d : ∀ r, Cache (T r)) (part : ∀ r, σ → T r) :
    Prop where
  each : ∀ r, Relays (caches r) (d r) (part r) fun s s' => ∀ r', r' ≠ r → part r' s' = part r' s
  /-- No two caches have the same id. -/
  ids : Function.Injective fun r => (caches r).id

/-- A layer above the caches makes no difference. -/
theorem RelaysEach.under {lam : Type} {caches : ρ → Cache σ} {d : ∀ r, Cache (T r)}
    {part : ∀ r, σ → T r} (h : RelaysEach caches d part) (held : lam → List Value) :
    RelaysEach (fun r => (caches r).under held) d fun r s => part r s.2 where
  each r := ((h.each r).under held).mono (fun hs => hs.2) (fun _ _ _ => rfl)
    fun hs hs' r' hr' => (hs' r' hr').trans (hs r' hr')
  ids := h.ids

/-- The unit will clear the cache when it commits. -/
def Pending (caches : ρ → Cache σ) (r : ρ) (u : UnitOfWork ρ) : Prop :=
  (u.buffer (caches r).id).clearPending = true

/-- Neither the cache nor the buffer for it has changed. -/
def Untouched (caches : ρ → Cache σ) (part : ∀ r, σ → T r) (r : ρ) (s s' : UnitOfWork ρ × σ) :
    Prop :=
  part r s'.2 = part r s.2 ∧ s'.1.buffer (caches r).id = s.1.buffer (caches r).id

/-- What a commit of the buffers in a list does to a cache: nothing, if it is not
in the list; else a pending clear is made, or an earlier buffer made the commit
fail. -/
structure CommitTreats (caches : ρ → Cache σ) (d : ∀ r, Cache (T r)) (part : ∀ r, σ → T r)
    (store : ∀ r, T r → Store) (list : List (String × ρ)) (x : Except CacheError Unit)
    (s s' : UnitOfWork ρ × σ) (r : ρ) : Prop where
  left : ((caches r).id, r) ∉ list → Untouched caches part r s s'
  listed : ((caches r).id, r) ∈ list → Pending caches r s.1 →
    Buffer.Renewed (d r) (store r) (s.1.buffer (caches r).id).plan (part r s.2) (part r s'.2) ∨
      (x ≠ .ok () ∧ Untouched caches part r s s')

variable {caches : ρ → Cache σ} {d : ∀ r, Cache (T r)} {part : ∀ r, σ → T r}
  {store : ∀ r, T r → Store} {u u' : UnitOfWork ρ} {y y' : σ} {r r' : ρ}

theorem untouched_of_differsAt (hids : Function.Injective fun r => (caches r).id)
    (hdiff : DiffersAt caches r u u') (hr : r' ≠ r) (hpart : part r' y' = part r' y) :
    Untouched caches part r' (u, y) (u', y') := by
  refine ⟨hpart, ?_⟩
  show u'.buffer (caches r').id = u.buffer (caches r').id
  rw [buffer, buffer, hdiff.others _ fun heq => hr (hids heq)]

theorem Untouched.trans {s s' s'' : UnitOfWork ρ × σ} (h : Untouched caches part r s s')
    (h' : Untouched caches part r s' s'') : Untouched caches part r s s'' :=
  ⟨h'.1.trans h.1, h'.2.trans h.2⟩

/-- What the rest of a list does to a cache that was not touched before. -/
theorem CommitTreats.after_untouched {list : List (String × ρ)} {x : Except CacheError Unit}
    {s s' s'' : UnitOfWork ρ × σ} {entry : String × ρ}
    (h : CommitTreats caches d part store list x s' s'' r) (hs : Untouched caches part r s s')
    (hne : ((caches r).id, r) ≠ entry) :
    CommitTreats caches d part store (entry :: list) x s s'' r := by
  constructor
  · intro hnot
    exact hs.trans (h.left fun hmem => hnot (List.mem_cons_of_mem _ hmem))
  · intro hmem hpending
    have hlist : ((caches r).id, r) ∈ list := (List.mem_cons.1 hmem).resolve_left hne
    have hpending' : Pending caches r s'.1 := by
      rw [Pending, hs.2]
      exact hpending
    rcases h.listed hlist hpending' with hrenewed | ⟨hx, hkept⟩
    · left
      rw [← hs.1, ← hs.2]
      exact hrenewed
    · exact .inr ⟨hx, hs.trans hkept⟩

/-- The buffer for one cache, as a part of the unit. -/
theorem await_commitWith (h : RelaysEach caches d part) (he : ∀ r, Empties (d r) (store r))
    {misses : Buffer → List CacheKey} (hm : ∀ b, (misses b).Perm b.misses) {b : Buffer}
    (hb : u.buffers.find? (caches r).id = some (r, b)) (t : Thread) (e : Environment) :
    ((focus (caches r).id).await (Buffer.commitWith misses (caches r))).Meets t ⟨e, (u, y)⟩
      fun _ w' => DiffersAt caches r u w'.state.1 ∧
        (Pending caches r u → Buffer.Renewed (d r) (store r) (u.buffer (caches r).id).plan
          (part r y) (part r w'.state.2)) ∧
        ∀ r', r' ≠ r → part r' w'.state.2 = part r' y := by
  refine Await.Meets.focus (lawfulAt_focus hb y) ?_
  refine (Buffer.commitWith_renews (h.each r) (he r) hm t _).mono ?_
  rintro x w' ⟨hrenewed, hothers⟩
  have hself : DiffersAt caches r u u := ⟨⟨b, hb⟩, fun _ _ => rfl⟩
  exact ⟨hself.setBuffer _, hrenewed, hothers⟩

theorem commitAll_treats (h : RelaysEach caches d part) (he : ∀ r, Empties (d r) (store r))
    {misses : Buffer → List CacheKey} (hm : ∀ b, (misses b).Perm b.misses)
    {list : List (String × ρ)} (hnodup : list.Nodup) (hlist : Touched u list)
    (hfiled : Filed caches u) (t : Thread) (e : Environment) :
    (commitAll misses caches list).Meets t ⟨e, (u, y)⟩ fun x w' =>
      ∀ r, CommitTreats caches d part store list x (u, y) w'.state r := by
  induction list generalizing u y e with
  | nil => exact .pure fun r => ⟨fun _ => ⟨rfl, rfl⟩, fun hmem => nomatch hmem⟩
  | cons entry rest ih =>
    obtain ⟨id, r₁⟩ := entry
    obtain ⟨hnotin, hrestNodup⟩ := List.nodup_cons.1 hnodup
    obtain ⟨b, hb⟩ := hlist (id, r₁) List.mem_cons_self
    have htail : Touched u rest := fun e he => hlist e (List.mem_cons_of_mem _ he)
    obtain rfl : (caches r₁).id = id := hfiled id r₁ b hb
    refine Await.Meets.bind_of (await_commitWith h he hm hb t e) ?_ ?_
    · rintro _ ⟨e₁, u₁, y₁⟩ ⟨hdiff, hrenewed, hothers⟩
      refine (ih hrestNodup (hdiff.touched hb htail) (hdiff.filed hfiled) e₁).mono ?_
      intro x w' hrest r
      by_cases hr : r = r₁
      · -- the cache of the first buffer, which the rest leaves alone
        subst hr
        have hkept := (hrest r).left hnotin
        refine ⟨fun hnot => absurd List.mem_cons_self hnot, fun _ hpending => .inl ?_⟩
        rw [hkept.1]
        exact hrenewed hpending
      · -- any other cache
        have hs : Untouched caches part r (u, y) (u₁, y₁) :=
          untouched_of_differsAt h.ids hdiff hr (hothers r hr)
        exact (hrest r).after_untouched hs fun heq => hr (Prod.mk.inj heq).2
    · rintro err ⟨e₁, u₁, y₁⟩ ⟨hdiff, hrenewed, hothers⟩ r
      by_cases hr : r = r₁
      · subst hr
        exact ⟨fun hnot => absurd List.mem_cons_self hnot,
          fun _ hpending => .inl (hrenewed hpending)⟩
      · -- the commit does not get as far as this cache
        have hs : Untouched caches part r (u, y) (u₁, y₁) :=
          untouched_of_differsAt h.ids hdiff hr (hothers r hr)
        exact ⟨fun _ => hs, fun _ _ => .inr ⟨nofun, hs⟩⟩

/-- A pending clear is that of a touched cache. -/
theorem Pending.mem_touched (hfiled : Filed caches u)
    (hids : Function.Injective fun r => (caches r).id) (h : Pending caches r u)
    {order : List (String × ρ)} (ho : order.Perm u.touched) : ((caches r).id, r) ∈ order := by
  rw [ho.mem_iff]
  cases hb : u.buffers.find? (caches r).id with
  | none =>
    rw [Pending, buffer_of_find?_none u hb] at h
    cases h
  | some e =>
    obtain rfl : e.1 = r := hids (hfiled _ e.1 e.2 hb)
    exact List.mem_map_of_mem (f := fun e => (e.1, e.2.1)) (Entries.mem_of_find? hb)

theorem nodup_of_perm {order : List (String × ρ)} (ho : order.Perm u.touched) : order.Nodup := by
  have hkeys : (u.touched.map Prod.fst).Nodup := by
    rw [touched, List.map_map]
    exact u.buffers.nodup
  exact ho.nodup_iff.2 hkeys.of_map

/-- A commit clears each cache with a pending clear before anything else, or it
fails before it gets there and leaves the cache alone and its clear pending. -/
theorem commitWith_treats (h : RelaysEach caches d part) (he : ∀ r, Empties (d r) (store r))
    {order : UnitOfWork ρ → List (String × ρ)} {misses : Buffer → List CacheKey}
    (ho : ∀ u, (order u).Perm u.touched) (hm : ∀ b, (misses b).Perm b.misses)
    (hfiled : Filed caches u) (t : Thread) (e : Environment) :
    (commitWith order misses caches).Meets t ⟨e, (u, y)⟩ fun x w' =>
      ∀ r, Pending caches r u →
        Buffer.Renewed (d r) (store r) (u.buffer (caches r).id).plan (part r y)
            (part r w'.state.2) ∨
          (x ≠ .ok () ∧ part r w'.state.2 = part r y ∧ Pending caches r w'.state.1) := by
  have hall : ∀ {x} {s' : UnitOfWork ρ × σ},
      (∀ r, CommitTreats caches d part store (order u) x (u, y) s' r) → ∀ r, Pending caches r u →
        Buffer.Renewed (d r) (store r) (u.buffer (caches r).id).plan (part r y) (part r s'.2) ∨
          (x ≠ .ok () ∧ part r s'.2 = part r y ∧ Pending caches r s'.1) := by
    intro x s' htreats r hpending
    have hlisted := (htreats r).listed (hpending.mem_touched hfiled h.ids (ho u)) hpending
    refine hlisted.imp_right ?_
    rintro ⟨hx, hpart, hbuffer⟩
    refine ⟨hx, hpart, ?_⟩
    rw [Pending, hbuffer]
    exact hpending
  refine Await.Meets.bind_ofOp ?_
  intro _ _
  have htreats := commitAll_treats h he hm (nodup_of_perm (ho u)) (touched_of_perm (ho u)) hfiled
    t e (y := y)
  refine Await.Meets.bind_of htreats ?_ ?_
  · intro _ w' hs
    refine Await.Meets.ofOp ?_
    intro _ _
    -- A new unit has the same buffers.
    exact hall fun r => ⟨(hs r).left, (hs r).listed⟩
  · intro err w' hs
    exact hall hs

end UnitOfWork

end QueryCache
