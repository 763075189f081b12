import Mathlib
import QueryCache.Layer.Probe
import QueryCache.Proofs.Transaction.Buffer
import QueryCache.Proofs.Transaction.ClearAtCommit

/-!
# A failed commit is made again

The shared caches are stores, each behind a layer at which any call of a commit may fail
without effect.  A commit stops at the first failure: the buffers before it have been written
and are empty, the buffer at which it stopped keeps everything, though some of its calls have
been made, and the buffers behind it have not been looked at.

When the commit is made again, in whatever order, the calls that had been made are made once
more.  That does no harm: a store in the middle of a commit differs from what it was in entries
which the rest of the commit, or all of it made again, overwrites in any case.

1. calls that fail without effect
2. a store in the middle of a commit
3. the commit of one buffer
4. one attempt at the commit of a unit
5. attempts one after the other
6. stores behind a layer that refuses calls
-/

namespace QueryCache

variable {ρ σ lam : Type}

namespace Buffer

open SharedCall (applyAll)

/-! ## Calls that fail without effect -/

/-- The call is made on a store, or it fails and leaves the store as it was. -/
inductive SharedCall.Tried (call : SharedCall) (m : Store) : Except CacheError Unit → Store → Prop
  | made : Tried call m (.ok ()) (call.apply m)
  | failed (cause : CacheError) : Tried call m (.error cause) m

/-- The calls are made in order, all of them or some of the first ones. -/
inductive SharedCall.TriedAll (calls : List SharedCall) (m : Store) :
    Except CacheError Unit → Store → Prop
  | made : TriedAll calls m (.ok ()) (applyAll m calls)
  | stopped (cause : CacheError) (made : List SharedCall) {rest : List SharedCall}
      (h : calls = made ++ rest) :
      TriedAll calls m (.error cause) (applyAll m made)

/-- Every put and every clear ends at once, with its effect on the store or with none; `same`
says what they leave as it was. -/
structure Fallible (d : Cache σ) (store : σ → Store) (same : σ → σ → Prop) : Prop where
  run : ∀ (call : SharedCall) c w, ∃ x w', call.run d c w = .done x w' ∧
    call.Tried (store w.state) x (store w'.state) ∧ same w.state w'.state
  refl : ∀ s, same s s
  trans : ∀ {s s' s''}, same s s' → same s' s'' → same s s''

namespace Fallible

variable {d : Cache σ} {store : σ → Store} {same : σ → σ → Prop}

/-- A layer above leaves its own state as it was too. -/
theorem under (h : Fallible d store same) (held : lam → List Value) :
    Fallible (d.under held) (fun s => store s.2) fun s s' => s'.1 = s.1 ∧ same s.2 s'.2 where
  run call c w := by
    obtain ⟨e, l, y⟩ := w
    obtain ⟨x, w', hrun, htried, hsame⟩ :=
      h.run call ((Focus.second held).caller (l, y) c) ⟨e, y⟩
    refine ⟨x, ⟨w'.env, (l, w'.state)⟩, ?_, htried, rfl, hsame⟩
    cases call with
    | clear => exact Focus.await_second hrun
    | put k x => exact Focus.await_second hrun
  refl s := ⟨rfl, h.refl s.2⟩
  trans hs hs' := ⟨hs'.1.trans hs.1, h.trans hs.2 hs'.2⟩

/-- Calls in order stop at the first one that fails. -/
theorem runAll (h : Fallible d store same) (calls : List SharedCall) (c : Caller) (w : World σ) :
    ∃ x w', SharedCall.runAll d calls c w = .done x w' ∧
      SharedCall.TriedAll calls (store w.state) x (store w'.state) ∧ same w.state w'.state := by
  induction calls generalizing w with
  | nil => exact ⟨.ok (), w, rfl, .made, h.refl w.state⟩
  | cons call rest ih =>
    obtain ⟨x, w₁, hcall, htried, hsame⟩ := h.run call c w
    generalize hm₁ : store w₁.state = m₁ at htried
    cases htried with
    | made =>
      obtain ⟨x, w', hrest, htried, hsame'⟩ := ih w₁
      refine ⟨x, w', (Await.bind_of_done hcall).trans hrest, ?_, h.trans hsame hsame'⟩
      rw [hm₁] at htried
      generalize store w'.state = m' at htried
      cases htried with
      | made => exact .made
      | stopped cause made heq => exact .stopped cause (call :: made) (congrArg (call :: ·) heq)
    | failed cause =>
      refine ⟨.error cause, w₁, Await.bind_of_failed hcall, ?_, hsame⟩
      rw [hm₁]
      exact .stopped cause [] rfl

end Fallible

/-! ## A store in the middle of a commit -/

theorem clearPending_of_mem {b : Buffer} {misses : List CacheKey}
    (h : .clear ∈ b.planWith misses) : b.clearPending = true := by
  rw [planWith_eq] at h
  rcases List.mem_append.1 h with h | h
  · by_contra hclear
    rw [if_neg hclear] at h
    cases h
  · obtain ⟨k, x, heq⟩ := exists_put_of_mem_puts h
    cases heq

/-- What is put was written, or its key was missed. -/
theorem key_of_mem {b : Buffer} {misses : List CacheKey} {k : CacheKey} {x : Option Value}
    (h : .put k x ∈ b.planWith misses) : b.writes.find? k ≠ none ∨ k ∈ misses := by
  rw [planWith] at h
  rcases List.mem_append.1 h with h | h
  · rcases List.mem_append.1 h with h | h
    · split at h
      · cases List.mem_singleton.1 h
      · cases h
    · obtain ⟨e, he, heq⟩ := List.mem_map.1 h
      cases heq
      left
      rw [Entries.find?_of_mem he]
      exact Option.some_ne_none _
  · obtain ⟨k', hk', heq⟩ := List.mem_map.1 h
    cases heq
    exact .inr (List.mem_filter.1 hk').1

/-- The store may be in the middle of a commit that began with the first one: they differ in
nothing that the commit leaves alone. -/
def Amid (b : Buffer) (m₀ m : Store) : Prop :=
  ∀ k, b.writes.find? k = none → k ∉ b.misses → b.clearPending = false → m.find? k = m₀.find? k

namespace Amid

variable {b : Buffer} {m₀ m : Store} {misses misses' : List CacheKey}

theorem refl (b : Buffer) (m : Store) : Amid b m m := fun _ _ _ _ => rfl

/-- A call of the commit, made once more or for the first time. -/
theorem apply (h : Amid b m₀ m) (hm : misses.Perm b.misses) {call : SharedCall}
    (hcall : call ∈ b.planWith misses) : Amid b m₀ (call.apply m) := by
  intro k hwrite hmiss hclear
  cases call with
  | clear =>
    rw [clearPending_of_mem hcall] at hclear
    cases hclear
  | put k' x =>
    -- The put is under a key of which nothing is claimed.
    have hne : k ≠ k' := by
      rintro rfl
      rcases key_of_mem hcall with hwritten | hmissed
      · exact hwritten hwrite
      · exact hmiss (hm.mem_iff.1 hmissed)
    exact (Entries.find?_insert ..).trans ((if_neg hne).trans (h k hwrite hmiss hclear))

theorem applyAll (h : Amid b m₀ m) (hm : misses.Perm b.misses) {calls : List SharedCall}
    (hcalls : calls ⊆ b.planWith misses) : Amid b m₀ (applyAll m calls) := by
  induction calls generalizing m with
  | nil => exact h
  | cons call rest ih =>
    obtain ⟨hcall, hrest⟩ := List.cons_subset.1 hcalls
    exact ih (h.apply hm hcall) hrest

/-- Made as a whole, the commit comes to the same end from there as from the beginning. -/
theorem find?_applyAll (h : Amid b m₀ m) (hm : misses.Perm b.misses) (hm' : misses'.Perm b.misses)
    (k : CacheKey) : (SharedCall.applyAll m (b.planWith misses)).find? k =
      (SharedCall.applyAll m₀ (b.planWith misses')).find? k := by
  rw [find?_applyAll_planWith, find?_applyAll_planWith]
  cases hwrite : b.writes.find? k with
  | some x => rfl
  | none =>
    by_cases hmiss : k ∈ b.misses
    · rw [if_pos (hm.mem_iff.2 hmiss), if_pos (hm'.mem_iff.2 hmiss)]
    · rw [if_neg fun hk => hmiss (hm.mem_iff.1 hk), if_neg fun hk => hmiss (hm'.mem_iff.1 hk)]
      cases hclear : b.clearPending with
      | true => rfl
      | false => exact h k hwrite hmiss hclear

end Amid

/-! ## The commit of one buffer -/

/-- The commit of a buffer over a store: made as a whole, or stopped. -/
inductive Commits (misses : List CacheKey) (b : Buffer) (m : Store) :
    Except CacheError Unit → Buffer → Store → Prop
  | wholly : Commits misses b m (.ok ()) .empty (applyAll m (b.planWith misses))
  | partly (cause : CacheError) (made : List SharedCall) {rest : List SharedCall}
      (h : b.planWith misses = made ++ rest) : Commits misses b m (.error cause) b (applyAll m made)

theorem Commits.eq_empty {misses : List CacheKey} {b b' : Buffer} {m m' : Store}
    (h : Commits misses b m (.ok ()) b' m') : b' = .empty := by
  cases h
  rfl

/-- A commit ends at once; if it stops, the buffer is as it was. -/
theorem Fallible.commitWith {d : Cache σ} {store : σ → Store} {same : σ → σ → Prop}
    (h : Fallible d store same) (order : Buffer → List CacheKey) (c : Caller) (e : Environment)
    (b : Buffer) (y : σ) :
    ∃ x e' b' y', commitWith order d c ⟨e, (b, y)⟩ = .done x ⟨e', (b', y')⟩ ∧
      Commits (order b) b (store y) x b' (store y') ∧ same y y' := by
  obtain ⟨x, ⟨e', b', y'⟩, hrun, htried, hbuffer, hsame⟩ :=
    (h.under held).runAll (b.planWith (order b)) c ⟨e, (b, y)⟩
  obtain rfl : b' = b := hbuffer
  rw [Buffer.commitWith, Await.bind_of_done Await.layer_run]
  generalize hm' : store y' = m' at htried
  cases htried with
  | made =>
    refine ⟨.ok (), e', empty, y', (Await.bind_of_done hrun).trans rfl, ?_, hsame⟩
    rw [hm']
    exact .wholly
  | stopped cause made heq =>
    refine ⟨.error cause, e', b', y', Await.bind_of_failed hrun, ?_, hsame⟩
    rw [hm']
    exact .partly cause made heq

end Buffer

/-! ## One attempt at the commit of a unit -/

namespace UnitOfWork

open Buffer (Amid Commits Fallible)
open Buffer.SharedCall (applyAll)

/-- Each cache has a store of its own, and its calls may fail without effect. -/
structure FallibleEach (caches : ρ → Cache σ) (store : ρ → σ → Store) : Prop where
  each : ∀ r, Fallible (caches r) (store r) fun s s' => ∀ r', r' ≠ r → store r' s' = store r' s
  /-- No two caches have the same id. -/
  ids : Function.Injective fun r => (caches r).id

/-- What a commit of the buffers in a list does to a cache and its buffer: nothing, if the
buffer is not in the list; else it is committed, as a whole if the commit ends well. -/
structure Attempted (caches : ρ → Cache σ) (store : ρ → σ → Store)
    (misses : Buffer → List CacheKey) (list : List (String × ρ)) (x : Except CacheError Unit)
    (s s' : UnitOfWork ρ × σ) (r : ρ) : Prop where
  left : ((caches r).id, r) ∉ list → Untouched caches store r s s'
  listed : ((caches r).id, r) ∈ list → ∃ x', (x = .ok () → x' = .ok ()) ∧
    Commits (misses (s.1.buffer (caches r).id)) (s.1.buffer (caches r).id) (store r s.2) x'
      (s'.1.buffer (caches r).id) (store r s'.2)

variable {caches : ρ → Cache σ} {store : ρ → σ → Store} {u u' : UnitOfWork ρ} {y y' : σ} {r : ρ}
  {misses : Buffer → List CacheKey} {list : List (String × ρ)} {x : Except CacheError Unit}

/-- What the rest of a list does to a cache that was not touched before. -/
theorem Attempted.after_untouched {s s' s'' : UnitOfWork ρ × σ} {entry : String × ρ}
    (h : Attempted caches store misses list x s' s'' r) (hs : Untouched caches store r s s')
    (hne : ((caches r).id, r) ≠ entry) :
    Attempted caches store misses (entry :: list) x s s'' r := by
  constructor
  · intro hnot
    exact hs.trans (h.left fun hmem => hnot (List.mem_cons_of_mem _ hmem))
  · intro hmem
    have hcommits := h.listed ((List.mem_cons.1 hmem).resolve_left hne)
    rw [hs.1, hs.2] at hcommits
    exact hcommits

/-- A commit that stopped before it came to a cache. -/
theorem Attempted.of_untouched {s s' : UnitOfWork ρ × σ} (cause : CacheError)
    (hs : Untouched caches store r s s') :
    Attempted caches store misses list (.error cause) s s' r := by
  refine ⟨fun _ => hs, fun _ => ⟨.error cause, id, ?_⟩⟩
  rw [hs.1, hs.2]
  exact .partly cause [] rfl

/-- The commit of one buffer, as a part of the unit. -/
theorem await_commits (h : FallibleEach caches store) (misses : Buffer → List CacheKey)
    {b : Buffer} (hb : u.buffers.find? (caches r).id = some (r, b)) (c : Caller)
    (e : Environment) (y : σ) :
    ∃ x e' u' y', (focus (caches r).id).await (Buffer.commitWith misses (caches r)) c ⟨e, (u, y)⟩ =
        .done x ⟨e', (u', y')⟩ ∧
      DiffersAt caches r u u' ∧ (∀ r', r' ≠ r → store r' y' = store r' y) ∧
      Commits (misses (u.buffer (caches r).id)) (u.buffer (caches r).id) (store r y) x
        (u'.buffer (caches r).id) (store r y') := by
  obtain ⟨x, e', b', y', hrun, hcommits, hothers⟩ := (h.each r).commitWith misses
    ((focus (caches r).id).caller (u, y) c) e (u.buffer (caches r).id) y
  have hself : DiffersAt caches r u u := ⟨⟨b, hb⟩, fun _ _ => rfl⟩
  refine ⟨x, e', u.setBuffer (caches r).id b', y', ?_, hself.setBuffer b', hothers, ?_⟩
  · exact Focus.await_of_done (f := focus (caches r).id) (w := ⟨e, (u, y)⟩) hrun
  · rw [buffer_setBuffer u hb, if_pos rfl]
    exact hcommits

theorem commitAll_attempted (h : FallibleEach caches store) (misses : Buffer → List CacheKey)
    (hnodup : list.Nodup) (hlist : Touched u list) (hfiled : Filed caches u) (c : Caller)
    (e : Environment) (y : σ) :
    ∃ x e' u' y', commitAll misses caches list c ⟨e, (u, y)⟩ = .done x ⟨e', (u', y')⟩ ∧
      Filed caches u' ∧ ∀ r, Attempted caches store misses list x (u, y) (u', y') r := by
  induction list generalizing u y e with
  | nil =>
    exact ⟨.ok (), e, u, y, rfl, hfiled, fun r => ⟨fun _ => ⟨rfl, rfl⟩, fun hmem => nomatch hmem⟩⟩
  | cons entry rest ih =>
    obtain ⟨id, r₁⟩ := entry
    obtain ⟨hnotin, hrestNodup⟩ := List.nodup_cons.1 hnodup
    obtain ⟨b, hb⟩ := hlist (id, r₁) List.mem_cons_self
    have htail : Touched u rest := fun e he => hlist e (List.mem_cons_of_mem _ he)
    obtain rfl : (caches r₁).id = id := hfiled id r₁ b hb
    obtain ⟨x₁, e₁, u₁, y₁, hfirst, hdiff, hothers, hcommits⟩ := await_commits h misses hb c e y
    have huntouched : ∀ r, r ≠ r₁ → Untouched caches store r (u, y) (u₁, y₁) := fun r hr =>
      untouched_of_differsAt h.ids hdiff hr (hothers r hr)
    cases x₁ with
    | ok _ =>
      obtain ⟨x, e', u', y', hrest, hfiled', hattempted⟩ :=
        ih hrestNodup (hdiff.touched hb htail) (hdiff.filed hfiled) e₁ y₁
      refine ⟨x, e', u', y', (Await.bind_of_done hfirst).trans hrest, hfiled', fun r => ?_⟩
      by_cases hr : r = r₁
      · -- the cache of the first buffer, which the rest leaves alone
        subst hr
        have hkept := (hattempted r).left hnotin
        refine ⟨fun hnot => absurd List.mem_cons_self hnot, fun _ => ⟨.ok (), fun _ => rfl, ?_⟩⟩
        rw [hkept.1, hkept.2]
        exact hcommits
      · exact (hattempted r).after_untouched (huntouched r hr) fun heq => hr (Prod.mk.inj heq).2
    | error cause =>
      refine ⟨.error cause, e₁, u₁, y₁, Await.bind_of_failed hfirst, hdiff.filed hfiled,
        fun r => ?_⟩
      by_cases hr : r = r₁
      · subst hr
        exact ⟨fun hnot => absurd List.mem_cons_self hnot, fun _ => ⟨_, id, hcommits⟩⟩
      · -- the commit does not get as far as this cache
        exact .of_untouched cause (huntouched r hr)

/-- An attempt ends at once, with a result; a new unit has the same buffers. -/
theorem commitWith_attempted (h : FallibleEach caches store)
    {order : UnitOfWork ρ → List (String × ρ)} (ho : (order u).Perm u.touched)
    (misses : Buffer → List CacheKey) (hfiled : Filed caches u) (c : Caller) (e : Environment)
    (y : σ) :
    ∃ x e' u' y', commitWith order misses caches c ⟨e, (u, y)⟩ = .done x ⟨e', (u', y')⟩ ∧
      Filed caches u' ∧ ∀ r, Attempted caches store misses (order u) x (u, y) (u', y') r := by
  obtain ⟨x, e', u', y', hrun, hfiled', hattempted⟩ := commitAll_attempted h misses
    (nodup_of_perm ho) (touched_of_perm ho) hfiled c e y
  rw [commitWith, Await.bind_of_done Await.layer_run]
  cases x with
  | ok _ =>
    refine ⟨.ok (), e', { u' with unit := u'.unit + 1 }, y',
      (Await.bind_of_done hrun).trans rfl, hfiled', fun r => ?_⟩
    exact ⟨(hattempted r).left, (hattempted r).listed⟩
  | error cause => exact ⟨.error cause, e', u', y', Await.bind_of_failed hrun, hfiled', hattempted⟩

/-! ## Attempts one after the other -/

/-- An attempt at a commit, by whomever and in whatever order of the buffers and of the missed
keys. -/
def Attempt (caches : ρ → Cache σ) (s : UnitOfWork ρ × σ) (x : Except CacheError Unit)
    (s' : UnitOfWork ρ × σ) : Prop :=
  ∃ (order : UnitOfWork ρ → List (String × ρ)) (misses : Buffer → List CacheKey) (c : Caller)
    (e e' : Environment), (order s.1).Perm s.1.touched ∧ (∀ b, (misses b).Perm b.misses) ∧
      commitWith order misses caches c ⟨e, s⟩ = .done x ⟨e', s'⟩

/-- Failed attempts, one after the other.  In between, nothing is asked of the unit and the
stores stay as they are, but the layers around them may change. -/
inductive Retried (caches : ρ → Cache σ) (store : ρ → σ → Store) (s₀ : UnitOfWork ρ × σ) :
    UnitOfWork ρ × σ → Prop
  | start : Retried caches store s₀ s₀
  | failed {s s' : UnitOfWork ρ × σ} {cause : CacheError} (h : Retried caches store s₀ s)
      (hfailed : Attempt caches s (.error cause) s') : Retried caches store s₀ s'
  | later {s : UnitOfWork ρ × σ} {y : σ} (h : Retried caches store s₀ s)
      (hy : ∀ r, store r y = store r s.2) : Retried caches store s₀ (s.1, y)

/-- The store has what the commit of the buffer, made as a whole, makes of the first one. -/
def Finished (b₀ : Buffer) (m₀ m : Store) : Prop :=
  ∀ k, m.find? k = (applyAll m₀ b₀.plan).find? k

/-- How far failed attempts have come with a buffer: it keeps everything and the store is in
the middle of the commit, or the commit was made as a whole. -/
inductive Progress (b₀ : Buffer) (m₀ : Store) : Buffer → Store → Prop
  | pending {m : Store} (h : Amid b₀ m₀ m) : Progress b₀ m₀ b₀ m
  | finished {m : Store} (h : Finished b₀ m₀ m) : Progress b₀ m₀ .empty m

section Progress

variable {b₀ b b' : Buffer} {m₀ m m' : Store} {keys : List CacheKey}

/-- With nothing to commit the commit is over. -/
theorem Progress.finished_of_empty (h : Progress b₀ m₀ .empty m) : Finished b₀ m₀ m := by
  generalize hb : Buffer.empty = b at h
  cases h with
  | pending h =>
    subst hb
    exact fun k => h k rfl List.not_mem_nil rfl
  | finished h => exact h

/-- One more attempt comes at least as far. -/
theorem Progress.commits (h : Progress b₀ m₀ b m) (hm : keys.Perm b.misses)
    (hc : Commits keys b m x b' m') : Progress b₀ m₀ b' m' := by
  cases h with
  | pending h =>
    cases hc with
    -- what was made before is made again, and then the rest
    | wholly => exact .finished fun k => h.find?_applyAll hm (.refl _) k
    | partly cause made heq =>
      exact .pending (h.applyAll hm (heq ▸ List.subset_append_left _ _))
  | finished h =>
    -- An empty buffer has no calls.
    have hcalls : Buffer.empty.planWith keys = [] := by
      rw [List.perm_nil.1 hm]
      rfl
    cases hc with
    | wholly =>
      rw [hcalls]
      exact .finished h
    | partly cause made heq =>
      rw [(List.append_eq_nil_iff.1 (heq.symm.trans hcalls)).1]
      exact .finished h

end Progress

variable {s₀ s s' : UnitOfWork ρ × σ}

/-- What an attempt does to each cache. -/
theorem Attempt.attempted (h : FallibleEach caches store) (hfiled : Filed caches s.1)
    (ha : Attempt caches s x s') :
    Filed caches s'.1 ∧ ∃ (order : List (String × ρ)) (misses : Buffer → List CacheKey),
      order.Perm s.1.touched ∧ (∀ b, (misses b).Perm b.misses) ∧
        ∀ r, Attempted caches store misses order x s s' r := by
  obtain ⟨order, misses, c, e, e', ho, hm, hrun⟩ := ha
  obtain ⟨x₁, e₁, u₁, y₁, hrun₁, hfiled₁, hattempted⟩ :=
    commitWith_attempted h ho misses hfiled c e s.2
  obtain ⟨rfl, hw⟩ := Outcome.done.inj (hrun.symm.trans hrun₁)
  obtain ⟨-, rfl⟩ := World.mk.inj hw
  exact ⟨hfiled₁, order s.1, misses, ho, hm, hattempted⟩

/-- What an attempt makes of the progress with each buffer. -/
theorem Attempt.progress (h : FallibleEach caches store) (hfiled : Filed caches s.1)
    (ha : Attempt caches s x s')
    (hs : ∀ r, Progress (s₀.1.buffer (caches r).id) (store r s₀.2) (s.1.buffer (caches r).id)
      (store r s.2)) (r : ρ) :
    Progress (s₀.1.buffer (caches r).id) (store r s₀.2) (s'.1.buffer (caches r).id)
      (store r s'.2) := by
  obtain ⟨-, order, misses, -, hm, hattempted⟩ := ha.attempted h hfiled
  by_cases hmem : ((caches r).id, r) ∈ order
  · obtain ⟨x', -, hcommits⟩ := (hattempted r).listed hmem
    exact (hs r).commits (hm _) hcommits
  · obtain ⟨hstore, hbuffer⟩ := (hattempted r).left hmem
    rw [hstore, hbuffer]
    exact hs r

/-- After any number of failed attempts. -/
theorem Retried.progress (h : FallibleEach caches store) (hfiled : Filed caches s₀.1)
    (hs : Retried caches store s₀ s) :
    Filed caches s.1 ∧ ∀ r, Progress (s₀.1.buffer (caches r).id) (store r s₀.2)
      (s.1.buffer (caches r).id) (store r s.2) := by
  induction hs with
  | start => exact ⟨hfiled, fun r => .pending (.refl _ _)⟩
  | failed _ hfailed ih => exact ⟨(hfailed.attempted h ih.1).1, hfailed.progress h ih.1 ih.2⟩
  | @later s y _ hy ih =>
    refine ⟨ih.1, fun r => ?_⟩
    rw [hy r]
    exact ih.2 r

/-- After an attempt that ends well every buffer is empty, and every commit was made as a whole. -/
theorem Retried.committed (h : FallibleEach caches store) (hfiled : Filed caches s₀.1)
    (hs : Retried caches store s₀ s) (ha : Attempt caches s (.ok ()) s') :
    (∀ id, s'.1.buffer id = .empty) ∧
      ∀ r, Finished (s₀.1.buffer (caches r).id) (store r s₀.2) (store r s'.2) := by
  obtain ⟨hfiled₁, hprogress⟩ := hs.progress h hfiled
  obtain ⟨hfiled', order, misses, ho, -, hattempted⟩ := ha.attempted h hfiled₁
  have hempty : ∀ r, s'.1.buffer (caches r).id = .empty := by
    intro r
    cases hb : s.1.buffers.find? (caches r).id with
    | some entry =>
      -- a touched cache, which the attempt has committed
      obtain rfl : entry.1 = r := h.ids (hfiled₁ _ entry.1 entry.2 hb)
      have hmem : ((caches entry.1).id, entry.1) ∈ order :=
        ho.mem_iff.2 (List.mem_map_of_mem (f := fun e => (e.1, e.2.1)) (Entries.mem_of_find? hb))
      obtain ⟨x', hx', hcommits⟩ := (hattempted entry.1).listed hmem
      rw [hx' rfl] at hcommits
      exact hcommits.eq_empty
    | none =>
      have hnot : ((caches r).id, r) ∉ order := by
        intro hmem
        obtain ⟨b, hb'⟩ := touched_of_perm ho _ hmem
        rw [hb] at hb'
        cases hb'
      rw [((hattempted r).left hnot).2]
      exact buffer_of_find?_none s.1 hb
  constructor
  · intro id
    cases hb : s'.1.buffers.find? id with
    | none => exact buffer_of_find?_none s'.1 hb
    | some entry =>
      rw [← hfiled' id entry.1 entry.2 hb]
      exact hempty entry.1
  · intro r
    have hlast := ha.progress h hfiled₁ hprogress r
    rw [hempty r] at hlast
    exact hlast.finished_of_empty

/-- The shared caches are stores with ids of their own, at each of which any put or clear may fail
without effect.  After any number of failed attempts to commit a unit of work, an attempt ends
at once.  If it fails, each buffer either is as it was, with its pending clear, its writes and
its misses, or is empty, and then its commit was made as a whole.  If it ends well, all buffers are
empty, and every store has what one commit without failure makes of the store before the
first attempt; so a first attempt that ends well leaves the same entries. -/
theorem retried_commit (h : FallibleEach caches store) (hfiled : Filed caches s₀.1)
    (hs : Retried caches store s₀ s) :
    (∀ (order : UnitOfWork ρ → List (String × ρ)) (misses : Buffer → List CacheKey) (c : Caller)
        (e : Environment), (order s.1).Perm s.1.touched →
        ∃ x w', commitWith order misses caches c ⟨e, s⟩ = .done x w') ∧
      (∀ {cause s'}, Attempt caches s (.error cause) s' → ∀ r,
        s'.1.buffer (caches r).id = s.1.buffer (caches r).id ∨
          (s'.1.buffer (caches r).id = .empty ∧
            Finished (s₀.1.buffer (caches r).id) (store r s₀.2) (store r s'.2))) ∧
      ∀ {s'}, Attempt caches s (.ok ()) s' → (∀ id, s'.1.buffer id = .empty) ∧
        (∀ r, Finished (s₀.1.buffer (caches r).id) (store r s₀.2) (store r s'.2)) ∧
        ∀ {y s₁}, (∀ r, store r y = store r s₀.2) → Attempt caches (s₀.1, y) (.ok ()) s₁ →
          ∀ r k, (store r s'.2).find? k = (store r s₁.2).find? k := by
  obtain ⟨hfiled₁, hprogress⟩ := hs.progress h hfiled
  refine ⟨?_, ?_, ?_⟩
  · intro order misses c e ho
    obtain ⟨x, e', u', y', hrun, -⟩ := commitWith_attempted h ho misses hfiled₁ c e s.2
    exact ⟨x, ⟨e', (u', y')⟩, hrun⟩
  · intro cause s' ha r
    obtain ⟨-, order, misses, -, -, hattempted⟩ := ha.attempted h hfiled₁
    have hlast := ha.progress h hfiled₁ hprogress r
    by_cases hmem : ((caches r).id, r) ∈ order
    · obtain ⟨x', -, hcommits⟩ := (hattempted r).listed hmem
      generalize s'.1.buffer (caches r).id = b', store r s'.2 = m' at hcommits hlast
      cases hcommits with
      | wholly => exact .inr ⟨rfl, hlast.finished_of_empty⟩
      | partly cause made heq => exact .inl rfl
    · exact .inl ((hattempted r).left hmem).2
  · intro s' ha
    obtain ⟨hempty, hfinished⟩ := hs.committed h hfiled ha
    refine ⟨hempty, hfinished, ?_⟩
    intro y s₁ hy hfirst r k
    -- A first attempt is one after no failed attempt at all.
    have honce := (Retried.start.later hy).committed h hfiled hfirst
    rw [hfinished r k, honce.2 r k]

end UnitOfWork

/-! ## Stores behind a layer that refuses calls -/

/-- Stores beside each other, each behind a layer that refuses the calls in a table. -/
abbrev Shelf (ρ : Type) : Type := ρ → Refusals × Store

namespace Shelf

open UnitOfWork (Attempt FallibleEach Filed Retried retried_commit)

variable [DecidableEq ρ] (held : ρ → Shelf ρ → List Value)

/-- One store and its table; `held` gives the values that the rest holds. -/
def place (r : ρ) : Focus (Shelf ρ) (Refusals × Store) where
  get s := s r
  set x s := Function.update s r x
  held := held r

/-- The cache over one of the stores. -/
def cache (ids : ρ → String) (r : ρ) : Cache (Shelf ρ) :=
  (Probe.around (ids r) (Store.cache (ids r))).within (place held r)

/-- One of the stores. -/
def store (r : ρ) (s : Shelf ρ) : Store := (s r).2

/-- A call is recorded, and then refused or let through. -/
theorem observe_run (name id : String) (call : ObservedCall) (c : Caller) (e : Environment)
    (table : Refusals) (m : Store) :
    (Await.ofOp (Probe.observe name id call) : CacheCall (Refusals × Store) Unit) c
        ⟨e, (table, m)⟩ =
      .done (if table.refuses call.kind call.key? then
          .error (.serialization id ("refused " ++ call.kind.name)) else .ok ())
        ⟨{ e with observed := (name, call) :: e.observed }, (table, m)⟩ := by
  refine Await.ofOp_of_eq ?_
  rw [Probe.observe, Op.bind_of_ok rfl, Op.bind_of_ok rfl]
  split <;> rfl

/-- A call that the layer refuses fails without effect; any other call is made. -/
theorem probe_tried (id : String) (call : Buffer.SharedCall) (c : Caller) (e : Environment)
    (table : Refusals) (m : Store) :
    ∃ x e' m', call.run (Probe.around id (Store.cache id)) c ⟨e, (table, m)⟩ =
        .done x ⟨e', (table, m')⟩ ∧ call.Tried m x m' := by
  have hcall : ∀ {seen : ObservedCall} {below : CacheCall (Refusals × Store) Unit},
      (∀ e, below c ⟨e, (table, m)⟩ = .done (.ok ()) ⟨e, (table, call.apply m)⟩) →
      ∃ x e' m', ((Await.ofOp (Probe.observe id id seen) : CacheCall (Refusals × Store) Unit)
          >>= fun _ => below) c ⟨e, (table, m)⟩ = .done x ⟨e', (table, m')⟩ ∧
        call.Tried m x m' := by
    intro seen below hbelow
    have hseen := observe_run id id seen c e table m
    split at hseen
    · exact ⟨_, _, m, Await.bind_of_failed hseen, .failed _⟩
    · exact ⟨_, _, _, (Await.bind_of_done hseen).trans (hbelow _), .made⟩
  cases call with
  | clear => exact hcall fun _ => rfl
  | put k x => exact hcall fun _ => rfl

theorem fallibleEach {ids : ρ → String} (hids : Function.Injective ids) :
    FallibleEach (cache held ids) store where
  each r := {
    run := by
      rintro call c ⟨e, s⟩
      obtain ⟨x, e', m', hrun, htried⟩ :=
        probe_tried (ids r) call ((place held r).caller s c) e (s r).1 (s r).2
      refine ⟨x, ⟨e', Function.update s r ((s r).1, m')⟩, ?_, ?_, ?_⟩
      · cases call with
        | clear => exact Focus.await_of_done (f := place held r) (w := ⟨e, s⟩) hrun
        | put k x => exact Focus.await_of_done (f := place held r) (w := ⟨e, s⟩) hrun
      · show call.Tried (s r).2 x (Function.update s r ((s r).1, m') r).2
        rw [Function.update_self]
        exact htried
      · intro r' hr'
        exact congrArg Prod.snd (Function.update_of_ne hr' ..)
    refl := fun _ _ _ => rfl
    trans := fun hs hs' r' hr' => (hs' r' hr').trans (hs r' hr') }
  ids := hids

/-- Two stores. -/
def two : Bool → Cache (Shelf Bool) := cache (fun _ _ => []) fun r => if r then "users" else "roles"

/-- A clear, and then a put. -/
def clearThenPut (b : Buffer) : Buffer := b.requestClear.write (.folded .empty) none

/-- Both wait for each of the stores. -/
def wroteBoth : UnitOfWork Bool :=
  (UnitOfWork.edit {} true "users" clearThenPut).edit false "roles" clearThenPut

/-- Each store has an entry under another key; the second one refuses every put. -/
def before : UnitOfWork Bool × Shelf Bool :=
  (wroteBoth, fun r => (if r then [] else [(.put, .always)], Entries.insert .empty .null none))

/-- The first store is done, the second one is cleared, and nothing is refused any more. -/
def reopened : UnitOfWork Bool × Shelf Bool :=
  (wroteBoth.setBuffer "users" .empty,
    fun r => ([], if r then Entries.insert .empty (.folded .empty) none else .empty))

/-- The state after a commit. -/
def committed (s : UnitOfWork Bool × Shelf Bool) : UnitOfWork Bool × Shelf Bool :=
  (UnitOfWork.commit two ⟨"main", []⟩ ⟨{}, s⟩).world.state

theorem attempt_committed {s : UnitOfWork Bool × Shelf Bool} {x : Except CacheError Unit}
    (h : ∃ w, UnitOfWork.commit two ⟨"main", []⟩ ⟨{}, s⟩ = .done x w) :
    Attempt two s x (committed s) := by
  obtain ⟨w, hw⟩ := h
  have hstate : committed s = w.state := congrArg (·.world.state) hw
  rw [hstate]
  exact ⟨UnitOfWork.touched, Buffer.misses, ⟨"main", []⟩, {}, w.env, .refl _, fun _ => .refl _, hw⟩

/-- The first attempt has cleared the second store; the second attempt clears it again. -/
theorem retried_commit_reopened :
    Retried two store before reopened ∧
      (∀ id, (committed reopened).1.buffer id = .empty) ∧
      ∀ r, (store r (committed reopened).2).find? .null = none ∧
        (store r (committed reopened).2).find? (.folded .empty) = some none := by
  have hids : Function.Injective fun r : Bool => if r then "users" else "roles" := by decide
  have hfiled : Filed two wroteBoth := by
    have hnew : Filed two {} := fun id r b hb => nomatch hb
    have hone := (hnew.differsAt_edit (r := true) hids clearThenPut).filed hnew
    exact (hone.differsAt_edit (r := false) hids clearThenPut).filed hone
  have hfailed : Attempt two before (.error (.serialization "roles" "refused put"))
      (committed before) := attempt_committed ⟨_, by rfl⟩
  have hmade : Attempt two reopened (.ok ()) (committed reopened) := attempt_committed ⟨_, by rfl⟩
  have hunit : (committed before).1 = reopened.1 := by rfl
  have hstores : ∀ r, store r reopened.2 = store r (committed before).2 := by
    intro r
    cases r <;> rfl
  have hreopened : Retried two store before reopened := by
    have hlater : Retried two store before ((committed before).1, reopened.2) :=
      .later (.failed .start hfailed) hstores
    rw [hunit] at hlater
    exact hlater
  have hfallible : FallibleEach two store := fallibleEach (fun _ _ => []) hids
  obtain ⟨-, -, hok⟩ := retried_commit hfallible hfiled hreopened
  obtain ⟨hempty, hfinished, -⟩ := hok hmade
  refine ⟨hreopened, hempty, fun r => ⟨(hfinished r .null).trans ?_,
    (hfinished r (.folded .empty)).trans ?_⟩⟩
  · cases r <;> rfl
  · cases r <;> rfl

end Shelf

end QueryCache
