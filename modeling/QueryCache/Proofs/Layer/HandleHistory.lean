import Mathlib
import QueryCache.Proofs.Layer.Handles

/-!
# Histories of a layer of handles

Calls on the layer around a store, one after the other, while outside owners take and drop values
as they like: every call has its own owners and its own environment.  Between the calls nobody
uses the handles of the layer, and no allocation is made twice.

What stands under a key was put there, and nothing has replaced it since.  Whether it still
stands depends on what was true at certain calls in between, and `SincePut` says such things of a
history.

1. turns and histories
2. since the last put of a value
3. the recent reads
4. what one request leaves under a key
5. handles that are told apart
6. what one request does to a handle
7. the ring after a history
-/

namespace QueryCache

namespace Reference

/-! ## Turns and histories -/

/-- A call that was made, and its answer. -/
structure Turn extends Visit where
  answer : Answer

namespace Turn

/-- The values held outside the layer during the call: what the caller hands on is held too. -/
def owners (t : Turn) : List Value := t.caller.owners ++ t.request.handed

end Turn

variable {r : Reachability} {id : String} {n : Nat} {turns : List Turn}
  {w w' : World (References × Store)} {v : Visit} {k : CacheKey}

/-- Since the world was left as it is, nobody has used the handles of the layer, no allocation was
made twice, and a value that is put exists already and is no handle of the layer. -/
structure Undisturbed (w : World (References × Store)) (v : Visit) : Prop where
  nextAlloc_le : w.env.nextAlloc ≤ v.env.nextAlloc
  handles : ∀ k h, w.state.2.lookup k = some h → v.env.handles h.alloc = w.env.handles h.alloc
  brings : v.request.Brings fun u =>
    u.alloc < v.env.nextAlloc ∧ ∀ k h, w.state.2.lookup k = some h → u.alloc ≠ h.alloc

/-- A call that is made at once, and puts nothing, finds everything as it was. -/
theorem Undisturbed.at_once {q : Request} (w : World (References × Store)) (c : Caller)
    (hq : q.handed = []) : Undisturbed w ⟨c, w.env, q⟩ := by
  refine ⟨le_refl _, fun _ _ _ => rfl, ?_⟩
  cases q with
  | put k x =>
    obtain rfl : x = none := Option.toList_eq_nil_iff.1 hq
    trivial
  | _ => trivial

/-- Calls that were made one after the other on a new layer around an empty store, and the world
that they left. -/
inductive History (r : Reachability) (id : String) (n : Nat) :
    List Turn → World (References × Store) → Prop
  | start (e : Environment) : History r id n [] ⟨e, fresh n⟩
  | call {turns : List Turn} {w w' : World (References × Store)} {t : Turn}
      (h : History r id n turns w) (hv : Undisturbed w t.toVisit)
      (hserve : (around r (Store.cache id)).serve t.request t.caller ⟨t.env, w.state⟩ =
        .done (.ok t.answer) w') : History r id n (turns ++ [t]) w'

/-- There is one end that a call comes to. -/
theorem eq_of_serve {q : Request} {c : Caller} {a : Answer} (h : Mirrors w.state)
    (hserve : (around r (Store.cache id)).serve q c w = .done (.ok a) w') :
    a = reply r c w q ∧ w' = leave r c w q := by
  obtain ⟨ha, hw⟩ := Outcome.done.inj (hserve.symm.trans (serve_run h r id q c))
  exact ⟨Except.ok.inj ha, hw⟩

namespace History

theorem mirrors (h : History r id n turns w) : Mirrors w.state := by
  induction h with
  | start e => exact .fresh n
  | @call _ w _ t _ _ hserve ih =>
    obtain ⟨-, rfl⟩ := eq_of_serve (w := ⟨t.env, w.state⟩) ih hserve
    exact ih.leave (w := ⟨t.env, w.state⟩) r t.caller t.request

/-- Any call may follow, and ends. -/
theorem next (h : History r id n turns w) (hv : Undisturbed w v) :
    History r id n (turns ++ [⟨v, reply r v.caller ⟨v.env, w.state⟩ v.request⟩])
      (leave r v.caller ⟨v.env, w.state⟩ v.request) :=
  h.call (t := ⟨v, _⟩) hv (serve_run (w := ⟨v.env, w.state⟩) h.mirrors r id v.request v.caller)

/-- What is true at the start and is kept by every call is true after any history. -/
theorem keeps {P : List Turn → World (References × Store) → Prop} (start : ∀ e, P [] ⟨e, fresh n⟩)
    (step : ∀ {turns w t}, History r id n turns w → Undisturbed w t.toVisit →
      t.answer = reply r t.caller ⟨t.env, w.state⟩ t.request → P turns w →
        P (turns ++ [t]) (leave r t.caller ⟨t.env, w.state⟩ t.request))
    (h : History r id n turns w) : P turns w := by
  induction h with
  | start e => exact start e
  | @call _ w _ t h hv hserve ih =>
    obtain ⟨hanswer, rfl⟩ := eq_of_serve (w := ⟨t.env, w.state⟩) h.mirrors hserve
    exact step h hv hanswer ih

/-- The last call of a history. -/
theorem last {t : Turn} (h : History r id n (turns ++ [t]) w') : ∃ w, History r id n turns w ∧
    t.answer = reply r t.caller ⟨t.env, w.state⟩ t.request ∧
    w' = leave r t.caller ⟨t.env, w.state⟩ t.request := by
  generalize hl : turns ++ [t] = l at h
  cases h with
  | start e => simp at hl
  | @call _ w _ _ h _ hserve =>
    obtain ⟨rfl, ht⟩ := List.append_inj' hl rfl
    obtain rfl := List.singleton_inj.1 ht
    exact ⟨w, h, eq_of_serve (w := ⟨t.env, w.state⟩) h.mirrors hserve⟩

end History

end Reference

/-! ## Since the last put of a value -/

namespace Request

/-- After the request nothing is left of what was stored under the key. -/
def Ends (k : CacheKey) : Request → Prop
  | put k' _ => k' = k
  | remove k' => k' = k
  | clear => True
  | _ => False

/-- The request finds out whether the value under the key is still alive. -/
def Checks (k : CacheKey) (q : Request) : Prop := q.Sweeps ∨ q = .get k

theorem ends_of_put {k : CacheKey} {x : Option Value} {q : Request} (h : q = put k x) :
    q.Ends k := by
  rw [h]
  rfl

end Request

namespace Reference

/-- The value was put under the key and nothing has replaced it since; and of every later call
`p` is true, with the calls before it. -/
def SincePut (p : List Turn → Turn → Prop) (turns : List Turn) (k : CacheKey) (v : Value) : Prop :=
  ∃ before t later, turns = before ++ t :: later ∧ t.request = .put k (some v) ∧
    ∀ mid u rest, later = mid ++ u :: rest → ¬ u.request.Ends k ∧ p (before ++ t :: mid) u

section SincePut

variable {p q : List Turn → Turn → Prop} {turns : List Turn} {t : Turn} {k : CacheKey} {v : Value}

theorem not_sincePut_nil : ¬ SincePut p [] k v := by
  rintro ⟨before, t, later, heq, -⟩
  simp at heq

/-- One more call: it puts the value, or it replaces nothing and `p` is true of it. -/
theorem sincePut_append : SincePut p (turns ++ [t]) k v ↔
    t.request = .put k (some v) ∨ (¬ t.request.Ends k ∧ p turns t ∧ SincePut p turns k v) := by
  constructor
  · rintro ⟨before, u, later, heq, hput, hlater⟩
    rcases List.eq_nil_or_concat later with rfl | ⟨later, last, rfl⟩
    · -- The put was the last call.
      obtain ⟨-, ht⟩ := List.append_inj' heq rfl
      exact .inl (List.singleton_inj.1 ht ▸ hput)
    · rw [List.concat_eq_append, ← List.cons_append, ← List.append_assoc] at heq
      obtain ⟨rfl, ht⟩ := List.append_inj' heq rfl
      obtain rfl := List.singleton_inj.1 ht
      rw [List.concat_eq_append] at hlater
      obtain ⟨hends, hp⟩ := hlater later t [] rfl
      refine .inr ⟨hends, hp, before, u, later, rfl, hput, ?_⟩
      rintro mid u' rest rfl
      exact hlater mid u' (rest ++ [t]) (by simp)
  · rintro (hput | ⟨hends, hp, before, u, later, rfl, hput, hlater⟩)
    · exact ⟨turns, t, [], rfl, hput, by simp⟩
    · refine ⟨before, u, later ++ [t], by simp, hput, ?_⟩
      intro mid u' rest heq
      rcases List.eq_nil_or_concat rest with rfl | ⟨rest, last, rfl⟩
      · obtain ⟨rfl, ht⟩ := List.append_inj' heq rfl
        exact List.singleton_inj.1 ht ▸ ⟨hends, hp⟩
      · rw [List.concat_eq_append, ← List.cons_append, ← List.append_assoc] at heq
        obtain ⟨rfl, -⟩ := List.append_inj' heq rfl
        exact hlater mid u' rest rfl

end SincePut

/-! ## The recent reads -/

/-- The values read since the last clear, latest first, after one more call. -/
def Turn.noteRead (reads : List Value) (t : Turn) : List Value :=
  match t.request, t.answer with
  | .get _, .value (some v) => v :: reads
  | .clear, _ => []
  | _, _ => reads

/-- The values that were read since the last clear, latest first. -/
def recentReads (turns : List Turn) : List Value := turns.foldl Turn.noteRead []

theorem recentReads_append (turns : List Turn) (t : Turn) :
    recentReads (turns ++ [t]) = t.noteRead (recentReads turns) := by
  rw [recentReads, List.foldl_append]
  rfl

variable {r : Reachability} {id : String} {n : Nat} {turns : List Turn} {c : Caller}
  {w w' : World (References × Store)} {k k' : CacheKey} {q : Request} {u v : Value} {a b : Nat}

/-! ## What one request leaves under a key -/

theorem lookup_stored (x : Option Value) : (stored r k w x).state.2.lookup k' =
    if k' = k then x.map (.handle w.env.nextAlloc) else w.state.2.lookup k' := by
  cases x <;> simp [stored]

theorem lookup_read : (read c k w).state.2.lookup k' =
    if k' = k ∧ found c k w = none then none else w.state.2.lookup k' := by
  rw [read, found]
  cases hk : w.state.2.lookup k with
  | none =>
    by_cases hk' : k' = k
    · simp [hk', hk]
    · simp [hk']
  | some handle =>
    cases hv : w.env.deref (holders c w.state) handle with
    | none =>
      by_cases hk' : k' = k
      · simp [followed, hv, dropped, hk']
      · simp [followed, hv, dropped, hk']
    | some v => simp [followed, hv]

/-- A stored handle that gives nothing is taken out when it is read. -/
theorem find?_read_of_found_none (hk : w.state.2.lookup k = some u) (hv : found c k w = none) :
    (read c k w).state.2.find? k = none := by
  rw [found, hk, Option.bind_some] at hv
  simp [read, hk, followed, hv, dropped]

/-- A read finds the target of the handle that is stored, if something keeps it alive. -/
theorem found_eq_some_iff (h : Mirrors w.state) : found c k w = some v ↔
    ∃ a, w.state.2.lookup k = some (.handle a v) ∧
      w.env.isAlive (holders c w.state) v = true := by
  rw [found]
  constructor
  · intro hv
    obtain ⟨handle, hk, hv⟩ := Option.bind_eq_some_iff.1 hv
    obtain ⟨a, u, rfl⟩ := h.handle k handle hk
    rw [Environment.deref_of_mem (h.mem_holders hk)] at hv
    split at hv
    · obtain rfl := Option.some.inj hv
      exact ⟨a, hk, ‹_›⟩
    · cases hv
  · rintro ⟨a, hk, halive⟩
    rw [hk, Option.bind_some, Environment.deref_of_mem (h.mem_holders hk), if_pos halive]

/-- A key that is not replaced keeps its handle, unless the request looks for the value and finds
it dead. -/
theorem lookup_leave (h : Mirrors w.state) (hq : ¬ q.Ends k) :
    (leave r c w q).state.2.lookup k = some u ↔ w.state.2.lookup k = some u ∧
      (q.Sweeps → survives r (c.holding q.handed) w u = true) ∧
      (q = .get k → (w.env.deref (holders c w.state) u).isSome = true) := by
  have hcollected : ∀ c', (collected r c' w).state.2.lookup k = some u ↔
      w.state.2.lookup k = some u ∧ survives r c' w u = true := by
    intro c'
    rw [h.lookup_collected, Option.filter_eq_some_iff]
  cases q with
  | put k' x =>
    have hne : k ≠ k' := fun heq => hq heq.symm
    have := hcollected (c.holding x.toList)
    simpa [leave, lookup_stored, hne, Request.Sweeps, Request.handed, advanced] using this
  | get k' =>
    have hfound : found c k' (advanced w) =
        (w.state.2.lookup k').bind (w.env.deref (holders c w.state)) := rfl
    have hlookup : (advanced w).state.2.lookup k = w.state.2.lookup k := rfl
    rw [leave, lookup_read, hfound, hlookup]
    by_cases hk : k = k'
    · subst hk
      cases hx : w.state.2.lookup k with
      | none => simp
      | some handle =>
        cases hv : w.env.deref (holders c w.state) handle with
        | none => grind [Request.Sweeps]
        | some v => grind [Request.Sweeps]
    · simp [hk, Ne.symm hk, Request.Sweeps]
  | remove k' =>
    have hne : k ≠ k' := fun heq => hq heq.symm
    simpa [leave, dropped, hne, Request.Sweeps, Request.handed, advanced] using hcollected c
  | clear => exact absurd trivial hq
  | size => simpa [leave, Request.Sweeps, Request.handed] using hcollected c
  | releaseLock k' => simp [leave, Request.Sweeps]

/-- A request that replaces a key leaves the value that it puts, or nothing. -/
theorem lookup_leave_of_ends (hq : q.Ends k) :
    (leave r c w q).state.2.lookup k = some u ↔
      ∃ v, q = .put k (some v) ∧ u = .handle w.env.nextAlloc v := by
  cases q with
  | put k' x =>
    obtain rfl : k' = k := hq
    rw [leave, lookup_stored, if_pos rfl]
    cases x with
    | none => simp
    | some v =>
      have halloc : (advanced (collected r (c.holding [v]) w)).env.nextAlloc = w.env.nextAlloc :=
        rfl
      simp [halloc, eq_comm]
  | remove k' =>
    obtain rfl : k' = k := hq
    simp [leave, dropped]
  | clear => simp [leave, Store.lookup]
  | get k' => exact hq.elim
  | size => exact hq.elim
  | releaseLock k' => exact hq.elim

theorem nextAlloc_leave (r : Reachability) (c : Caller) (w : World (References × Store))
    (q : Request) : w.env.nextAlloc ≤ (leave r c w q).env.nextAlloc := by
  cases q with
  | put k x =>
    cases x with
    | none => exact le_refl _
    | some v => exact Nat.le_succ _
  | get k =>
    rw [leave, read]
    split
    · rw [followed]
      split
      · exact le_refl _
      · exact le_refl _
    · exact le_refl _
  | _ => exact le_refl _

/-! ## Handles that are told apart -/

/-- Everything that is stored has been allocated, every key has a handle of its own, and what a
handle refers to is no handle that is stored. -/
structure Sound (w : World (References × Store)) : Prop where
  mirrors : Mirrors w.state
  made : ∀ {k a v}, w.state.2.lookup k = some (.handle a v) →
    a < w.env.nextAlloc ∧ v.alloc < w.env.nextAlloc
  own : ∀ {k k' a v v'}, w.state.2.lookup k = some (.handle a v) →
    w.state.2.lookup k' = some (.handle a v') → k = k'
  apart : ∀ {k k' a b v u}, w.state.2.lookup k = some (.handle a v) →
    w.state.2.lookup k' = some (.handle b u) → v.alloc ≠ b

/-- What stands under a key after a request stood there before, or is new. -/
theorem old_or_new (h : Mirrors w.state) (hu : (leave r c w q).state.2.lookup k = some u) :
    w.state.2.lookup k = some u ∨ ∃ v, q = .put k (some v) ∧ u = .handle w.env.nextAlloc v := by
  by_cases hq : q.Ends k
  · exact .inr ((lookup_leave_of_ends hq).1 hu)
  · exact .inl ((lookup_leave h hq).1 hu).1

namespace Sound

theorem fresh (e : Environment) (n : Nat) : Sound ⟨e, fresh n⟩ where
  mirrors := .fresh n
  made h := nomatch h
  own h := nomatch h
  apart h := nomatch h

theorem undisturbed (h : Sound w) {v : Visit} (hv : Undisturbed w v) : Sound ⟨v.env, w.state⟩ where
  mirrors := h.mirrors
  made hk := ⟨lt_of_lt_of_le (h.made hk).1 hv.nextAlloc_le,
    lt_of_lt_of_le (h.made hk).2 hv.nextAlloc_le⟩
  own := h.own
  apart := h.apart

theorem leave (h : Sound w) (r : Reachability) (c : Caller) (hq : q.Brings fun u =>
    u.alloc < w.env.nextAlloc ∧ ∀ k h, w.state.2.lookup k = some h → u.alloc ≠ h.alloc) :
    Sound (leave r c w q) := by
  constructor
  · exact h.mirrors.leave r c q
  · intro k a v hk
    rcases old_or_new h.mirrors hk with hold | ⟨v', rfl, hu⟩
    · have hle := nextAlloc_leave r c w q
      have hmade := h.made hold
      omega
    · obtain ⟨rfl, rfl⟩ := Value.handle.inj hu
      exact ⟨Nat.lt_succ_self _, Nat.lt_succ_of_lt hq.1⟩
  · intro k k' a v v' hk hk'
    rcases old_or_new h.mirrors hk with hold | ⟨u, rfl, hu⟩
    · rcases old_or_new h.mirrors hk' with hold' | ⟨u', -, hu'⟩
      · exact h.own hold hold'
      · obtain ⟨rfl, -⟩ := Value.handle.inj hu'
        exact absurd (h.made hold).1 (lt_irrefl _)
    · obtain ⟨rfl, -⟩ := Value.handle.inj hu
      rcases old_or_new h.mirrors hk' with hold' | ⟨u', hput, -⟩
      · exact absurd (h.made hold').1 (lt_irrefl _)
      · exact (Request.put.inj hput).1
  · intro k k' a b v u hk hk'
    rcases old_or_new h.mirrors hk with hold | ⟨v', rfl, hu⟩
    · rcases old_or_new h.mirrors hk' with hold' | ⟨u', -, hu'⟩
      · exact h.apart hold hold'
      · obtain ⟨rfl, -⟩ := Value.handle.inj hu'
        exact (h.made hold).2.ne
    · obtain ⟨-, rfl⟩ := Value.handle.inj hu
      rcases old_or_new h.mirrors hk' with hold' | ⟨u', -, hu'⟩
      · exact hq.2 k' _ hold'
      · obtain ⟨rfl, -⟩ := Value.handle.inj hu'
        exact hq.1.ne

end Sound

theorem History.sound (h : History r id n turns w) : Sound w :=
  h.keeps (P := fun _ w => Sound w) (fun e => .fresh e n) fun {_ _ t} _ hv _ ih =>
    (ih.undisturbed hv).leave r t.caller hv.brings

/-! ## What one request does to a handle -/

/-- A handle that is stored is demoted if it has gone unread for too long. -/
theorem settled_handles (h : Mirrors w.state) (hk : w.state.2.lookup k = some (.handle a v)) :
    (settled r w).handles a =
      if r.isIdle w.state.1.generation (w.env.handles a).touched = true then
        { w.env.handles a with strong := false }
      else w.env.handles a := by
  have hmem : (w.state.1.registry.values.any fun u => u.alloc == a) = true :=
    List.any_eq_true.2 ⟨_, Entries.mem_values_iff.2 ⟨k, (h.registry k).trans hk⟩, by simp⟩
  rw [settled, Environment.handles_withoutIdle, hmem, Bool.true_and]

theorem handles_stored (x : Option Value) : (stored r k w x).env.handles b =
    if x.isSome ∧ b = w.env.nextAlloc then ⟨r.isStrong, w.state.1.generation⟩
    else w.env.handles b := by
  cases x <;> simp [stored, Environment.setHandle]

/-- A handle that was read is touched, and no other one. -/
theorem handles_read (h : Sound w) (c : Caller) (k' : CacheKey)
    (hk : w.state.2.lookup k = some (.handle a v)) :
    (read c k' w).env.handles a =
      if k = k' ∧ (found c k' w).isSome then
        { w.env.handles a with touched := w.state.1.generation }
      else w.env.handles a := by
  rw [read, found]
  cases hk' : w.state.2.lookup k' with
  | none => simp
  | some handle =>
    obtain ⟨b, u, rfl⟩ := h.mirrors.handle k' handle hk'
    cases hu : w.env.deref (holders c w.state) (.handle b u) with
    | none => simp [followed, hu, dropped]
    | some x =>
      by_cases heq : k = k'
      · subst heq
        obtain ⟨rfl, rfl⟩ := Value.handle.inj (Option.some.inj (hk.symm.trans hk'))
        simp [followed, hu, Environment.touch, Environment.setHandle]
      · have hne : a ≠ b := by
          rintro rfl
          exact heq (h.own hk hk')
        simp [followed, hu, Environment.touch, Environment.setHandle, heq, hne]

/-- The handle of a key that is not replaced stays as it is, but for two things: a request that
looks for dead values demotes it if it has gone unread for too long, and a read touches it. -/
theorem handles_leave (h : Sound w) (hq : ¬ q.Ends k)
    (hk : (leave r c w q).state.2.lookup k = some (.handle a v)) :
    (((leave r c w q).env.handles a).strong = true ↔ (w.env.handles a).strong = true ∧
      (q.Sweeps → r.isIdle w.state.1.generation (w.env.handles a).touched = false)) ∧
    (q = .get k → ((leave r c w q).env.handles a).touched = w.state.1.generation + 1) ∧
    (q ≠ .get k → ((leave r c w q).env.handles a).touched = (w.env.handles a).touched) := by
  obtain ⟨hold, -, hread⟩ := (lookup_leave h.mirrors hq).1 hk
  have hsettled := settled_handles (r := r) h.mirrors hold
  cases q with
  | put k' x =>
    -- The new handle is another one.
    have hne : a ≠ w.env.nextAlloc := (h.made hold).1.ne
    have hstored : (leave r c w (.put k' x)).env.handles a = (settled r w).handles a :=
      (handles_stored x).trans (if_neg fun hx => hne hx.2)
    rw [hstored, hsettled]
    split <;> simp_all [Request.Sweeps]
  | get k' =>
    have hsound : Sound (advanced w) :=
      ⟨⟨h.mirrors.registry, h.mirrors.handle⟩, h.made, h.own, h.apart⟩
    have hhandle := handles_read hsound c k' hold
    rw [leave, hhandle]
    by_cases heq : k = k'
    · subst heq
      -- The key is still stored, so the read has found its value.
      have hfound : (found c k (advanced w)).isSome = true := by
        have hlookup : (advanced w).state.2.lookup k = some (.handle a v) := hold
        rw [found, hlookup]
        exact hread rfl
      rw [if_pos ⟨rfl, hfound⟩]
      simp [Request.Sweeps, advanced]
    · rw [if_neg fun hx => heq hx.1]
      simp [Request.Sweeps, advanced, Ne.symm heq]
  | remove k' =>
    have hhandle : (leave r c w (.remove k')).env.handles a = (settled r w).handles a := rfl
    rw [hhandle, hsettled]
    split <;> simp_all [Request.Sweeps]
  | size =>
    have hhandle : (leave r c w .size).env.handles a = (settled r w).handles a := rfl
    rw [hhandle, hsettled]
    split <;> simp_all [Request.Sweeps]
  | clear => exact absurd trivial hq
  | releaseLock k' => simp [leave, Request.Sweeps]

/-- The new handle of a put. -/
theorem handles_leave_put : (leave r c w (.put k (some v))).env.handles w.env.nextAlloc =
    ⟨r.isStrong, w.state.1.generation + 1⟩ :=
  (handles_stored (some v)).trans (if_pos ⟨rfl, rfl⟩)

/-! ## The ring after a history -/

theorem ringCapacity_leave : (leave r c w q).state.1.ringCapacity = w.state.1.ringCapacity := by
  cases q with
  | put k x => cases x <;> rfl
  | get k =>
    rw [Reference.leave, read]
    split
    · rw [followed]
      split <;> rfl
    · rfl
  | _ => rfl

/-- The ring takes a value that was read, and is emptied by a clear. -/
theorem ring_leave {reads : List Value} (hring : w.state.1.ring = reads.take w.state.1.ringCapacity)
    (t : Turn) (ht : t.answer = reply r c w t.request) :
    (leave r c w t.request).state.1.ring = (t.noteRead reads).take w.state.1.ringCapacity := by
  obtain ⟨⟨_, _, q⟩, a⟩ := t
  obtain rfl : a = reply r c w q := ht
  cases q with
  | put k x => cases x <;> exact hring
  | get k =>
    have hread : (reply r c w (.get k)) = .value (found c k (advanced w)) := rfl
    rw [Turn.noteRead, hread, leave, read, found]
    cases (advanced w).state.2.lookup k with
    | none => exact hring
    | some handle =>
      simp only [followed, Option.bind_some]
      cases (advanced w).env.deref (holders c (advanced w).state) handle with
      | none => exact hring
      | some v =>
        show (v :: w.state.1.ring).take w.state.1.ringCapacity = _
        rw [hring]
        cases w.state.1.ringCapacity with
        | zero => rfl
        | succ m => simp [List.take_take]
  | clear => simp [Turn.noteRead, leave, References.reset]
  | _ => exact hring

/-- The ring has the values that were read last since the last clear. -/
theorem History.ring (h : History r id n turns w) :
    w.state.1.ringCapacity = n ∧ w.state.1.ring = (recentReads turns).take n := by
  refine h.keeps (P := fun turns w =>
    w.state.1.ringCapacity = n ∧ w.state.1.ring = (recentReads turns).take n) ?_ ?_
  · intro e
    exact ⟨rfl, by simp [recentReads, fresh]⟩
  · rintro turns w t - - hanswer ⟨rfl, hring⟩
    refine ⟨ringCapacity_leave, ?_⟩
    rw [recentReads_append]
    exact ring_leave (w := ⟨t.env, w.state⟩) hring t hanswer

/-! ## A value that nobody keeps -/

/-- A value that its caller hands on and does not keep. -/
def truth : Value := .data 0 (.bool true) false

/-- It is put into a new layer. -/
def putTruth : Visit := ⟨⟨"main", []⟩, { nextAlloc := 1 }, .put .null (some truth)⟩

theorem undisturbed_putTruth (n : Nat) : Undisturbed ⟨putTruth.env, fresh n⟩ putTruth := by
  refine ⟨le_refl _, fun _ _ _ => rfl, by decide, ?_⟩
  intro k h hk
  cases hk

end Reference

end QueryCache
