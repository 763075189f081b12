import Mathlib
import QueryCache.Proofs.Layer.HandleHistory

/-!
# What a layer of weak handles keeps

Weak handles around a store, with a ring whose capacity does not change.  A value that was put
stays under its key as long as every call that looks for dead values finds it held by an outside
owner or among the last reads; and it can be read as long as it is so held at that moment.

1. what keeps a value alive
2. which entries stand
3. what a read finds
-/

namespace QueryCache

/-! ## What keeps a value alive -/

namespace Environment

theorem isAlive_append (e : Environment) (owners owners' : List Value) (v : Value) :
    e.isAlive (owners ++ owners') v = (e.isAlive owners v || e.isAlive owners' v) :=
  List.any_append

/-- Weak handles keep nothing alive but themselves. -/
theorem isAlive_weak {e : Environment} {owners : List Value} {v : Value}
    (h : ∀ o ∈ owners, ∃ a u, o = .handle a u ∧ (e.handles a).strong = false ∧ v.alloc ≠ a) :
    e.isAlive owners v = false := by
  rw [isAlive, List.any_eq_false]
  intro o ho
  obtain ⟨a, u, rfl, hweak, hne⟩ := h o ho
  simp [Value.reach, hweak, Ne.symm hne]

end Environment

namespace Reference

variable {id : String} {n : Nat} {turns : List Turn} {c : Caller}
  {e : Environment} {w w' : World (References × Store)} {k : CacheKey} {q : Request} {v : Value}
  {a : Nat}

/-- Weak handles are never demoted. -/
theorem settled_weak (w : World (References × Store)) : settled .weak w = w.env := by
  simp [settled, Environment.withoutIdle, Reachability.isIdle]

/-- No handle that is stored holds its target. -/
def AllWeak (w : World (References × Store)) : Prop :=
  ∀ k a v, w.state.2.lookup k = some (.handle a v) → (w.env.handles a).strong = false

theorem AllWeak.undisturbed (hw : AllWeak w) {v : Visit} (hv : Undisturbed w v) :
    AllWeak ⟨v.env, w.state⟩ := by
  intro k a u hk
  exact (congrArg HandleState.strong (hv.handles k _ hk)).trans (hw k a u hk)

theorem AllWeak.leave (hw : AllWeak w) (h : Sound w) : AllWeak (leave .weak c w q) := by
  intro k a v hk
  by_cases hq : q.Ends k
  · obtain ⟨u, rfl, heq⟩ := (lookup_leave_of_ends hq).1 hk
    obtain ⟨rfl, -⟩ := Value.handle.inj heq
    rw [handles_leave_put]
    rfl
  · have hold := ((lookup_leave h.mirrors hq).1 hk).1
    rw [← Bool.not_eq_true, (handles_leave h hq hk).1, hw k a v hold]
    simp

/-- The stored values are kept alive by outside owners and by the ring alone. -/
theorem AllWeak.isAlive_holders (hw : AllWeak w) (h : Sound w)
    (hk : w.state.2.lookup k = some (.handle a v)) :
    w.env.isAlive (holders c w.state) v = w.env.isAlive (c.owners ++ w.state.1.ring) v := by
  -- The registry and the store hold handles, and the value is none of them.
  have hhandle : ∀ k' u, w.state.2.lookup k' = some u →
      ∃ b x, u = .handle b x ∧ (w.env.handles b).strong = false ∧ v.alloc ≠ b := by
    intro k' u hu
    obtain ⟨b, x, rfl⟩ := h.mirrors.handle k' u hu
    exact ⟨b, x, rfl, hw k' b x hu, h.apart hk hu⟩
  have hregistry : w.env.isAlive w.state.1.registry.values v = false := by
    refine Environment.isAlive_weak ?_
    intro o ho
    obtain ⟨k', hk'⟩ := Entries.mem_values_iff.1 ho
    exact hhandle k' o ((h.mirrors.registry k').symm.trans hk')
  have hstore : w.env.isAlive w.state.2.held v = false := by
    refine Environment.isAlive_weak ?_
    intro o ho
    obtain ⟨k', hk'⟩ := Store.mem_held_iff.1 ho
    exact hhandle k' o hk'
  simp only [holders, References.held, Environment.isAlive_append, hregistry, hstore, Bool.or_false]

/-! ## Which entries stand -/

/-- The value is held by an outside owner, or it is among the last `n` values that were read since
the last clear. -/
def InUse (n : Nat) (turns : List Turn) (e : Environment) (owners : List Value) (v : Value) :
    Prop :=
  e.isAlive (owners ++ (recentReads turns).take n) v = true

/-- The value was put under the key and nothing has replaced it since, and every later call that
looked for dead values found it in use. -/
def Standing (n : Nat) (turns : List Turn) (k : CacheKey) (v : Value) : Prop :=
  SincePut (fun earlier t => t.request.Checks k → InUse n earlier t.env t.owners v) turns k v

/-- Whoever looks for the value of a weak handle finds it if it is in use. -/
theorem checks_iff (h : Sound w) (hw : AllWeak w) {t : Turn} (ht : t.env = w.env)
    (hring : w.state.1.ring = (recentReads turns).take n)
    (hk : w.state.2.lookup k = some (.handle a v)) :
    ((t.request.Sweeps →
        survives .weak (t.caller.holding t.request.handed) w (.handle a v) = true) ∧
      (t.request = .get k →
        (w.env.deref (holders t.caller w.state) (.handle a v)).isSome = true)) ↔
    (t.request.Checks k → InUse n turns t.env t.owners v) := by
  have hsurvives : survives .weak (t.caller.holding t.request.handed) w (.handle a v) = true ↔
      InUse n turns t.env t.owners v := by
    rw [h.mirrors.survives_eq hk, settled_weak, hw.isAlive_holders h hk, hring, InUse, ht]
    rfl
  have hderef : t.request = .get k →
      ((w.env.deref (holders t.caller w.state) (.handle a v)).isSome = true ↔
        InUse n turns t.env t.owners v) := by
    intro hget
    have howners : t.owners = t.caller.owners := by simp [Turn.owners, hget, Request.handed]
    rw [Environment.isSome_deref_of_mem (h.mirrors.mem_holders hk), hw.isAlive_holders h hk, hring,
      InUse, ht, howners]
  rw [Request.Checks]
  tauto

/-- What stands after one more call: the value that it puts, or what stood and is found in use. -/
theorem standing_step (h : Sound w) (hw : AllWeak w) {t : Turn} (ht : t.env = w.env)
    (hring : w.state.1.ring = (recentReads turns).take n) :
    (∃ a, (leave .weak t.caller w t.request).state.2.lookup k = some (.handle a v)) ↔
      t.request = .put k (some v) ∨ (¬ t.request.Ends k ∧
        (t.request.Checks k → InUse n turns t.env t.owners v) ∧
        ∃ a, w.state.2.lookup k = some (.handle a v)) := by
  by_cases hq : t.request.Ends k
  · simp only [lookup_leave_of_ends hq, hq, not_true_eq_false, false_and, or_false]
    constructor
    · rintro ⟨a, u, hput, heq⟩
      obtain ⟨-, rfl⟩ := Value.handle.inj heq
      exact hput
    · intro hput
      exact ⟨w.env.nextAlloc, v, hput, rfl⟩
  · have hput : t.request ≠ .put k (some v) := fun hput => hq (Request.ends_of_put hput)
    simp only [lookup_leave h.mirrors hq, hput, hq, not_false_eq_true, true_and, false_or]
    constructor
    · rintro ⟨a, hk, hchecks⟩
      exact ⟨(checks_iff h hw ht hring hk).1 hchecks, a, hk⟩
    · rintro ⟨huse, a, hk⟩
      exact ⟨a, hk, (checks_iff h hw ht hring hk).2 huse⟩

/-- After any history the handles are weak, and what is stored stands. -/
theorem History.weak (h : History .weak id n turns w) : AllWeak w ∧
    ∀ k v, (∃ a, w.state.2.lookup k = some (.handle a v)) ↔ Standing n turns k v := by
  refine h.keeps (P := fun turns w => AllWeak w ∧
    ∀ k v, (∃ a, w.state.2.lookup k = some (.handle a v)) ↔ Standing n turns k v) ?_ ?_
  · intro e
    have hnone : ∀ k, (fresh n).2.lookup k = none := fun _ => rfl
    exact ⟨by simp [AllWeak, hnone], by simp [Standing, not_sincePut_nil, hnone]⟩
  · rintro turns w t hbefore hv - ⟨hweak, hstands⟩
    have hsound := hbefore.sound.undisturbed hv
    have hweak := hweak.undisturbed hv
    refine ⟨hweak.leave hsound, ?_⟩
    intro k v
    rw [standing_step hsound hweak rfl hbefore.ring.2, Standing, sincePut_append]
    exact or_congr_right (and_congr_right fun _ => and_congr_right fun _ => hstands k v)

/-! ## What a read finds -/

/-- A read finds what stands and is in use. -/
theorem found_iff (h : History .weak id n turns w) (hv : Undisturbed w ⟨c, e, .get k⟩) :
    found c k (advanced ⟨e, w.state⟩) = some v ↔
      Standing n turns k v ∧ InUse n turns e c.owners v := by
  obtain ⟨hweak, hstands⟩ := h.weak
  have hsound := h.sound.undisturbed hv
  have hweak := hweak.undisturbed hv
  have hfound : found c k (advanced ⟨e, w.state⟩) = found c k ⟨e, w.state⟩ := rfl
  rw [hfound, found_eq_some_iff hsound.mirrors, ← hstands]
  constructor
  · rintro ⟨a, hk, halive⟩
    rw [hweak.isAlive_holders hsound hk] at halive
    refine ⟨⟨a, hk⟩, ?_⟩
    rw [InUse, ← h.ring.2]
    exact halive
  · rintro ⟨⟨a, hk⟩, huse⟩
    rw [InUse, ← h.ring.2] at huse
    refine ⟨a, hk, ?_⟩
    rw [hweak.isAlive_holders hsound hk]
    exact huse

/-- A key whose read found nothing has no value left. -/
theorem not_standing_of_read {before later : List Turn} {t : Turn}
    (h : History .weak id n (before ++ t :: later) w) (hget : t.request = .get k)
    (hnone : t.answer = .value none)
    (hput : ∀ u ∈ later, ∀ v, u.request ≠ .put k (some v)) :
    ¬ Standing n (before ++ t :: later) k v := by
  induction later using List.reverseRecOn generalizing w with
  | nil =>
    -- The read itself took the key out.
    rw [← h.weak.2]
    rintro ⟨a, hk⟩
    obtain ⟨w', hbefore, hanswer, rfl⟩ := h.last
    rw [hget, reply, hnone] at hanswer
    rw [hget, leave, lookup_read, if_pos ⟨rfl, (Answer.value.inj hanswer).symm⟩] at hk
    cases hk
  | append_singleton later u ih =>
    have heq : before ++ t :: (later ++ [u]) = (before ++ t :: later) ++ [u] := by simp
    rw [heq] at h ⊢
    obtain ⟨w', hbefore, -⟩ := h.last
    rw [Standing, sincePut_append]
    rintro (hu | ⟨-, -, hstands⟩)
    · exact hput u (by simp) v hu
    · exact ih hbefore (fun u hu => hput u (by simp [hu])) hstands

/-- After any calls on a new layer of weak handles around an empty store, with any values held by
outside owners during each of them, the ring has at most `n` values.  A read of a key ends, and it
finds a value exactly if the value stands under the key and is in use: it was put there last,
nothing has replaced it since, every later call that looked for dead values found it held by an
outside owner or among the last `n` values read, and so it is now.  A value that stands and is not
in use any more is not found, and its key is gone from the store.  Once a read of a key has found
nothing, no later one finds a value before one is put again.  Any other call may follow too, and
it ends. -/
theorem get_weak_iff (h : History .weak id n turns w) (hv : Undisturbed w ⟨c, e, .get k⟩) :
    w.state.1.ring.length ≤ n ∧
      ∃ x w', (around .weak (Store.cache id)).serve (.get k) c ⟨e, w.state⟩ =
          .done (.ok (.value x)) w' ∧
        (∀ v, x = some v ↔ Standing n turns k v ∧ InUse n turns e c.owners v) ∧
        (∀ v, Standing n turns k v → ¬ InUse n turns e c.owners v →
          x = none ∧ w'.state.2.find? k = none) ∧
        (∀ before t later, turns = before ++ t :: later → t.request = .get k →
          t.answer = .value none → (∀ u ∈ later, ∀ v, u.request ≠ .put k (some v)) →
            x = none) ∧
        ∀ v, Undisturbed w v → ∃ a w', History .weak id n (turns ++ [⟨v, a⟩]) w' := by
  have hserve := serve_run (w := ⟨e, w.state⟩) h.mirrors .weak id (.get k) c
  refine ⟨?_, found c k (advanced ⟨e, w.state⟩), _, hserve, fun v => found_iff h hv, ?_, ?_,
    fun v hv => ⟨_, _, h.next hv⟩⟩
  · rw [h.ring.2]
    exact List.length_take_le _ _
  · intro v hstands hdead
    obtain ⟨a, hk⟩ := (h.weak.2 k v).2 hstands
    have hnone : found c k (advanced ⟨e, w.state⟩) = none := by
      rw [Option.eq_none_iff_forall_ne_some]
      intro u hu
      obtain ⟨hstands', huse⟩ := (found_iff h hv).1 hu
      obtain ⟨b, hk'⟩ := (h.weak.2 k u).2 hstands'
      obtain ⟨-, rfl⟩ := Value.handle.inj (Option.some.inj (hk.symm.trans hk'))
      exact hdead huse
    exact ⟨hnone, find?_read_of_found_none (w := advanced ⟨e, w.state⟩) hk hnone⟩
  · rintro before t later rfl hget hnone hput
    rw [Option.eq_none_iff_forall_ne_some]
    intro v hfound
    exact not_standing_of_read h hget hnone hput ((found_iff h hv).1 hfound).1

/-- A value that somebody held while it was read is still found in the ring when nobody holds it
any more. -/
theorem get_weak_iff_ring : ∃ turns w e w', History .weak "users" 1 turns w ∧
    Standing 1 turns .null truth ∧ e.isAlive [] truth = false ∧
    (around .weak (Store.cache "users")).serve (.get .null) ⟨"main", []⟩ ⟨e, w.state⟩ =
      .done (.ok (.value (some truth))) w' := by
  let w₁ := leave .weak putTruth.caller ⟨putTruth.env, fresh 1⟩ putTruth.request
  let read : Visit := ⟨⟨"main", [truth]⟩, w₁.env, .get .null⟩
  let w₂ := leave .weak read.caller ⟨read.env, w₁.state⟩ read.request
  have hput : History .weak "users" 1 ([] ++ [⟨putTruth, .done⟩]) w₁ :=
    (History.start _).next (undisturbed_putTruth 1)
  have hread :
      History .weak "users" 1 ([] ++ [⟨putTruth, .done⟩] ++ [⟨read, .value (some truth)⟩]) w₂ :=
    hput.next (.at_once w₁ _ rfl)
  have hstands :
      Standing 1 ([] ++ [⟨putTruth, .done⟩] ++ [⟨read, .value (some truth)⟩]) .null truth :=
    sincePut_append.2 (.inr ⟨id, fun _ => rfl, sincePut_append.2 (.inl rfl)⟩)
  have hnow : Undisturbed w₂ ⟨⟨"main", []⟩, w₂.env, .get .null⟩ := .at_once w₂ _ rfl
  obtain ⟨-, x, w', hserve, hfound, -⟩ := get_weak_iff hread hnow
  obtain rfl := (hfound truth).2 ⟨hstands, rfl⟩
  exact ⟨_, w₂, w₂.env, w', hread, hstands, rfl, hserve⟩

end Reference

end QueryCache
