import Mathlib
import QueryCache.Layer.Blocking
import QueryCache.Layer.Scheduled
import QueryCache.Layer.Serialized
import QueryCache.Layer.Statistics
import QueryCache.Proofs.Cache.Faithful

/-!
# The layers around the evicting one

Copies instead of values, counts, one call at a time, clearing on schedule,
locks on missing keys.  The layer of copies turns a faithful cache of values
into a faithful cache of copies; the others keep whatever the cache below is.
A blocking cache gives up removals: there a removal gives a lock back and takes
nothing out.
-/

namespace QueryCache

/-! ## Copies -/

namespace Serialized

variable {σ : Type} {d : Cache σ} {agrees : σ → Ideal → Prop} {t : Thread} {w : World σ}

/-- The first map has a snapshot where the second one has the value. -/
def Saves (m' m : Ideal) : Prop :=
  ∀ k u, m' k = some u → ∃ a v s, u = .snapshot a s ∧ m k = some v ∧ v.toSnapshot = .ok s

/-- The cache below agrees with a map of snapshots of the values. -/
def Agrees (agrees : σ → Ideal → Prop) (s : σ) (m : Ideal) : Prop :=
  ∃ m', agrees s m' ∧ Saves m' m

theorem saves_empty (m : Ideal) : Saves .empty m := by
  intro k u h
  cases h

theorem Saves.set {m' m : Ideal} (h : Saves m' m) (k : CacheKey) {x' x : Option Value}
    (hx : ∀ u, x' = some u → ∃ a v s, u = .snapshot a s ∧ x = some v ∧ v.toSnapshot = .ok s) :
    Saves (m'.set k x') (m.set k x) := by
  intro k' u hu
  rw [Ideal.set_apply] at hu ⊢
  split at hu
  · rw [if_pos ‹_›]
    exact hx u hu
  · rw [if_neg ‹_›]
    exact h k' u hu

/-- Nothing is stored for an absence. -/
theorem Saves.erase {m' m : Ideal} (h : Saves m' m) (k : CacheKey) :
    Saves (m'.set k none) (m.set k none) := by
  refine h.set k ?_
  intro u heq
  cases heq

/-- A value without a snapshot is not saved. -/
theorem save_of_error {v : Value} {e : SnapshotError} (hv : v.toSnapshot = .error e)
    (id : String) (c : Caller) (w : World σ) : save id v c w = (.error (mapError id e), w) := by
  unfold save
  rw [hv]
  rfl

/-- A snapshot is an allocation of its own. -/
theorem save_of_ok {v : Value} {sn : Snapshot} (hv : v.toSnapshot = .ok sn) (id : String)
    (c : Caller) (w : World σ) : save id v c w = (.ok (.snapshot w.env.nextAlloc sn),
      ⟨{ w.env with nextAlloc := w.env.nextAlloc + 1 }, w.state⟩) := by
  unfold save
  rw [hv]
  rfl

/-- A snapshot that cannot be restored fails the read. -/
theorem restoreFound_of_error {s : Snapshot} {e : SnapshotError} (hs : s.restore = .error e)
    (a : Nat) (id : String) (c : Caller) (w : World σ) :
    restoreFound id (some (.snapshot a s)) c w = (.error (mapError id e), w) := by
  simp only [restoreFound, restore, hs]
  rfl

/-- What is restored is an allocation of its own. -/
theorem restoreFound_of_ok {s : Snapshot} {d : Data} (hs : s.restore = .ok d) (a : Nat)
    (id : String) (c : Caller) (w : World σ) : restoreFound id (some (.snapshot a s)) c w =
      (.ok (some (.data w.env.nextAlloc d true)),
        ⟨{ w.env with nextAlloc := w.env.nextAlloc + 1 }, w.state⟩) := by
  simp only [restoreFound, restore, hs]
  rfl

/-- Restoring what the cache below gave for a key gives a copy of the value. -/
theorem restoreFound_meets {m' m : Ideal} (hs : Saves m' m) {k : CacheKey} {found : Option Value}
    (hf : ∀ u, found = some u → m' k = some u) (id : String) :
    (restoreFound id found : CacheOp σ (Option Value)).Meets t w fun r w' =>
      w.env.Before w'.env ∧ w'.state = w.state ∧ Found true m k w.env w'.env r := by
  intro c _
  cases found with
  | none => exact ⟨.refl _, rfl, found_none⟩
  | some stored =>
    rcases hs k stored (hf stored rfl) with ⟨a, v, s, rfl, hv, hsave⟩
    cases hr : s.restore with
    | error e =>
      rw [restoreFound_of_error hr]
      exact ⟨.refl _, rfl, found_error⟩
    | ok d' =>
      rcases Value.isCopyOf_of_restore hsave hr with ⟨a₀, d₀, rfl, hcopy⟩
      rw [restoreFound_of_ok hr]
      have hserved : Served true w.env { w.env with nextAlloc := w.env.nextAlloc + 1 }
          (.data a₀ d₀ true) (.data w.env.nextAlloc d' true) :=
        ⟨a₀, d₀, _, d', rfl, rfl, le_refl _, Nat.lt_succ_self _, hcopy⟩
      refine ⟨⟨le_refl _, Nat.le_succ _⟩, rfl, ?_⟩
      intro u h
      cases h
      exact ⟨_, hv, hserved⟩

section Operations

variable {m : Ideal} (hd : Faithful d agrees false true) (hm : Agrees agrees w.state m)

include hd hm

theorem put_meets (k : CacheKey) (x : Option Value) :
    ((around d).put k x).Meets t w fun r w' =>
      Leaves (Agrees agrees) (m.afterPut k x r) w w' ∧ (Storable true x → r = .ok ()) := by
  rcases hm with ⟨m', hm', hs⟩
  cases x with
  | none =>
    refine (hd.put k none hm').mono ?_
    intro r w' h
    rcases h with ⟨hl, hok⟩
    obtain rfl := hok (storable_none _)
    have hleaves : Leaves (Agrees agrees) (m.set k none) w w' :=
      ⟨hl.before, m'.set k none, hl.agrees, hs.erase k⟩
    exact ⟨hleaves, fun _ => rfl⟩
  | some v =>
    refine Await.Meets.bind_ofOp ?_
    intro c _
    cases hv : v.toSnapshot with
    | error e =>
      -- No snapshot, no put: the map stays, and the value was not storable.
      rw [save_of_error hv]
      have hleaves : Leaves (Agrees agrees) m w w := .rfl' ⟨m', hm', hs⟩
      refine ⟨hleaves, ?_⟩
      intro hstorable
      rcases hstorable rfl v rfl with ⟨sn, hsn⟩
      rw [hv] at hsn
      cases hsn
    | ok sn =>
      have hsaves : Saves (m'.set k (some (.snapshot w.env.nextAlloc sn))) (m.set k (some v)) := by
        refine hs.set k ?_
        intro u hu
        cases hu
        exact ⟨_, v, sn, rfl, rfl, hv⟩
      rw [save_of_ok hv]
      refine (hd.put (m := m') k _ ?_).mono ?_
      · exact hm'
      · intro r w' h
        rcases h with ⟨hl, hok⟩
        obtain rfl := hok (storable_of_not_copies _)
        have hbefore : w.env.Before w'.env :=
          ⟨hl.before.now_le, le_trans (Nat.le_succ _) hl.before.nextAlloc_le⟩
        have hleaves : Leaves (Agrees agrees) (m.set k (some v)) w w' :=
          ⟨hbefore, _, hl.agrees, hsaves⟩
        exact ⟨hleaves, fun _ => rfl⟩

theorem get_meets (k : CacheKey) :
    ((around d).get k).Meets t w fun r w' =>
      Leaves (Agrees agrees) m w w' ∧ Found true m k w.env w'.env r := by
  rcases hm with ⟨m', hm', hs⟩
  refine Await.Meets.bind_of (hd.get k hm') ?_ ?_
  · intro found w₁ h
    rcases h with ⟨hl, hf⟩
    have hfound : ∀ u, found = some u → m' k = some u := fun u hu => hf.apply_eq hu
    refine Await.Meets.ofOp ((restoreFound_meets hs hfound d.id).mono ?_)
    intro r w₂ h
    rcases h with ⟨hb, hstate, hr⟩
    have hleaves : Leaves (Agrees agrees) m w w₂ :=
      ⟨hl.before.trans hb, m', hstate ▸ hl.agrees, hs⟩
    exact ⟨hleaves, hr.widen hl.before (.refl _)⟩
  · intro e w₁ h
    rcases h with ⟨hl, -⟩
    exact ⟨⟨hl.before, m', hl.agrees, hs⟩, found_error⟩

theorem remove_meets (k : CacheKey) :
    ((around d).remove k).Meets t w fun r w' =>
      Leaves (Agrees agrees) (m.set k none) w w' ∧ Found true m k w.env w'.env r := by
  rcases hm with ⟨m', hm', hs⟩
  refine Await.Meets.bind_of (hd.remove_ok k hm') ?_ ?_
  · intro found w₁ h
    rcases h with ⟨_, ⟨⟩, hl, hfound⟩
    -- What was taken out may still fail to be restored: then the entry is lost.
    refine Await.Meets.ofOp ((restoreFound_meets hs hfound d.id).mono ?_)
    intro r w₂ h
    rcases h with ⟨hb, hstate, hr⟩
    have hleaves : Leaves (Agrees agrees) (m.set k none) w w₂ :=
      ⟨hl.before.trans hb, m'.set k none, hstate ▸ hl.agrees, hs.erase k⟩
    exact ⟨hleaves, hr.widen hl.before (.refl _)⟩
  · intro e w₁ h
    rcases h with ⟨_, ⟨⟩, -⟩

end Operations

/-- A layer of copies around a faithful cache of values is a faithful cache of
copies. -/
theorem faithful (hd : Faithful d agrees false true) :
    Faithful (around d) (Agrees agrees) true true := by
  refine { mono := ?_, put := ?_, get := ?_, remove := ?_, clear := ?_, size := ?_,
           releaseLock := ?_ }
  · intro s m n h hmn
    rcases h with ⟨m', hm', hs⟩
    refine ⟨m', hm', ?_⟩
    intro k u hu
    rcases hs k u hu with ⟨a, v, sn, rfl, hv, hsave⟩
    exact ⟨a, v, sn, rfl, hmn k v hv, hsave⟩
  · intro t w m k x hm
    exact put_meets hd hm k x
  · intro t w m k hm
    exact get_meets hd hm k
  · intro t w m k hm
    refine (remove_meets hd hm k).mono ?_
    intro r w' h
    rcases h with ⟨hl, hf⟩
    refine ⟨hl, hf, ?_⟩
    intro hcopies
    cases hcopies
  · intro t w m h
    rcases h with ⟨m', hm', hs⟩
    refine (hd.clear hm').mono ?_
    intro r w' h
    rcases h with ⟨hl, hok⟩
    exact ⟨⟨hl.before, .empty, hl.agrees, saves_empty _⟩, hok⟩
  · intro t w m h
    rcases h with ⟨m', hm', hs⟩
    refine (hd.size hm').mono ?_
    intro r w' hl
    exact ⟨hl.before, m', hl.agrees, hs⟩
  · intro t w m k h
    rcases h with ⟨m', hm', hs⟩
    refine (hd.releaseLock k hm').mono ?_
    intro r w' hl
    exact ⟨hl.before, m', hl.agrees, hs⟩

end Serialized

section Keeping

variable {σ : Type} {d : Cache σ} {agrees : σ → Ideal → Prop} {copies removes : Bool}

/-! ## Statistics -/

/-- A layer of counts keeps the contract. -/
theorem ReadCounts.faithful (hd : Faithful d agrees copies removes) :
    Faithful (ReadCounts.around d) (agreesBelow agrees) copies removes := by
  have hb := hd.under fun _ : ReadCounts => []
  refine { mono := hb.mono, put := hb.put, remove := hb.remove, clear := hb.clear,
           size := hb.size, releaseLock := hb.releaseLock, get := ?_ }
  intro t w m k hm
  refine Await.Meets.bind_modifyLayer ?_
  refine Await.Meets.bind_of (hb.get (m := m) k ?_) ?_ ?_
  · exact hm
  · intro found w₁ h
    rcases h with ⟨hl, hf⟩
    cases found with
    | none => exact Await.Meets.pure ⟨⟨hl.before, hl.agrees⟩, found_none⟩
    | some v =>
      -- A hit is counted.
      refine Await.Meets.bind_modifyLayer (Await.Meets.pure ⟨⟨hl.before, hl.agrees⟩, ?_⟩)
      exact hf
  · intro e w₁ h
    rcases h with ⟨hl, -⟩
    exact ⟨⟨hl.before, hl.agrees⟩, found_error⟩

/-! ## Gates -/

/-- A call inside a gate does what it does outside, later perhaps. -/
theorem Gate.pass_meets {lam α : Type} {gate : lam → Gate} {set : Gate → lam → lam}
    {values : List Value} {m : CacheCall (lam × σ) α} {t : Thread} {w : World (lam × σ)}
    {post : Except CacheError α → World (lam × σ) → Prop}
    (hm : ∀ e l, w.env.Before e → m.Meets t ⟨e, (l, w.state.2)⟩ post)
    (hset : ∀ r e l l' s, post r ⟨e, (l, s)⟩ → post r ⟨e, (l', s)⟩) :
    (Gate.pass gate set values m).Meets t w post := by
  refine Await.Meets.bind (Await.Meets.holding (Await.Meets.waitFor ?_))
  intro e he
  refine Await.Meets.bind_modifyLayer ?_
  refine Await.Meets.bind (Await.Meets.result ((hm e _ he).mono ?_))
  intro r w₁ hp
  refine Await.Meets.bind_modifyLayer (Await.Meets.ofExcept ?_)
  exact hset r w₁.env w₁.state.1 _ w₁.state.2 hp

/-- A layer that lets one call in at a time keeps the contract. -/
theorem Gate.faithful (hd : Faithful d agrees copies removes) :
    Faithful (Gate.around d) (agreesBelow agrees) copies removes := by
  have hb := hd.under fun _ : Gate => []
  refine { mono := hb.mono, releaseLock := hb.releaseLock, put := ?_, get := ?_, remove := ?_,
           clear := ?_, size := ?_ }
  · intro t w m k x hm
    show (alone x.toList ((below d).put k x)).Meets t w _
    refine Gate.pass_meets ?_ ?_
    · intro e l he
      refine (hb.put (w := ⟨e, (l, w.state.2)⟩) k x hm).mono ?_
      intro r w' h
      rcases h with ⟨hl, hok⟩
      exact ⟨hl.after he, hok⟩
    · intro r e l l' s h
      rcases h with ⟨hl, hok⟩
      exact ⟨⟨hl.before, hl.agrees⟩, hok⟩
  · intro t w m k hm
    show (alone [] ((below d).get k)).Meets t w _
    refine Gate.pass_meets ?_ ?_
    · intro e l he
      refine (hb.get (w := ⟨e, (l, w.state.2)⟩) k hm).mono ?_
      intro r w' h
      rcases h with ⟨hl, hf⟩
      exact ⟨hl.after he, hf.widen he (.refl _)⟩
    · intro r e l l' s h
      rcases h with ⟨hl, hf⟩
      exact ⟨⟨hl.before, hl.agrees⟩, hf⟩
  · intro t w m k hm
    show (alone [] ((below d).remove k)).Meets t w _
    refine Gate.pass_meets ?_ ?_
    · intro e l he
      refine (hb.remove (w := ⟨e, (l, w.state.2)⟩) k hm).mono ?_
      intro r w' h
      rcases h with ⟨hl, hf, hok⟩
      exact ⟨hl.after he, hf.widen he (.refl _), hok⟩
    · intro r e l l' s h
      rcases h with ⟨hl, hf, hok⟩
      exact ⟨⟨hl.before, hl.agrees⟩, hf, hok⟩
  · intro t w m hm
    show (alone [] (below d).clear).Meets t w _
    refine Gate.pass_meets ?_ ?_
    · intro e l he
      refine (hb.clear (w := ⟨e, (l, w.state.2)⟩) hm).mono ?_
      intro r w' h
      rcases h with ⟨hl, hok⟩
      exact ⟨hl.after he, hok⟩
    · intro r e l l' s h
      rcases h with ⟨hl, hok⟩
      exact ⟨⟨hl.before, hl.agrees⟩, hok⟩
  · intro t w m hm
    show (alone [] (below d).size).Meets t w _
    refine Gate.pass_meets ?_ ?_
    · intro e l he
      refine (hb.size (w := ⟨e, (l, w.state.2)⟩) hm).mono ?_
      intro r w' hl
      exact hl.after he
    · intro r e l l' s hl
      exact ⟨hl.before, hl.agrees⟩

/-! ## Clearing on schedule -/

namespace Scheduled

/-- A clear that may be due loses entries and does nothing else. -/
theorem clearWhenDue_meets (hd : Faithful d agrees copies removes) (interval : Duration)
    (values : List Value) {t : Thread} {w : World (LastClear × σ)} {m : Ideal}
    (hm : agreesBelow agrees w.state m) :
    (clearWhenDue interval d values).Meets t w fun r w' =>
      Leaves (agreesBelow agrees) m w w' ∧ ∃ b, r = .ok b := by
  have hb := hd.under fun _ : LastClear => []
  refine Await.Meets.holding (Gate.pass_meets ?_ ?_)
  · intro e l he
    refine Await.Meets.bind_ofOp ?_
    intro _ _
    refine Await.Meets.bind_ofOp ?_
    intro c _
    -- Reading the clock takes time, and the lock was taken before.
    have hclock : w.env.Before { e with now := e.now + Environment.readingTime } :=
      he.trans ⟨Nat.le_add_right _ _, le_refl _⟩
    show (if isDue interval e.now l then _ else _ : CacheCall (LastClear × σ) Bool).Meets t
      ⟨{ e with now := e.now + Environment.readingTime }, (l, w.state.2)⟩ _
    by_cases hdue : isDue interval e.now l = true
    · rw [if_pos hdue]
      refine Await.Meets.bind_modifyLayer (Await.Meets.bind_of (hb.clear (m := m) ?_) ?_ ?_)
      · exact hm
      · intro _ w₁ h
        rcases h with ⟨hl, -⟩
        refine Await.Meets.pure ⟨⟨hclock.trans hl.before, ?_⟩, true, rfl⟩
        exact hb.mono hl.agrees (Ideal.empty_le m)
      · intro e' w₁ h
        rcases h with ⟨-, hok⟩
        cases hok
    · rw [if_neg hdue]
      exact Await.Meets.pure ⟨⟨hclock, hm⟩, false, rfl⟩
  · intro r e l l' s h
    rcases h with ⟨hl, hok⟩
    exact ⟨⟨hl.before, hl.agrees⟩, hok⟩

/-- A call goes on after a clear that may have been due. -/
theorem bind_clearWhenDue {α : Type} (hd : Faithful d agrees copies removes) (interval : Duration)
    {values : List Value} {t : Thread} {w : World (LastClear × σ)} {m : Ideal}
    {f : Bool → CacheCall (LastClear × σ) α}
    {post : Except CacheError α → World (LastClear × σ) → Prop} (hm : agreesBelow agrees w.state m)
    (hf : ∀ cleared w₁, Leaves (agreesBelow agrees) m w w₁ → (f cleared).Meets t w₁ post) :
    (clearWhenDue interval d values >>= f).Meets t w post := by
  refine Await.Meets.bind_of (clearWhenDue_meets hd interval values hm) ?_ ?_
  · intro cleared w₁ h
    exact hf cleared w₁ h.1
  · intro e w₁ h
    rcases h with ⟨-, b, hok⟩
    cases hok

theorem clear_meets (hd : Faithful d agrees copies removes) (interval : Duration) {t : Thread}
    {w : World (LastClear × σ)} {m : Ideal} (hm : agreesBelow agrees w.state m) :
    ((around interval d).clear).Meets t w fun r w' =>
      Leaves (agreesBelow agrees) .empty w w' ∧ r = .ok () := by
  have hb := hd.under fun _ : LastClear => []
  refine Await.Meets.bind_ofOp ?_
  intro _ _
  have hclock : w.env.Before { w.env with now := w.env.now + Environment.readingTime } :=
    ⟨Nat.le_add_right _ _, le_refl _⟩
  have hnote : (Gate.pass LastClear.gate LastClear.setGate [] (Await.ofOp (Op.modifyLayer
      (LastClear.note w.env.now)))).Meets t
      ⟨{ w.env with now := w.env.now + Environment.readingTime }, w.state⟩
      fun r w' => Leaves (agreesBelow agrees) m w w' ∧ r = (.ok () : Except CacheError Unit) := by
    refine Gate.pass_meets ?_ ?_
    · intro e l he
      exact Await.Meets.modifyLayer ⟨⟨hclock.trans he, hm⟩, rfl⟩
    · intro r e l l' s h
      rcases h with ⟨hl, hok⟩
      exact ⟨⟨hl.before, hl.agrees⟩, hok⟩
  refine Await.Meets.bind_of hnote ?_ ?_
  · intro _ w₁ h
    rcases h with ⟨hl, -⟩
    refine (hb.clear hl.agrees).mono ?_
    intro r w₂ h
    rcases h with ⟨hl', hok⟩
    exact ⟨hl'.after hl.before, hok⟩
  · intro e w₁ h
    rcases h with ⟨-, hok⟩
    cases hok

/-- A layer that clears on schedule keeps the contract. -/
theorem faithful (hd : Faithful d agrees copies removes) (interval : Duration) :
    Faithful (around interval d) (agreesBelow agrees) copies removes := by
  have hb := hd.under fun _ : LastClear => []
  refine { mono := hb.mono, releaseLock := hb.releaseLock, put := ?_, get := ?_, remove := ?_,
           clear := fun hm => clear_meets hd interval hm, size := ?_ }
  · intro t w m k x hm
    refine bind_clearWhenDue hd interval hm ?_
    intro _ w₁ hl
    refine (hb.put k x hl.agrees).mono ?_
    intro r w₂ h
    rcases h with ⟨hl', hok⟩
    exact ⟨hl'.after hl.before, hok⟩
  · intro t w m k hm
    refine bind_clearWhenDue hd interval hm ?_
    intro cleared w₁ hl
    cases cleared with
    | true =>
      -- The read that clears does not look any further.
      exact Await.Meets.pure ⟨hl, found_none⟩
    | false =>
      refine (hb.get k hl.agrees).mono ?_
      intro r w₂ h
      rcases h with ⟨hl', hf⟩
      exact ⟨hl'.after hl.before, hf.widen hl.before (.refl _)⟩
  · intro t w m k hm
    refine bind_clearWhenDue hd interval hm ?_
    intro _ w₁ hl
    refine (hb.remove k hl.agrees).mono ?_
    intro r w₂ h
    rcases h with ⟨hl', hf, hok⟩
    exact ⟨hl'.after hl.before, hf.widen hl.before (.refl _), hok⟩
  · intro t w m hm
    refine bind_clearWhenDue hd interval hm ?_
    intro _ w₁ hl
    refine (hb.size hl.agrees).mono ?_
    intro r w₂ hl'
    exact hl'.after hl.before

end Scheduled

/-! ## Locks -/

namespace Blocking

/-- Waiting for a lock touches nothing but the locks. -/
theorem acquire_meets {t : Thread} {w : World (KeyLocks × σ)} {m : Ideal}
    (hm : agreesBelow agrees w.state m) (timeout : Option Duration) (id : String) (k : CacheKey) :
    (acquire timeout id k).Meets t w fun _ w' => Leaves (agreesBelow agrees) m w w' := by
  intro c _
  unfold acquire
  split
  · exact ⟨.refl _, hm⟩
  · intro c' e _ he _
    dsimp only
    split
    · exact ⟨he, hm⟩
    · exact ⟨he, hm⟩

/-- A layer of locks keeps the contract, but for removals. -/
theorem faithful (hd : Faithful d agrees copies removes) (timeout : Option Duration) :
    Faithful (around timeout d) (agreesBelow agrees) copies false := by
  have hb := hd.under fun _ : KeyLocks => []
  refine { mono := hb.mono, clear := hb.clear, size := hb.size, put := ?_, get := ?_,
           remove := ?_, releaseLock := ?_ }
  · intro t w m k x hm
    refine Await.Meets.bind (Await.Meets.result ((hb.put k x hm).mono ?_))
    intro r w₁ h
    rcases h with ⟨hl, hok⟩
    refine Await.Meets.bind_ofOp ?_
    intro _ _
    exact Await.Meets.ofExcept ⟨⟨hl.before, hl.agrees⟩, hok⟩
  · intro t w m k hm
    refine Await.Meets.bind_of (acquire_meets hm timeout d.id k) ?_ ?_
    · intro _ w₁ hl
      refine Await.Meets.bind (Await.Meets.result ((hb.get k hl.agrees).mono ?_))
      intro r w₂ h
      rcases h with ⟨hl', hf⟩
      have hfound := hf.widen hl.before (.refl _)
      cases r with
      | ok found =>
        cases found with
        | none =>
          -- A miss keeps the lock.
          exact Await.Meets.pure ⟨hl'.after hl.before, found_none⟩
        | some v =>
          refine Await.Meets.bind_ofOp ?_
          intro _ _
          exact Await.Meets.pure ⟨⟨hl.before.trans hl'.before, hl'.agrees⟩, hfound⟩
      | error e =>
        refine Await.Meets.bind_ofOp ?_
        intro _ _
        exact Await.Meets.ofOp fun _ _ => ⟨⟨hl.before.trans hl'.before, hl'.agrees⟩, found_error⟩
    · intro e w₁ hl
      exact ⟨hl, found_error⟩
  · intro t w m k hm
    refine Await.Meets.bind_ofOp ?_
    intro _ _
    exact Await.Meets.pure ⟨⟨.refl _, hm⟩, found_none, fun _ => ⟨_, rfl⟩⟩
  · intro t w m k hm
    have hrelease : (release k : CacheOp (KeyLocks × σ) Unit).Meets t w fun _ w' =>
        Leaves (agreesBelow agrees) m w w' := by
      intro _ _
      exact ⟨.refl _, hm⟩
    refine Op.Meets.bind_of hrelease ?_ ?_
    · intro _ w₁ hl
      refine (hb.releaseLock k hl.agrees).mono ?_
      intro r w₂ hl'
      exact hl'.after hl.before
    · intro e w₁ hl
      exact hl

end Blocking

end Keeping

end QueryCache
