import Mathlib
import QueryCache.Proofs.Cache.Noted
import QueryCache.Proofs.Transaction.ClearAtCommit

/-!
# What a unit of work has written, and what its commit asks for

The writes of a unit can be kept as a list of keys beside a map of values, of which
each is changed on its own.  After any operations the list has each key of the map
once, in the order of the first puts since the last clear; the map has the last
values.  The buffer of a unit holds the same.  A commit makes the calls of its plan
one after the other and stops at the first that fails, whatever the shared cache is
and whatever others do to it.

1. the list beside the map
2. what the operations of a unit ask of the shared cache
3. the calls of a commit
4. histories of a unit
-/

namespace QueryCache

/-- A new key comes last. -/
theorem Entries.keys_insert {κ α : Type} [DecidableEq κ] (m : Entries κ α) (k : κ) (a : α) :
    (m.insert k a).keys = if k ∈ m.keys then m.keys else m.keys ++ [k] := by
  show (insertList k a m.toList).map Prod.fst = _
  rw [keys]
  induction m.toList with
  | nil => rfl
  | cons e rest ih =>
    by_cases hk : e.1 = k
    · simp [insertList, hk]
    · have hne : k ≠ e.1 := fun heq => hk heq.symm
      rw [insertList, if_neg hk, List.map_cons, ih, List.map_cons]
      by_cases hm : k ∈ rest.map Prod.fst <;> simp [hm, hne]

/-- The call did not fail. -/
def Event.Succeeded : Event → Prop
  | put _ _ r => r = .ok ()
  | clear r => r = .ok ()
  | get _ r => ∃ v, r = .ok v
  | remove _ r => ∃ v, r = .ok v
  | size r => ∃ n, r = .ok n
  | releaseLock _ r => r = .ok ()

namespace Buffer

/-! ## The list beside the map -/

/-- An operation of a unit on one shared cache. -/
inductive Action where
  | get (key : CacheKey)
  | put (key : CacheKey) (value : Option Value)
  | clear

namespace Action

/-- The write of an operation. -/
def write? : Action → Option (CacheKey × Option Value)
  | put k x => some (k, x)
  | _ => none

/-- The operation requests a clear. -/
def isClear : Action → Bool
  | clear => true
  | _ => false

end Action

/-- The writes of the operations after the last clear. -/
def sinceClear (acts : List Action) : List (CacheKey × Option Value) :=
  (acts.rtakeWhile fun a => !a.isClear).filterMap Action.write?

theorem sinceClear_append (acts : List Action) (a : Action) :
    sinceClear (acts ++ [a]) = if a.isClear then [] else sinceClear acts ++ a.write?.toList := by
  rw [sinceClear, List.rtakeWhile_concat]
  cases a <;> simp [Action.isClear, Action.write?, sinceClear]

/-- The written keys in a list, and their values in a map. -/
structure WriteLog where
  order : List CacheKey := []
  pending : CacheKey → Option (Option Value) := fun _ => none

namespace WriteLog

/-- A write: a key that the map does not have comes last in the list. -/
def put (k : CacheKey) (x : Option Value) (log : WriteLog) : WriteLog where
  order := if (log.pending k).isSome then log.order else log.order ++ [k]
  pending := fun k' => if k' = k then some x else log.pending k'

/-- The list and the map after an operation; a clear empties both. -/
def step (log : WriteLog) : Action → WriteLog
  | .get _ => log
  | .put k x => log.put k x
  | .clear => {}

/-- The list and the map after operations of a new unit. -/
def after (acts : List Action) : WriteLog := acts.foldl step {}

/-- The calls that write what the map has, in the order of the list. -/
def calls (log : WriteLog) : List SharedCall :=
  log.order.filterMap fun k => (log.pending k).map (SharedCall.put k)

theorem after_append (acts : List Action) (a : Action) :
    after (acts ++ [a]) = (after acts).step a := by
  rw [after, List.foldl_append]
  rfl

/-- The list has the keys of the map, each of them once. -/
structure Matches (log : WriteLog) : Prop where
  nodup : log.order.Nodup
  mem_iff : ∀ k, k ∈ log.order ↔ (log.pending k).isSome = true

theorem Matches.put {log : WriteLog} (h : log.Matches) (k : CacheKey) (x : Option Value) :
    (log.put k x).Matches := by
  have hmem : ∀ k', k' ∈ (log.put k x).order ↔ k' = k ∨ k' ∈ log.order := by
    intro k'
    by_cases hk : (log.pending k).isSome = true
    · have hold := (h.mem_iff k).2 hk
      simp only [WriteLog.put, hk, if_true]
      exact ⟨.inr, fun hk' => hk'.elim (fun heq => heq ▸ hold) id⟩
    · simp [WriteLog.put, hk, or_comm]
  constructor
  · by_cases hk : (log.pending k).isSome = true
    · simpa [WriteLog.put, hk] using h.nodup
    · have hnew : k ∉ log.order := fun hmem => hk ((h.mem_iff k).1 hmem)
      simpa [WriteLog.put, hk, List.nodup_append] using
        ⟨h.nodup, fun k' hk' heq => hnew (heq ▸ hk')⟩
  · intro k'
    rw [hmem, h.mem_iff]
    by_cases hk' : k' = k <;> simp [WriteLog.put, hk']

theorem matches_after (acts : List Action) : (after acts).Matches := by
  induction acts using List.reverseRecOn with
  | nil => exact ⟨List.nodup_nil, fun k => by simp [after]⟩
  | append_singleton acts a ih =>
    rw [after_append]
    cases a with
    | get k => exact ih
    | put k x => exact ih.put k x
    | clear => exact ⟨List.nodup_nil, fun k => by simp [step]⟩

/-- The map has the last values since the last clear. -/
theorem pending_after (acts : List Action) (k : CacheKey) :
    (after acts).pending k = ((sinceClear acts).reverse.find? (·.1 = k)).map Prod.snd := by
  induction acts using List.reverseRecOn with
  | nil => rfl
  | append_singleton acts a ih =>
    rw [after_append, sinceClear_append]
    cases a with
    | get k' => simpa [step, Action.isClear, Action.write?] using ih
    | put k' x =>
      show (if k = k' then some x else (after acts).pending k) = _
      rw [ih]
      by_cases hk : k = k'
      · simp [Action.isClear, Action.write?, hk]
      · simp [Action.isClear, Action.write?, hk, Ne.symm hk]
    | clear => rfl

/-- The list has the keys in the order of their first puts since the last clear. -/
theorem order_after (acts : List Action) :
    (after acts).order = ((sinceClear acts).map Prod.fst).eraseDups := by
  induction acts using List.reverseRecOn with
  | nil => rfl
  | append_singleton acts a ih =>
    rw [after_append, sinceClear_append]
    cases a with
    | get k => simpa [step, Action.isClear, Action.write?] using ih
    | put k x =>
      have hmem : ((after acts).pending k).isSome = true ↔ k ∈ (sinceClear acts).map Prod.fst := by
        rw [← (matches_after acts).mem_iff, ih, List.mem_eraseDups]
      have hone : ([k] : List CacheKey).eraseDups = [k] := by
        rw [List.eraseDups_cons, List.filter_nil, List.eraseDups_nil]
      show (if ((after acts).pending k).isSome then _ else _) = _
      simp only [hmem, ih, Action.isClear, Action.write?, Option.toList, List.map_append,
        List.map_cons, List.map_nil, List.eraseDups_append, Bool.false_eq_true, if_false]
      split
      · rename_i hk
        simp [List.removeAll, hk]
      · rename_i hk
        simp [List.removeAll, hk, hone]
    | clear => rfl

/-- The buffer has the writes that the list and the map have. -/
structure Describes (log : WriteLog) (b : Buffer) : Prop where
  keys : b.writes.keys = log.order
  find? : ∀ k, b.writes.find? k = log.pending k

namespace Describes

variable {log : WriteLog} {b : Buffer}

theorem write (h : log.Describes b) (k : CacheKey) (x : Option Value) :
    (log.put k x).Describes (b.write k x) where
  keys := by
    have hmem : (log.pending k).isSome = true ↔ k ∈ b.writes.keys := by
      rw [← h.find?, Entries.isSome_find?_iff]
    show (b.writes.insert k x).keys = _
    rw [Entries.keys_insert, h.keys, WriteLog.put]
    simp only [hmem, h.keys]
  find? k' := by
    show (b.writes.insert k x).find? k' = _
    rw [Entries.find?_insert, h.find?]
    rfl

/-- The calls that write what the buffer has are those of the list and the map. -/
theorem calls_eq (h : log.Describes b) :
    b.writes.toList.map (fun e => SharedCall.put e.1 e.2) = log.calls := by
  have hentry : ∀ e ∈ b.writes.toList,
      (log.pending e.1).map (SharedCall.put e.1) = some (.put e.1 e.2) := by
    intro e he
    rw [← h.find?, Entries.find?_of_mem he]
    rfl
  rw [calls, ← h.keys, Entries.keys, List.filterMap_map]
  exact (List.filterMap_eq_map_iff_forall_eq_some.2 hentry).symm

end Describes

end WriteLog

/-! ## What operations ask of the shared cache -/

variable {σ : Type} {d : Cache σ} {b : Buffer} {j : List Event} {t : Thread}

/-- The others may do anything to the shared cache; they leave the buffer alone, and
note nothing. -/
abbrev Elsewhere : Buffer × (List Event × σ) → Buffer × (List Event × σ) → Prop :=
  Beside NotesNothing

/-- The buffer, and the calls that its unit has made on the shared cache. -/
def Stands (b : Buffer) (j : List Event) (s : Buffer × (List Event × σ)) : Prop :=
  s.1 = b ∧ s.2.1 = j

theorem Stands.others {s s' : Buffer × (List Event × σ)} (h : Stands b j s)
    (ho : Elsewhere s s') : Stands b j s' := ⟨ho.1.trans h.1, ho.2.trans h.2⟩

/-- A call on the shared cache is noted, and leaves the buffer as it is. -/
theorem shared_noted {α : Type} (entry : Except CacheError α → Event) (m : CacheCall σ α)
    (b : Buffer) (j : List Event) (t : Thread) :
    ((Focus.second held).await (m.noted entry)).HoareAmid Elsewhere t (Stands b j)
      fun r => Stands b (j ++ [entry r]) := by
  have hfocus : ((Focus.second held).await (m.noted entry)).HoareAmid Elsewhere t
      (fun s => s.1 = b ∧ s.2.1 = j) fun r s => s.1 = b ∧ s.2.1 = j ++ [entry r] :=
    (Await.noted_amid entry m t j).focus (f := Focus.second held) (fun _ _ _ => rfl)
      (fun _ _ hs => hs) fun _ _ hs hstep => ⟨hstep.1.trans hs, hstep.2⟩
  exact hfocus

/-- A read notes its key as missed when the shared cache has nothing. -/
theorem get_amid (d : Cache σ) (k : CacheKey) (b : Buffer) (j : List Event) (t : Thread) :
    (get d.recorded k).HoareAmid Elsewhere t (Stands b j) fun _ s =>
      ∃ found, s.2.1 = j ++ [.get k found] ∧
        s.1 = if found = .ok none then b.miss k else b := by
  refine .bind (shared_noted (.get k) (d.get k) b j t) ?_ ?_
  · -- others may have run while the read waited, but the buffer is still the same
    intro found
    refine .ofOp ?_
    rintro c ⟨e, b', j', y⟩ _ ⟨rfl, rfl⟩
    refine ⟨.ok found, rfl, ?_⟩
    cases found <;> rfl
  · rintro x s ⟨hb, hj⟩
    exact ⟨.error x, hj, by rw [hb, if_neg nofun]⟩

/-! ## The calls of a commit -/

/-- The call as it is noted, with its result. -/
def SharedCall.event : SharedCall → Except CacheError Unit → Event
  | clear, r => .clear r
  | put k x, r => .put k x r

/-- Calls that are made in order up to the first that fails: what comes of them, and
what is noted. -/
inductive Makes : List SharedCall → Except CacheError Unit → List Event → Prop where
  | nil : Makes [] (.ok ()) []
  | next {call : SharedCall} {rest : List SharedCall} {r : Except CacheError Unit}
      {made : List Event} (h : Makes rest r made) :
      Makes (call :: rest) r (call.event (.ok ()) :: made)
  | stop (call : SharedCall) (rest : List SharedCall) (e : CacheError) :
      Makes (call :: rest) (.error e) [call.event (.error e)]

namespace Makes

variable {calls : List SharedCall} {r : Except CacheError Unit} {made : List Event}

/-- If no call fails, then all are made, and nothing else is. -/
theorem eq_of_ok (h : Makes calls (.ok ()) made) :
    made = calls.map fun call => call.event (.ok ()) := by
  generalize hr : (.ok () : Except CacheError Unit) = r at h
  induction h with
  | nil => rfl
  | next _ ih =>
    subst hr
    rw [List.map_cons, ih rfl]
  | stop => cases hr

/-- What is noted last is a call that failed, unless none did. -/
theorem ok_of_succeeded (h : Makes calls r made)
    (hmade : ∀ event ∈ made, event.Succeeded) : r = .ok () := by
  induction h with
  | nil => rfl
  | next _ ih => exact ih fun event hevent => hmade event (List.mem_cons_of_mem _ hevent)
  | stop call rest e =>
    have hlast := hmade _ (List.mem_singleton_self _)
    cases call <;> cases hlast

/-- A commit makes no reads. -/
theorem not_get (h : Makes calls r made) (k : CacheKey) (found : Except CacheError (Option Value)) :
    Event.get k found ∉ made := by
  induction h with
  | nil => exact List.not_mem_nil
  | @next call rest r made _ ih =>
    rw [List.mem_cons]
    rintro (heq | hmem)
    · cases call <;> cases heq
    · exact ih hmem
  | stop call rest e =>
    rw [List.mem_singleton]
    intro heq
    cases call <;> cases heq

end Makes

theorem runAll_amid (d : Cache σ) (calls : List SharedCall) (b : Buffer) (j : List Event)
    (t : Thread) :
    (SharedCall.runAll (shared d.recorded) calls).HoareAmid Elsewhere t (Stands b j)
      fun r s => ∃ made, Makes calls r made ∧ Stands b (j ++ made) s := by
  induction calls generalizing j with
  | nil => exact .pure fun s hs => ⟨[], .nil, by rwa [List.append_nil]⟩
  | cons call rest ih =>
    have hcall : (call.run (shared d.recorded)).HoareAmid Elsewhere t (Stands b j)
        fun r => Stands b (j ++ [call.event r]) := by
      cases call with
      | clear => exact shared_noted .clear d.clear b j t
      | put k x => exact shared_noted (.put k x) (d.put k x) b j t
    refine .bind hcall (fun _ => ?_) fun x s hs => ⟨_, .stop call rest x, hs⟩
    -- the rest begins with the journal in which the first call is noted
    refine (ih (j ++ [call.event (.ok ())])).mono (fun _ hs => hs) ?_
    rintro r s ⟨made, hmade, hs⟩
    exact ⟨_, .next hmade, by rwa [List.append_assoc] at hs⟩

/-- A commit makes the calls of its plan up to the first that fails; if none does, the
buffer is empty, and else it is as it was. -/
theorem commitWith_amid (d : Cache σ) (order : Buffer → List CacheKey) (b : Buffer)
    (j : List Event) (t : Thread) :
    (commitWith order d.recorded).HoareAmid Elsewhere t (Stands b j) fun r s =>
      ∃ made, Makes (b.planWith (order b)) r made ∧
        Stands (if r = .ok () then empty else b) (j ++ made) s := by
  have hread : (Await.ofOp Op.layer : CacheCall (Buffer × (List Event × σ)) Buffer).HoareAmid
      Elsewhere t (Stands b j) fun r s => r = .ok b ∧ Stands b j s :=
    .ofOp fun c w _ hw => ⟨congrArg Except.ok hw.1, hw⟩
  refine .bind_ok hread (.bind (runAll_amid d _ b j t) (fun _ => ?_) ?_)
  · refine .ofOp ?_
    rintro c w _ ⟨made, hmade, hs⟩
    exact ⟨made, hmade, rfl, hs.2⟩
  · rintro x s ⟨made, hmade, hs⟩
    exact ⟨made, hmade, by rwa [if_neg nofun]⟩

/-- Lock after lock is given back, and each call is noted. -/
theorem releaseAll_amid (d : Cache σ) (keys : List CacheKey) (b : Buffer) (j : List Event)
    (t : Thread) :
    (Await.ofOp (releaseAll d.recorded keys)).HoareAmid Elsewhere t (Stands b j)
      fun r s => r = .ok () ∧ ∃ made, Stands b (j ++ made) s := by
  induction keys generalizing j with
  | nil => exact .pure fun s hs => ⟨rfl, [], by rwa [List.append_nil]⟩
  | cons k rest ih =>
    have hrelease : (Await.ofOp ((shared d.recorded).releaseLock k)).HoareAmid Elsewhere t
        (Stands b j) fun r => Stands b (j ++ [.releaseLock k r]) := by
      refine .ofOp ?_
      rintro c ⟨e, b', j', y⟩ _ ⟨rfl, rfl⟩
      obtain ⟨r, e', y', hnoted⟩ := Op.noted_ends (.releaseLock k) (d.releaseLock k)
        ((Focus.second held).caller (b', (j', y)) c) e j' y
      have hrun : (shared d.recorded).releaseLock k c ⟨e, (b', (j', y))⟩ =
          (r, ⟨e', (b', (j' ++ [.releaseLock k r], y'))⟩) := Focus.run_second hnoted
      rw [hrun]
      exact ⟨rfl, rfl⟩
    -- a release that fails is noted like any other, and passed over
    refine .ofOp_bind_result hrelease fun r => ?_
    refine (ih (j ++ [.releaseLock k r])).mono (fun _ hs => hs) ?_
    rintro x s ⟨hx, made, hs⟩
    exact ⟨hx, _, by rwa [List.append_assoc] at hs⟩

/-- A rollback leaves an empty buffer. -/
theorem rollbackWith_amid (d : Cache σ) (order : Buffer → List CacheKey) (b : Buffer)
    (j : List Event) (t : Thread) :
    (Await.ofOp (rollbackWith order d.recorded)).HoareAmid Elsewhere t (Stands b j)
      fun _ s => ∃ made, Stands empty (j ++ made) s := by
  have hread : (Await.ofOp Op.layer : CacheCall (Buffer × (List Event × σ)) Buffer).HoareAmid
      Elsewhere t (Stands b j) fun r s => r = .ok b ∧ Stands b j s :=
    .ofOp fun c w _ hw => ⟨congrArg Except.ok hw.1, hw⟩
  refine .ofOp_bind (.bind_ok hread (.ofOp_bind (.bind_ok (releaseAll_amid d _ b j t) ?_)))
  refine .ofOp ?_
  rintro c w _ ⟨made, hs⟩
  exact ⟨made, rfl, hs.2⟩

/-! ## Histories of a unit -/

/-- Makes the operation. -/
def Action.run (d : Cache σ) : Action → CacheCall (Buffer × σ) Unit
  | get k => do
    let _ ← Buffer.get d k
    pure ()
  | put k x => .ofOp (Buffer.put k x)
  | clear => .ofOp Buffer.clear

/-- A buffer has been used, while others may do anything to the shared cache.  The
operations are those since the last commit that succeeded or the last rollback, when `n`
calls on the shared cache had been noted. -/
inductive Collected (d : Cache σ) : List Action → Nat → World (Buffer × (List Event × σ)) → Prop
    where
  | start (e : Environment) (j : List Event) (y : σ) :
      Collected d [] j.length ⟨e, (empty, (j, y))⟩
  | others {acts : List Action} {n : Nat} {w w' : World (Buffer × (List Event × σ))}
      (h : Collected d acts n w) (ho : Elsewhere w.state w'.state) : Collected d acts n w'
  | act {acts : List Action} {n : Nat} {w w' : World (Buffer × (List Event × σ))}
      {a : Action} {c : Caller} {r : Except CacheError Unit} (h : Collected d acts n w)
      (hs : (a.run d.recorded c w).SettlesAmid Elsewhere c.thread r w') :
      Collected d (acts ++ [a]) n w'
  | failed {acts : List Action} {n : Nat} {w w' : World (Buffer × (List Event × σ))}
      {order : Buffer → List CacheKey} {c : Caller} {x : CacheError} (h : Collected d acts n w)
      (hs : (commitWith order d.recorded c w).SettlesAmid Elsewhere c.thread (.error x) w') :
      Collected d acts n w'
  | committed {acts : List Action} {n : Nat} {w w' : World (Buffer × (List Event × σ))}
      {order : Buffer → List CacheKey} {c : Caller} (h : Collected d acts n w)
      (hs : (commitWith order d.recorded c w).SettlesAmid Elsewhere c.thread (.ok ()) w') :
      Collected d [] w'.state.2.1.length w'
  | rolledBack {acts : List Action} {n : Nat} {w w' : World (Buffer × (List Event × σ))}
      {order : Buffer → List CacheKey} {c : Caller} {r : Except CacheError Unit}
      (h : Collected d acts n w)
      (hs : (Await.ofOp (rollbackWith order d.recorded) c w).SettlesAmid Elsewhere c.thread r w') :
      Collected d [] w'.state.2.1.length w'

/-- What the buffer of a unit has after operations since the first `n` noted calls. -/
structure Reflects (acts : List Action) (n : Nat) (s : Buffer × (List Event × σ)) : Prop where
  described : (WriteLog.after acts).Describes s.1
  nodup : s.1.misses.Nodup
  missed : ∀ k, k ∈ s.1.misses ↔ .get k (.ok none) ∈ s.2.1.drop n
  cleared : s.1.clearPending = acts.any Action.isClear
  le : n ≤ s.2.1.length

namespace Reflects

variable {acts : List Action} {n : Nat} {s s' : Buffer × (List Event × σ)}

/-- A new unit has an empty buffer. -/
theorem of_empty {s : Buffer × (List Event × σ)} (h : s.1 = empty) :
    Reflects [] s.2.1.length s where
  described := by
    rw [h]
    exact ⟨rfl, fun _ => rfl⟩
  nodup := by
    rw [h]
    exact List.nodup_nil
  missed k := by
    rw [h, List.drop_length]
    simp [empty]
  cleared := by
    rw [h]
    rfl
  le := le_rfl

/-- Calls other than reads make no difference. -/
theorem noted {made : List Event} (h : Reflects acts n s)
    (hmade : ∀ k found, Event.get k found ∉ made) (hs : Stands s.1 (s.2.1 ++ made) s') :
    Reflects acts n s' where
  described := by
    rw [hs.1]
    exact h.described
  nodup := by
    rw [hs.1]
    exact h.nodup
  missed k := by
    rw [hs.1, hs.2, List.drop_append_of_le_length h.le, List.mem_append, h.missed]
    simp [hmade k]
  cleared := by
    rw [hs.1]
    exact h.cleared
  le := by
    rw [hs.2, List.length_append]
    exact h.le.trans (Nat.le_add_right _ _)

/-- A read notes its key if the shared cache has nothing. -/
theorem get (h : Reflects acts n s) {k : CacheKey} {found : Except CacheError (Option Value)}
    (hj : s'.2.1 = s.2.1 ++ [.get k found])
    (hb : s'.1 = if found = .ok none then s.1.miss k else s.1) :
    Reflects (acts ++ [.get k]) n s' := by
  -- a read that finds nothing changes the missed keys only, any other read changes nothing
  have hwrites : s'.1.writes = s.1.writes := by
    rw [hb]
    split
    · exact writes_miss s.1 k
    · rfl
  have hcleared : s'.1.clearPending = s.1.clearPending := by
    rw [hb]
    split
    · exact clearPending_miss s.1 k
    · rfl
  constructor
  · rw [WriteLog.after_append]
    exact ⟨hwrites ▸ h.described.keys, hwrites ▸ h.described.find?⟩
  · rw [hb]
    split
    · exact nodup_misses_miss h.nodup k
    · exact h.nodup
  · intro k'
    rw [hj, List.drop_append_of_le_length h.le, List.mem_append, ← h.missed, List.mem_singleton,
      Event.get.injEq, hb]
    split
    · rename_i hnone
      rw [mem_misses_miss, hnone]
      tauto
    · rename_i hsome
      have hne : ¬ (k' = k ∧ .ok none = found) := fun heq => hsome heq.2.symm
      tauto
  · rw [hcleared, h.cleared, List.any_append]
    exact (Bool.or_false _).symm
  · rw [hj, List.length_append]
    exact h.le.trans (Nat.le_add_right _ _)

/-- A put is buffered. -/
theorem put (h : Reflects acts n s) (k : CacheKey) (x : Option Value)
    (hs : Stands (s.1.write k x) s.2.1 s') : Reflects (acts ++ [.put k x]) n s' where
  described := by
    rw [hs.1, WriteLog.after_append]
    exact h.described.write k x
  nodup := by
    rw [hs.1]
    exact h.nodup
  missed := by
    rw [hs.1, hs.2]
    exact h.missed
  cleared := by
    rw [hs.1, List.any_append]
    exact h.cleared.trans (Bool.or_false _).symm
  le := hs.2 ▸ h.le

/-- A clear drops the writes, and the misses stay. -/
theorem clear (h : Reflects acts n s) (hs : Stands s.1.requestClear s.2.1 s') :
    Reflects (acts ++ [.clear]) n s' where
  described := by
    rw [hs.1, WriteLog.after_append]
    exact ⟨rfl, fun _ => rfl⟩
  nodup := by
    rw [hs.1]
    exact h.nodup
  missed := by
    rw [hs.1, hs.2]
    exact h.missed
  cleared := by
    rw [hs.1, List.any_append]
    exact (Bool.or_true _).symm
  le := hs.2 ▸ h.le

end Reflects

/-- An operation of a unit changes its buffer as it should, whatever others do. -/
theorem Reflects.act {acts : List Action} {n : Nat} {w w' : World (Buffer × (List Event × σ))}
    {a : Action} {c : Caller} {r : Except CacheError Unit} (h : Reflects acts n w.state)
    (hs : (a.run d.recorded c w).SettlesAmid Elsewhere c.thread r w') :
    Reflects (acts ++ [a]) n w'.state := by
  have hstands : Stands w.state.1 w.state.2.1 w.state := ⟨rfl, rfl⟩
  cases a with
  | get k =>
    have hget : (Action.run d.recorded (.get k)).HoareAmid Elsewhere c.thread
        (Stands w.state.1 w.state.2.1) fun _ s => ∃ found,
          s.2.1 = w.state.2.1 ++ [.get k found] ∧
            s.1 = if found = .ok none then w.state.1.miss k else w.state.1 :=
      .bind (get_amid d k w.state.1 w.state.2.1 c.thread) (fun _ => .pure fun _ hs => hs)
        fun _ _ hs => hs
    obtain ⟨found, hj, hb⟩ := (hget c w rfl hstands).settles hs
    exact h.get hj hb
  | put k x =>
    cases hs
    exact h.put k x ⟨rfl, rfl⟩
  | clear =>
    cases hs
    exact h.clear ⟨rfl, rfl⟩

/-- The buffer of a unit has what its operations since the last commit or rollback say. -/
theorem Collected.reflects {acts : List Action} {n : Nat} {w : World (Buffer × (List Event × σ))}
    (h : Collected d acts n w) : Reflects acts n w.state := by
  induction h with
  | start e j y => exact Reflects.of_empty (s := (empty, (j, y))) rfl
  | others h ho ih =>
    exact ih.noted (fun _ _ => List.not_mem_nil) ⟨ho.1, ho.2.trans (List.append_nil _).symm⟩
  | act h hs ih => exact ih.act hs
  | @failed acts n w w' order c x h hs ih =>
    obtain ⟨made, hmade, hstands⟩ :=
      (commitWith_amid d order w.state.1 w.state.2.1 c.thread c w rfl ⟨rfl, rfl⟩).settles hs
    exact ih.noted hmade.not_get hstands
  | @committed acts n w w' order c h hs ih =>
    obtain ⟨made, -, hstands⟩ :=
      (commitWith_amid d order w.state.1 w.state.2.1 c.thread c w rfl ⟨rfl, rfl⟩).settles hs
    exact .of_empty hstands.1
  | @rolledBack acts n w w' order c r h hs ih =>
    obtain ⟨made, hstands⟩ :=
      (rollbackWith_amid d order w.state.1 w.state.2.1 c.thread c w rfl ⟨rfl, rfl⟩).settles hs
    exact .of_empty hstands.1

end Buffer

end QueryCache
