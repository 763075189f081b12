import Mathlib
import QueryCache.Proofs.Layer.HandleHistory

/-!
# How long a layer of soft handles holds a value

Soft handles around a store.  The layer holds a value itself as long as no put, no removal and no
count has come when more than `retention` generations had passed since the last use of its key;
while it holds it, a read finds it, whoever else has let go of it.  An entry that is found idle is
demoted for good: a later read notes the use, but does not make the handle strong again.  From
then on the entry lasts as long as somebody else holds its value.

1. generations since the last use
2. which values the layer holds
3. one call
4. any calls
5. what a read finds
6. entries that were idle
-/

namespace QueryCache

/-! ## Generations since the last use -/

/-- How many generations a request begins. -/
def Request.generations : Request → Nat
  | put .. => 1
  | get _ => 1
  | remove _ => 1
  | _ => 0

namespace Reference

namespace Turn

/-- The call put a value under the key, or read one. -/
def uses (k : CacheKey) (t : Turn) : Bool :=
  match t.request, t.answer with
  | .put k' (some _), _ => k' = k
  | .get k', .value (some _) => k' = k
  | _, _ => false

/-- The generations since the last use of the key, after one more call. -/
def countFrom (k : CacheKey) (m : Nat) (t : Turn) : Nat :=
  if t.uses k then 0 else m + t.request.generations

theorem uses_eq_false {k : CacheKey} {t : Turn} (hends : ¬ t.request.Ends k)
    (hget : t.request ≠ .get k) : t.uses k = false := by
  rw [← Bool.not_eq_true]
  intro huses
  rw [uses] at huses
  split at huses
  · rename_i k' _ hrequest
    obtain rfl : k' = k := by simpa using huses
    exact hends (Request.ends_of_put hrequest)
  · rename_i k' _ hrequest _
    obtain rfl : k' = k := by simpa using huses
    exact hget hrequest
  · cases huses

end Turn

/-- The number of puts, reads and removals since the last call that put a value under the key or
read one. -/
def sinceUse (k : CacheKey) (turns : List Turn) : Nat := turns.foldl (Turn.countFrom k) 0

theorem sinceUse_append (k : CacheKey) (turns : List Turn) (t : Turn) :
    sinceUse k (turns ++ [t]) = t.countFrom k (sinceUse k turns) := by
  rw [sinceUse, List.foldl_append]
  rfl

/-! ## Which values the layer holds -/

/-- The value was put under the key, nothing has replaced it since, and no later put, removal or
count came when more than `m` generations had passed since the last use of the key. -/
def Firm (m : Nat) (turns : List Turn) (k : CacheKey) (v : Value) : Prop :=
  SincePut (fun earlier t => t.request.Sweeps → sinceUse k earlier ≤ m) turns k v

theorem firm_append {m : Nat} {turns : List Turn} {t : Turn} {k : CacheKey} {v : Value} :
    Firm m (turns ++ [t]) k v ↔ t.request = .put k (some v) ∨
      (¬ t.request.Ends k ∧ (t.request.Sweeps → sinceUse k turns ≤ m) ∧ Firm m turns k v) :=
  sincePut_append

/-- The value itself is among the owners, or among the last `n` values that were read since the
last clear. -/
def IsHeld (n : Nat) (turns : List Turn) (owners : List Value) (v : Value) : Prop :=
  ∃ o ∈ owners ++ (recentReads turns).take n, o.alloc = v.alloc

/-- The value was put under the key, nothing has replaced it since, and whenever a call looked for
dead values either the layer went on to hold the value or it was held elsewhere. -/
def Spared (m n : Nat) (turns : List Turn) (k : CacheKey) (v : Value) : Prop :=
  SincePut (fun earlier t => t.request.Checks k →
    Firm m (earlier ++ [t]) k v ∨ IsHeld n earlier t.owners v) turns k v

variable {id : String} {m n : Nat} {turns : List Turn} {c : Caller} {e : Environment}
  {w w' : World (References × Store)} {k : CacheKey} {q : Request} {v : Value} {a : Nat}
  {r : Reachability}

/-! ## One call -/

theorem generation_leave (r : Reachability) (c : Caller) (w : World (References × Store))
    (q : Request) :
    (leave r c w q).state.1.generation = w.state.1.generation + q.generations := by
  cases q with
  | put k x => cases x <;> rfl
  | get k =>
    rw [leave, read]
    split
    · rw [followed]
      split <;> rfl
    · rfl
  | _ => rfl

/-- The stamp of every handle tells how many generations ago its key was used. -/
def Stamped (turns : List Turn) (w : World (References × Store)) : Prop :=
  ∀ k a v, w.state.2.lookup k = some (.handle a v) →
    (w.env.handles a).touched + sinceUse k turns = w.state.1.generation

theorem Stamped.leave (hs : Stamped turns w) (h : Sound w) {t : Turn}
    (ht : t.answer = reply r c w t.request) :
    Stamped (turns ++ [t]) (leave r c w t.request) := by
  intro k a v hk
  rw [sinceUse_append, generation_leave]
  by_cases hq : t.request.Ends k
  · obtain ⟨u, hput, heq⟩ := (lookup_leave_of_ends hq).1 hk
    obtain ⟨rfl, -⟩ := Value.handle.inj heq
    have huses : t.uses k = true := by simp [Turn.uses, hput]
    rw [hput, handles_leave_put, Turn.countFrom, if_pos huses]
    rfl
  · obtain ⟨hold, -, hread⟩ := (lookup_leave h.mirrors hq).1 hk
    obtain ⟨-, hget, hother⟩ := handles_leave h hq hk
    have hstamp := hs k a v hold
    by_cases hq' : t.request = .get k
    · obtain ⟨u, hfound⟩ := Option.isSome_iff_exists.1 (hread hq')
      have hanswer : t.answer = .value (some u) := by
        rw [ht, hq', reply]
        congr 1
        show (w.state.2.lookup k).bind _ = _
        rw [hold]
        exact hfound
      have huses : t.uses k = true := by simp [Turn.uses, hq', hanswer]
      rw [hget hq', Turn.countFrom, if_pos huses, hq']
      rfl
    · have huses := Turn.uses_eq_false hq hq'
      rw [hother hq', Turn.countFrom, if_neg (by simp [huses]), ← hstamp]
      omega

/-- The layer itself holds the value of a key. -/
def Holds (w : World (References × Store)) (k : CacheKey) (v : Value) : Prop :=
  ∃ a, w.state.2.lookup k = some (.handle a v) ∧ (w.env.handles a).strong = true

/-- A value that the layer goes on to hold gets through a call. -/
theorem Holds.survives (h : Sound w) (hk : w.state.2.lookup k = some (.handle a v))
    (hstrong : (w.env.handles a).strong = true)
    (hidle : q.Sweeps → r.isIdle w.state.1.generation (w.env.handles a).touched = false) :
    (q.Sweeps → survives r c w (.handle a v) = true) ∧
      (w.env.deref (holders c w.state) (.handle a v)).isSome = true := by
  constructor
  · intro hq
    have hsettled := settled_handles (r := r) h.mirrors hk
    rw [hidle hq, if_neg Bool.false_ne_true] at hsettled
    simp [Reference.survives, Environment.deref, hsettled, hstrong]
  · simp [Environment.deref, hstrong]

/-- What the layer holds after one more call: the value that it puts, or a value that it held and
whose key was not idle for too long. -/
theorem holds_leave (hs : Stamped turns w) (h : Sound w) {t : Turn} :
    Holds (leave (.soft m) c w t.request) k v ↔
      t.request = .put k (some v) ∨ (¬ t.request.Ends k ∧
        (t.request.Sweeps → sinceUse k turns ≤ m) ∧ Holds w k v) := by
  have hidle : ∀ a, w.state.2.lookup k = some (.handle a v) →
      (Reachability.isIdle (.soft m) w.state.1.generation (w.env.handles a).touched = false ↔
        sinceUse k turns ≤ m) := by
    intro a hk
    have hstamp := hs k a v hk
    rw [Reachability.isIdle, decide_eq_false_iff_not]
    omega
  by_cases hq : t.request.Ends k
  · constructor
    · rintro ⟨a, hk, -⟩
      obtain ⟨u, hput, heq⟩ := (lookup_leave_of_ends hq).1 hk
      obtain ⟨-, rfl⟩ := Value.handle.inj heq
      exact .inl hput
    · rintro (hput | ⟨hends, -⟩)
      · refine ⟨_, (lookup_leave_of_ends hq).2 ⟨v, hput, rfl⟩, ?_⟩
        rw [hput, handles_leave_put]
        rfl
      · exact absurd hq hends
  · constructor
    · rintro ⟨a, hk, hstrong⟩
      have hold := ((lookup_leave h.mirrors hq).1 hk).1
      obtain ⟨hstrong, hsweeps⟩ := (handles_leave h hq hk).1.1 hstrong
      exact .inr ⟨hq, fun hsweep => (hidle a hold).1 (hsweeps hsweep), a, hold, hstrong⟩
    · rintro (hput | ⟨-, hsweeps, a, hold, hstrong⟩)
      · exact absurd (Request.ends_of_put hput) hq
      · have hnot := fun hsweep => (hidle a hold).2 (hsweeps hsweep)
        have hk : (leave (.soft m) c w t.request).state.2.lookup k = some (.handle a v) :=
          (lookup_leave h.mirrors hq).2 ⟨hold, (Holds.survives h hold hstrong hnot).1,
            fun _ => (Holds.survives h hold hstrong hnot).2⟩
        exact ⟨a, hk, (handles_leave h hq hk).1.2 ⟨hstrong, hnot⟩⟩

/-- A value that is held elsewhere gets through a call. -/
theorem lookup_leave_of_isHeld (h : Sound w) (hring : w.state.1.ring = (recentReads turns).take n)
    {t : Turn} (hq : ¬ t.request.Ends k) (hheld : IsHeld n turns t.owners v)
    (hk : w.state.2.lookup k = some (.handle a v)) :
    (leave r t.caller w t.request).state.2.lookup k = some (.handle a v) := by
  obtain ⟨o, ho, hov⟩ := hheld
  rw [← hring, Turn.owners] at ho
  refine (lookup_leave h.mirrors hq).2 ⟨hk, fun _ => ?_, fun hget => ?_⟩
  · rw [h.mirrors.survives_eq hk]
    refine Environment.isAlive_of_alloc (o := o) ?_ hov
    simp only [holders, References.held, Caller.holding, List.mem_append] at ho ⊢
    tauto
  · rw [Environment.isSome_deref_of_mem (h.mirrors.mem_holders hk)]
    refine Environment.isAlive_of_alloc (o := o) ?_ hov
    simp only [hget, Request.handed, holders, References.held, List.mem_append] at ho ⊢
    simp at ho
    tauto

/-! ## Any calls -/

theorem Undisturbed.stamped {v : Visit} (hv : Undisturbed w v) (hs : Stamped turns w) :
    Stamped turns ⟨v.env, w.state⟩ := by
  intro k a u hk
  have hhandle : v.env.handles a = w.env.handles a := hv.handles k _ hk
  rw [hhandle]
  exact hs k a u hk

theorem Undisturbed.holds_iff {u : Visit} (hv : Undisturbed w u) :
    Holds ⟨u.env, w.state⟩ k v ↔ Holds w k v := by
  refine exists_congr fun a => and_congr_right fun hk => ?_
  have hhandle : u.env.handles a = w.env.handles a := hv.handles k _ hk
  rw [hhandle]

theorem History.stamped (h : History r id n turns w) : Stamped turns w := by
  refine h.keeps ?_ ?_
  · intro e k a v hk
    cases hk
  · intro turns w t hbefore hv hanswer ih
    exact (hv.stamped ih).leave (hbefore.sound.undisturbed hv) hanswer

/-- After any history the layer holds the values of the keys that were never found idle. -/
theorem History.holds_iff (h : History (.soft m) id n turns w) (k : CacheKey) (v : Value) :
    Holds w k v ↔ Firm m turns k v := by
  refine h.keeps (P := fun turns w => Holds w k v ↔ Firm m turns k v) ?_ ?_
  · intro e
    refine iff_of_false ?_ not_sincePut_nil
    rintro ⟨a, hk, -⟩
    cases hk
  · intro turns w t hbefore hv _ ih
    have hsound := hbefore.sound.undisturbed hv
    rw [holds_leave (hv.stamped hbefore.stamped) hsound, hv.holds_iff, ih, firm_append]

/-- After any history the values are stored that the layer went on to hold, or that were held
elsewhere, whenever a call looked for dead values. -/
theorem History.spared (h : History (.soft m) id n turns w) :
    Spared m n turns k v → ∃ a, w.state.2.lookup k = some (.handle a v) := by
  refine h.keeps (P := fun turns w =>
    Spared m n turns k v → ∃ a, w.state.2.lookup k = some (.handle a v)) ?_ ?_
  · intro e hs
    exact absurd hs not_sincePut_nil
  · intro turns w t hbefore hv _ ih hs
    have hsound := hbefore.sound.undisturbed hv
    rcases sincePut_append.1 hs with hput | ⟨hq, hchecks, hs⟩
    · exact ⟨_, (lookup_leave_of_ends (Request.ends_of_put hput)).2 ⟨v, hput, rfl⟩⟩
    · obtain ⟨a, hk⟩ := ih hs
      by_cases hcheck : t.request.Checks k
      · rcases hchecks hcheck with hfirm | hheld
        · rw [firm_append, ← hbefore.holds_iff, ← hv.holds_iff] at hfirm
          obtain ⟨b, hk', -⟩ := (holds_leave (hv.stamped hbefore.stamped) hsound).2 hfirm
          exact ⟨b, hk'⟩
        · exact ⟨a, lookup_leave_of_isHeld hsound hbefore.ring.2 hq hheld hk⟩
      · rw [Request.Checks, not_or] at hcheck
        exact ⟨a, (lookup_leave hsound.mirrors hq).2
          ⟨hk, fun hsweeps => absurd hsweeps hcheck.1, fun hget => absurd hget hcheck.2⟩⟩

/-! ## What a read finds -/

/-- After any calls on a new layer of soft handles around an empty store, with any values held by
outside owners during each of them, the layer itself holds the value of a key exactly if no put,
removal or count since the value was put came when more than `m` puts, reads and removals had been
made since the last use of the key.  A read of the key ends, and it finds the value that was put
last as long as the layer holds it, whoever has let go of it.  An entry that was found idle is not
held again, however often it is read, and is found as long as the value was held by an outside
owner or was among the last `n` values read whenever a call looked for dead values, and is now.
Any other call may follow too, and it ends. -/
theorem get_soft_of_firm (h : History (.soft m) id n turns w) (hv : Undisturbed w ⟨c, e, .get k⟩) :
    (∀ v, Holds w k v ↔ Firm m turns k v) ∧
      ∃ x w', (around (.soft m) (Store.cache id)).serve (.get k) c ⟨e, w.state⟩ =
          .done (.ok (.value x)) w' ∧
        (∀ v, Firm m turns k v → x = some v) ∧
        (∀ v, Spared m n turns k v → IsHeld n turns c.owners v → x = some v) ∧
        ∀ v, Undisturbed w v → ∃ a w', History (.soft m) id n (turns ++ [⟨v, a⟩]) w' := by
  have hserve := serve_run (w := ⟨e, w.state⟩) h.mirrors (.soft m) id (.get k) c
  have hmirrors : Mirrors (advanced ⟨e, w.state⟩).state := ⟨h.mirrors.registry, h.mirrors.handle⟩
  refine ⟨h.holds_iff k, found c k (advanced ⟨e, w.state⟩), _, hserve, ?_, ?_,
    fun v hv => ⟨_, _, h.next hv⟩⟩
  · intro v hfirm
    obtain ⟨a, hk, hstrong⟩ := hv.holds_iff.2 ((h.holds_iff k v).2 hfirm)
    have halive := Environment.isAlive_target (hmirrors.mem_holders (c := c) hk) hstrong
    exact (found_eq_some_iff hmirrors).2 ⟨a, hk, halive⟩
  · intro v hspared hheld
    obtain ⟨a, hk⟩ := h.spared hspared
    obtain ⟨o, ho, hov⟩ := hheld
    have hmem : o ∈ holders c (advanced ⟨e, w.state⟩).state := by
      rw [← h.ring.2] at ho
      simp only [holders, References.held, advanced, List.mem_append] at ho ⊢
      tauto
    exact (found_eq_some_iff hmirrors).2 ⟨a, hk, Environment.isAlive_of_alloc hmem hov⟩

/-- A value that nobody else holds is found after a count, as its key was used just before. -/
theorem get_soft_of_firm_after_count : ∃ turns w e w', History (.soft 0) "users" 0 turns w ∧
    Firm 0 turns .null truth ∧ e.isAlive [] truth = false ∧
    (around (.soft 0) (Store.cache "users")).serve (.get .null) ⟨"main", []⟩ ⟨e, w.state⟩ =
      .done (.ok (.value (some truth))) w' := by
  let w₁ := leave (.soft 0) putTruth.caller ⟨putTruth.env, fresh 0⟩ putTruth.request
  let count : Visit := ⟨⟨"main", []⟩, w₁.env, .size⟩
  let w₂ := leave (.soft 0) count.caller ⟨count.env, w₁.state⟩ count.request
  have hput : History (.soft 0) "users" 0 ([] ++ [⟨putTruth, .done⟩]) w₁ :=
    (History.start _).next (undisturbed_putTruth 0)
  have hcount :
      History (.soft 0) "users" 0 ([] ++ [⟨putTruth, .done⟩] ++ [⟨count, .number 1⟩]) w₂ :=
    hput.next (.at_once w₁ _ rfl)
  have hfirm : Firm 0 ([] ++ [⟨putTruth, .done⟩] ++ [⟨count, .number 1⟩]) .null truth :=
    firm_append.2 (.inr ⟨id, fun _ => le_refl _, firm_append.2 (.inl rfl)⟩)
  have hnow : Undisturbed w₂ ⟨⟨"main", []⟩, w₂.env, .get .null⟩ := .at_once w₂ _ rfl
  obtain ⟨-, x, w', hserve, hfound, -⟩ := get_soft_of_firm hcount hnow
  obtain rfl := hfound truth hfirm
  exact ⟨_, w₂, w₂.env, w', hcount, hfirm, rfl, hserve⟩

/-! ## Entries that were idle -/

/-- A value that was put last under a key is found if the key was used at most `m` generations
ago, also if it was idle before. -/
def SoftSurvives : Prop :=
  ∀ (m : Nat) (id : String) (n : Nat) (turns : List Turn) (w : World (References × Store))
    (c : Caller) (e : Environment) (k : CacheKey) (v : Value),
    History (.soft m) id n turns w → Undisturbed w ⟨c, e, .get k⟩ →
    SincePut (fun _ _ => True) turns k v → sinceUse k turns ≤ m →
    ∃ w', (around (.soft m) (Store.cache id)).serve (.get k) c ⟨e, w.state⟩ =
      .done (.ok (.value (some v))) w'

/-- It is not so: an entry that a count finds idle is demoted, and though it is read again while
somebody holds its value, it is lost once nobody does. -/
theorem not_softSurvives : ¬ SoftSurvives := by
  intro h
  let holder : Caller := ⟨"main", [truth]⟩
  let w₁ := leave (.soft 0) putTruth.caller ⟨putTruth.env, fresh 0⟩ putTruth.request
  let w₂ := leave (.soft 0) holder w₁ (.get KeyBuilder.empty.build)
  let w₃ := leave (.soft 0) holder w₂ .size
  let w₄ := leave (.soft 0) holder w₃ (.get .null)
  let put : Turn := ⟨putTruth, .done⟩
  let other : Turn := ⟨⟨holder, w₁.env, .get KeyBuilder.empty.build⟩, .value none⟩
  let count : Turn := ⟨⟨holder, w₂.env, .size⟩, .number 1⟩
  let again : Turn := ⟨⟨holder, w₃.env, .get .null⟩, .value (some truth)⟩
  have hput : History (.soft 0) "users" 0 ([] ++ [put]) w₁ :=
    (History.start _).next (undisturbed_putTruth 0)
  have hother : History (.soft 0) "users" 0 ([] ++ [put] ++ [other]) w₂ :=
    hput.next (.at_once w₁ _ rfl)
  have hcount : History (.soft 0) "users" 0 ([] ++ [put] ++ [other] ++ [count]) w₃ :=
    hother.next (.at_once w₂ _ rfl)
  have hagain : History (.soft 0) "users" 0 ([] ++ [put] ++ [other] ++ [count] ++ [again]) w₄ :=
    hcount.next (.at_once w₃ _ rfl)
  have hstands : SincePut (fun _ _ => True) ([] ++ [put] ++ [other] ++ [count] ++ [again])
      .null truth := by
    rw [sincePut_append, sincePut_append, sincePut_append, sincePut_append]
    exact .inr ⟨id, trivial, .inr ⟨id, trivial, .inr ⟨id, trivial, .inl rfl⟩⟩⟩
  -- The last read was the last call, and nobody holds the value any more.
  obtain ⟨w', hserve⟩ := h 0 "users" 0 _ w₄ ⟨"main", []⟩ w₄.env .null truth hagain
    (.at_once w₄ _ rfl) hstands (le_refl _)
  have hrun := serve_run hagain.mirrors (.soft 0) "users" (.get .null) ⟨"main", []⟩
  have hnone : reply (.soft 0) ⟨"main", []⟩ w₄ (.get .null) = .value none := by cbv
  rw [hnone] at hrun
  have hanswer := (Outcome.done.inj (hserve.symm.trans hrun)).1
  cases hanswer

end Reference

end QueryCache
