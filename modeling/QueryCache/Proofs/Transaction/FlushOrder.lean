import Mathlib
import QueryCache.Proofs.Layer.RecentKeys
import QueryCache.Proofs.Transaction.WriteLog

/-!
# The order of a flush

A commit clears if a clear was requested, then writes each written key with its last
value in the order of the first puts, then writes an absence for each other key that
was missed, and asks for nothing else.  The order shows where the shared cache evicts
what is least recently used: of the written keys the last ones stay, as many as there is
room for.

1. commits over caches that never fail
2. writes in order
3. the flush
-/

namespace QueryCache

/-! ## Commits over caches that never fail -/

namespace Buffer

variable {σ : Type} {d : Cache σ} {step : σ → SharedCall → σ}

/-- The calls, of which each ends at once. -/
theorem runAll_of_done
    (h : ∀ call c w, SharedCall.run d call c w = .done (.ok ()) ⟨w.env, step w.state call⟩)
    (calls : List SharedCall) (c : Caller) (w : World σ) :
    SharedCall.runAll d calls c w = .done (.ok ()) ⟨w.env, calls.foldl step w.state⟩ := by
  induction calls generalizing w with
  | nil => rfl
  | cons call rest ih =>
    refine (Await.bind_of_done (h call c w)).trans ?_
    exact ih ⟨w.env, step w.state call⟩

/-- A call on the shared cache leaves the buffer alone. -/
theorem run_shared {call : SharedCall} {c : Caller} {e : Environment} {b : Buffer} {y y' : σ}
    (h : call.run d ((Focus.second held).caller (b, y) c) ⟨e, y⟩ = .done (.ok ()) ⟨e, y'⟩) :
    call.run (shared d) c ⟨e, (b, y)⟩ = .done (.ok ()) ⟨e, (b, y')⟩ := by
  cases call with
  | clear => exact Focus.await_second h
  | put k x => exact Focus.await_second h

/-- A commit over a cache that never fails makes all calls of its plan. -/
theorem commitWith_of_done
    (h : ∀ call c w, SharedCall.run d call c w = .done (.ok ()) ⟨w.env, step w.state call⟩)
    (order : Buffer → List CacheKey) (c : Caller) (e : Environment) (b : Buffer) (y : σ) :
    commitWith order d c ⟨e, (b, y)⟩ =
      .done (.ok ()) ⟨e, (empty, (b.planWith (order b)).foldl step y)⟩ := by
  have hcalls : SharedCall.runAll (shared d) (b.planWith (order b)) c ⟨e, (b, y)⟩ =
      .done (.ok ()) ⟨e, (b, (b.planWith (order b)).foldl step y)⟩ := by
    have hfold : ∀ (calls : List SharedCall) (y : σ),
        calls.foldl (fun (s : Buffer × σ) call => (s.1, step s.2 call)) (b, y) =
          (b, calls.foldl step y) := by
      intro calls
      induction calls with
      | nil => exact fun _ => rfl
      | cons call rest ih => exact fun y => ih (step y call)
    rw [← hfold]
    exact runAll_of_done (fun call c w => run_shared (h call _ ⟨w.env, w.state.2⟩)) _ c ⟨e, (b, y)⟩
  rw [commitWith, Await.bind_of_done Await.layer_run, Await.bind_of_done hcalls]
  rfl

end Buffer

/-! ## Writes in order -/

namespace Lru

open Recency

variable {s : Recency × Store}

/-- The request of a call. -/
def request : Buffer.SharedCall → ResizableRequest
  | .clear => .ask .clear
  | .put k x => .ask (.put k x)

theorem run_request (id : String) (call : Buffer.SharedCall) (c : Caller)
    (w : World (Recency × Store)) : call.run (resizable id).cache c w =
      .done (.ok ()) ⟨w.env, step w.state (request call)⟩ := by
  cases call with
  | clear => rfl
  | put k x => exact put_run id k x c w

/-- Writes, one after the other. -/
def puts (writes : List (CacheKey × Option Value)) : List ResizableRequest :=
  writes.map fun e => .ask (.put e.1 e.2)

/-- Writes under other keys leave the entry of a key as it is, or take it out. -/
theorem find?_puts_of_ne {k : CacheKey} (writes : List (CacheKey × Option Value))
    (hne : ∀ e ∈ writes, e.1 ≠ k) (s : Recency × Store) :
    ((puts writes).foldl step s).2.find? k = none ∨
      ((puts writes).foldl step s).2.find? k = s.2.find? k := by
  induction writes generalizing s with
  | nil => exact .inr rfl
  | cons e rest ih =>
    rcases ih (fun e he => hne e (List.mem_cons_of_mem _ he)) (step s (.ask (.put e.1 e.2)))
      with hnone | hsame
    · exact .inl hnone
    · have hk : k ≠ e.1 := fun heq => hne e List.mem_cons_self heq.symm
      have hput := find?_put s e.1 k e.2
      rw [if_neg hk] at hput
      have hfirst : (puts (e :: rest)).foldl step s =
          (puts rest).foldl step (step s (.ask (.put e.1 e.2))) := rfl
      rw [hfirst, hsame, hput]
      split
      · exact .inl rfl
      · exact .inr rfl

theorem leavesRoom_puts (writes : List (CacheKey × Option Value)) :
    ∀ r ∈ puts writes, r.LeavesRoom := by
  intro r hr
  obtain ⟨e, -, rfl⟩ := List.mem_map.1 hr
  trivial

/-- Writes leave the capacity as it is. -/
theorem keepsCapacity_puts (n : Nat) (writes : List (CacheKey × Option Value)) :
    KeepsCapacity n (puts writes) := by
  intro r hr
  obtain ⟨e, -, rfl⟩ := List.mem_map.1 hr
  rfl

theorem putKey_puts (writes : List (CacheKey × Option Value)) :
    (puts writes).filterMap ResizableRequest.putKey? = writes.map Prod.fst := by
  rw [puts, List.filterMap_map]
  exact congrFun (List.filterMap_eq_map (f := Prod.fst)) writes

/-- A written key was put. -/
theorem usedKey_puts {writes : List (CacheKey × Option Value)} {r : ResizableRequest}
    (hr : r ∈ puts writes) : ∃ e ∈ writes, r.usedKey? = some e.1 ∧ ∀ k, ¬ Discards k r := by
  obtain ⟨e, he, rfl⟩ := List.mem_map.1 hr
  exact ⟨e, he, rfl, fun _ h => h⟩

/-- A key of a list of different keys is among the last `n` if fewer than `n` come after it. -/
theorem mem_rtake_iff {before later : List CacheKey} {k : CacheKey} {n : Nat}
    (h : (before ++ k :: later).Nodup) :
    k ∈ (before ++ k :: later).rtake n ↔ later.length < n := by
  have hbefore : k ∉ before := fun hk => List.disjoint_of_nodup_append h hk List.mem_cons_self
  have hlater : k ∉ later := (List.nodup_cons.1 h.of_append_right).1
  have hdrop : ∀ m, k ∈ (k :: later).drop m ↔ m = 0 := by
    intro m
    cases m with
    | zero => simp
    | succ m => simpa using fun hk => hlater (List.mem_of_mem_drop hk)
  rw [List.rtake, List.drop_append, List.mem_append, hdrop, List.length_append, List.length_cons]
  constructor
  · rintro (hk | hk)
    · exact (hbefore (List.mem_of_mem_drop hk)).elim
    · omega
  · intro hn
    right
    omega

/-- Of written keys those are stored that are among the last ones, as many as there is
room for. -/
theorem find?_puts (h : Tracks s) {writes : List (CacheKey × Option Value)}
    (hnodup : (writes.map Prod.fst).Nodup) {k : CacheKey} {x : Option Value}
    (hmem : (k, x) ∈ writes) :
    ((puts writes).foldl step s).2.find? k =
      if k ∈ (writes.map Prod.fst).rtake s.1.capacity then some x else none := by
  obtain ⟨before, later, rfl⟩ := List.append_of_mem hmem
  rw [List.map_append, List.map_cons] at hnodup ⊢
  have hsplit : (puts (before ++ (k, x) :: later)).foldl step s =
      (puts later).foldl step (step ((puts before).foldl step s) (.ask (.put k x))) := by
    rw [puts, List.map_append, List.foldl_append]
    rfl
  have hbefore : Tracks ((puts before).foldl step s) := h.run (leavesRoom_puts before)
  have hput : Tracks (step ((puts before).foldl step s) (.ask (.put k x))) := hbefore.step trivial
  have hcapacity : (step ((puts before).foldl step s) (.ask (.put k x))).1.capacity =
      s.1.capacity := by
    rw [capacity_step, capacity_run]
    exact (keepsCapacity_puts s.1.capacity before).capacityAfter
  have hkeys : (k :: later.map Prod.fst).Nodup := hnodup.of_append_right
  obtain ⟨hnew, hlater⟩ := List.nodup_cons.1 hkeys
  have hne : ∀ e ∈ later, e.1 ≠ k := fun e he heq => hnew (heq ▸ List.mem_map_of_mem he)
  have hfound : (step ((puts before).foldl step s) (.ask (.put k x))).2.find? k = some x := by
    rw [find?_put, if_neg (push_fst_ne hbefore.wellFormed k), if_pos rfl]
  have hcard : (later.map Prod.fst).toFinset.card = (later.map Prod.fst).length :=
    List.toFinset_card_of_nodup hlater
  rw [hsplit]
  by_cases hroom : (later.map Prod.fst).length < s.1.capacity
  · -- fewer than the capacity are written after the key, so it stays
    rw [if_pos ((mem_rtake_iff hnodup).2 hroom)]
    have hstored : k ∈ ((puts later).foldl step
        (step ((puts before).foldl step s) (.ask (.put k x)))).2.keys := by
      refine (recent_put hbefore (later.map Prod.fst).toFinset k x).run hput ?_ ?_ ?_ ?_
      · rwa [hcapacity, hcard]
      · intro y hy _
        obtain ⟨r, hr, hused⟩ := List.mem_filterMap.1 hy
        obtain ⟨e, he, hkey, -⟩ := usedKey_puts hr
        obtain rfl : e.1 = y := Option.some.inj (hkey.symm.trans hused)
        exact List.mem_toFinset.2 (List.mem_map_of_mem he)
      · intro r hr
        obtain ⟨e, -, -, hkeeps⟩ := usedKey_puts hr
        exact hkeeps k
      · exact keepsCapacity_puts _ later
    rcases find?_puts_of_ne later hne _ with hnone | hsame
    · rw [← Entries.isSome_find?_iff, hnone] at hstored
      cases hstored
    · rw [hsame, hfound]
  · -- the keys that are written after it are in front of it, and there is no room for it
    rw [if_neg fun hk => hroom ((mem_rtake_iff hnodup).1 hk)]
    have hends : Trails ((puts later).filterMap ResizableRequest.putKey? ++ []) k
        ((puts later).foldl step (step ((puts before).foldl step s) (.ask (.put k x)))).1.keys := by
      refine trails_run hput (trails_nil k _) (leavesRoom_puts later) ?_
      intro r hr hused
      obtain ⟨e, he, hkey, -⟩ := usedKey_puts hr
      exact hne e he (Option.some.inj (hkey.symm.trans hused))
    have htracks := hput.run (leavesRoom_puts later)
    refine htracks.find?_eq_none fun hk => hroom ?_
    have hlt := hends.card_lt htracks.wellFormed hk
    rw [List.append_nil, putKey_puts, hcard, capacity_run,
      (keepsCapacity_puts _ later).capacityAfter, hcapacity] at hlt
    exact hlt

/-- A commit makes the requests of its plan. -/
theorem commitWith_run (id : String) (order : Buffer → List CacheKey) (c : Caller)
    (e : Environment) (b : Buffer) (s : Recency × Store) :
    Buffer.commitWith order (resizable id).cache c ⟨e, (b, s)⟩ =
      .done (.ok ()) ⟨e, (.empty, ((b.planWith (order b)).map request).foldl step s)⟩ := by
  rw [List.foldl_map]
  exact Buffer.commitWith_of_done (run_request id) order c e b s

/-- Of the keys that a commit writes, and nothing else, those are stored afterwards that are
among the last ones, as many as there is room for. -/
theorem find?_flush (h : Tracks s) (cleared : Bool) {writes : List (CacheKey × Option Value)}
    (hnodup : (writes.map Prod.fst).Nodup) {k : CacheKey} {x : Option Value}
    (hmem : (k, x) ∈ writes) :
    (((if cleared then [ResizableRequest.ask .clear] else []) ++ puts writes).foldl step s).2.find?
        k =
      if k ∈ (writes.map Prod.fst).rtake s.1.capacity then some x else none := by
  rw [List.foldl_append]
  cases cleared with
  | false => exact find?_puts h hnodup hmem
  | true =>
    have hclear : Tracks (step s (.ask .clear)) := h.step trivial
    exact find?_puts hclear hnodup hmem

end Lru

/-! ## The flush -/

namespace Buffer

variable {σ : Type} {d : Cache σ} {acts : List Action} {n : Nat}

/-- What a commit asks for after operations: the clear, the writes in order, and absences. -/
def flush (acts : List Action) (absent : List CacheKey) : List SharedCall :=
  (if acts.any Action.isClear then [.clear] else []) ++ (WriteLog.after acts).calls ++
    absent.map (.put · none)

/-- The shared cache had nothing under the key since the first `n` noted calls, and the key
was not written. -/
def Unwritten (acts : List Action) (n : Nat) (j : List Event) (k : CacheKey) : Prop :=
  .get k (.ok none) ∈ j.drop n ∧ k ∉ (WriteLog.after acts).order

/-- The missed keys that the buffer has no write for. -/
def absent (order : Buffer → List CacheKey) (b : Buffer) : List CacheKey :=
  (order b).filter fun k => !b.writes.contains k

namespace Reflects

variable {s : Buffer × (List Event × σ)} {order : Buffer → List CacheKey}

/-- The plan of a commit is the flush of the operations. -/
theorem planWith_eq (h : Reflects acts n s) (order : Buffer → List CacheKey) :
    s.1.planWith (order s.1) = flush acts (s.1.absent order) := by
  rw [planWith, flush, h.cleared, h.described.calls_eq]
  rfl

theorem mem_absent_iff (h : Reflects acts n s) (ho : ∀ b, (order b).Perm b.misses)
    (k : CacheKey) : k ∈ s.1.absent order ↔ Unwritten acts n s.2.1 k := by
  rw [absent, List.mem_filter, (ho s.1).mem_iff, h.missed, Unwritten, ← h.described.keys,
    Entries.contains_eq_isSome_find?, ← Entries.isSome_find?_iff]
  simp

theorem nodup_absent (h : Reflects acts n s) (ho : ∀ b, (order b).Perm b.misses) :
    (s.1.absent order).Nodup := ((ho s.1).nodup_iff.2 h.nodup).filter _

end Reflects

/-- After any operations since the last commit or rollback, over any shared cache and whatever
others do to it: the list of written keys has those of the map of values, each of them once, in
the order of their first puts since the last clear, the map has the last values, and the buffer
holds the same.  A commit of which no call fails empties the buffer, and asks the shared cache
for exactly the flush: a clear if one was requested, the writes in order, and one absence for
each missed key that was not written.  So where the shared cache evicts what is least recently
used and there is no such absence, of the written keys those are stored after the commit that
are among the last ones, as many as there is room for. -/
theorem flush_in_order {w : World (Buffer × (List Event × σ))} (h : Collected d acts n w)
    {order : Buffer → List CacheKey} (ho : ∀ b, (order b).Perm b.misses) :
    (WriteLog.after acts).Matches ∧ (WriteLog.after acts).Describes w.state.1 ∧
      (WriteLog.after acts).order = ((sinceClear acts).map Prod.fst).eraseDups ∧
      (∀ k, (WriteLog.after acts).pending k =
        ((sinceClear acts).reverse.find? (·.1 = k)).map Prod.snd) ∧
      (∀ c r w', (commitWith order d.recorded c w).SettlesAmid Elsewhere c.thread r w' →
        ∃ made, w'.state.2.1 = w.state.2.1 ++ made ∧
          ((∀ event ∈ made, event.Succeeded) → r = .ok () ∧ w'.state.1 = empty ∧
            ∃ absent : List CacheKey, absent.Nodup ∧
              (∀ k, k ∈ absent ↔ Unwritten acts n w.state.2.1 k) ∧
              made = (flush acts absent).map fun call => call.event (.ok ()))) ∧
      ∀ id N visits s, 1 ≤ N → (∀ v ∈ visits, v.request.LeavesRoom) →
        (Lru.resizable id).after (Lru.fresh N) visits = some s →
        (∀ k, ¬ Unwritten acts n w.state.2.1 k) → ∀ c e, ∃ s',
          commitWith order (Lru.resizable id).cache c ⟨e, (w.state.1, s)⟩ =
            .done (.ok ()) ⟨e, (empty, s')⟩ ∧
          ∀ k ∈ (WriteLog.after acts).order, s'.2.find? k =
            if k ∈ (WriteLog.after acts).order.rtake s.1.capacity then
              (WriteLog.after acts).pending k else none := by
  have hreflects := h.reflects
  refine ⟨WriteLog.matches_after acts, hreflects.described, WriteLog.order_after acts,
    WriteLog.pending_after acts, ?_, ?_⟩
  · intro c r w' hs
    obtain ⟨made, hmade, hstands⟩ :=
      (commitWith_amid d order w.state.1 w.state.2.1 c.thread c w rfl ⟨rfl, rfl⟩).settles hs
    refine ⟨made, hstands.2, fun hall => ?_⟩
    obtain rfl := hmade.ok_of_succeeded hall
    refine ⟨rfl, hstands.1, w.state.1.absent order, hreflects.nodup_absent ho,
      hreflects.mem_absent_iff ho, ?_⟩
    rw [hmade.eq_of_ok, hreflects.planWith_eq]
  · intro id N visits s hN hroom hs hunwritten c e
    refine ⟨_, Lru.commitWith_run id order c e w.state.1 s, fun k hk => ?_⟩
    have hrooms : ∀ r ∈ visits.map ResizableVisit.request, r.LeavesRoom := by
      simpa only [List.forall_mem_map] using hroom
    obtain rfl : (visits.map ResizableVisit.request).foldl Lru.step (Lru.fresh N) = s :=
      Option.some.inj (((Lru.performs id).after_eq _ visits).symm.trans hs)
    have htracks := (Lru.tracks_fresh hN).run hrooms
    obtain ⟨x, hx⟩ := Option.isSome_iff_exists.1 (((WriteLog.matches_after acts).mem_iff k).1 hk)
    have hmem : (k, x) ∈ w.state.1.writes.toList := by
      rw [← Entries.find?_eq_some_iff, hreflects.described.find?, hx]
    -- nothing is written but what was put
    have habsent : w.state.1.absent order = [] := by
      refine List.eq_nil_iff_forall_not_mem.2 fun k' hk' => ?_
      exact hunwritten k' ((hreflects.mem_absent_iff ho k').1 hk')
    have hplan : (w.state.1.planWith (order w.state.1)).map Lru.request =
        (if acts.any Action.isClear then [.ask .clear] else []) ++
          Lru.puts w.state.1.writes.toList := by
      rw [hreflects.planWith_eq, flush, habsent, ← hreflects.described.calls_eq]
      cases acts.any Action.isClear <;> simp [Lru.request, Lru.puts]
    rw [hplan, hx, ← hreflects.described.keys]
    exact Lru.find?_flush htracks _ w.state.1.writes.nodup hmem

/-! ### Two writes -/

/-- A key is put, then another one, and then the first one again. -/
def twoWrites : List Action := [.put (.folded .empty) none, .put .null none,
  .put (.folded .empty) none]

/-- The buffer after them, over a store that is not asked for anything. -/
def afterTwoWrites : World (Buffer × (List Event × Store)) :=
  ⟨{}, ((empty.write (.folded .empty) none).write .null none |>.write (.folded .empty) none,
    ([], .empty))⟩

theorem collected_twoWrites : Collected (Store.cache "users") twoWrites 0 afterTwoWrites := by
  have hput : ∀ {acts w} k x, Collected (Store.cache "users") acts 0 w →
      Collected (Store.cache "users") (acts ++ [.put k x]) 0
        ⟨w.env, (w.state.1.write k x, w.state.2)⟩ := by
    intro acts w k x h
    exact h.act (c := ⟨"main", []⟩) (.done (.ok ()) _)
  exact hput _ _ (hput _ _ (hput _ _ (.start {} [] .empty)))

/-- With room for one entry the key stays that was put later for the first time. -/
theorem flush_in_order_roomForOne :
    (WriteLog.after twoWrites).order = [.folded .empty, .null] ∧
      ∃ s', commitWith misses (Lru.resizable "users").cache ⟨"main", []⟩
          ⟨{}, (afterTwoWrites.state.1, Lru.fresh 1)⟩ = .done (.ok ()) ⟨{}, (empty, s')⟩ ∧
        s'.2.find? .null = some none ∧ s'.2.find? (.folded .empty) = none := by
  have ho : ∀ b : Buffer, (misses b).Perm b.misses := fun b => .refl b.misses
  obtain ⟨-, -, -, -, -, hlru⟩ := flush_in_order collected_twoWrites ho
  have horder : (WriteLog.after twoWrites).order = [.folded .empty, .null] := by decide
  obtain ⟨s', hcommit, hstored⟩ := hlru "users" 1 [] (Lru.fresh 1) le_rfl nofun rfl
    (fun k hk => nomatch hk.1) ⟨"main", []⟩ {}
  rw [horder] at hstored
  refine ⟨horder, s', hcommit, ?_, ?_⟩
  · exact (hstored .null (by decide)).trans (by decide)
  · exact (hstored (.folded .empty) (by decide)).trans (by decide)

end Buffer

end QueryCache
