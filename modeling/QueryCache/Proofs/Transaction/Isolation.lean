import Mathlib
import QueryCache.Proofs.Transaction.UnitOfWork

/-!
# Isolation of units of work

Any number of units of work share any number of stores with distinct ids, and
make their calls in any order.  What the stores hold is told by the history of
the calls alone: it is the fold of the net effects of the commits, in the order
of the commits.  Nothing that a unit does before its commit shows in a store,
and nothing that a unit buffers shows in its own reads.

1. histories and net effects
2. the steps of the units
3. the buffers of a unit are its history since its last end
4. the stores are the fold of the commits
5. longer histories
-/

namespace QueryCache.Isolation

open UnitOfWork (IsStore Tracks)

/-! ## Histories -/

/-- What a unit of work did. -/
inductive Action where
  /-- A read; `found` is the value in the shared cache at that moment. -/
  | get (r : CacheRef) (k : CacheKey) (found : Option Value)
  | put (r : CacheRef) (k : CacheKey) (x : Option Value)
  | clear (r : CacheRef)
  | commit
  | rollback
deriving DecidableEq

/-- The action is the end of a unit. -/
def Action.isEnd : Action → Bool
  | commit | rollback => true
  | _ => false

/-- The actions of all units, latest first, each with the name of its unit. -/
abbrev History (ι : Type) := List (ι × Action)

/-- What a store holds: under each key an entry, with a value or an absence, or none. -/
abbrev Contents := CacheKey → Option (Option Value)

/-- The last value put under a key since the last clear of the cache. -/
def lastPut (r : CacheRef) (k : CacheKey) : List Action → Option (Option Value)
  | [] => none
  | .put r' k' x :: rest => if r' = r ∧ k' = k then some x else lastPut r k rest
  | .clear r' :: rest => if r' = r then none else lastPut r k rest
  | _ :: rest => lastPut r k rest

/-- The net effect of the actions of a unit on a cache: the clear, then the last
writes after it, then an absence for each key that a read missed and that was
not written. -/
def netEffect (actions : List Action) (r : CacheRef) (m : Contents) : Contents := fun k =>
  match lastPut r k actions with
  | some x => some x
  | none =>
    if .get r k none ∈ actions then some none
    else if .clear r ∈ actions then none
    else m k

variable {ι : Type} [DecidableEq ι]

/-- What a unit did since its last commit or rollback, latest first. -/
def recent (i : ι) (h : History ι) : List Action :=
  ((h.filter (·.1 = i)).map Prod.snd).takeWhile (!·.isEnd)

/-- What each store holds after a history: the fold of the net effects of the
commits. -/
def contents (start : CacheRef → Contents) : History ι → CacheRef → Contents
  | [] => start
  | (i, .commit) :: h => fun r => netEffect (recent i h) r (contents start h r)
  | _ :: h => contents start h

/-! ## Steps -/

/-- The units of work and the stores that they share. -/
structure Shared (ι : Type) where
  units : ι → UnitOfWork CacheRef := fun _ => {}
  pool : Pool

/-- The state after a call of a unit. -/
def Shared.after (s : Shared ι) (i : ι) (u : UnitOfWork CacheRef) (p : Pool) : Shared ι :=
  ⟨Function.update s.units i u, p⟩

@[simp]
theorem Shared.units_after_self (s : Shared ι) (i : ι) (u : UnitOfWork CacheRef) (p : Pool) :
    (s.after i u p).units i = u := Function.update_self ..

@[simp]
theorem Shared.units_after_ne (s : Shared ι) {i j : ι} (hj : j ≠ i) (u : UnitOfWork CacheRef)
    (p : Pool) : (s.after i u p).units j = s.units j := Function.update_of_ne hj ..

/-- The states that calls of the units lead to, with the history of the calls.
A commit takes its buffers and their missed keys in any order. -/
inductive Reaches (ids : List String) (p₀ : Pool) : History ι → Shared ι → Prop where
  | start : Reaches ids p₀ [] { pool := p₀ }
  | get {h s i r k c e v e' u p} (hs : Reaches ids p₀ h s) (hr : IsStore ids r)
      (hrun : UnitOfWork.get Pool.cache r k c ⟨e, (s.units i, s.pool)⟩ =
        .done (.ok v) ⟨e', (u, p)⟩) :
      Reaches ids p₀ ((i, .get r k ((s.pool.storeAt r.store).lookup k)) :: h)
        (s.after i u p)
  | put {h s i r k x c e e' u p} (hs : Reaches ids p₀ h s) (hr : IsStore ids r)
      (hrun : UnitOfWork.put Pool.cache r k x c ⟨e, (s.units i, s.pool)⟩ =
        (.ok (), ⟨e', (u, p)⟩)) :
      Reaches ids p₀ ((i, .put r k x) :: h) (s.after i u p)
  | clear {h s i r c e e' u p} (hs : Reaches ids p₀ h s) (hr : IsStore ids r)
      (hrun : UnitOfWork.clear Pool.cache r c ⟨e, (s.units i, s.pool)⟩ =
        (.ok (), ⟨e', (u, p)⟩)) :
      Reaches ids p₀ ((i, .clear r) :: h) (s.after i u p)
  | commit {h s i order misses c e e' u p} (hs : Reaches ids p₀ h s)
      (ho : (order (s.units i)).Perm (s.units i).touched)
      (hm : ∀ b : Buffer, (misses b).Perm b.misses)
      (hrun : UnitOfWork.commitWith order misses Pool.cache c ⟨e, (s.units i, s.pool)⟩ =
        .done (.ok ()) ⟨e', (u, p)⟩) :
      Reaches ids p₀ ((i, .commit) :: h) (s.after i u p)
  | rollback {h s i c e e' u p} (hs : Reaches ids p₀ h s)
      (hrun : UnitOfWork.rollback Pool.cache c ⟨e, (s.units i, s.pool)⟩ = (.ok (), ⟨e', (u, p)⟩)) :
      Reaches ids p₀ ((i, .rollback) :: h) (s.after i u p)

/-! ## Buffers and histories -/

/-- A buffer has what the actions of its unit say about its cache. -/
structure Mirrors (b : Buffer) (actions : List Action) (r : CacheRef) : Prop where
  clear : b.clearPending = true ↔ .clear r ∈ actions
  writes : ∀ k, b.writes.find? k = lastPut r k actions
  misses : ∀ k, k ∈ b.misses ↔ .get r k none ∈ actions

theorem mirrors_empty (r : CacheRef) : Mirrors .empty [] r where
  clear := by simp [Buffer.empty]
  writes k := rfl
  misses k := by simp [Buffer.empty]

/-- An action on another cache changes nothing for this one. -/
def Action.isOn (r : CacheRef) : Action → Bool
  | get r' _ _ | put r' _ _ | clear r' => r' = r
  | commit | rollback => false

theorem Mirrors.skip {b : Buffer} {actions : List Action} {r : CacheRef} (h : Mirrors b actions r)
    {a : Action} (ha : a.isOn r = false) : Mirrors b (a :: actions) r := by
  cases a with
  | get r' k' found =>
    have hr : ¬ r = r' := by simpa [Action.isOn, eq_comm] using ha
    refine ⟨?_, ?_, ?_⟩
    · simpa using h.clear
    · exact h.writes
    · simpa [hr] using h.misses
  | put r' k' x =>
    have hr : ¬ r' = r := by simpa [Action.isOn] using ha
    refine ⟨?_, ?_, ?_⟩
    · simpa using h.clear
    · intro k
      rw [lastPut, if_neg (fun hk => hr hk.1), h.writes]
    · simpa using h.misses
  | clear r' =>
    have hr : ¬ r' = r := by simpa [Action.isOn] using ha
    refine ⟨?_, ?_, ?_⟩
    · simpa [Ne.symm hr] using h.clear
    · intro k
      rw [lastPut, if_neg hr, h.writes]
    · simpa using h.misses
  | commit => exact ⟨by simpa using h.clear, h.writes, by simpa using h.misses⟩
  | rollback => exact ⟨by simpa using h.clear, h.writes, by simpa using h.misses⟩

theorem Mirrors.get {b : Buffer} {actions : List Action} {r : CacheRef} (h : Mirrors b actions r)
    (k : CacheKey) (found : Option Value) :
    Mirrors (b.afterGet k found) (.get r k found :: actions) r := by
  cases found with
  | some v =>
    refine ⟨?_, h.writes, ?_⟩
    · simpa [Buffer.afterGet] using h.clear
    · simpa [Buffer.afterGet] using h.misses
  | none =>
    have hafter : b.afterGet k none = b.miss k := rfl
    rw [hafter]
    refine ⟨?_, ?_, ?_⟩
    · simpa using h.clear
    · intro k'
      rw [Buffer.writes_miss]
      exact h.writes k'
    · intro k'
      simpa using or_congr Iff.rfl (h.misses k')

theorem Mirrors.put {b : Buffer} {actions : List Action} {r : CacheRef} (h : Mirrors b actions r)
    (k : CacheKey) (x : Option Value) : Mirrors (b.write k x) (.put r k x :: actions) r := by
  refine ⟨?_, ?_, ?_⟩
  · simpa [Buffer.write] using h.clear
  · intro k'
    have hfind : (b.write k x).writes.find? k' = if k' = k then some x else b.writes.find? k' :=
      Entries.find?_insert ..
    rw [hfind, lastPut]
    by_cases hk : k' = k
    · rw [if_pos hk, if_pos ⟨rfl, hk.symm⟩]
    · rw [if_neg hk, if_neg (fun hc => hk hc.2.symm), h.writes]
  · simpa [Buffer.write] using h.misses

theorem Mirrors.requestClear {b : Buffer} {actions : List Action} {r : CacheRef}
    (h : Mirrors b actions r) : Mirrors b.requestClear (.clear r :: actions) r := by
  refine ⟨?_, ?_, ?_⟩
  · simp [Buffer.requestClear]
  · intro k
    rw [lastPut, if_pos rfl]
    rfl
  · simpa [Buffer.requestClear] using h.misses

/-- The commit of a buffer has the net effect of the actions. -/
theorem Mirrors.find?_plan {b : Buffer} {actions : List Action} {r : CacheRef}
    (h : Mirrors b actions r) {misses : List CacheKey} (hm : misses.Perm b.misses) (s : Store) :
    (Buffer.SharedCall.applyAll s (b.planWith misses)).find? = netEffect actions r s.find? := by
  funext k
  rw [Buffer.find?_applyAll_planWith, netEffect, h.writes]
  cases lastPut r k actions with
  | some x => rfl
  | none =>
    have hmiss : k ∈ misses ↔ .get r k none ∈ actions := hm.mem_iff.trans (h.misses k)
    have hclear := h.clear
    simp only [hmiss]
    split
    · rfl
    · by_cases hc : b.clearPending = true
      · rw [if_pos hc, if_pos (hclear.1 hc)]
      · rw [if_neg hc, if_neg (fun h => hc (hclear.2 h))]

/-! ## The invariant -/

theorem recent_cons_self (i : ι) (a : Action) (h : History ι) :
    recent i ((i, a) :: h) = if a.isEnd then [] else a :: recent i h := by
  cases ha : a.isEnd with
  | true => simp [recent, ha]
  | false => simp [recent, ha]

theorem recent_cons_ne {i j : ι} (hij : j ≠ i) (a : Action) (h : History ι) :
    recent i ((j, a) :: h) = recent i h := by
  simp [recent, hij]

/-- What holds in every reachable state: each buffer mirrors the recent actions
of its unit, and the stores are the fold of the commits. -/
structure Inv (ids : List String) (start : CacheRef → Contents) (h : History ι) (s : Shared ι) :
    Prop where
  length : s.pool.stores.length = ids.length
  tracks : ∀ i, Tracks ids (s.units i)
  mirrors : ∀ i r, IsStore ids r → Mirrors ((s.units i).buffer r.id) (recent i h) r
  stores : ∀ r, IsStore ids r → (s.pool.storeAt r.store).find? = contents start h r

section Inv

variable {ids : List String} {p₀ : Pool} {start : CacheRef → Contents} {h : History ι}
  {s : Shared ι}

/-- A step that changes the unit of one thread and no store. -/
theorem Inv.edit (hids : ids.Nodup) (hi : Inv ids start h s) (i : ι) {r : CacheRef}
    (hr : IsStore ids r) {f : Buffer → Buffer} {a : Action} (hend : a.isEnd = false)
    (hcontents : contents start ((i, a) :: h) = contents start h)
    (hon : ∀ r', r' ≠ r → a.isOn r' = false)
    (hf : ∀ b actions, Mirrors b actions r → Mirrors (f b) (a :: actions) r) :
    Inv ids start ((i, a) :: h)
      (s.after i ((s.units i).edit r r.id f) s.pool) := by
  refine ⟨hi.length, ?_, ?_, ?_⟩
  · intro j
    by_cases hj : j = i
    · subst hj
      rw [Shared.units_after_self]
      exact (hi.tracks j).edit hids hr f
    · rw [s.units_after_ne hj]
      exact hi.tracks j
  · intro j r' hr'
    by_cases hj : j = i
    · subst hj
      rw [Shared.units_after_self, recent_cons_self, hend, UnitOfWork.buffer_edit]
      by_cases hrr : r' = r
      · subst hrr
        rw [if_pos rfl]
        exact hf _ _ (hi.mirrors j r' hr')
      · have hid : r'.id ≠ r.id := fun hid => hrr (hr'.eq_of_id hids hr hid)
        rw [if_neg hid]
        exact (hi.mirrors j r' hr').skip (hon r' hrr)
    · rw [s.units_after_ne hj, recent_cons_ne (Ne.symm hj)]
      exact hi.mirrors j r' hr'
  · rw [hcontents]
    exact hi.stores

/-- A step that ends the unit of one thread. -/
theorem Inv.ended (hi : Inv ids start h s) (i : ι) {u : UnitOfWork CacheRef} {p : Pool}
    {a : Action} (hend : a.isEnd = true) (hu : Tracks ids u)
    (hp : p.stores.length = s.pool.stores.length) (hempty : ∀ id, u.buffer id = .empty)
    (hstores : ∀ r, IsStore ids r → (p.storeAt r.store).find? = contents start ((i, a) :: h) r) :
    Inv ids start ((i, a) :: h) (s.after i u p) := by
  refine ⟨hp.trans hi.length, ?_, ?_, hstores⟩
  · intro j
    by_cases hj : j = i
    · subst hj
      rw [Shared.units_after_self]
      exact hu
    · rw [s.units_after_ne hj]
      exact hi.tracks j
  · intro j r hr
    by_cases hj : j = i
    · subst hj
      rw [Shared.units_after_self, recent_cons_self, hend, hempty]
      exact mirrors_empty r
    · rw [s.units_after_ne hj, recent_cons_ne (Ne.symm hj)]
      exact hi.mirrors j r hr

theorem Inv.reaches (hids : ids.Nodup) (hp : p₀.stores.length = ids.length)
    (hr : Reaches ids p₀ h s) :
    Inv ids (fun r => (p₀.storeAt r.store).find?) h s := by
  -- One case for each kind of call; only the ends of units concern more than one buffer.
  induction hr with
  | start =>
    refine ⟨hp, ?_, ?_, ?_⟩
    · intro i id r b hb
      cases hb
    · intro i r _
      exact mirrors_empty r
    · intro r _
      rfl
  | @get h s i r k c e v e' u p hs hr hrun ih =>
    rw [UnitOfWork.get_store hids ih.length (ih.tracks i) hr] at hrun
    cases hrun
    refine ih.edit hids i hr rfl rfl ?_ ?_
    · intro r' hne
      simpa [Action.isOn] using hne.symm
    · intro b actions hb
      exact hb.get k _
  | @put h s i r k x c e e' u p hs hr hrun ih =>
    rw [UnitOfWork.put_store hr] at hrun
    cases hrun
    refine ih.edit hids i hr rfl rfl ?_ ?_
    · intro r' hne
      simpa [Action.isOn] using hne.symm
    · intro b actions hb
      exact hb.put k x
  | @clear h s i r c e e' u p hs hr hrun ih =>
    rw [UnitOfWork.clear_store hr] at hrun
    cases hrun
    refine ih.edit hids i hr rfl rfl ?_ ?_
    · intro r' hne
      simpa [Action.isOn] using hne.symm
    · intro b actions hb
      exact hb.requestClear
  | @commit h s i order misses c e e' u p hs ho hm hrun ih =>
    obtain ⟨u', p', hrun', htracks, hlength, hempty, hstores⟩ :=
      UnitOfWork.commitWith_store (c := c) (e := e) hids ih.length (ih.tracks i) ho hm
    rw [hrun'] at hrun
    cases hrun
    refine ih.ended i rfl htracks hlength hempty ?_
    intro r hr
    -- The plan of a buffer has the net effect of the actions that it mirrors.
    rw [hstores r hr, UnitOfWork.committed, (ih.mirrors i r hr).find?_plan (hm _), ih.stores r hr]
    rfl
  | @rollback h s i c e e' u p hs hrun ih =>
    obtain ⟨u', hrun', htracks, hempty⟩ :=
      UnitOfWork.rollback_store (c := c) (e := e) ih.length (ih.tracks i)
    rw [hrun'] at hrun
    cases hrun
    exact ih.ended i rfl htracks rfl hempty ih.stores

/-! ## Isolation -/

/-- At every point of every order of calls the stores hold the fold of the
commits so far; every read ends with nothing if its unit has a clear pending on
the cache, and else with the shared value of that moment; every commit and every
rollback ends without an error. -/
theorem contents_eq_fold_of_commits (hids : ids.Nodup) (hp : p₀.stores.length = ids.length)
    (hs : Reaches ids p₀ h s) :
    (∀ r, IsStore ids r → (s.pool.storeAt r.store).find? =
      contents (fun r => (p₀.storeAt r.store).find?) h r) ∧
    (∀ i r k c e, IsStore ids r → ∃ u,
      UnitOfWork.get Pool.cache r k c ⟨e, (s.units i, s.pool)⟩ =
        .done (.ok (if .clear r ∈ recent i h then none else (s.pool.storeAt r.store).lookup k))
          ⟨e, (u, s.pool)⟩) ∧
    (∀ i order misses c e, (order (s.units i)).Perm (s.units i).touched →
      (∀ b : Buffer, (misses b).Perm b.misses) → ∃ u p,
        UnitOfWork.commitWith order misses Pool.cache c ⟨e, (s.units i, s.pool)⟩ =
          .done (.ok ()) ⟨e, (u, p)⟩) ∧
    (∀ i c e, ∃ u, UnitOfWork.rollback Pool.cache c ⟨e, (s.units i, s.pool)⟩ =
      (.ok (), ⟨e, (u, s.pool)⟩)) := by
  have hi := Inv.reaches hids hp hs
  refine ⟨hi.stores, ?_, ?_, ?_⟩
  · intro i r k c e hr
    have hclear := (hi.mirrors i r hr).clear
    rw [UnitOfWork.get_store hids hi.length (hi.tracks i) hr]
    refine ⟨(s.units i).edit r r.id
      (·.afterGet k ((s.pool.storeAt r.store).lookup k)), ?_⟩
    congr 2
    by_cases hc : .clear r ∈ recent i h
    · rw [if_pos hc, if_pos (hclear.2 hc)]
    · rw [if_neg hc, if_neg (fun h => hc (hclear.1 h))]
  · intro i order misses c e ho hm
    obtain ⟨u, p, hrun, -⟩ :=
      UnitOfWork.commitWith_store (c := c) (e := e) hids hi.length (hi.tracks i) ho hm
    exact ⟨u, p, hrun⟩
  · intro i c e
    obtain ⟨u, hrun, -⟩ :=
      UnitOfWork.rollback_store (c := c) (e := e) hi.length (hi.tracks i)
    exact ⟨u, hrun⟩

/-! ## Longer histories -/

/-- In every reachable state every unit can make each of the calls. -/
theorem Reaches.exists_put (hs : Reaches ids p₀ h s) (i : ι) {r : CacheRef} (hr : IsStore ids r)
    (k : CacheKey) (x : Option Value) : ∃ s', Reaches ids p₀ ((i, .put r k x) :: h) s' :=
  ⟨_, .put (c := ⟨"main", []⟩) (e := {}) hs hr (UnitOfWork.put_store hr k x)⟩

theorem Reaches.exists_clear (hs : Reaches ids p₀ h s) (i : ι) {r : CacheRef}
    (hr : IsStore ids r) : ∃ s', Reaches ids p₀ ((i, .clear r) :: h) s' :=
  ⟨_, .clear (c := ⟨"main", []⟩) (e := {}) hs hr (UnitOfWork.clear_store hr)⟩

theorem Reaches.exists_get (hids : ids.Nodup) (hp : p₀.stores.length = ids.length)
    (hs : Reaches ids p₀ h s) (i : ι) {r : CacheRef} (hr : IsStore ids r) (k : CacheKey) :
    ∃ s', Reaches ids p₀
      ((i, .get r k (contents (fun r => (p₀.storeAt r.store).find?) h r k).join) :: h) s' := by
  have hi := Inv.reaches hids hp hs
  rw [← hi.stores r hr]
  exact ⟨_, .get (c := ⟨"main", []⟩) (e := {}) hs hr
    (UnitOfWork.get_store hids hi.length (hi.tracks i) hr k)⟩

theorem Reaches.exists_commit (hids : ids.Nodup) (hp : p₀.stores.length = ids.length)
    (hs : Reaches ids p₀ h s) (i : ι) : ∃ s', Reaches ids p₀ ((i, .commit) :: h) s' := by
  have hi := Inv.reaches hids hp hs
  obtain ⟨u, p, hrun, -⟩ := UnitOfWork.commitWith_store (c := ⟨"main", []⟩) (e := {}) hids
    hi.length (hi.tracks i) (List.Perm.refl (s.units i).touched) fun b => List.Perm.refl b.misses
  exact ⟨_, .commit hs (List.Perm.refl _) (fun b => List.Perm.refl _) hrun⟩

section Sample

/-- The store of one namespace. -/
def users : CacheRef := ⟨"users", 0, []⟩

/-- The value that a unit puts. -/
def ada : Value := .data 0 (.row ⟨1, "ada"⟩) true

/-- A unit clears the store and puts a value; before its commit another unit reads the key. -/
def beforeCommits : History Bool :=
  [(true, .get users .null none), (false, .put users .null (some ada)), (false, .clear users)]

/-- The other unit does not see the value before the commit, and its own commit, which comes
last, puts an absence in the place of the value. -/
theorem contents_eq_fold_of_commits_miss :
    ∃ s s' : Shared Bool,
      Reaches ["users"] { stores := [.empty] } ((false, .commit) :: beforeCommits) s ∧
        (s.pool.storeAt users.store).find? .null = some (some ada) ∧
      Reaches ["users"] { stores := [.empty] }
          ((true, .commit) :: (false, .commit) :: beforeCommits) s' ∧
        (s'.pool.storeAt users.store).find? .null = some none := by
  have hids : ["users"].Nodup := by decide
  have husers : IsStore ["users"] users := ⟨rfl, rfl⟩
  have hstart : Reaches (ι := Bool) ["users"] { stores := [.empty] } [] _ := .start
  obtain ⟨s₁, hclear⟩ := hstart.exists_clear false husers
  obtain ⟨s₂, hput⟩ := hclear.exists_put false husers .null (some ada)
  obtain ⟨s₃, hread⟩ := hput.exists_get hids rfl true husers .null
  obtain ⟨s, hcommit⟩ := hread.exists_commit hids rfl false
  obtain ⟨s', hlast⟩ := hcommit.exists_commit hids rfl true
  have hstores := (contents_eq_fold_of_commits hids rfl hcommit).1 users husers
  have hstores' := (contents_eq_fold_of_commits hids rfl hlast).1 users husers
  exact ⟨s, s', hcommit, congrFun hstores .null, hlast, congrFun hstores' .null⟩

end Sample

end Inv

end QueryCache.Isolation
