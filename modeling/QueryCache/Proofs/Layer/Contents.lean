import Mathlib
import QueryCache.Proofs.Cache.Honesty
import QueryCache.Proofs.Cache.Triple

/-!
# What calls do to the entries of a cache

At the bottom of every stack is a store.  A clear empties it, whatever layers
are around it.  The other calls on a cache with a bound on its entries, and
without a schedule, do the following to the store.  A read leaves it alone.  A
put stores its value, or a snapshot of it, and takes at most one other key out; a
value that has no snapshot is refused by a cache of copies, and a refused put
leaves the store alone.

1. the store at the bottom
2. a clear of any cache
3. what a put may add
4. the contract of the other calls
5. the bounded layers
6. the layers around them
7. built caches
-/

namespace QueryCache

/-! ## The store at the bottom -/

/-- The store of a stack. -/
def Stack.storeOf : (layers : List Layer) → StateOf layers → Store
  | [], s => s
  | _ :: rest, (s : _ × StateOf rest) => storeOf rest s.2

/-- A stack serves the namespace of its store. -/
theorem Stack.id_cacheOf (id : String) (layers : List Layer) : (cacheOf id layers).id = id := by
  induction layers with
  | nil => rfl
  | cons l rest ih => cases l <;> exact ih

/-! ## A clear of any cache -/

/-- A clear of the cache ends well and empties the store at its bottom. -/
def Empties {σ : Type} (d : Cache σ) (store : σ → Store) : Prop :=
  d.clear.Hoare (fun _ => True) fun r s => r = .ok () ∧ store s = .empty

section Empties

variable {σ lam : Type} {d : Cache σ} {store : σ → Store}

/-- A clear that cannot fail, and then a change of the layer alone. -/
theorem Empties.bind_modifyLayer (h : Empties d store) (held : lam → List Value) (g : lam → lam) :
    ((d.under held).clear >>= fun _ => .ofOp (Op.modifyLayer g)).Hoare (fun _ => True)
      fun r s => r = .ok () ∧ store s.2 = .empty :=
  (h.below held).bind_ok (.ofOp (.modifyLayer fun _ hs => ⟨rfl, hs⟩))

/-- A change of the layer alone, and then a clear. -/
theorem Empties.after_modifyLayer (h : Empties d store) (held : lam → List Value) (g : lam → lam) :
    (Await.ofOp (Op.modifyLayer g) >>= fun _ => (d.under held).clear).Hoare (fun _ => True)
      fun r s => r = .ok () ∧ store s.2 = .empty := by
  have hmodify : (Await.ofOp (Op.modifyLayer g) : CacheCall (lam × σ) Unit).Hoare (fun _ => True)
      fun r _ => r = .ok () ∧ True := .ofOp (.modifyLayer fun _ _ => ⟨rfl, trivial⟩)
  exact hmodify.bind_ok (h.below held)

theorem Store.empties (id : String) : Empties (Store.cache id) fun s => s := by
  rintro t w - c -
  exact ⟨rfl, rfl⟩

theorem Gate.empties (h : Empties d store) : Empties (Gate.around d) fun s => store s.2 := by
  rintro t w -
  show (alone [] (below d).clear).Meets t w _
  refine Gate.pass_meets ?_ fun _ _ _ _ _ hs => hs
  intro e l _
  exact h.below (fun _ => []) t _ trivial

/-- The clear below comes after the note of the time. -/
theorem Scheduled.empties (h : Empties d store) (interval : Duration) :
    Empties (Scheduled.around interval d) fun s => store s.2 := by
  rintro t w -
  refine Await.Meets.bind_ofOp ?_
  intro _ _
  have hnote : (Gate.pass LastClear.gate LastClear.setGate [] (Await.ofOp (Op.modifyLayer
      (LastClear.note w.env.now)))).Meets t
      ⟨{ w.env with now := w.env.now + Environment.readingTime }, w.state⟩
      fun r (_ : World (LastClear × σ)) => r = (.ok () : Except CacheError Unit) := by
    refine Gate.pass_meets ?_ fun _ _ _ _ _ hs => hs
    intro e l _
    exact Await.Meets.modifyLayer rfl
  refine Await.Meets.bind_of hnote ?_ ?_
  · intro _ w₁ _
    exact h.below (fun _ => []) t w₁ trivial
  · intro e w₁ hok
    cases hok

end Empties

/-- The layer refuses no call on its own. -/
def Layer.IsOpen : Layer → Prop
  | .probe _ _ => False
  | _ => True

/-- A clear of a stack empties its store. -/
theorem Stack.empties (id : String) {layers : List Layer} (hopen : ∀ l ∈ layers, l.IsOpen) :
    Empties (cacheOf id layers) (storeOf layers) := by
  induction layers with
  | nil => exact Store.empties id
  | cons l rest ih =>
    have hrest : Empties (cacheOf id rest) (storeOf rest) :=
      ih fun l' hl' => hopen l' (List.mem_cons_of_mem _ hl')
    cases l with
    | fifo capacity => exact hrest.bind_modifyLayer _ _
    | lru capacity => exact hrest.bind_modifyLayer _ _
    | reference r hardLinks => exact hrest.after_modifyLayer _ _
    | serialized => exact hrest.below _
    | statistics => exact hrest.below _
    | synchronized => exact Gate.empties hrest
    | scheduled interval => exact Scheduled.empties hrest interval
    | blocking timeout => exact hrest.below _
    | probe name refusals => exact (hopen _ List.mem_cons_self).elim

/-! ## What a put may add -/

/-- The store has entries under these keys at most. -/
def Store.Within (K : CacheKey → Prop) (m : Store) : Prop := ∀ k y, m.find? k = some y → K k

theorem Store.within_empty (K : CacheKey → Prop) : Within K .empty := by
  intro k y h
  cases h

theorem Store.Within.insert {K : CacheKey → Prop} {m : Store} (h : m.Within K) {k : CacheKey}
    (hk : K k) (x : Option Value) : Store.Within K (m.insert k x) := by
  intro k' y hy
  rw [Entries.find?_insert] at hy
  split at hy
  · rename_i heq
    rw [heq]
    exact hk
  · exact h k' y hy

theorem Store.Within.erase {K : CacheKey → Prop} {m : Store} (h : m.Within K) (k : CacheKey) :
    Store.Within K (m.erase k) := by
  intro k' y hy
  rw [Entries.find?_erase] at hy
  split at hy
  · cases hy
  · exact h k' y hy

/-- A put adds no entry but its own, and a removal adds none. -/
structure AddsOwn {σ : Type} (d : Cache σ) (store : σ → Store) : Prop where
  put : ∀ {K : CacheKey → Prop} {k} x, K k → (d.put k x).Keeps fun s => (store s).Within K
  remove : ∀ {K : CacheKey → Prop} k, (d.remove k).Keeps fun s => (store s).Within K

section AddsOwn

variable {σ lam : Type} {d : Cache σ} {store : σ → Store}

theorem AddsOwn.under (h : AddsOwn d store) (held : lam → List Value) :
    AddsOwn (d.under held) fun s => store s.2 where
  put x hk := (h.put x hk).below held
  remove k := (h.remove k).below held

/-- An operation of a layer alone adds no entry. -/
theorem within_ofLayer {ε α : Type} {m : Op ε (lam × σ) α} {K : CacheKey → Prop}
    (h : ∀ c w, (m c w).2.state.2 = w.state.2) :
    (Await.ofOp m).Keeps fun s => (store s.2).Within K :=
  @Await.Keeps.ofLayer _ σ lam _ (fun s => (store s).Within K) m h

theorem Store.addsOwn (id : String) : AddsOwn (Store.cache id) fun s => s where
  put x hk := by
    intro t w hw c _
    exact Store.Within.insert hw hk x
  remove k := by
    intro t w hw c _
    exact Store.Within.erase hw k

theorem Fifo.addsOwn (h : AddsOwn d store) : AddsOwn (Fifo.around d) fun s => store s.2 where
  put x hk := by
    refine .bind (within_ofLayer fun _ _ => rfl) fun oldest => ?_
    cases oldest with
    | some oldest => exact .bind ((h.remove oldest).below _).holding fun _ => (h.put x hk).below _
    | none => exact (h.put x hk).below _
  remove := (h.under _).remove

theorem Lru.addsOwn (h : AddsOwn d store) : AddsOwn (Lru.around d) fun s => store s.2 where
  put x hk := by
    refine .bind ((h.put x hk).below _) fun _ => ?_
    refine .bind (within_ofLayer fun _ _ => rfl) fun eldest => ?_
    cases eldest with
    | some eldest => exact .bind ((h.remove eldest).below _) fun _ => .pure
    | none => exact .pure
  remove := (h.under _).remove

/-- Taking out keys whose value nobody owns adds no entry. -/
theorem Reference.collect_keeps (h : AddsOwn d store) (r : Reachability) (K : CacheKey → Prop) :
    (collect r d).Keeps fun s => (store s.2).Within K := by
  have hall : ∀ keys, (removeAll d keys).Keeps fun s => (store s.2).Within K := by
    intro keys
    induction keys with
    | nil => exact .pure
    | cons key rest ih => exact .bind ((h.remove key).below _) fun _ => ih
  exact .bind (within_ofLayer fun _ _ => rfl) hall

theorem Reference.addsOwn (h : AddsOwn d store) (r : Reachability) :
    AddsOwn (Reference.around r d) fun s => store s.2 where
  put x hk := by
    refine .holding (.bind (collect_keeps h r _) fun _ => ?_)
    refine .bind (within_ofLayer fun _ _ => rfl) fun generation => ?_
    cases x with
    | none => exact .bind (within_ofLayer fun _ _ => rfl) fun _ => (h.put none hk).below _
    | some v =>
      refine .bind (within_ofLayer fun _ _ => rfl) fun handle => ?_
      exact .bind (within_ofLayer fun _ _ => rfl) fun _ => (h.put (some handle) hk).below _
  remove k := by
    refine .bind (collect_keeps h r _) fun _ => ?_
    refine .bind (within_ofLayer fun _ _ => rfl) fun _ => ?_
    refine .bind (within_ofLayer fun _ _ => rfl) fun _ => ?_
    refine .bind ((h.remove k).below _) fun found => ?_
    cases found with
    | none => exact .pure
    | some stored => exact within_ofLayer fun _ _ => by cases stored <;> rfl

/-- Restoring what was found changes no state. -/
theorem Serialized.restoreFound_still (id : String) (found : Option Value) (c : Caller)
    (w : World σ) : ((restoreFound id found : CacheOp σ (Option Value)) c w).2.state = w.state := by
  cases found with
  | none => rfl
  | some stored =>
    cases stored with
    | snapshot a s =>
      cases hr : s.restore with
      | ok d => rw [restoreFound_of_ok hr]
      | error e => rw [restoreFound_of_error hr]
    | data a d b => rfl
    | handle a v => rfl

theorem Serialized.save_still (id : String) (v : Value) (c : Caller) (w : World σ) :
    ((save id v : CacheOp σ Value) c w).2.state = w.state := by
  cases hv : v.toSnapshot with
  | ok sn => rw [save_of_ok hv]
  | error e => rw [save_of_error hv]

theorem Serialized.addsOwn (h : AddsOwn d store) : AddsOwn (Serialized.around d) store where
  put x hk := by
    cases x with
    | none => exact h.put none hk
    | some v => exact .bind (.ofStill (save_still d.id v)) fun stored => h.put (some stored) hk
  remove k := .bind (h.remove k) fun found => .ofStill (restoreFound_still d.id found)

theorem Gate.pass_within {α : Type} {K : CacheKey → Prop} {gate : lam → Gate}
    {set : Gate → lam → lam} {values : List Value} {m : CacheCall (lam × σ) α}
    (h : m.Keeps fun s => (store s.2).Within K) :
    (Gate.pass gate set values m).Keeps fun s => (store s.2).Within K := by
  intro t w hw
  exact Gate.pass_meets (fun e l _ => h t _ hw) fun _ _ _ _ _ hs => hs

theorem ReadCounts.addsOwn (h : AddsOwn d store) :
    AddsOwn (ReadCounts.around d) fun s => store s.2 where
  put := (h.under _).put
  remove := (h.under _).remove

theorem Gate.addsOwn (h : AddsOwn d store) : AddsOwn (Gate.around d) fun s => store s.2 where
  put {K k} x hk := by
    show (alone x.toList ((below d).put k x)).Keeps _
    exact pass_within ((h.put x hk).below _)
  remove k := by
    show (alone [] ((below d).remove k)).Keeps _
    exact pass_within ((h.remove k).below _)

/-- A clear that may be due takes entries out. -/
theorem Scheduled.clearWhenDue_keeps (he : Empties d store) (interval : Duration)
    (values : List Value) (K : CacheKey → Prop) :
    (clearWhenDue interval d values).Keeps fun s => (store s.2).Within K := by
  have hclear : (below d).clear.Keeps fun s => (store s.2).Within K := by
    refine Await.Hoare.mono (he.below _) (fun _ _ => trivial) ?_
    rintro _ s ⟨-, hs⟩
    rw [hs]
    exact Store.within_empty K
  refine .holding (Gate.pass_within ?_)
  refine .bind (within_ofLayer fun _ _ => rfl) fun now => ?_
  refine .bind (within_ofLayer fun _ _ => rfl) fun s => ?_
  split
  · exact .bind (within_ofLayer fun _ _ => rfl) fun _ => .bind hclear fun _ => .pure
  · exact .pure

theorem Scheduled.addsOwn (h : AddsOwn d store) (he : Empties d store) (interval : Duration) :
    AddsOwn (Scheduled.around interval d) fun s => store s.2 where
  put x hk := .bind (clearWhenDue_keeps he interval _ _) fun _ => (h.put x hk).below _
  remove k := .bind (clearWhenDue_keeps he interval _ _) fun _ => (h.remove k).below _

theorem Blocking.addsOwn (h : AddsOwn d store) (timeout : Option Duration) :
    AddsOwn (Blocking.around timeout d) fun s => store s.2 where
  put x hk := by
    refine .bind ((h.put x hk).below _).result fun r => ?_
    exact .bind (within_ofLayer fun _ _ => rfl) fun _ => within_ofLayer fun _ _ => rfl
  remove k := .bind (within_ofLayer fun _ _ => rfl) fun _ => .pure

end AddsOwn

/-- Puts under some keys add no entry under another one. -/
theorem AddsOwn.run {σ : Type} {d : Cache σ} {store : σ → Store} (h : AddsOwn d store)
    {K : CacheKey → Prop} {w w' : World σ} {events : List Event} (hrun : Run d w events w')
    (hevents : ∀ event ∈ events, ∃ k x r, event = .put k x r ∧ K k)
    (hw : (store w.state).Within K) : (store w'.state).Within K := by
  induction hrun with
  | start => exact hw
  | @call events w₁ w₂ e c event _ _ ho ih =>
    have hbefore := ih fun event hevent => hevents event (List.mem_append_left _ hevent)
    obtain ⟨k, x, r, rfl, hk⟩ := hevents event (List.mem_append_right _ List.mem_cons_self)
    exact Await.Hoare.settles (h.put x hk) ho hbefore

/-- A put into a stack adds no entry but its own. -/
theorem Stack.addsOwn (id : String) {layers : List Layer} (hopen : ∀ l ∈ layers, l.IsOpen) :
    AddsOwn (cacheOf id layers) (storeOf layers) := by
  induction layers with
  | nil => exact Store.addsOwn id
  | cons l rest ih =>
    have hopen' : ∀ l ∈ rest, l.IsOpen := fun l' hl' => hopen l' (List.mem_cons_of_mem _ hl')
    have hrest := ih hopen'
    cases l with
    | fifo capacity => exact Fifo.addsOwn hrest
    | lru capacity => exact Lru.addsOwn hrest
    | reference r hardLinks => exact Reference.addsOwn hrest r
    | serialized => exact (Serialized.addsOwn hrest).under _
    | statistics => exact ReadCounts.addsOwn hrest
    | synchronized => exact Gate.addsOwn hrest
    | scheduled interval => exact Scheduled.addsOwn hrest (Stack.empties id hopen') interval
    | blocking timeout => exact Blocking.addsOwn hrest timeout
    | probe name refusals => exact (hopen _ List.mem_cons_self).elim

/-! ## The contract of the other calls -/

/-- What a cache keeps for a value: the value, or a snapshot of it. -/
def Kept (copies : Bool) (x y : Option Value) : Prop :=
  if copies then
    (x = none ∧ y = none) ∨
      ∃ v a s, x = some v ∧ v.toSnapshot = .ok s ∧ y = some (.snapshot a s)
  else y = x

/-- The second store is the first one after a put: the key has its entry, and at
most one other key has left. -/
structure Written (copies : Bool) (k : CacheKey) (x : Option Value) (m m' : Store) : Prop where
  entry : ∃ y, Kept copies x y ∧ m'.find? k = some y
  rest : ∃ victim, ∀ k', k' ≠ k → m'.find? k' = if victim = some k' then none else m.find? k'

/-- How a put ends: it is made, or it is refused and changes nothing. -/
def PutEnds (copies : Bool) (k : CacheKey) (x : Option Value) (m : Store)
    (r : Except CacheError Unit) (m' : Store) : Prop :=
  (Storable copies x ∧ r = .ok () ∧ Written copies k x m m') ∨
    (¬ Storable copies x ∧ (∃ e, r = .error e) ∧ m' = m)

/-- What the calls on a cache, but for a clear, do to the store at its bottom. -/
structure Records {σ : Type} (d : Cache σ) (store : σ → Store) (copies : Bool) : Prop where
  put : ∀ m k x, (d.put k x).Hoare (fun s => store s = m) fun r s =>
    PutEnds copies k x m r (store s)
  get : ∀ m k, (d.get k).Keeps fun s => store s = m
  releaseLock : ∀ m k, (d.releaseLock k).Hoare (fun s => store s = m) fun _ s => store s = m

section Layers

variable {σ lam : Type} {d : Cache σ} {store : σ → Store} {copies : Bool}

/-- An operation of a layer alone changes no entry. -/
theorem same_ofLayer {ε α : Type} {op : Op ε (lam × σ) α} {m : Store}
    (h : ∀ c w, (op c w).2.state.2 = w.state.2) : (Await.ofOp op).Keeps fun s => store s.2 = m :=
  @Await.Keeps.ofLayer _ σ lam _ (fun s => store s = m) op h

/-- The contract holds below a layer too. -/
theorem Records.under (h : Records d store copies) (held : lam → List Value) :
    Records (d.under held) (fun s => store s.2) copies where
  put m k x := (h.put m k x).below held
  get m k := (h.get m k).below held
  releaseLock m k := by
    intro t w hw
    exact Op.Meets.focus (h.releaseLock m k t _ hw)

/-! ## The bounded layers -/

theorem kept_self (x : Option Value) : Kept false x x := rfl

/-- A put without an eviction. -/
theorem putEnds_insert (k : CacheKey) (x : Option Value) (m : Store) :
    PutEnds false k x m (.ok ()) (m.insert k x) := by
  refine .inl ⟨storable_of_not_copies x, rfl, ⟨x, kept_self x, by simp⟩, none, ?_⟩
  intro k' hk'
  simp [hk']

/-- A put after the eviction of a key, which may be the one that is put. -/
theorem putEnds_erase_insert (k oldest : CacheKey) (x : Option Value) (m : Store) :
    PutEnds false k x m (.ok ()) ((m.erase oldest).insert k x) := by
  refine .inl ⟨storable_of_not_copies x, rfl, ⟨x, kept_self x, by simp⟩, some oldest, ?_⟩
  intro k' hk'
  by_cases hv : oldest = k'
  · simp [hk', hv]
  · have hv' : ¬ k' = oldest := fun heq => hv heq.symm
    simp [hk', hv, hv']

/-- A put before the eviction of another key. -/
theorem putEnds_insert_erase {k eldest : CacheKey} (hne : eldest ≠ k) (x : Option Value)
    (m : Store) : PutEnds false k x m (.ok ()) ((m.insert k x).erase eldest) := by
  have hk : ¬ k = eldest := fun heq => hne heq.symm
  refine .inl ⟨storable_of_not_copies x, rfl, ⟨x, kept_self x, by simp [hk]⟩, some eldest, ?_⟩
  intro k' hk'
  by_cases hv : eldest = k'
  · simp [hv]
  · have hv' : ¬ k' = eldest := fun heq => hv heq.symm
    simp [hk', hv, hv']

/-- A key leaves before the put, or none does. -/
theorem Fifo.records (id : String) :
    Records (Fifo.around (Store.cache id)) (fun s => s.2) false where
  put := by
    rintro m k x t ⟨e, s, m₀⟩ rfl
    refine Await.Meets.bind_updateLayer ?_
    cases (enqueue k s).1 with
    | some oldest =>
      rintro c -
      exact putEnds_erase_insert k oldest x m₀
    | none =>
      rintro c -
      exact putEnds_insert k x m₀
  get := by
    rintro m k t ⟨e, s, m₀⟩ rfl c -
    rfl
  releaseLock := by
    rintro m k t ⟨e, s, m₀⟩ rfl c -
    rfl

/-- The key that leaves a list for another one is not that one. -/
theorem Recency.ne_of_push {k eldest : CacheKey} {s : Recency}
    (h : (s.push k).1 = some eldest) : eldest ≠ k := by
  unfold push at h
  by_cases hmem : k ∈ s.keys
  · rw [if_pos hmem] at h
    cases h
  · rw [if_neg hmem] at h
    split at h
    · cases h
    · rintro rfl
      exact hmem (List.mem_of_getLast? h)

/-- A key leaves after the put, or none does. -/
theorem Lru.records (id : String) :
    Records (Lru.around (Store.cache id)) (fun s => s.2) false where
  put := by
    rintro m k x t ⟨e, s, m₀⟩ rfl
    have hput : (((Store.cache id).under fun _ : Recency => []).put k x).Meets t ⟨e, (s, m₀)⟩
        fun r w => r = .ok () ∧ w.state = (s, m₀.insert k x) := fun _ _ => ⟨rfl, rfl⟩
    refine Await.Meets.bind_of hput ?_ ?_
    · rintro _ ⟨e', s', m'⟩ ⟨-, hw⟩
      cases hw
      refine Await.Meets.bind_updateLayer ?_
      cases hpush : (Recency.push k s).1 with
      | some eldest =>
        rintro c -
        exact putEnds_insert_erase (Recency.ne_of_push hpush) x m₀
      | none =>
        rintro c -
        exact putEnds_insert k x m₀
    · rintro e' w ⟨hok, -⟩
      cases hok
  get := by
    rintro m k t ⟨e, s, m₀⟩ rfl c -
    rfl
  releaseLock := by
    rintro m k t ⟨e, s, m₀⟩ rfl c -
    rfl

/-! ## The layers around them -/

/-- A put of a snapshot is, for a layer of copies, a put of the value. -/
theorem PutEnds.of_kept {k : CacheKey} {x x' : Option Value} {m m' : Store}
    {r : Except CacheError Unit} (h : PutEnds false k x' m r m') (hx : Storable true x)
    (hkept : Kept true x x') : PutEnds true k x m r m' := by
  rcases h with ⟨-, hr, hentry, hrest⟩ | ⟨hnot, -⟩
  · obtain ⟨y, rfl, hy⟩ := hentry
    exact .inl ⟨hx, hr, ⟨_, hkept, hy⟩, hrest⟩
  · exact absurd (storable_of_not_copies x') hnot

/-- A layer of copies keeps a snapshot of each value, and refuses a value that
has none. -/
theorem Serialized.records (h : Records d store false) :
    Records (Serialized.around d) store true where
  put := by
    intro m k x t w hw
    cases x with
    | none =>
      refine (h.put m k none t w hw).mono ?_
      intro r w' hput
      exact hput.of_kept (storable_none true) (.inl ⟨rfl, rfl⟩)
    | some v =>
      refine Await.Meets.bind_ofOp ?_
      intro c _
      cases hv : v.toSnapshot with
      | error e =>
        rw [save_of_error hv]
        refine .inr ⟨?_, ⟨_, rfl⟩, hw⟩
        intro hstorable
        obtain ⟨sn, hsn⟩ := hstorable rfl v rfl
        rw [hv] at hsn
        cases hsn
      | ok sn =>
        have hstorable : Storable true (some v) := by
          rintro - v' hv'
          cases hv'
          exact ⟨sn, hv⟩
        rw [save_of_ok hv]
        refine Await.Meets.mono (h.put m k _ t _ ?_) ?_
        · exact hw
        · intro r w' hput
          exact hput.of_kept hstorable (.inr ⟨v, _, sn, rfl, hv, rfl⟩)
  get m k := .bind (h.get m k) fun found => .ofStill (restoreFound_still d.id found)
  releaseLock := h.releaseLock

theorem ReadCounts.records (h : Records d store copies) :
    Records (ReadCounts.around d) (fun s => store s.2) copies where
  put := (h.under fun _ => []).put
  get m k := by
    refine .bind (same_ofLayer fun _ _ => rfl) fun _ => ?_
    refine .bind ((h.get m k).below _) fun found => ?_
    cases found with
    | none => exact .pure
    | some v => exact .bind (same_ofLayer fun _ _ => rfl) fun _ => .pure
  releaseLock := (h.under fun _ => []).releaseLock

theorem Gate.records (h : Records d store copies) :
    Records (Gate.around d) (fun s => store s.2) copies where
  put := by
    intro m k x t w hw
    show (alone x.toList ((below d).put k x)).Meets t w _
    refine Gate.pass_meets ?_ fun _ _ _ _ _ hs => hs
    intro e l _
    exact (h.under fun _ => []).put m k x t _ hw
  get := by
    intro m k t w hw
    show (alone [] ((below d).get k)).Meets t w _
    refine Gate.pass_meets ?_ fun _ _ _ _ _ hs => hs
    intro e l _
    exact (h.under fun _ => []).get m k t _ hw
  releaseLock := (h.under fun _ => []).releaseLock

/-- Giving a lock back touches nothing but the locks. -/
theorem Blocking.release_keeps {ε : Type} {P : σ → Prop} (k : CacheKey) :
    (release k : Op ε (KeyLocks × σ) Unit).Hoare (fun s => P s.2)
      fun r s => r = .ok () ∧ P s.2 := by
  intro t w hw c _
  exact ⟨rfl, hw⟩

/-- Waiting for a lock touches nothing but the locks. -/
theorem Blocking.acquire_keeps (timeout : Option Duration) (id : String) (k : CacheKey)
    (m : Store) : (acquire timeout id k).Keeps fun s => store s.2 = m := by
  intro t w hw c _
  unfold acquire
  split
  · exact hw
  · intro c' e _ _ _
    dsimp only
    split
    · exact hw
    · exact hw

/-- Locks touch no entry. -/
theorem Blocking.records (h : Records d store copies) (timeout : Option Duration) :
    Records (Blocking.around timeout d) (fun s => store s.2) copies where
  put m k x := by
    refine ((h.under fun _ => []).put m k x).bind_result fun r => ?_
    have hrelease : (release k : CacheOp (KeyLocks × σ) Unit).Hoare
        (fun s => PutEnds copies k x m r (store s.2))
        fun r' s => r' = .ok () ∧ PutEnds copies k x m r (store s.2) :=
      release_keeps (P := fun s => PutEnds copies k x m r (store s)) k
    exact (Await.Hoare.ofOp hrelease).bind_ok (.ofOp (.ofExcept fun _ hs => hs))
  get m k := by
    refine .bind (acquire_keeps timeout d.id k m) fun _ => ?_
    refine .bind ((h.get m k).below _).result fun r => ?_
    cases r with
    | ok found =>
      cases found with
      | none => exact .pure
      | some v => exact .bind (same_ofLayer fun _ _ => rfl) fun _ => .pure
    | error e => exact .bind (same_ofLayer fun _ _ => rfl) fun _ => same_ofLayer fun _ _ => rfl
  releaseLock m k := by
    refine Op.Hoare.bind_ok (release_keeps (P := fun s => store s = m) k) ?_
    exact (h.under fun _ => []).releaseLock m k

end Layers

/-! ## Built caches -/

namespace CacheBuilder

variable {b : CacheBuilder} {s : Stack}

theorem isOpen_of_mem_outerLayers {l : Layer} (hl : l ∈ b.outerLayers) : l.IsOpen := by
  unfold outerLayers at hl
  simp only [List.mem_append, List.mem_cons, List.not_mem_nil, or_false] at hl
  -- Each setting adds one layer, or none.
  rcases hl with ((hl | hl) | rfl | rfl) | hl
  · split at hl
    · rw [List.mem_singleton.1 hl]
      trivial
    · cases hl
  · split at hl
    · rw [List.mem_singleton.1 hl]
      trivial
    · cases hl
  · trivial
  · trivial
  · split at hl
    · rw [List.mem_singleton.1 hl]
      trivial
    · cases hl

theorem isOpen_of_build (himpl : b.implementation = none) (hdec : b.decorators = [])
    (hb : b.build = .ok s) {l : Layer} (hl : l ∈ s.layers) : l.IsOpen := by
  obtain rfl := eq_of_build himpl hdec hb
  rcases List.mem_append.1 hl with hl | hl
  · exact isOpen_of_mem_outerLayers hl
  · rw [List.mem_singleton.1 hl]
    unfold evictionLayer
    cases b.eviction <;> trivial

/-- A clear of a built cache empties its store. -/
theorem empties_of_build (himpl : b.implementation = none) (hdec : b.decorators = [])
    (hb : b.build = .ok s) : Empties s.cache (Stack.storeOf s.layers) :=
  Stack.empties s.id fun _ hl => isOpen_of_build himpl hdec hb hl

/-- A put into a built cache adds no entry but its own. -/
theorem addsOwn_of_build (himpl : b.implementation = none) (hdec : b.decorators = [])
    (hb : b.build = .ok s) : AddsOwn s.cache (Stack.storeOf s.layers) :=
  Stack.addsOwn s.id fun _ hl => isOpen_of_build himpl hdec hb hl

/-- A cache with a bound on its entries, and without a schedule. -/
structure IsBounded (b : CacheBuilder) : Prop where
  eviction : b.eviction = .lru ∨ b.eviction = .fifo
  clearInterval : b.clearInterval = none

theorem records_evictionLayer (h : b.IsBounded) :
    Records (Stack.cacheOf b.id [b.evictionLayer]) (Stack.storeOf [b.evictionLayer]) false := by
  unfold evictionLayer
  rcases h.eviction with heq | heq
  · rw [heq]
    exact Lru.records b.id
  · rw [heq]
    exact Fifo.records b.id

/-- What the calls on a built cache do to its store. -/
theorem records_of_build (himpl : b.implementation = none) (hdec : b.decorators = [])
    (hb : b.build = .ok s) (h : b.IsBounded) :
    Records s.cache (Stack.storeOf s.layers) b.readWrite := by
  obtain rfl := eq_of_build himpl hdec hb
  have hevict := records_evictionLayer h
  -- From the inside out; each setting adds one layer, or none.
  have hcopies : Records
      (Stack.cacheOf b.id ((if b.readWrite then [.serialized] else []) ++ [b.evictionLayer]))
      (Stack.storeOf ((if b.readWrite then [.serialized] else []) ++ [b.evictionLayer]))
      b.readWrite := by
    cases b.readWrite with
    | true => exact (Serialized.records hevict).under fun _ : Unit => []
    | false => exact hevict
  have hgate := Gate.records (ReadCounts.records hcopies)
  show Records (Stack.cacheOf b.id (b.outerLayers ++ [b.evictionLayer]))
    (Stack.storeOf (b.outerLayers ++ [b.evictionLayer])) b.readWrite
  unfold outerLayers
  rw [h.clearInterval]
  cases b.blocking with
  | true => exact Blocking.records hgate b.blockingTimeout
  | false => exact hgate

end CacheBuilder

end QueryCache
