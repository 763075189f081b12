import Mathlib
import QueryCache.Layer.Reference
import QueryCache.Proofs.Cache.Resizable
import QueryCache.Proofs.Layer.Eviction

/-!
# The registry and the store

The layer that stores handles, around a store.  The registry of the layer and the store below
change at different moments of a call, and after every call they say the same: the registry has
the keys that are stored with a value, and the handle of each is the one that is stored.  A
collection can therefore be read off the store, and so can what is counted after it.

1. requests
2. handles in the environment
3. what calls do
4. parts of calls
5. the registry mirrors the store
6. whole calls
7. what a collection leaves
-/

namespace QueryCache

/-! ## Requests -/

@[simp]
theorem Caller.holding_nil (c : Caller) : c.holding [] = c := by
  rw [holding, List.append_nil]

namespace Request

/-- The values that a request hands on. -/
def handed : Request → List Value
  | put _ x => x.toList
  | _ => []

/-- The request begins with a collection. -/
def Sweeps : Request → Prop
  | put .. => True
  | remove _ => True
  | size => True
  | _ => False

end Request

/-! ## Handles in the environment -/

@[simp]
theorem Value.alloc_handle (a : Nat) (v : Value) : (handle a v).alloc = a := rfl

/-- A value stays alive with itself. -/
theorem Value.self_mem_reach (handles : Nat → HandleState) (v : Value) : v ∈ v.reach handles := by
  cases v <;> simp [reach]

namespace Environment

variable {e : Environment} {owners : List Value} {v : Value} {a : Nat}

/-- Who holds a value keeps it alive. -/
theorem isAlive_of_alloc {o : Value} (ho : o ∈ owners) (h : o.alloc = v.alloc) :
    e.isAlive owners v = true := by
  refine List.any_eq_true.2 ⟨o, ho, ?_⟩
  exact List.any_eq_true.2 ⟨o, o.self_mem_reach e.handles, by simp [h]⟩

/-- Who holds a strong handle keeps its target alive. -/
theorem isAlive_target (h : .handle a v ∈ owners) (hstrong : (e.handles a).strong = true) :
    e.isAlive owners v = true := by
  refine List.any_eq_true.2 ⟨_, h, List.any_eq_true.2 ⟨v, ?_, by simp⟩⟩
  simp [Value.reach, hstrong, v.self_mem_reach]

/-- A handle that is held gives its value as long as something keeps the value alive. -/
theorem deref_of_mem (h : .handle a v ∈ owners) :
    e.deref owners (.handle a v) = if e.isAlive owners v = true then some v else none := by
  rw [deref]
  by_cases hstrong : (e.handles a).strong = true
  · simp [hstrong, isAlive_target h hstrong]
  · simp [hstrong]

theorem isSome_deref_of_mem (h : .handle a v ∈ owners) :
    (e.deref owners (.handle a v)).isSome = e.isAlive owners v := by
  rw [deref_of_mem h]
  split <;> simp [*]

/-- What is stored is a handle, and something keeps its value alive. -/
def reaches (e : Environment) (owners : List Value) : Option Value → Bool
  | some (.handle _ target) => e.isAlive owners target
  | _ => false

/-- The environment in which the handles that have gone unread for too long are demoted. -/
def withoutIdle (e : Environment) (r : Reachability) (generation : Nat) (handles : List Value) :
    Environment :=
  { e with
    handles := fun a =>
      if handles.any (·.alloc == a) && r.isIdle generation (e.handles a).touched then
        { e.handles a with strong := false }
      else e.handles a }

theorem handles_withoutIdle (e : Environment) (r : Reachability) (generation : Nat)
    (handles : List Value) (a : Nat) : (e.withoutIdle r generation handles).handles a =
      if handles.any (·.alloc == a) && r.isIdle generation (e.handles a).touched then
        { e.handles a with strong := false }
      else e.handles a := rfl

/-- No demotion brings a value to life. -/
theorem isAlive_of_withoutIdle {r : Reachability} {generation : Nat} {handles : List Value}
    (h : (e.withoutIdle r generation handles).isAlive owners v = true) :
    e.isAlive owners v = true := by
  have hstrong : ∀ a, ((e.withoutIdle r generation handles).handles a).strong = true →
      (e.handles a).strong = true := by
    intro a ha
    rw [handles_withoutIdle] at ha
    split at ha
    · cases ha
    · exact ha
  have hreach : ∀ o : Value, o.reach (e.withoutIdle r generation handles).handles ⊆
      o.reach e.handles := by
    intro o
    induction o with
    | handle a target ih =>
      rw [Value.reach, Value.reach]
      refine List.cons_subset_cons _ ?_
      split
      · rw [if_pos (hstrong a ‹_›)]
        exact ih
      · exact List.nil_subset _
    | _ => exact List.Subset.refl _
  obtain ⟨o, ho, hv⟩ := List.any_eq_true.1 h
  obtain ⟨u, hu, hv⟩ := List.any_eq_true.1 hv
  exact List.any_eq_true.2 ⟨o, ho, List.any_eq_true.2 ⟨u, hreach o hu, hv⟩⟩

theorem demoteIdle_eq (e : Environment) (r : Reachability) (generation : Nat)
    (handles : List Value) :
    e.demoteIdle r generation handles = e.withoutIdle r generation handles := by
  induction handles generalizing e with
  | nil => simp [demoteIdle, withoutIdle]
  | cons handle rest ih =>
    rw [demoteIdle, ih]
    by_cases hidle : r.isIdle generation (e.handles handle.alloc).touched = true
    · rw [if_pos hidle, withoutIdle, withoutIdle, demote, setHandle]
      congr 1
      funext a
      by_cases ha : a = handle.alloc
      · subst ha
        simp [hidle]
      · simp [ha, Ne.symm ha]
    · rw [if_neg hidle, withoutIdle, withoutIdle]
      congr 1
      funext a
      by_cases ha : a = handle.alloc
      · subst ha
        simp [hidle]
      · simp [Ne.symm ha]

end Environment

namespace Reference

/-! ## What calls do -/

/-- The layer around a store, with a ring whose capacity can be changed. -/
def resizable (r : Reachability) (id : String) : ResizableCache (References × Store) where
  cache := around r (Store.cache id)
  setCapacity n := .ofOp (Op.modifyLayer (References.setRingCapacity n))

/-- A new layer with a ring for `n` values, around an empty store. -/
def fresh (n : Nat) : References × Store := ({ ringCapacity := n }, .empty)

/-- Everything that holds values while a call is made. -/
def holders (c : Caller) (s : References × Store) : List Value := c.owners ++ s.1.held ++ s.2.held

/-- The environment after the handles that have gone unread for too long were demoted. -/
def settled (r : Reachability) (w : World (References × Store)) : Environment :=
  w.env.withoutIdle r w.state.1.generation w.state.1.registry.values

/-- A collection leaves the handle: it still gives a value. -/
def survives (r : Reachability) (c : Caller) (w : World (References × Store)) (handle : Value) :
    Bool :=
  ((settled r w).deref (holders c w.state) handle).isSome

/-- The keys that a collection takes out. -/
def reclaimed (r : Reachability) (c : Caller) (w : World (References × Store)) : List CacheKey :=
  (w.state.1.registry.toList.filter fun e => !survives r c w e.2).map Prod.fst

/-- What a collection leaves. -/
def collected (r : Reachability) (c : Caller) (w : World (References × Store)) :
    World (References × Store) :=
  ⟨settled r w, { w.state.1 with registry := w.state.1.registry.filter (survives r c w ·.2) },
    (reclaimed r c w).foldl Entries.erase w.state.2⟩

/-- A new generation. -/
def advanced (w : World (References × Store)) : World (References × Store) :=
  ⟨w.env, { w.state.1 with generation := w.state.1.generation + 1 }, w.state.2⟩

/-- What is left when a value or an absence has been stored. -/
def stored (r : Reachability) (k : CacheKey) (w : World (References × Store)) :
    Option Value → World (References × Store)
  | none => ⟨w.env, w.state.1.forget k, w.state.2.insert k none⟩
  | some v =>
    let handle := .handle w.env.nextAlloc v
    ⟨{ w.env with nextAlloc := w.env.nextAlloc + 1 }.setHandle w.env.nextAlloc
        ⟨r.isStrong, w.state.1.generation⟩,
      w.state.1.register k handle, w.state.2.insert k (some handle)⟩

/-- What is left when a key has been taken out. -/
def dropped (k : CacheKey) (w : World (References × Store)) : World (References × Store) :=
  ⟨w.env, w.state.1.forget k, w.state.2.erase k⟩

/-- The value that a key gives. -/
def found (c : Caller) (k : CacheKey) (w : World (References × Store)) : Option Value :=
  (w.state.2.lookup k).bind (w.env.deref (holders c w.state))

/-- What is left when a handle has been followed. -/
def followed (c : Caller) (k : CacheKey) (handle : Value) (w : World (References × Store)) :
    World (References × Store) :=
  match w.env.deref (holders c w.state) handle with
  | some v => ⟨w.env.touch handle w.state.1.generation, w.state.1.link v, w.state.2⟩
  | none => dropped k w

/-- What is left when a key has been read. -/
def read (c : Caller) (k : CacheKey) (w : World (References × Store)) :
    World (References × Store) :=
  match w.state.2.lookup k with
  | some handle => followed c k handle w
  | none => w

/-- What a request leaves. -/
def leave (r : Reachability) (c : Caller) (w : World (References × Store)) :
    Request → World (References × Store)
  | .put k x => stored r k (advanced (collected r (c.holding x.toList) w)) x
  | .get k => read c k (advanced w)
  | .remove k => dropped k (advanced (collected r c w))
  | .clear => ⟨w.env, w.state.1.reset, .empty⟩
  | .size => collected r c w
  | .releaseLock _ => w

/-- The answer to a request. -/
def reply (r : Reachability) (c : Caller) (w : World (References × Store)) : Request → Answer
  | .put .. => .done
  | .get k => .value (found c k w)
  | .remove k => .value (((collected r c w).state.2.lookup k).bind
      ((settled r w).deref (holders c (leave r c w (.remove k)).state)))
  | .clear => .done
  | .size => .number (collected r c w).state.2.size
  | .releaseLock _ => .done

/-! ## Parts of calls -/

variable {r : Reachability} {id : String} {c : Caller} {w : World (References × Store)}
  {k : CacheKey}

theorem removeAll_run (id : String) (keys : List CacheKey) (c : Caller)
    (w : World (References × Store)) : removeAll (Store.cache id) keys c w =
      .done (.ok ()) ⟨w.env, w.state.1, keys.foldl Entries.erase w.state.2⟩ := by
  induction keys generalizing w with
  | nil => rfl
  | cons key rest ih => exact (Await.bind_of_done rfl).trans (ih _)

theorem collect_run (r : Reachability) (id : String) (c : Caller)
    (w : World (References × Store)) :
    collect r (Store.cache id) c w = .done (.ok ()) (collected r c w) := by
  have hsweep : sweep r (Store.cache id) c w = (.ok (reclaimed r c w),
      ⟨settled r w, (collected r c w).state.1, w.state.2⟩) := by
    rw [sweep, Environment.demoteIdle_eq]
    rfl
  exact (Await.bind_of_done (Await.ofOp_of_eq hsweep)).trans (removeAll_run id _ c _)

theorem store_run (r : Reachability) (id : String) (k : CacheKey) (x : Option Value) (c : Caller)
    (w : World (References × Store)) : store r (Store.cache id) k x c w =
      .done (.ok ()) (stored r k (advanced (collected r c w)) x) := by
  refine (Await.bind_of_done (collect_run r id c w)).trans ((Await.bind_of_done rfl).trans ?_)
  cases x with
  | none => rfl
  | some v => rfl

theorem follow_run (id : String) (k : CacheKey) (a : Nat) (v : Value) (c : Caller)
    (w : World (References × Store)) :
    follow (Store.cache id) k (.handle a v) w.state.1.generation c w =
      .done (.ok (w.env.deref (holders c w.state) (.handle a v)))
        (followed c k (.handle a v) w) := by
  refine (Await.bind_of_done rfl).trans ?_
  have hderef : deref (Store.cache id) (.handle a v) c w =
      (.ok (w.env.deref (holders c w.state) (.handle a v)), w) := rfl
  refine (Await.bind_of_done (Await.ofOp_of_eq hderef)).trans ?_
  rw [followed]
  cases w.env.deref (holders c w.state) (.handle a v) with
  | none => rfl
  | some u => rfl

/-! ## The registry mirrors the store -/

/-- The registry has the keys that are stored with a value, each with the handle that is stored,
and nothing but handles is stored as a value. -/
structure Mirrors (s : References × Store) : Prop where
  registry : ∀ k, s.1.registry.find? k = s.2.lookup k
  handle : ∀ k u, s.2.lookup k = some u → ∃ a v, u = .handle a v

theorem mem_reclaimed_iff : k ∈ reclaimed r c w ↔
    ∃ u, w.state.1.registry.find? k = some u ∧ survives r c w u = false := by
  simp only [reclaimed, List.mem_map, List.mem_filter, Bool.not_eq_true', Entries.find?_eq_some_iff,
    Prod.exists, exists_and_right, exists_eq_right]

theorem registry_collected (k : CacheKey) : (collected r c w).state.1.registry.find? k =
    (w.state.1.registry.find? k).filter (survives r c w) := Entries.find?_filter _ _ k

namespace Mirrors

/-- A collection takes the entries out whose handle gives nothing, and no absence. -/
theorem find?_collected (h : Mirrors w.state) (r : Reachability) (c : Caller) (k : CacheKey) :
    (collected r c w).state.2.find? k =
      (w.state.2.find? k).filter fun x => x.all (survives r c w) := by
  have hfold : (Reference.collected r c w).state.2.find? k =
      if k ∈ reclaimed r c w then none else w.state.2.find? k := Entries.find?_foldl_erase _ _ k
  have hregistry : w.state.1.registry.find? k = (w.state.2.find? k).join := h.registry k
  rw [hfold]
  cases hx : w.state.2.find? k with
  | none => simp
  | some x =>
    rw [hx, Option.join_some] at hregistry
    cases x with
    | none => simp [mem_reclaimed_iff, hregistry, Option.filter_some]
    | some u =>
      cases hu : survives r c w u with
      | true => simp [mem_reclaimed_iff, hregistry, hu, Option.filter_some]
      | false => simp [mem_reclaimed_iff, hregistry, hu, Option.filter_some]

theorem lookup_collected (h : Mirrors w.state) (r : Reachability) (c : Caller) (k : CacheKey) :
    (collected r c w).state.2.lookup k = (w.state.2.lookup k).filter (survives r c w) := by
  rw [Store.lookup, h.find?_collected, Store.lookup]
  cases w.state.2.find? k with
  | none => rfl
  | some x =>
    cases x with
    | none => rfl
    | some u => cases hu : survives r c w u <;> simp [hu, Option.filter_some]

theorem fresh (n : Nat) : Mirrors (fresh n) := ⟨fun _ => rfl, fun _ _ h => nomatch h⟩

theorem collected (h : Mirrors w.state) (r : Reachability) (c : Caller) :
    Mirrors (collected r c w).state := by
  constructor
  · intro k
    rw [registry_collected, h.lookup_collected, h.registry]
  · intro k u hu
    rw [h.lookup_collected, Option.filter_eq_some_iff] at hu
    exact h.handle k u hu.1

/-- Registry and store replace what they have under one key by the same handle, or by nothing. -/
theorem replace {s t : References × Store} (h : Mirrors s) {x : Option Value}
    (hregistry : ∀ k', t.1.registry.find? k' = if k' = k then x else s.1.registry.find? k')
    (hlookup : ∀ k', t.2.lookup k' = if k' = k then x else s.2.lookup k')
    (hx : ∀ u, x = some u → ∃ a v, u = .handle a v) : Mirrors t := by
  constructor
  · intro k'
    rw [hregistry, hlookup, h.registry]
  · intro k' u hu
    rw [hlookup] at hu
    split at hu
    · exact hx u hu
    · exact h.handle k' u hu

theorem dropped (h : Mirrors w.state) (k : CacheKey) : Mirrors (dropped k w).state :=
  h.replace (fun k' => Entries.find?_erase _ k k') (fun k' => Store.lookup_erase _ k k')
    fun _ hu => nomatch hu

theorem stored (h : Mirrors w.state) (r : Reachability) (k : CacheKey) (x : Option Value) :
    Mirrors (stored r k w x).state := by
  cases x with
  | none =>
    exact h.replace (fun k' => Entries.find?_erase _ k k')
      (fun k' => Store.lookup_insert _ k k' none) fun _ hu => nomatch hu
  | some v =>
    refine h.replace (fun k' => Entries.find?_insert _ k k' _)
      (fun k' => Store.lookup_insert _ k k' _) ?_
    intro u hu
    exact ⟨w.env.nextAlloc, v, (Option.some.inj hu).symm⟩

theorem followed (h : Mirrors w.state) (c : Caller) (k : CacheKey) (handle : Value) :
    Mirrors (followed c k handle w).state := by
  rw [Reference.followed]
  split
  · exact ⟨h.registry, h.handle⟩
  · exact h.dropped k

theorem read (h : Mirrors w.state) (c : Caller) (k : CacheKey) : Mirrors (read c k w).state := by
  rw [Reference.read]
  split
  · exact h.followed c k _
  · exact h

theorem leave (h : Mirrors w.state) (r : Reachability) (c : Caller) (q : Request) :
    Mirrors (leave r c w q).state := by
  have hadvanced : ∀ {w : World (References × Store)}, Mirrors w.state →
      Mirrors (advanced w).state := fun h => ⟨h.registry, h.handle⟩
  cases q with
  | put k x => exact (hadvanced (h.collected r _)).stored r k x
  | get k => exact (hadvanced h).read c k
  | remove k => exact (hadvanced (h.collected r c)).dropped k
  | clear => exact ⟨fun _ => rfl, fun _ _ h => nomatch h⟩
  | size => exact h.collected r c
  | releaseLock k => exact h

end Mirrors

/-! ## Whole calls -/

theorem get_run (h : Mirrors w.state) (r : Reachability) (id : String) (k : CacheKey)
    (c : Caller) : (around r (Store.cache id)).get k c w =
      .done (.ok (found c k (advanced w))) (read c k (advanced w)) := by
  have hbelow : (below (Store.cache id)).get k c (advanced w) =
      .done (.ok (w.state.2.lookup k)) (advanced w) := rfl
  refine (Await.bind_of_done rfl).trans ((Await.bind_of_done hbelow).trans ?_)
  have hlookup : (advanced w).state.2.lookup k = w.state.2.lookup k := rfl
  rw [found, read, hlookup]
  cases hu : w.state.2.lookup k with
  | none => rfl
  | some u =>
    obtain ⟨a, v, rfl⟩ := h.handle k u hu
    exact follow_run id k a v c (advanced w)

theorem remove_run (h : Mirrors (collected r c w).state) (id : String) (k : CacheKey) :
    (around r (Store.cache id)).remove k c w =
      .done (.ok (((collected r c w).state.2.lookup k).bind
        ((settled r w).deref (holders c (leave r c w (.remove k)).state))))
        (leave r c w (.remove k)) := by
  have hbelow : (below (Store.cache id)).remove k c
      ⟨settled r w, (advanced (collected r c w)).state.1.forget k, (collected r c w).state.2⟩ =
      .done (.ok ((collected r c w).state.2.lookup k)) (leave r c w (.remove k)) := rfl
  refine (Await.bind_of_done (collect_run r id c w)).trans ((Await.bind_of_done rfl).trans ?_)
  refine (Await.bind_of_done rfl).trans ((Await.bind_of_done hbelow).trans ?_)
  cases hu : (collected r c w).state.2.lookup k with
  | none => rfl
  | some u =>
    obtain ⟨a, v, rfl⟩ := h.handle k u hu
    rfl

/-- Every call ends at once. -/
theorem serve_run (h : Mirrors w.state) (r : Reachability) (id : String) (q : Request)
    (c : Caller) : (around r (Store.cache id)).serve q c w =
      .done (.ok (reply r c w q)) (leave r c w q) := by
  cases q with
  | put k x => exact Await.bind_of_done (Await.holding_of_done (store_run r id k x _ w))
  | get k => exact Await.bind_of_done (get_run h r id k c)
  | remove k => exact Await.bind_of_done (remove_run (h.collected r c) id k)
  | clear => rfl
  | size => exact Await.bind_of_done ((Await.bind_of_done (collect_run r id c w)).trans rfl)
  | releaseLock k => rfl

/-- Every call on the layer ends at once, and changes of the capacity of the ring do too. -/
theorem Mirrors.serve_run (h : Mirrors w.state) (r : Reachability) (id : String)
    (q : ResizableRequest) (c : Caller) : ∃ a w', (resizable r id).serve q c w = .done (.ok a) w' ∧
      Mirrors w'.state := by
  cases q with
  | ask q => exact ⟨_, _, Reference.serve_run h r id q c, h.leave r c q⟩
  | resize n => exact ⟨.done, _, rfl, h.registry, h.handle⟩

theorem Mirrors.run {s : References × Store} (h : Mirrors s) (r : Reachability) (id : String)
    (visits : List ResizableVisit) :
    ∃ s', (resizable r id).after s visits = some s' ∧ Mirrors s' := by
  induction visits generalizing s with
  | nil => exact ⟨s, rfl, h⟩
  | cons v rest ih =>
    obtain ⟨a, w', hserve, h'⟩ := h.serve_run (w := ⟨v.env, s⟩) r id v.request v.caller
    obtain ⟨s', hafter, hs'⟩ := ih h'
    refine ⟨s', ?_, hs'⟩
    rw [ResizableCache.after, List.foldlM_cons, Outcome.state?_of_eq hserve]
    exact hafter

/-! ## What a collection leaves -/

/-- A handle that is stored is held while a call is made. -/
theorem Mirrors.mem_holders (h : Mirrors w.state) {u : Value} (hu : w.state.2.lookup k = some u) :
    u ∈ holders c w.state := by
  have hregistry : u ∈ w.state.1.registry.values :=
    Entries.mem_values_iff.2 ⟨k, (h.registry k).trans hu⟩
  simp [holders, References.held, hregistry]

/-- A collection leaves the handles of the values that are kept alive after idle handles were
demoted. -/
theorem Mirrors.survives_eq (h : Mirrors w.state) {a : Nat} {v : Value}
    (hu : w.state.2.lookup k = some (.handle a v)) :
    survives r c w (.handle a v) = (settled r w).isAlive (holders c w.state) v := by
  rw [survives, Environment.isSome_deref_of_mem (h.mem_holders hu)]

/-- The number of entries after a collection: the absences, and the values that are kept alive
after idle handles were demoted. -/
theorem Mirrors.size_collected (h : Mirrors w.state) (r : Reachability) (c : Caller) :
    (Reference.collected r c w).state.2.size = w.state.2.toList.countP (·.2.isNone) +
      w.state.2.toList.countP ((settled r w).reaches (holders c w.state) ·.2) := by
  have hkept : ∀ e ∈ w.state.2.toList, e.1 ∉ reclaimed r c w ↔
      e.2.isNone = true ∨ (settled r w).reaches (holders c w.state) e.2 = true := by
    rintro ⟨k, x⟩ he
    have hx : w.state.2.find? k = some x := Entries.find?_eq_some_iff.2 he
    have hregistry : w.state.1.registry.find? k = x := by rw [h.registry, Store.lookup, hx]; rfl
    cases x with
    | none => simp [mem_reclaimed_iff, hregistry]
    | some u =>
      have hu := Store.lookup_eq_some_iff.2 hx
      obtain ⟨a, v, rfl⟩ := h.handle k u hu
      simp [mem_reclaimed_iff, hregistry, h.survives_eq hu, Environment.reaches]
  rw [Entries.size, Reference.collected, Entries.toList_foldl_erase,
    List.length_eq_countP_add_countP (·.2.isNone), List.countP_filter, List.countP_filter]
  congr 1
  · -- No absence is taken out.
    refine List.countP_congr ?_
    intro e he
    have hkept := hkept e he
    simp only [Bool.and_eq_true, decide_eq_true_eq]
    tauto
  · refine List.countP_congr ?_
    intro e he
    have hkept := hkept e he
    have hnone : e.2.isNone = true → (settled r w).reaches (holders c w.state) e.2 = false := by
      intro hnone
      rw [Option.isNone_iff_eq_none.1 hnone]
      rfl
    simp only [Bool.and_eq_true, decide_eq_true_eq]
    grind

/-- A call that begins with a collection takes out what nothing keeps alive. -/
theorem Mirrors.gone (h : Mirrors w.state) {q : Request} (hq : q.Sweeps) (r : Reachability)
    {a : Nat} {v : Value} (hk : w.state.2.find? k = some (some (.handle a v)))
    (hdead : w.env.isAlive (holders (c.holding q.handed) w.state) v = false)
    (hput : ∀ x, q ≠ .put k x) : (Reference.leave r c w q).state.2.find? k = none := by
  have hcollected : ∀ c', w.env.isAlive (holders c' w.state) v = false →
      (Reference.collected r c' w).state.2.find? k = none := by
    intro c' hdead
    have hsurvives : survives r c' w (.handle a v) = false := by
      rw [h.survives_eq (Store.lookup_eq_some_iff.2 hk), ← Bool.not_eq_true]
      intro halive
      exact Bool.false_ne_true (hdead.symm.trans (Environment.isAlive_of_withoutIdle halive))
    rw [h.find?_collected, hk, Option.filter_some, Option.all_some, hsurvives]
    rfl
  cases q with
  | put k' x =>
    have hne : k ≠ k' := by
      rintro rfl
      exact hput x rfl
    have hgone := hcollected (c.holding x.toList) hdead
    cases x with
    | none => simpa [Reference.leave, Reference.stored, advanced, hne] using hgone
    | some u => simpa [Reference.leave, Reference.stored, advanced, hne] using hgone
  | remove k' =>
    simp only [Request.handed, Caller.holding_nil] at hdead
    simp [Reference.leave, Reference.dropped, advanced, hcollected c hdead]
  | size =>
    simp only [Request.handed, Caller.holding_nil] at hdead
    exact hcollected c hdead
  | get k' => exact hq.elim
  | clear => exact hq.elim
  | releaseLock k' => exact hq.elim

/-- After any calls, changes of the capacity of the ring among them, made by anybody and with
any values held elsewhere, the registry has exactly the keys that are stored with a value, each
with the handle that is stored, and nothing but handles and absences is stored.  So every call
ends without an error; a count gives the number of the stored absences and of the entries whose
value is still kept alive when the handles that have gone unread for too long are demoted; and a
put, a removal and a count take every entry out whose value nothing keeps alive when they begin,
unless they put its key anew. -/
theorem registry_mirrors_store (r : Reachability) (id : String) (n : Nat)
    (visits : List ResizableVisit) :
    ∃ s, (resizable r id).after (fresh n) visits = some s ∧
      (∀ k u, s.1.registry.find? k = some u ↔ s.2.find? k = some (some u)) ∧
      (∀ k u, s.2.find? k = some (some u) → ∃ a v, u = .handle a v) ∧
      ∀ c e, (∀ q, ∃ a w, (resizable r id).serve q c ⟨e, s⟩ = .done (.ok a) w) ∧
        (∃ w, (around r (Store.cache id)).serve .size c ⟨e, s⟩ =
          .done (.ok (.number (s.2.toList.countP (·.2.isNone) +
            s.2.toList.countP ((settled r ⟨e, s⟩).reaches (holders c s) ·.2)))) w) ∧
        ∀ q, q.Sweeps → ∃ a w, (around r (Store.cache id)).serve q c ⟨e, s⟩ = .done (.ok a) w ∧
          ∀ k b v, s.2.find? k = some (some (.handle b v)) →
            e.isAlive (holders (c.holding q.handed) s) v = false → (∀ x, q ≠ .put k x) →
            w.state.2.find? k = none := by
  obtain ⟨s, hafter, h⟩ := (Mirrors.fresh n).run r id visits
  refine ⟨s, hafter, ?_, ?_, ?_⟩
  · intro k u
    rw [h.registry, Store.lookup_eq_some_iff]
  · intro k u hu
    exact h.handle k u (Store.lookup_eq_some_iff.2 hu)
  · intro c e
    refine ⟨?_, ?_, ?_⟩
    · intro q
      obtain ⟨a, w, hserve, -⟩ := h.serve_run (w := ⟨e, s⟩) r id q c
      exact ⟨a, w, hserve⟩
    · have hserve := serve_run (w := ⟨e, s⟩) h r id .size c
      rw [reply, h.size_collected] at hserve
      exact ⟨_, hserve⟩
    · intro q hq
      refine ⟨_, _, serve_run (w := ⟨e, s⟩) h r id q c, ?_⟩
      intro k b v hk hdead hput
      exact h.gone hq r hk hdead hput

end Reference

end QueryCache
