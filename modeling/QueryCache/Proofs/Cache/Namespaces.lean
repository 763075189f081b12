import Mathlib
import QueryCache.Cache.Registry
import QueryCache.Entries.Lemmas
import QueryCache.Proofs.Cache.Operation
import QueryCache.Proofs.Cache.Validation

/-!
# Namespaces are bound once

Caches are added to a registry, built in it from settings and looked up in it, while others
make more caches and use those that there are.  What a namespace stands for is told by the
calls and their replies alone: it is the first cache that a call bound under this id, and it
stays so.  A call that fails binds nothing, wherever it fails.

1. the places of a new cache
2. what is bound, and how a cache is built
3. calls, and how the building of a cache ends
4. what a call leaves
5. runs
6. what a registry does
-/

namespace QueryCache

/-! ## The places of a new cache -/

namespace Pool

variable (p : Pool) (now : Nat)

/-- Layers are set up around a store in the order in which they are given. -/
theorem addLayers_fst (layers : List Layer) (r : CacheRef) :
    (p.addLayers now layers r).1.id = r.id ∧ (p.addLayers now layers r).1.store = r.store ∧
    (p.addLayers now layers r).1.layers.map Prod.snd =
      layers.reverse ++ r.layers.map Prod.snd := by
  induction layers generalizing p r with
  | nil => exact ⟨rfl, rfl, rfl⟩
  | cons l rest ih =>
    obtain ⟨hid, hstore, hlayers⟩ := ih (p.addLayer now l r).2 (p.addLayer now l r).1
    refine ⟨hid, hstore, hlayers.trans ?_⟩
    rw [List.reverse_cons, List.append_assoc]
    rfl

theorem stores_addLayers (layers : List Layer) (r : CacheRef) :
    (p.addLayers now layers r).2.stores = p.stores := by
  induction layers generalizing p r with
  | nil => rfl
  | cons l rest ih => exact ih (p.addLayer now l r).2 (p.addLayer now l r).1

theorem stack_addStack (s : Stack) : (p.addStack now s).1.stack = s := by
  obtain ⟨hid, -, hlayers⟩ :=
    addLayers_fst (p.addStore s.id).2 now s.layers.reverse (p.addStore s.id).1
  rw [List.reverse_reverse] at hlayers
  show (⟨_, _⟩ : Stack) = ⟨s.id, s.layers⟩
  exact congrArg₂ Stack.mk hid (hlayers.trans (List.append_nil _))

theorem id_addStack (s : Stack) : (p.addStack now s).1.id = s.id :=
  congrArg Stack.id (p.stack_addStack now s)

/-- The store of a new stack has a new place. -/
theorem store_addStack (s : Stack) : (p.addStack now s).1.store = p.stores.length :=
  (addLayers_fst (p.addStore s.id).2 now s.layers.reverse (p.addStore s.id).1).2.1

theorem length_stores_addStack (s : Stack) :
    (p.addStack now s).2.stores.length = p.stores.length + 1 := by
  have hstores : (p.addStack now s).2.stores = p.stores ++ [.empty] :=
    stores_addLayers (p.addStore s.id).2 now s.layers.reverse (p.addStore s.id).1
  rw [hstores, List.length_append, List.length_singleton]

end Pool

/-- Caches with different stores are not the same. -/
theorem CacheRef.isSame_of_store_ne {r r' : CacheRef} (h : r.store ≠ r'.store) :
    r.isSame r' = false := by
  rw [isSame, beq_eq_false_iff_ne.2 h, Bool.false_and]

namespace Registry

variable {g : Registry} {p : Pool} {r : CacheRef} {ns : String} {settings : CacheSettings}
  {c : Caller} {e : Environment} {w w' : World (Registry × Pool)}

/-! ## What is bound -/

/-- The registry in which a cache is bound besides. -/
def bound (g : Registry) (r : CacheRef) : Registry := ⟨g.caches.insert r.id r⟩

theorem find?_bound : (g.bound r).find? ns = if ns = r.id then some r else g.find? ns :=
  Entries.find?_insert ..

theorem add_of_free (h : g.find? r.id = none) : g.add r = .ok (g.bound r) := by
  have hfree : g.caches.contains r.id = false := by
    rw [Entries.contains_eq_isSome_find?]
    exact Option.isSome_eq_false_iff.2 (Option.isNone_iff_eq_none.2 h)
  rw [add, hfree]
  rfl

theorem add_of_taken (h : g.find? r.id ≠ none) : g.add r = .error (.duplicateNamespace r.id) := by
  have htaken : g.caches.contains r.id = true := by
    rw [Entries.contains_eq_isSome_find?]
    exact Option.isSome_iff_ne_none.2 h
  rw [add, if_pos htaken]

theorem enter_of_free (h : g.find? r.id = none) :
    enter r c ⟨e, (g, p)⟩ = (.ok (), ⟨e, (g.bound r, p)⟩) := by
  unfold enter
  rw [Op.bind_of_ok Op.layer_run, add_of_free h]
  rfl

theorem enter_of_taken (h : g.find? r.id ≠ none) :
    enter r c ⟨e, (g, p)⟩ = (.error (.duplicateNamespace r.id), ⟨e, (g, p)⟩) := by
  unfold enter
  rw [Op.bind_of_ok Op.layer_run, add_of_taken h]
  rfl

/-- The bound namespaces are those under which something is found. -/
theorem mem_ids_iff : ns ∈ g.ids ↔ (g.find? ns).isSome := by
  rw [ids, List.mem_mergeSort]
  exact (g.caches.isSome_find?_iff ns).symm

theorem ids_ascending (g : Registry) : g.ids.Pairwise (· < ·) := by
  have hsorted : g.ids.Pairwise (· ≤ ·) := List.pairwise_mergeSort' (· ≤ ·) _
  have hdistinct : g.ids.Nodup := (List.mergeSort_perm ..).nodup_iff.2 g.caches.nodup
  exact (hsorted.and hdistinct).imp fun h => lt_of_le_of_ne h.1 h.2

/-! ## How a cache is built -/

theorem build_of_refused {x : ConfigError} (h : settings.validate = .error x) :
    build ns settings c w = (.error (.config x), w) := by
  have hcheck : settings.validate.mapError Error.config = .error (.config x) := by
    rw [h]
    rfl
  unfold build
  rw [hcheck, Op.bind_of_error Op.ofExcept_run]

theorem build_of_unnamed (h : settings.validate = .ok ()) :
    build "" settings c w = (.error (.config (.missingRequired "id")), w) := by
  unfold build
  rw [mapError_eq_ok_iff.2 h, CacheBuilder.build_ofSettings_unnamed,
    Op.bind_of_ok Op.ofExcept_run, Op.bind_of_error Op.ofExcept_run]

theorem setUp_run {s : Stack} : setUp s c ⟨e, (g, p)⟩ =
    (.ok (p.addStack e.now s).1, ⟨e, (g, (p.addStack e.now s).2)⟩) := rfl

/-- A cache that is built for a namespace has its name. -/
theorem id_of_build {s : Stack} (hbuild : (CacheBuilder.ofSettings ns settings).build = .ok s)
    (p : Pool) (now : Nat) : (p.addStack now s).1.id = ns :=
  (p.id_addStack now s).trans (CacheBuilder.id_of_build_ofSettings hbuild)

section Built

variable {s : Stack} (hvalid : settings.validate = .ok ())
  (hbuild : (CacheBuilder.ofSettings ns settings).build = .ok s)
include hvalid hbuild

/-- A cache that is built is set up in the pool before it is bound. -/
theorem build_of_stack : build ns settings c ⟨e, (g, p)⟩ =
    ((enter (p.addStack e.now s).1).mapError .config >>= fun _ =>
      pure (p.addStack e.now s).1) c ⟨e, (g, (p.addStack e.now s).2)⟩ := by
  unfold build
  rw [mapError_eq_ok_iff.2 hvalid, hbuild, Op.bind_of_ok Op.ofExcept_run,
    Op.bind_of_ok Op.ofExcept_run, Op.bind_of_ok setUp_run]

theorem build_of_free (hfree : g.find? ns = none) : build ns settings c ⟨e, (g, p)⟩ =
    (.ok (p.addStack e.now s).1,
      ⟨e, (g.bound (p.addStack e.now s).1, (p.addStack e.now s).2)⟩) := by
  have hid := id_of_build hbuild p e.now
  rw [build_of_stack hvalid hbuild,
    Op.bind_of_ok (Op.mapError_of_ok (enter_of_free (hid.symm ▸ hfree)))]
  rfl

theorem build_of_taken (htaken : g.find? ns ≠ none) : build ns settings c ⟨e, (g, p)⟩ =
    (.error (.config (.duplicateNamespace ns)), ⟨e, (g, (p.addStack e.now s).2)⟩) := by
  have hid := id_of_build hbuild p e.now
  rw [build_of_stack hvalid hbuild,
    Op.bind_of_error (Op.mapError_of_error (enter_of_taken (hid.symm ▸ htaken))), hid]

end Built

/-! ## Calls -/

/-- A call on a registry. -/
inductive Call where
  /-- Binds a cache that there is already. -/
  | add (r : CacheRef)
  /-- Builds a cache from settings, and binds it. -/
  | build (ns : String) (settings : CacheSettings)
  /-- Looks a cache up. -/
  | get (ns : String)
  /-- Looks a cache up that must be bound. -/
  | resolve (ns : String)

/-- What a call answers: an error, or the cache that it gives, if it gives one. -/
abbrev Reply := Except Error (Option CacheRef)

/-- Calls with their replies, in the order in which they were made. -/
abbrev Log := List (Call × Reply)

namespace Call

/-- The operation that a call stands for. -/
def run : Call → Op Error (Registry × Pool) (Option CacheRef)
  | add r => do
    (enter r).mapError .config
    pure none
  | build ns settings => do
    let r ← Registry.build ns settings
    pure (some r)
  | get ns => do
    let g ← Op.layer
    pure (g.find? ns)
  | resolve ns => do
    let g ← Op.layer
    let r ← Op.ofExcept ((g.resolve ns).mapError .config)
    pure (some r)

/-- A cache that the call brings along is one of the pool. -/
def BringsFrom (p : Pool) : Call → Prop
  | add r => r.store < p.stores.length
  | _ => True

/-- The cache that a call has bound, by its reply. -/
def bound? : Call × Reply → Option CacheRef
  | (add r, .ok _) => some r
  | (build _ _, .ok r) => r
  | _ => none

theorem add_of_free (h : w.state.1.find? r.id = none) :
    (add r).run c w = (.ok none, ⟨w.env, (w.state.1.bound r, w.state.2)⟩) :=
  Op.bind_of_ok (Op.mapError_of_ok (enter_of_free h))

theorem add_of_taken (h : w.state.1.find? r.id ≠ none) :
    (add r).run c w = (.error (.config (.duplicateNamespace r.id)), w) :=
  Op.bind_of_error (Op.mapError_of_error (enter_of_taken h))

theorem build_of_ok (h : Registry.build ns settings c w = (.ok r, w')) :
    (build ns settings).run c w = (.ok (some r), w') := Op.bind_of_ok h

theorem build_of_error {x : Error} (h : Registry.build ns settings c w = (.error x, w')) :
    (build ns settings).run c w = (.error x, w') := Op.bind_of_error h

theorem get_run : (get ns).run c w = (.ok (w.state.1.find? ns), w) := rfl

theorem resolve_run : (resolve ns).run c w =
    ((w.state.1.find? ns).elim (.error (.config (.unknownNamespace ns))) fun r => .ok (some r),
      w) := by
  obtain ⟨e, g, p⟩ := w
  refine (Op.bind_of_ok Op.layer_run).trans ?_
  cases h : g.find? ns with
  | none =>
    have hresolve : g.resolve ns = .error (.unknownNamespace ns) := by rw [Registry.resolve, h]
    rw [hresolve]
    rfl
  | some r =>
    have hresolve : g.resolve ns = .ok r := by rw [Registry.resolve, h]
    rw [hresolve]
    rfl

end Call

/-! ## How the building of a cache ends -/

/-- Why no cache is built, where `found` is what the namespace is bound to.  Of several reasons
the first one counts. -/
inductive Refused (ns : String) (settings : CacheSettings) (found : Option CacheRef) :
    ConfigError → Prop where
  | settings {x : ConfigError} (h : settings.validate = .error x) : Refused ns settings found x
  | unnamed (hvalid : settings.validate = .ok ()) (h : ns = "") :
      Refused ns settings found (.missingRequired "id")
  | taken (hvalid : settings.validate = .ok ()) (hns : ns ≠ "") (h : found ≠ none) :
      Refused ns settings found (.duplicateNamespace ns)

/-- The ends to which the building of a cache can come, with what is left then. -/
inductive BuildEnds (ns : String) (settings : CacheSettings) (w : World (Registry × Pool)) :
    Reply → World (Registry × Pool) → Prop where
  /-- Nothing is bound; a cache that was built for a bound namespace is left in the pool. -/
  | refused {x : ConfigError} {p : Pool} (hx : Refused ns settings (w.state.1.find? ns) x)
      (hp : w.state.2.stores.length ≤ p.stores.length) :
      BuildEnds ns settings w (.error (.config x)) ⟨w.env, (w.state.1, p)⟩
  | built {s : Stack} (hvalid : settings.validate = .ok ()) (hns : ns ≠ "")
      (hfree : w.state.1.find? ns = none)
      (hbuild : (CacheBuilder.ofSettings ns settings).build = .ok s) :
      BuildEnds ns settings w (.ok (some (w.state.2.addStack w.env.now s).1))
        ⟨w.env, (w.state.1.bound (w.state.2.addStack w.env.now s).1,
          (w.state.2.addStack w.env.now s).2)⟩

namespace Call

variable {reply : Reply}

theorem build_ends (hrun : (build ns settings).run c w = (reply, w')) :
    BuildEnds ns settings w reply w' := by
  obtain ⟨e, g, p⟩ := w
  -- The cases are in the order of the checks, since the first one that fails gives the reason.
  cases hvalid : settings.validate with
  | error x =>
    cases (build_of_error (build_of_refused hvalid)).symm.trans hrun
    exact .refused (.settings hvalid) (le_refl _)
  | ok u =>
    by_cases hns : ns = ""
    · subst hns
      cases (build_of_error (build_of_unnamed hvalid)).symm.trans hrun
      exact .refused (.unnamed hvalid rfl) (le_refl _)
    · obtain ⟨s, hbuild⟩ := (CacheBuilder.exists_build_iff hns).2 hvalid
      by_cases hfree : g.find? ns = none
      · cases (build_of_ok (build_of_free hvalid hbuild hfree)).symm.trans hrun
        exact .built hvalid hns hfree hbuild
      · cases (build_of_error (build_of_taken hvalid hbuild hfree)).symm.trans hrun
        refine .refused (.taken hvalid hns hfree) ?_
        rw [Pool.length_stores_addStack]
        exact Nat.le_succ _

/-- A cache is built just if there is a free namespace for it and its settings are accepted. -/
theorem build_ok_iff : (∃ x, ((build ns settings).run c w).1 = .ok x) ↔
    ns ≠ "" ∧ settings.validate = .ok () ∧ w.state.1.find? ns = none := by
  constructor
  · rintro ⟨x, hx⟩
    obtain ⟨w', hrun⟩ : ∃ w', (build ns settings).run c w = (.ok x, w') :=
      ⟨_, Prod.ext hx rfl⟩
    cases build_ends hrun with
    | built hvalid hns hfree => exact ⟨hns, hvalid, hfree⟩
  · rintro ⟨hns, hvalid, hfree⟩
    obtain ⟨s, hbuild⟩ := (CacheBuilder.exists_build_iff hns).2 hvalid
    exact ⟨_, congrArg Prod.fst (build_of_ok (build_of_free hvalid hbuild hfree))⟩

theorem refused_of_build {x : Error} (hrun : (build ns settings).run c w = (.error x, w')) :
    ∃ y, x = .config y ∧ Refused ns settings (w.state.1.find? ns) y := by
  cases build_ends hrun with
  | refused hx => exact ⟨_, rfl, hx⟩

/-- What is built has the layers that the settings ask for, around a store of its own. -/
theorem stack_of_build (hrun : (build ns settings).run c w = (.ok (some r), w')) :
    (CacheBuilder.ofSettings ns settings).build = .ok r.stack ∧
      r.store = w.state.2.stores.length := by
  cases build_ends hrun with
  | built _ _ _ hbuild =>
    rw [Pool.stack_addStack]
    exact ⟨hbuild, Pool.store_addStack ..⟩

/-! ## What a call leaves -/

theorem bound?_error (a : Call) (x : Error) : bound? (a, .error x) = none := by
  cases a <;> rfl

/-- What a call leaves: it has bound the cache that its reply tells of, in a namespace that was
free, and nothing else. -/
structure Leaves (a : Call) (w : World (Registry × Pool)) (reply : Reply)
    (w' : World (Registry × Pool)) : Prop where
  registry : w'.state.1 = (bound? (a, reply)).elim w.state.1 w.state.1.bound
  free : ∀ r, bound? (a, reply) = some r → w.state.1.find? r.id = none
  /-- No place of the pool is given up. -/
  grown : w.state.2.stores.length ≤ w'.state.2.stores.length
  /-- What is bound has its place in the pool. -/
  placed : a.BringsFrom w.state.2 → ∀ r, bound? (a, reply) = some r →
    r.store < w'.state.2.stores.length

theorem Leaves.of_unbound {a : Call} {reply : Reply} (hnone : bound? (a, reply) = none)
    (hregistry : w'.state.1 = w.state.1)
    (hgrown : w.state.2.stores.length ≤ w'.state.2.stores.length) : Leaves a w reply w' := by
  refine ⟨?_, ?_, hgrown, ?_⟩
  · rw [hnone, hregistry]
    rfl
  · intro r hr
    cases hnone.symm.trans hr
  · intro _ r hr
    cases hnone.symm.trans hr

theorem build_leaves (hrun : (build ns settings).run c w = (reply, w')) :
    Leaves (build ns settings) w reply w' := by
  cases build_ends hrun with
  | refused _ hp => exact .of_unbound rfl rfl hp
  | @built s _ _ hfree hbuild =>
    refine ⟨rfl, ?_, ?_, ?_⟩
    · rintro _ ⟨⟩
      rw [id_of_build hbuild]
      exact hfree
    · rw [Pool.length_stores_addStack]
      exact Nat.le_succ _
    · rintro - _ ⟨⟩
      rw [Pool.length_stores_addStack, Pool.store_addStack]
      exact Nat.lt_succ_self _

theorem run_leaves (a : Call) (c : Caller) (w : World (Registry × Pool)) :
    Leaves a w (a.run c w).1 (a.run c w).2 := by
  cases a with
  | add r =>
    by_cases hfree : w.state.1.find? r.id = none
    · rw [add_of_free hfree]
      refine ⟨rfl, ?_, le_refl _, ?_⟩
      · rintro _ ⟨⟩
        exact hfree
      · rintro hr _ ⟨⟩
        exact hr
    · rw [add_of_taken hfree]
      exact .of_unbound rfl rfl (le_refl _)
  | build ns settings => exact build_leaves rfl
  | get ns => exact .of_unbound rfl rfl (le_refl _)
  | resolve ns =>
    rw [resolve_run]
    exact .of_unbound rfl rfl (le_refl _)

/-- What is found after a call was found before it, or the call has bound it. -/
theorem Leaves.find? {a : Call} {reply : Reply} (h : Leaves a w reply w') (ns : String) :
    w'.state.1.find? ns =
      (w.state.1.find? ns).or ((bound? (a, reply)).filter (·.id = ns)) := by
  rw [h.registry]
  cases hbound : bound? (a, reply) with
  | none => exact Option.or_none.symm
  | some r =>
    rw [Option.elim_some, find?_bound]
    by_cases hns : ns = r.id
    · -- The namespace was free, so nothing that was bound before is hidden.
      rw [if_pos hns, hns, h.free r hbound, Option.none_or, Option.filter_some]
      simp
    · have hne : ¬ r.id = ns := fun heq => hns heq.symm
      rw [if_neg hns, Option.filter_some]
      simp [hne]

end Call

/-! ## Runs -/

/-- The cache that was bound to the namespace first. -/
def firstBound (ns : String) (log : Log) : Option CacheRef :=
  (log.filterMap Call.bound?).find? (·.id = ns)

theorem firstBound_concat (ns : String) (log : Log) (entry : Call × Reply) :
    firstBound ns (log ++ [entry]) =
      (firstBound ns log).or ((Call.bound? entry).filter (·.id = ns)) := by
  rw [firstBound, List.filterMap_append, List.find?_append]
  congr 1
  cases h : Call.bound? entry with
  | none => simp [h]
  | some r => simp [h, Option.filter_some, List.find?_singleton]

theorem id_of_firstBound {log : Log} (h : firstBound ns log = some r) : r.id = ns := by
  simpa using List.find?_some h

/-- Calls are made on a registry, one after the other.  In between others use the caches of the
pool and make more of them, and time passes. -/
inductive Run : World (Registry × Pool) → Log → World (Registry × Pool) → Prop where
  | start (w : World (Registry × Pool)) : Run w [] w
  | call {w₀ w : World (Registry × Pool)} {log : Log} (h : Run w₀ log w) (a : Call) (c : Caller)
      (ha : a.BringsFrom w.state.2) : Run w₀ (log ++ [(a, (a.run c w).1)]) (a.run c w).2
  | others {w₀ w : World (Registry × Pool)} {log : Log} (h : Run w₀ log w) (e : Environment)
      {p : Pool} (hp : w.state.2.stores.length ≤ p.stores.length) :
      Run w₀ log ⟨e, (w.state.1, p)⟩

variable {w₀ : World (Registry × Pool)} {log : Log}

/-- What was bound before the calls, or else what they bound first, is found after them. -/
theorem Run.find? (h : Run w₀ log w) (ns : String) :
    w.state.1.find? ns = (w₀.state.1.find? ns).or (firstBound ns log) := by
  induction h with
  | start => exact Option.or_none.symm
  | call _ a c _ ih => rw [(a.run_leaves c _).find?, ih, firstBound_concat, Option.or_assoc]
  | others _ _ _ ih => exact ih

/-- Every cache that is bound has its place in the pool. -/
def Placed (w : World (Registry × Pool)) : Prop :=
  ∀ ns r, w.state.1.find? ns = some r → r.store < w.state.2.stores.length

theorem Run.placed (h : Run w₀ log w) (h₀ : Placed w₀) : Placed w := by
  induction h with
  | start => exact h₀
  | @call w log _ a c ha ih =>
    have hleaves := a.run_leaves c w
    intro ns r hr
    rw [hleaves.find?, Option.or_eq_some_iff] at hr
    -- It was there before the call, and the pool has only grown, or the call has bound it.
    rcases hr with hr | ⟨-, hr⟩
    · exact Nat.lt_of_lt_of_le (ih ns r hr) hleaves.grown
    · exact hleaves.placed ha r (Option.filter_eq_some_iff.1 hr).1
  | others _ _ hp ih => exact fun ns r hr => Nat.lt_of_lt_of_le (ih ns r hr) hp

/-! ## What a registry does -/

/-- What can be relied on of a registry after the calls of the log. -/
structure BindsOnce (log : Log) (w : World (Registry × Pool)) : Prop where
  /-- A look-up gives the cache that was bound first, and changes nothing. -/
  get : ∀ ns c, (Call.get ns).run c w = (.ok (firstBound ns log), w)
  /-- So does a look-up that must find one, and it fails just if none was bound. -/
  resolve : ∀ ns c, (Call.resolve ns).run c w =
    ((firstBound ns log).elim (.error (.config (.unknownNamespace ns))) fun r => .ok (some r), w)
  /-- The bound namespaces are listed once each, in ascending order. -/
  ids : w.state.1.ids.Pairwise (· < ·) ∧ ∀ ns, ns ∈ w.state.1.ids ↔ (firstBound ns log).isSome
  /-- A cache is added just if nothing was bound to its namespace. -/
  add : ∀ r c, ((Call.add r).run c w).1 = if firstBound r.id log = none then .ok none
    else .error (.config (.duplicateNamespace r.id))
  /-- A cache is built just if it has a namespace, its settings are accepted, and nothing was
  bound to the namespace. -/
  build : ∀ ns settings c, (∃ x, ((Call.build ns settings).run c w).1 = .ok x) ↔
    ns ≠ "" ∧ settings.validate = .ok () ∧ firstBound ns log = none
  /-- If none is built, the reply says why. -/
  refused : ∀ {ns settings c x w'}, (Call.build ns settings).run c w = (.error x, w') →
    ∃ y, x = .config y ∧ Refused ns settings (firstBound ns log) y
  /-- What is built is the stack of the settings, and none of the caches that were bound. -/
  built : ∀ {ns settings c r w'}, (Call.build ns settings).run c w = (.ok (some r), w') →
    (CacheBuilder.ofSettings ns settings).build = .ok r.stack ∧
      ∀ ns' r', firstBound ns' log = some r' → r.isSame r' = false
  /-- A call that fails leaves the registry as it is. -/
  failed : ∀ {a c x w'}, Call.run a c w = (.error x, w') → w'.state.1 = w.state.1
  /-- What is bound has the namespace for its id, and is found whatever calls come later. -/
  lasting : ∀ {ns r}, firstBound ns log = some r → r.id = ns ∧
    ∀ {later w'}, Run w later w' → ∀ c, (Call.get ns).run c w' = (.ok (some r), w')

/-- However a registry that started without caches was used: a namespace stands for the first
cache that a call bound to it, which has the namespace for its id, and it stands for this cache
for ever.  Look-ups give this very cache.  A cache is built just if there is a free namespace for
it and its settings are accepted, and it is a new one; the namespaces are listed once each and
in ascending order; a call that fails leaves the registry as it is.  The check of settings and
the building of a cache from them agree on all settings. -/
theorem namespaces_bound_once (h : Run ⟨e, ({}, p)⟩ log w) :
    BindsOnce log w ∧ ∀ id settings, id ≠ "" →
      ((∃ s, (CacheBuilder.ofSettings id settings).build = .ok s) ↔
        settings.validate = .ok ()) := by
  have hfind : ∀ ns, w.state.1.find? ns = firstBound ns log := h.find?
  have hplaced : Placed w := h.placed fun _ _ hr => nomatch hr
  refine ⟨?_, fun id settings hid => CacheBuilder.exists_build_iff hid⟩
  refine ⟨?_, ?_, ⟨w.state.1.ids_ascending, ?_⟩, ?_, ?_, ?_, ?_, ?_, ?_⟩
  · intro ns c
    rw [Call.get_run, hfind]
  · intro ns c
    rw [Call.resolve_run, hfind]
  · intro ns
    rw [mem_ids_iff, hfind]
  · intro r c
    rw [← hfind]
    by_cases hfree : w.state.1.find? r.id = none
    · rw [Call.add_of_free hfree, if_pos hfree]
    · rw [Call.add_of_taken hfree, if_neg hfree]
  · intro ns settings c
    rw [Call.build_ok_iff, hfind]
  · intro ns settings c x w' hrun
    rw [← hfind]
    exact Call.refused_of_build hrun
  · intro ns settings c r w' hrun
    obtain ⟨hstack, hstore⟩ := Call.stack_of_build hrun
    refine ⟨hstack, fun ns' r' hr' => CacheRef.isSame_of_store_ne ?_⟩
    -- Its store has the next place of the pool, and what is bound has places before that.
    rw [hstore]
    exact (hplaced ns' r' ((hfind ns').trans hr')).ne'
  · intro a c x w' hrun
    have hleaves := a.run_leaves c w
    rw [hrun] at hleaves
    rw [hleaves.registry, a.bound?_error]
    rfl
  · intro ns r hr
    refine ⟨id_of_firstBound hr, ?_⟩
    intro later w' hlater c
    rw [Call.get_run, hlater.find?, hfind, hr, Option.some_or]

section Sample

/-- Nothing is there yet. -/
def opening : World (Registry × Pool) := ⟨{}, ({}, {})⟩

/-- A cache is built for the users, with the settings of a namespace that states none. -/
def usersBuilt : Reply × World (Registry × Pool) :=
  (Call.build "users" {}).run ⟨"main", []⟩ opening

/-- Somebody sets up a store of their own for the orders. -/
def ordersMade : CacheRef × Pool := usersBuilt.2.state.2.addStore "orders"

/-- The store is added as the cache of the orders. -/
def ordersAdded : Reply × World (Registry × Pool) :=
  (Call.add ordersMade.1).run ⟨"main", []⟩ ⟨{}, (usersBuilt.2.state.1, ordersMade.2)⟩

/-- Another cache is built for the users. -/
def usersAgain : Reply × World (Registry × Pool) :=
  (Call.build "users" { readOnly := true }).run ⟨"main", []⟩ ordersAdded.2

/-- The three calls and their replies. -/
def threeCalls : Log :=
  [(.build "users" {}, usersBuilt.1), (.add ordersMade.1, ordersAdded.1),
    (.build "users" { readOnly := true }, usersAgain.1)]

theorem run_threeCalls : Run opening threeCalls usersAgain.2 := by
  have hbuilt : Run opening [(.build "users" {}, usersBuilt.1)] usersBuilt.2 :=
    .call (.start opening) (.build "users" {}) ⟨"main", []⟩ trivial
  have hmade := hbuilt.others {} (p := ordersMade.2) (by decide)
  have hplace : ordersMade.1.store < ordersMade.2.stores.length := by decide
  have hadded := hmade.call (.add ordersMade.1) ⟨"main", []⟩ hplace
  exact hadded.call (.build "users" { readOnly := true }) ⟨"main", []⟩ trivial

/-- The second cache for the users is refused, and they keep the first one; their namespace and
that of the orders are taken, while one for the roles is free. -/
theorem namespaces_bound_once_users : ∃ r,
    usersBuilt.1 = .ok (some r) ∧ usersAgain.1 = .error (.config (.duplicateNamespace "users")) ∧
    (Call.get "users").run ⟨"main", []⟩ usersAgain.2 = (.ok (some r), usersAgain.2) ∧
    "orders" ∈ usersAgain.2.state.1.ids ∧
    (∃ x, ((Call.build "roles" {}).run ⟨"main", []⟩ usersAgain.2).1 = .ok x) ∧
    ¬ ∃ x, ((Call.build "orders" {}).run ⟨"main", []⟩ usersAgain.2).1 = .ok x := by
  obtain ⟨hbinds, -⟩ := namespaces_bound_once run_threeCalls
  have hroles : firstBound "roles" threeCalls = none := by rfl
  refine ⟨_, rfl, by rfl, hbinds.get "users" ⟨"main", []⟩, (hbinds.ids.2 "orders").2 (by rfl),
    (hbinds.build "roles" {} ⟨"main", []⟩).2 ⟨by decide, by rfl, hroles⟩, ?_⟩
  rintro horders
  cases ((hbinds.build "orders" {} ⟨"main", []⟩).1 horders).2.2

end Sample

end Registry

end QueryCache
