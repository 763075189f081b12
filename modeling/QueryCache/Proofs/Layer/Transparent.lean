import Mathlib
import QueryCache.Cache.Builder
import QueryCache.Entries.Lemmas
import QueryCache.Proofs.Cache.Alike
import QueryCache.Proofs.Cache.Honesty
import QueryCache.Proofs.Layer.Outer
import QueryCache.Proofs.Value.RoundTrip

/-!
# The layers around an evicting cache are transparent

For a single thread a built cache answers every call as its evicting layer alone does:
copies do not disturb the order of eviction, locks never make their own thread wait, and
gates and statistics hand every call on.  The exception is the removal from a blocking
cache, which takes nothing out.

1. stores with the same keys
2. layers that evict
3. layers around them
4. built caches
-/

namespace QueryCache

variable {σ τ : Type} {t : Thread} {R : σ → τ → Prop} {V : Value → Value → Prop} {d : Cache σ}
  {d' : Cache τ}

/-! ## Stores -/

namespace Store

/-- The stores have the same keys in the same order, and what they have under a key belongs
together. -/
def Matches (V : Value → Value → Prop) (s s' : Store) : Prop :=
  List.Forall₂ (fun e e' => e.1 = e'.1 ∧ Option.Rel V e.2 e'.2) s.toList s'.toList

theorem Matches.lookup {s s' : Store} (h : s.Matches V s') (k : CacheKey) :
    Option.Rel V (s.lookup k) (s'.lookup k) := by
  unfold Store.lookup Entries.find?
  unfold Matches at h
  generalize s.toList = l at h
  generalize s'.toList = l' at h
  induction h with
  | nil => exact .none
  | @cons e e' l l' he _ ih =>
    by_cases hk : e.1 = k
    · have hk' : e'.1 = k := he.1 ▸ hk
      simpa [List.find?_cons, hk, hk'] using he.2
    · have hk' : e'.1 ≠ k := he.1 ▸ hk
      simpa [List.find?_cons, hk, hk'] using ih

theorem Matches.insert {s s' : Store} (h : s.Matches V s') (k : CacheKey) {x y : Option Value}
    (hV : Option.Rel V x y) : Matches V (s.insert k x) (s'.insert k y) := by
  unfold Matches at h ⊢
  show List.Forall₂ _ (Entries.insertList k x s.toList) (Entries.insertList k y s'.toList)
  generalize s.toList = l at h
  generalize s'.toList = l' at h
  induction h with
  | nil => exact .cons ⟨rfl, hV⟩ .nil
  | @cons e e' l l' he hl ih =>
    by_cases hk : e.1 = k
    · have hk' : e'.1 = k := he.1 ▸ hk
      rw [Entries.insertList, if_pos hk, Entries.insertList, if_pos hk']
      exact .cons ⟨rfl, hV⟩ hl
    · have hk' : e'.1 ≠ k := he.1 ▸ hk
      rw [Entries.insertList, if_neg hk, Entries.insertList, if_neg hk']
      exact .cons he ih

theorem Matches.erase {s s' : Store} (h : s.Matches V s') (k : CacheKey) :
    Matches V (s.erase k) (s'.erase k) := by
  unfold Matches at h ⊢
  show List.Forall₂ _ (s.toList.filter _) (s'.toList.filter _)
  generalize s.toList = l at h
  generalize s'.toList = l' at h
  induction h with
  | nil => exact .nil
  | @cons e e' l l' he hl ih =>
    by_cases hk : e.1 = k
    · have hk' : e'.1 = k := he.1 ▸ hk
      rw [List.filter_cons_of_neg (by simpa using hk), List.filter_cons_of_neg (by simpa using hk')]
      exact ih
    · have hk' : e'.1 ≠ k := he.1 ▸ hk
      rw [List.filter_cons_of_pos (by simpa using hk), List.filter_cons_of_pos (by simpa using hk')]
      exact .cons he ih

theorem Matches.size {s s' : Store} (h : s.Matches V s') : s.size = s'.size := h.length_eq

/-- Two stores that serve values which belong together are alike. -/
theorem alike (id id' : String) (t : Thread) (V : Value → Value → Prop) :
    Cache.Alike t (Matches V) V (cache id) (cache id') where
  put k _ _ hV := fun _ _ _ _ _ h => ⟨_, _, _, _, rfl, rfl, h.insert k hV⟩
  get k := fun _ _ _ _ _ h => ⟨_, _, _, _, rfl, rfl, h.lookup k, h⟩
  remove k := fun _ _ _ _ _ h => ⟨_, _, _, _, rfl, rfl, h.lookup k, h.erase k⟩
  clear := fun _ _ _ _ _ _ => ⟨_, _, _, _, rfl, rfl, .nil⟩
  size := fun _ _ _ _ _ h => ⟨_, _, _, _, rfl, rfl, h.size, h⟩
  releaseLock _ := fun _ _ _ _ _ h => ⟨_, _, _, _, rfl, rfl, h⟩

end Store

/-! ## Layers that evict -/

/-- Layers in the same state, above states that `R` relates. -/
def SameLayer {lam : Type} (R : σ → τ → Prop) (s : lam × σ) (s' : lam × τ) : Prop :=
  s.1 = s'.1 ∧ R s.2 s'.2

/-- A layer changes its own state and gives a value, on both sides alike. -/
theorem SameLayer.updateLayer {ε lam α : Type} {f : lam → α × lam} :
    (Await.ofOp (Op.updateLayer f) : Await ε (lam × σ) α).Alike t (SameLayer R)
      (.ofOp (Op.updateLayer f) : Await ε (lam × τ) α) fun a b s s' => a = b ∧ SameLayer R s s' :=
  .update fun s s' h => ⟨by rw [h.1], by rw [h.1], h.2⟩

theorem SameLayer.modifyLayer {ε lam : Type} {f : lam → lam} :
    (Await.ofOp (Op.modifyLayer f) : Await ε (lam × σ) Unit).Alike t (SameLayer R)
      (.ofOp (Op.modifyLayer f) : Await ε (lam × τ) Unit) fun _ _ => SameLayer R :=
  .modify fun _ _ h => ⟨congrArg f h.1, h.2⟩

/-- The values do not count for a queue: which key leaves depends on the keys. -/
theorem Fifo.alike (h : Cache.Alike t R V d d') :
    Cache.Alike t (SameLayer R) V (Fifo.around d) (Fifo.around d') :=
  have hb := h.beside (fun _ : Fifo => []) fun _ => []
  { hb with
    put := fun k x y hV => by
      refine SameLayer.updateLayer.bind fun leaving leaving' => .given fun heq => ?_
      subst heq
      cases leaving with
      | some oldest =>
        exact ((hb.remove oldest).holding x.toList y.toList).bind fun _ _ =>
          .given fun _ => hb.put k x y hV
      | none => exact hb.put k x y hV
    clear := hb.clear.bind fun _ _ => SameLayer.modifyLayer }

/-- The values do not count for the order of use either. -/
theorem Lru.alike (h : Cache.Alike t R V d d') :
    Cache.Alike t (SameLayer R) V (Lru.around d) (Lru.around d') :=
  have hb := h.beside (fun _ : Recency => []) fun _ => []
  { hb with
    put := fun k x y hV => by
      refine (hb.put k x y hV).bind fun _ _ => SameLayer.updateLayer.bind fun leaving leaving' =>
        .given fun heq => ?_
      subst heq
      cases leaving with
      | some eldest => exact (hb.remove eldest).bind fun _ _ => .pure fun _ _ hR => hR.2
      | none => exact .pure fun _ _ hR => hR
    get := fun k => SameLayer.modifyLayer.bind fun _ _ => hb.get k
    clear := hb.clear.bind fun _ _ => SameLayer.modifyLayer }

/-! ## Layers around them -/

/-- Values with the same data, of a type whose data come back as they are. -/
inductive Value.SameData : Value → Value → Prop where
  | data {d : Data} (hd : d.type.IsExact) (a a' : Nat) :
    SameData (.data a d true) (.data a' d true)

/-- The value is serializable, and its data come back as they are. -/
def Value.IsExact (v : Value) : Prop := ∃ a d, v = .data a d true ∧ d.type.IsExact

theorem Value.IsExact.sameData {v : Value} (h : v.IsExact) : v.SameData v := by
  rcases h with ⟨a, d, rfl, hd⟩
  exact .data hd a a

/-- The first value is a snapshot of the data of the second one. -/
inductive Value.Saves : Value → Value → Prop where
  | snapshot {d : Data} {s : Snapshot} (hd : d.type.IsExact) (hs : s.restore = .ok d) (a a' : Nat) :
    Saves (.snapshot a s) (.data a' d true)

/-- Copies do not show: what is put is saved, and what is read is restored. -/
theorem Serialized.alike (h : Cache.Alike t R Value.Saves d d') :
    Cache.Alike t R Value.SameData (Serialized.around d) d' where
  put k x y hV := by
    cases hV with
    | none => exact h.put k none none .none
    | some hV =>
      cases hV with
      | @data data hd a a' =>
        obtain ⟨s, hs, hrestore⟩ := Value.toSnapshot_of_isExact hd a
        refine .before (P := fun u s s' => Value.Saves u (.data a' data true) ∧ R s s') ?_ fun u =>
          .given fun hu => h.put k _ _ (.some hu)
        intro c w c' w' _ hR
        exact ⟨_, _, (), w', Await.ofOp_of_eq (save_of_ok hs d.id c w), rfl,
          .snapshot hd hrestore _ a', hR⟩
  get k := (h.get k).after fun x y => .given (restoreFound_alike x y)
  remove k := (h.remove k).after fun x y => .given (restoreFound_alike x y)
  clear := h.clear
  size := h.size
  releaseLock := h.releaseLock
where
  restoreFound_alike (x y : Option Value) (hV : Option.Rel Value.Saves x y) :
      (Await.ofOp (restoreFound d.id x)).Alike t R (pure y) fun x y s s' =>
        Option.Rel Value.SameData x y ∧ R s s' := by
    intro c w c' w' _ hR
    cases hV with
    | none => exact ⟨none, w, none, w', rfl, rfl, .none, hR⟩
    | some hV =>
      cases hV with
      | @snapshot data s hd hs a a' =>
        exact ⟨_, _, _, w', Await.ofOp_of_eq (restoreFound_of_ok hs a d.id c w), rfl,
          .some (.data hd _ _), hR⟩

/-- A layer's own step, which keeps what is asked of its state and does not concern the second
operation. -/
theorem Await.Alike.modifyLayer {ε lam : Type} (own : lam → Prop) {f : lam → lam}
    {Q : σ → τ → Prop} (hf : ∀ l, own l → own (f l)) :
    (Await.ofOp (Op.modifyLayer f) : Await ε (lam × σ) Unit).Alike t
      (fun s s' => own s.1 ∧ Q s.2 s') (Pure.pure () : Await ε τ Unit) fun _ _ s s' =>
        own s.1 ∧ Q s.2 s' :=
  fun _ _ _ w' _ hQ => ⟨(), _, (), w', rfl, rfl, hf _ hQ.1, hQ.2⟩

/-- Counting shows in the statistics alone. -/
theorem ReadCounts.alike (h : Cache.Alike t R V d d') :
    Cache.Alike t (fun s s' => True ∧ R s.2 s') V (ReadCounts.around d) d' :=
  have hb := h.under (fun _ : ReadCounts => []) fun _ => True
  { hb with
    get := fun k => by
      refine .before (Await.Alike.modifyLayer (fun _ => True) fun _ h => h) fun _ =>
        (hb.get k).after fun x y => ?_
      cases x with
      | none => exact .pure fun _ _ hq => hq
      | some v =>
        exact .given fun hV => .before (Await.Alike.modifyLayer (fun _ => True) fun _ h => h)
          fun _ => .pure fun _ _ hR => ⟨hV, hR⟩ }

/-- The gate is open, for no call is inside. -/
def Gate.IsOpen (g : Gate) : Prop := g.isTaken = false

/-- A call passes an open gate at once, and leaves it open. -/
theorem Gate.alone_alike {α β : Type} {values : List Value} {m : CacheCall (Gate × σ) α}
    {n : CacheCall τ β} {Q : α → β → σ → τ → Prop}
    (h : ∀ own : Gate → Prop, m.Alike t (fun s s' => own s.1 ∧ R s.2 s') n fun a b s s' =>
      own s.1 ∧ Q a b s.2 s') :
    (Gate.alone values m).Alike t (fun s s' => s.1.IsOpen ∧ R s.2 s') n fun a b s s' =>
      s.1.IsOpen ∧ Q a b s.2 s' := by
  -- Outside, the call finds the gate open.
  refine .before (P := fun _ s s' => s.1.IsOpen ∧ R s.2 s') ?_ fun _ => ?_
  · intro c w c' w' _ hR
    refine ⟨(), w, (), w', ?_, rfl, hR⟩
    show (Await.waitFor _ (c.holding values) w).holding values = _
    have hopen : (!(id w.state.1).isTaken) = true := by
      rw [id, hR.1]
      rfl
    rw [Await.waitFor, if_pos hopen]
    rfl
  -- Inside, it is shut until the call has come to its end.
  refine .before (P := fun _ s s' => True ∧ R s.2 s') ?_ fun _ => ?_
  · exact fun _ w _ w' _ hR => ⟨(), _, (), w', rfl, rfl, trivial, hR.2⟩
  refine (h fun _ => True).result.after fun r b => ?_
  refine .before (P := fun _ s s' => ∃ a, r = .ok a ∧ s.1.IsOpen ∧ Q a b s.2 s') ?_ fun _ => ?_
  · rintro _ w _ w' _ ⟨a, rfl, _, hq⟩
    exact ⟨(), _, (), w', rfl, rfl, a, rfl, rfl, hq⟩
  · rintro _ w _ w' _ ⟨a, rfl, hq⟩
    exact ⟨a, w, b, w', rfl, rfl, hq⟩

/-- A gate lets a single thread pass. -/
theorem Gate.alike (h : Cache.Alike t R V d d') :
    Cache.Alike t (fun s s' => s.1.IsOpen ∧ R s.2 s') V (Gate.around d) d' where
  put k x y hV := Gate.alone_alike fun own => (h.put k x y hV).below _ own
  get k := (Gate.alone_alike (Q := fun x y s s' => Option.Rel V x y ∧ R s s') fun own =>
    (h.get k).below _ own).mono fun _ _ _ _ hq => ⟨hq.2.1, hq.1, hq.2.2⟩
  remove k := (Gate.alone_alike (Q := fun x y s s' => Option.Rel V x y ∧ R s s') fun own =>
    (h.remove k).below _ own).mono fun _ _ _ _ hq => ⟨hq.2.1, hq.1, hq.2.2⟩
  clear := Gate.alone_alike fun own => h.clear.below _ own
  size := (Gate.alone_alike (Q := fun a b s s' => a = b ∧ R s s') fun own =>
    h.size.below _ own).mono fun _ _ _ _ hq => ⟨hq.2.1, hq.1, hq.2.2⟩
  releaseLock k := (h.releaseLock k).below _ _

/-- All locks that are held are the thread's. -/
def KeyLocks.AllOf (t : Thread) (l : KeyLocks) : Prop := ∀ k holder, l.find? k = some holder →
  holder = t

theorem KeyLocks.AllOf.acquire {l : KeyLocks} (h : l.AllOf t) (k : CacheKey) :
    KeyLocks.AllOf t (l.acquire k t) := by
  intro k' holder hfind
  rw [KeyLocks.acquire, Entries.find?_insert] at hfind
  split at hfind
  · exact (Option.some.inj hfind).symm
  · exact h k' holder hfind

theorem KeyLocks.AllOf.release {l : KeyLocks} (h : l.AllOf t) (k : CacheKey) (u : Thread) :
    KeyLocks.AllOf t (l.release k u) := by
  intro k' holder hfind
  unfold KeyLocks.release at hfind
  split at hfind
  · rw [Entries.find?_erase] at hfind
    split at hfind
    · cases hfind
    · exact h k' holder hfind
  · exact h k' holder hfind

/-- A thread that has all the locks never waits for one. -/
theorem KeyLocks.AllOf.isFree {l : KeyLocks} (h : l.AllOf t) (k : CacheKey) :
    l.isFree k t = true := by
  unfold KeyLocks.isFree
  cases hfind : l.find? k with
  | none => rfl
  | some holder =>
    rw [h k holder hfind]
    exact beq_self_eq_true t

namespace Blocking

/-- The step in which a lock is given back. -/
theorem release_alike {ε : Type} {Q : σ → τ → Prop} (k : CacheKey) :
    (Await.ofOp (release k) : Await ε (KeyLocks × σ) Unit).Alike t
      (fun s s' => s.1.AllOf t ∧ Q s.2 s') (Pure.pure () : Await ε τ Unit) fun _ _ s s' =>
        s.1.AllOf t ∧ Q s.2 s' :=
  fun c _ _ w' _ hQ => ⟨(), _, (), w', rfl, rfl, hQ.1.release k c.thread, hQ.2⟩

/-- The step in which a lock is taken: it is free. -/
theorem acquire_alike {Q : σ → τ → Prop} (timeout : Option Duration) (id : String)
    (k : CacheKey) : (acquire timeout id k : CacheCall (KeyLocks × σ) Unit).Alike t
      (fun s s' => s.1.AllOf t ∧ Q s.2 s') (Pure.pure () : CacheCall τ Unit) fun _ _ s s' =>
        s.1.AllOf t ∧ Q s.2 s' := by
  rintro c w c' w' rfl hQ
  refine ⟨(), ⟨w.env, w.state.1.acquire k c.thread, w.state.2⟩, (), w', ?_, rfl, hQ.1.acquire k,
    hQ.2⟩
  have hready : isReady k c.thread w = true := hQ.1.isFree k
  rw [acquire, if_pos hready]
  rfl

end Blocking

/-- The cache whose removals take nothing out and find nothing. -/
def Cache.withoutRemoval (d : Cache σ) : Cache σ := { d with remove := fun _ => pure none }

/-- Locks do not stop the thread that holds them; but removals are only a giving back. -/
theorem Blocking.alike (h : Cache.Alike t R V d d') (timeout : Option Duration) :
    Cache.Alike t (fun s s' => s.1.AllOf t ∧ R s.2 s') V (Blocking.around timeout d)
      d'.withoutRemoval :=
  have hb := h.under (fun _ : KeyLocks => []) (KeyLocks.AllOf t)
  { clear := hb.clear
    size := hb.size
    put := fun k x y hV => by
      refine (hb.put k x y hV).result.after fun r b => ?_
      refine .before (P := fun _ s s' => r = .ok () ∧ s.1.AllOf t ∧ R s.2 s') ?_ fun _ => ?_
      · rintro c w c' w' _ ⟨_, rfl, hQ⟩
        exact ⟨(), _, (), w', rfl, rfl, rfl, hQ.1.release k c.thread, hQ.2⟩
      · refine .given fun hr => ?_
        subst hr
        exact .pure fun _ _ hR => hR
    get := fun k => by
      refine .before (acquire_alike timeout d.id k) fun _ => (hb.get k).result.after fun r y => ?_
      rintro c w c' w' hc ⟨x, rfl, hV, hR⟩
      cases x with
      | none => exact ⟨none, w, y, w', rfl, rfl, hV, hR⟩
      | some v => exact ⟨some v, _, y, w', rfl, rfl, hV, hR.1.release k c.thread, hR.2⟩
    remove := fun k => .before (release_alike k) fun _ => .pure fun _ _ hR => ⟨.none, hR⟩
    releaseLock := fun k => by
      intro c w c' w' hc hR
      exact (h.releaseLock k).below (fun _ : KeyLocks => []) (KeyLocks.AllOf t) c
        ⟨w.env, w.state.1.release k c.thread, w.state.2⟩ c' w' hc
        ⟨hR.1.release k c.thread, hR.2⟩ }

/-! ## Built caches -/

namespace Stack

/-- To a thread the layers around an empty store answer as another cache does, which begins in
the state `s₀`. -/
def AnswersAs (id : String) (layers : List Layer) (t : Thread) (V : Value → Value → Prop)
    (d' : Cache τ) (s₀ : τ) : Prop :=
  ∃ R, Cache.Alike t R V (cacheOf id layers) d' ∧ ∀ now, R (initialOf now layers) s₀

variable {id : String} {layers : List Layer} {s₀ : τ}

theorem answersAs_fifo (id : String) (capacity now : Nat) (t : Thread)
    (V : Value → Value → Prop) : AnswersAs id [.fifo capacity] t V (cacheOf id [.fifo capacity])
      (initialOf now [.fifo capacity]) :=
  ⟨_, Fifo.alike (Store.alike id id t V), fun _ => ⟨rfl, .nil⟩⟩

theorem answersAs_lru (id : String) (capacity now : Nat) (t : Thread)
    (V : Value → Value → Prop) : AnswersAs id [.lru capacity] t V (cacheOf id [.lru capacity])
      (initialOf now [.lru capacity]) :=
  ⟨_, Lru.alike (Store.alike id id t V), fun _ => ⟨rfl, .nil⟩⟩

theorem AnswersAs.serialized (h : AnswersAs id layers t Value.Saves d' s₀) :
    AnswersAs id (.serialized :: layers) t Value.SameData d' s₀ := by
  rcases h with ⟨R, halike, h₀⟩
  exact ⟨_, (Serialized.alike halike).under (fun _ : Unit => []) fun _ => True,
    fun now => ⟨trivial, h₀ now⟩⟩

theorem AnswersAs.statistics (h : AnswersAs id layers t V d' s₀) :
    AnswersAs id (.statistics :: layers) t V d' s₀ := by
  rcases h with ⟨R, halike, h₀⟩
  exact ⟨_, ReadCounts.alike halike, fun now => ⟨trivial, h₀ now⟩⟩

theorem AnswersAs.synchronized (h : AnswersAs id layers t V d' s₀) :
    AnswersAs id (.synchronized :: layers) t V d' s₀ := by
  rcases h with ⟨R, halike, h₀⟩
  exact ⟨_, Gate.alike halike, fun now => ⟨rfl, h₀ now⟩⟩

theorem AnswersAs.blocking (h : AnswersAs id layers t V d' s₀) (timeout : Option Duration) :
    AnswersAs id (.blocking timeout :: layers) t V d'.withoutRemoval s₀ := by
  rcases h with ⟨R, halike, h₀⟩
  exact ⟨_, Blocking.alike halike timeout, fun now => ⟨fun _ _ hfind => (by cases hfind), h₀ now⟩⟩

end Stack

namespace CacheBuilder

variable {b : CacheBuilder}

/-- The policy evicts by the keys alone. -/
def EvictsByKey (b : CacheBuilder) : Prop := b.eviction = .lru ∨ b.eviction = .fifo

/-- The evicting layer alone, around a store. -/
def bare (b : CacheBuilder) : Stack := ⟨b.id, [b.evictionLayer]⟩

/-- The evicting layer as a cache; if the built cache blocks, removals take nothing out. -/
def bareCache (b : CacheBuilder) : Cache b.bare.State :=
  if b.blocking then b.bare.cache.withoutRemoval else b.bare.cache

theorem answersAs_bare (hpolicy : b.EvictsByKey) (t : Thread) (V : Value → Value → Prop)
    (now : Nat) : Stack.AnswersAs b.id [b.evictionLayer] t V b.bare.cache (b.bare.initial now) := by
  unfold bare Stack.cache Stack.initial evictionLayer
  rcases hpolicy with hpolicy | hpolicy
  · rw [hpolicy]
    exact Stack.answersAs_lru ..
  · rw [hpolicy]
    exact Stack.answersAs_fifo ..

/-- The layers of a builder that does not clear on schedule answer as the evicting one. -/
theorem answersAs_layers (hpolicy : b.EvictsByKey) (hinterval : b.clearInterval = none)
    (t : Thread) (now : Nat) : Stack.AnswersAs b.id (b.outerLayers ++ [b.evictionLayer]) t
      Value.SameData b.bareCache (b.bare.initial now) := by
  -- From the inside out; each setting adds one layer, or none.
  have hcopies : Stack.AnswersAs b.id
      ((if b.readWrite then [.serialized] else []) ++ [b.evictionLayer]) t Value.SameData
      b.bare.cache (b.bare.initial now) := by
    cases b.readWrite with
    | true => exact (answersAs_bare hpolicy t Value.Saves now).serialized
    | false => exact answersAs_bare hpolicy t Value.SameData now
  have hgate := hcopies.statistics.synchronized
  unfold outerLayers bareCache
  rw [hinterval]
  cases b.blocking with
  | true => exact hgate.blocking b.blockingTimeout
  | false => exact hgate

/-- A builder without custom parts and with settings in order builds its own layers. -/
theorem build_eq (himpl : b.implementation = none) (hdec : b.decorators = []) (hid : b.id ≠ "")
    (hsize : b.size ≠ some 0) (hinterval : b.clearInterval = none)
    (htimeout : b.blockingTimeout = none ∨ b.blocking = true) (hpolicy : b.EvictsByKey) :
    b.build = .ok ⟨b.id, b.outerLayers ++ [b.evictionLayer]⟩ := by
  have hstrong : b.eviction ≠ .weak := by
    rintro hweak
    rcases hpolicy with hpolicy | hpolicy
    · cases hpolicy.symm.trans hweak
    · cases hpolicy.symm.trans hweak
  refine (build_eq_ok_iff himpl hdec).2 ⟨⟨hid, hsize, ?_, ?_, ?_⟩, rfl⟩
  · rw [hinterval]
    exact nofun
  · intro hfree
    rcases htimeout with htimeout | htimeout
    · exact htimeout
    · cases hfree.symm.trans htimeout
  · exact fun _ hweak => absurd hweak hstrong

/-- For a thread that puts values of exact types, the layers around an evicting one do not
show.  A builder with a policy that evicts by the keys, without custom parts and without
clears on schedule, builds a cache; each call on it ends at once and gives what the same call
on the evicting layer alone gives, up to the identity of values.  Only a removal from a
blocking cache does not take the key out and finds nothing. -/
theorem layers_transparent (himpl : b.implementation = none) (hdec : b.decorators = [])
    (hid : b.id ≠ "") (hsize : b.size ≠ some 0) (hinterval : b.clearInterval = none)
    (htimeout : b.blockingTimeout = none ∨ b.blocking = true) (hpolicy : b.EvictsByKey) :
    ∃ s, b.build = .ok s ∧ ∀ (t : Thread) (now now' : Nat) {visits visits' : List Visit},
      List.Forall₂ (fun v v' => v.request = v'.request) visits visits' →
      (∀ v ∈ visits, v.caller.thread = t ∧ v.request.Brings Value.IsExact) →
      ∃ as bs, s.cache.answers (s.initial now) visits = some as ∧
        b.bareCache.answers (b.bare.initial now') visits' = some bs ∧
        List.Forall₂ (Answer.Agrees Value.SameData) as bs := by
  refine ⟨_, build_eq himpl hdec hid hsize hinterval htimeout hpolicy, ?_⟩
  intro t now now' visits visits' hsame hvisits
  obtain ⟨R, halike, h₀⟩ := answersAs_layers hpolicy hinterval t now'
  refine halike.answers hsame ?_ (h₀ now)
  intro v hv
  obtain ⟨hthread, hbrings⟩ := hvisits v hv
  exact ⟨hthread, hbrings.mono fun _ hexact => hexact.sameData⟩

/-- A read-write blocking cache for one entry, which evicts by the order of the puts. -/
def oneBlocked : CacheBuilder :=
  { id := "users", size := some 1, eviction := .fifo, blocking := true }

/-- Two puts, of which the second one takes the place of the first one, a removal that takes
nothing out, and two reads. -/
def fiveRequests : List Request :=
  [.put .null (some (.data 0 (.bool true) true)),
    .put (.folded .empty) (some (.data 1 (.bytes [7]) true)),
    .remove (.folded .empty), .get (.folded .empty), .get .null]

/-- The requests, made by a thread in one environment. -/
def fiveVisits : List Visit := fiveRequests.map fun r => ⟨⟨"main", []⟩, { nextAlloc := 2 }, r⟩

/-- The second value is there to the end, the first one is not. -/
theorem layers_transparent_oneBlocked :
    ∃ s, oneBlocked.build = .ok s ∧ ∃ as bs, s.cache.answers (s.initial 0) fiveVisits = some as ∧
      List.Forall₂ (Answer.Agrees Value.SameData) as bs ∧
      bs = [.done, .done, .value none, .value (some (.data 1 (.bytes [7]) true)), .value none] := by
  obtain ⟨s, hs, hanswers⟩ := layers_transparent (b := oneBlocked) rfl rfl (by decide)
    (by decide) rfl (.inl rfl) (.inr rfl)
  have hvisits : ∀ v ∈ fiveVisits, v.caller.thread = "main" ∧ v.request.Brings Value.IsExact := by
    intro v hv
    obtain ⟨r, hr, rfl⟩ := List.mem_map.1 hv
    refine ⟨rfl, ?_⟩
    simp only [fiveRequests, List.mem_cons, List.not_mem_nil, or_false] at hr
    rcases hr with rfl | rfl | rfl | rfl | rfl
    · exact ⟨0, _, rfl, by decide, by decide⟩
    · exact ⟨1, _, rfl, by decide, by decide⟩
    · trivial
    · trivial
    · trivial
  obtain ⟨as, bs, has, hbs, hall⟩ :=
    hanswers "main" 0 0 (List.forall₂_same.2 fun v _ => rfl) hvisits
  refine ⟨s, hs, as, bs, has, hall, ?_⟩
  exact (Option.some.inj (Eq.trans (by rfl) hbs)).symm

end CacheBuilder

end QueryCache
