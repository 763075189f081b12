import Mathlib
import QueryCache.Layer.Store
import QueryCache.Proofs.Cache.Alike

/-!
# Calls on a cache with a capacity

Calls are made one after the other, each by its caller and in its environment, and some of
them may change the capacity of the cache.  If each call does at once what a function on the
states says, then all of them together do what the fold of that function says.

1. what calls leave
2. caches whose capacity can be changed
3. keys and capacities of a history
4. stores
-/

namespace QueryCache

variable {ε σ α : Type}

/-! ## What calls leave -/

/-- The state that a call leaves which has ended without an error. -/
def Outcome.state? : Outcome ε σ α → Option σ
  | .done (.ok _) w => some w.state
  | _ => none

theorem Outcome.state?_of_eq {o : Outcome ε σ α} {a : α} {w : World σ} (h : o = .done (.ok a) w) :
    o.state? = some w.state := by
  rw [h]
  rfl

/-- The state after calls that are made one after the other; there is none if a call fails or
has to wait. -/
def Cache.after (d : Cache σ) (s : σ) (visits : List Visit) : Option σ :=
  visits.foldlM (fun s v => (d.serve v.request v.caller ⟨v.env, s⟩).state?) s

section

variable {d : Cache σ} {s : σ} {v : Visit} {a : Answer} {w : World σ}

/-- The first call ends, and the others follow. -/
theorem Cache.after_cons (h : d.serve v.request v.caller ⟨v.env, s⟩ = .done (.ok a) w)
    (rest : List Visit) : d.after s (v :: rest) = d.after w.state rest := by
  simp only [Cache.after, List.foldlM_cons, Outcome.state?_of_eq h, Option.bind_eq_bind,
    Option.bind_some]

theorem Cache.answers_cons (h : d.serve v.request v.caller ⟨v.env, s⟩ = .done (.ok a) w)
    (rest : List Visit) : d.answers s (v :: rest) = (d.answers w.state rest).map (a :: ·) := by
  rw [Cache.answers, h]

end

/-- Calls of which each does what `step` says. -/
theorem foldlM_of_step {ν ρ : Type} {call : σ → ν → Option σ} {step : σ → ρ → σ} {request : ν → ρ}
    (h : ∀ s v, call s v = some (step s (request v))) (visits : List ν) (s : σ) :
    visits.foldlM call s = some ((visits.map request).foldl step s) := by
  induction visits generalizing s with
  | nil => rfl
  | cons v rest ih =>
    rw [List.foldlM_cons, h]
    exact ih _

/-! ## Caches whose capacity can be changed -/

/-- A cache, and how its capacity is changed. -/
structure ResizableCache (σ : Type) where
  cache : Cache σ
  setCapacity : Nat → CacheCall σ Unit

/-- What is asked of such a cache: what is asked of any cache, or another capacity. -/
inductive ResizableRequest where
  | ask (r : Request)
  | resize (capacity : Nat)

/-- A call as it is made: by whom, in which environment, and what it asks. -/
structure ResizableVisit where
  caller : Caller
  env : Environment
  request : ResizableRequest

namespace ResizableCache

/-- The call that a request asks for. -/
def serve (d : ResizableCache σ) : ResizableRequest → CacheCall σ Answer
  | .ask r => d.cache.serve r
  | .resize n => do
    d.setCapacity n
    pure .done

/-- The state after calls that are made one after the other; there is none if a call fails or
has to wait. -/
def after (d : ResizableCache σ) (s : σ) (visits : List ResizableVisit) : Option σ :=
  visits.foldlM (fun s v => (d.serve v.request v.caller ⟨v.env, s⟩).state?) s

/-- Every call ends at once, and leaves what `step` says. -/
structure Performs (d : ResizableCache σ) (step : σ → ResizableRequest → σ) : Prop where
  ask : ∀ r c w, ∃ a, d.cache.serve r c w = .done (.ok a) ⟨w.env, step w.state (.ask r)⟩
  resize : ∀ n c w, d.setCapacity n c w = .done (.ok ()) ⟨w.env, step w.state (.resize n)⟩

namespace Performs

variable {d : ResizableCache σ} {step : σ → ResizableRequest → σ}

theorem serve_run (h : d.Performs step) (r : ResizableRequest) (c : Caller) (w : World σ) :
    ∃ a, d.serve r c w = .done (.ok a) ⟨w.env, step w.state r⟩ := by
  cases r with
  | ask r => exact h.ask r c w
  | resize n => exact ⟨.done, Await.bind_of_done (h.resize n c w)⟩

theorem after_eq (h : d.Performs step) (s : σ) (visits : List ResizableVisit) :
    d.after s visits = some ((visits.map ResizableVisit.request).foldl step s) := by
  apply foldlM_of_step
  intro s v
  obtain ⟨a, ha⟩ := h.serve_run v.request v.caller ⟨v.env, s⟩
  exact Outcome.state?_of_eq ha

/-- The same for calls that do not change the capacity. -/
theorem cache_after_eq (h : d.Performs step) (s : σ) (visits : List Visit) :
    d.cache.after s visits =
      some ((visits.map Visit.request).foldl (fun s r => step s (.ask r)) s) := by
  apply foldlM_of_step
  intro s v
  obtain ⟨a, ha⟩ := h.ask v.request v.caller ⟨v.env, s⟩
  exact Outcome.state?_of_eq ha

end Performs

end ResizableCache

/-! ## Keys and capacities of a history -/

/-- The key that a request puts. -/
def Request.putKey? : Request → Option CacheKey
  | put k _ => some k
  | _ => none

/-- The key that a request puts or reads. -/
def Request.usedKey? : Request → Option CacheKey
  | put k _ => some k
  | get k => some k
  | _ => none

namespace ResizableRequest

/-- The key that a request puts. -/
def putKey? : ResizableRequest → Option CacheKey
  | ask r => r.putKey?
  | resize _ => none

/-- The key that a request puts or reads. -/
def usedKey? : ResizableRequest → Option CacheKey
  | ask r => r.usedKey?
  | resize _ => none

/-- The capacity after a request, where it was `n` before. -/
def capacityFrom (n : Nat) : ResizableRequest → Nat
  | ask _ => n
  | resize m => m

/-- A request to change the capacity leaves room for an entry. -/
def LeavesRoom : ResizableRequest → Prop
  | ask _ => True
  | resize m => 1 ≤ m

end ResizableRequest

/-- The capacity after requests, where it was `n` before: the last one that was set. -/
def capacityAfter (n : Nat) (requests : List ResizableRequest) : Nat :=
  requests.foldl ResizableRequest.capacityFrom n

/-- The capacity of a state after requests, of which each one changes it as it asks. -/
theorem capacity_foldl {step : σ → ResizableRequest → σ} (capacity : σ → Nat)
    (h : ∀ s r, capacity (step s r) = r.capacityFrom (capacity s)) (s : σ)
    (requests : List ResizableRequest) :
    capacity (requests.foldl step s) = capacityAfter (capacity s) requests := by
  induction requests generalizing s with
  | nil => rfl
  | cons r rest ih =>
    rw [capacityAfter, List.foldl_cons, List.foldl_cons, ← h]
    exact ih _

/-- The requests leave the capacity `n` as it is. -/
def KeepsCapacity (n : Nat) (requests : List ResizableRequest) : Prop :=
  ∀ r ∈ requests, r.capacityFrom n = n

theorem KeepsCapacity.capacityAfter {n : Nat} {requests : List ResizableRequest}
    (h : KeepsCapacity n requests) : capacityAfter n requests = n := by
  induction requests with
  | nil => rfl
  | cons r rest ih =>
    rw [QueryCache.capacityAfter, List.foldl_cons, h r List.mem_cons_self]
    exact ih fun r hr => h r (List.mem_cons_of_mem _ hr)

/-! ## Stores -/

/-- There are no more entries than keys in a list that has all of theirs. -/
theorem Entries.size_le_length {κ α : Type} {m : Entries κ α} {l : List κ}
    (h : ∀ k ∈ m.keys, k ∈ l) : m.size ≤ l.length := by
  have hkeys : m.keys.Nodup := m.nodup
  have hlength := (List.subperm_of_subset hkeys h).length_le
  simpa [keys, size] using hlength

/-- What a store answers to a request. -/
def Store.answer (s : Store) : Request → Answer
  | .put .. => .done
  | .get k => .value (s.lookup k)
  | .remove k => .value (s.lookup k)
  | .clear => .done
  | .size => .number s.size
  | .releaseLock _ => .done

/-- What a request leaves in a store. -/
def Store.apply (s : Store) : Request → Store
  | .put k x => s.insert k x
  | .get _ => s
  | .remove k => s.erase k
  | .clear => .empty
  | .size => s
  | .releaseLock _ => s

/-- Every call on a store ends at once. -/
theorem Store.serve_run (id : String) (r : Request) (c : Caller) (w : World Store) :
    (Store.cache id).serve r c w = .done (.ok (w.state.answer r)) ⟨w.env, w.state.apply r⟩ := by
  cases r <;> rfl

theorem Store.after_eq (id : String) (s : Store) (visits : List Visit) :
    (Store.cache id).after s visits = some ((visits.map Visit.request).foldl Store.apply s) := by
  apply foldlM_of_step
  intro s v
  exact Outcome.state?_of_eq (serve_run id v.request v.caller ⟨v.env, s⟩)

end QueryCache
