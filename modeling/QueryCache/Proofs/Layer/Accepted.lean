import Mathlib
import QueryCache.Proofs.Cache.Honesty
import QueryCache.Proofs.Layer.Copies
import QueryCache.Proofs.Value.Readable

/-!
# What is accepted, and whether it can be read

A layer of copies above a store refuses a value that has no snapshot, and then leaves the
store alone.  What it accepts can be read, with one exception: a float that is not finite is
accepted, and from then on every read of its key fails, until the key is overwritten.

1. what is stored
2. reads
3. calls and runs
4. floats that are not finite
-/

namespace QueryCache.Serialized

variable {id : String} {k : CacheKey}

/-! ## What is stored -/

/-- A snapshot is stored for a value, and nothing for none. -/
inductive Saved : Option Value → Option Value → Prop where
  | none : Saved none none
  | some {v : Value} {s : Snapshot} {a : Nat} (hs : v.toSnapshot = .ok s) :
      Saved (some v) (some (.snapshot a s))

/-- The store has a snapshot of each value of the map, and nothing else. -/
def Mirrors (s : Store) (m : Ideal) : Prop := ∀ k, Saved (m k) (s.lookup k)

theorem mirrors_empty : Mirrors .empty .empty := fun _ => .none

theorem Mirrors.insert {s : Store} {m : Ideal} (h : Mirrors s m) {x u : Option Value}
    (hx : Saved x u) (k : CacheKey) : Mirrors (s.insert k u) (m.set k x) := by
  intro k'
  rw [Store.lookup_insert, Ideal.set_apply]
  split
  · exact hx
  · exact h k'

theorem Mirrors.erase {s : Store} {m : Ideal} (h : Mirrors s m) (k : CacheKey) :
    Mirrors (s.erase k) (m.set k none) := by
  intro k'
  rw [Store.lookup_erase, Ideal.set_apply]
  split
  · exact .none
  · exact h k'

/-! ## Reads -/

/-- The answer to a read, by the value that was put last: nothing for none, a new copy, or a
failure to restore a float that is not finite. -/
inductive Answers (id : String) (e : Environment) :
    Option Value → Except CacheError (Option Value) → Prop where
  | absent : Answers id e none (.ok none)
  | copy {a : Nat} {d d' : Data} (hd : (Value.data a d true).IsFinite) (hcopy : d'.IsCopyOf d) :
      Answers id e (some (.data a d true)) (.ok (some (.data e.nextAlloc d' true)))
  | unreadable {a : Nat} {x : Binary64} (hx : x.isFinite = false) :
      Answers id e (some (.data a (.f64 x) true))
        (.error (.deserialization id (SnapshotError.decode "f64").message))

/-- A snapshot that is not restored is one of a float that is not finite. -/
theorem exists_of_restore_error {v : Value} {s : Snapshot} (hs : v.toSnapshot = .ok s)
    {e : SnapshotError} (he : s.restore = .error e) :
    ∃ a x, v = .data a (.f64 x) true ∧ x.isFinite = false ∧ e = .decode "f64" := by
  have hnot : ¬ v.IsFinite := fun hv => by
    obtain ⟨d, hd⟩ := (Value.restore_iff_isFinite hs).2 hv
    rw [he] at hd
    cases hd
  obtain ⟨a, d, text, rfl, -, rfl⟩ := Value.eq_of_toSnapshot hs
  unfold Value.IsFinite at hnot
  push Not at hnot
  obtain ⟨_, x, _, ⟨⟩, hx⟩ := hnot
  refine ⟨a, x, rfl, Bool.eq_false_of_not_eq_true hx, ?_⟩
  rw [Snapshot.restore] at he
  split at he
  · cases he
  · exact (Except.error.inj he).symm

/-- To restore what is stored answers the read, and leaves the state. -/
theorem restoreFound_answers {σ : Type} {x u : Option Value} (h : Saved x u) (id : String)
    (c : Caller) (w : World σ) :
    ∃ r w', restoreFound id u c w = (r, w') ∧ w'.state = w.state ∧ Answers id w.env x r := by
  cases h with
  | none => exact ⟨_, w, rfl, rfl, .absent⟩
  | some hs =>
    rename_i v s a
    cases hr : s.restore with
    | ok d' =>
      obtain ⟨a', d, rfl, hcopy⟩ := Value.isCopyOf_of_restore hs hr
      have hfinite := (Value.restore_iff_isFinite hs).1 ⟨d', hr⟩
      exact ⟨_, _, restoreFound_of_ok hr a id c w, rfl, .copy hfinite hcopy⟩
    | error e =>
      obtain ⟨a', x, rfl, hx, rfl⟩ := exists_of_restore_error hs hr
      exact ⟨_, _, restoreFound_of_error hr a id c w, rfl, .unreadable hx⟩

variable {w : World Store} {m : Ideal}

theorem copies_get_answers (h : Mirrors w.state m) (id : String) (k : CacheKey) (c : Caller) :
    ∃ r w', (copies id).get k c w = .done r w' ∧ w'.state = w.state ∧ Answers id w.env (m k) r := by
  obtain ⟨r, w', hr, hstate, hanswer⟩ := restoreFound_answers (h k) id c w
  refine ⟨r, w', ?_, hstate, hanswer⟩
  rw [copies_get_eq]
  exact Await.ofOp_of_eq hr

theorem copies_remove_answers (h : Mirrors w.state m) (id : String) (k : CacheKey) (c : Caller) :
    ∃ r w', (copies id).remove k c w = .done r w' ∧ w'.state = w.state.erase k ∧
      Answers id w.env (m k) r := by
  obtain ⟨r, w', hr, hstate, hanswer⟩ :=
    restoreFound_answers (h k) id c (⟨w.env, w.state.erase k⟩ : World Store)
  refine ⟨r, w', ?_, hstate, hanswer⟩
  rw [copies_remove_eq]
  exact Await.ofOp_of_eq hr

/-! ## Calls and runs -/

/-- One call is one step of the map. -/
theorem Mirrors.step {w' : World Store} {c : Caller} {event : Event} (h : Mirrors w.state m)
    (ho : event.Occurs (copies id) c w w') : Mirrors w'.state (event.apply true m) := by
  cases event with
  | put k x r =>
    cases x with
    | none =>
      cases ho
      exact h.insert .none k
    | some v =>
      have ho' : ((copies id).put k (some v) c w).Settles c.thread r w' := ho
      cases hv : v.toSnapshot with
      | error e =>
        rw [copies_put_of_error hv] at ho'
        cases ho'
        exact h
      | ok s =>
        rw [copies_put hv] at ho'
        cases ho'
        exact h.insert (.some hv) k
  | get k r =>
    have ho' : ((copies id).get k c w).Settles c.thread r w' := ho
    obtain ⟨r', w₁, hget, hstate, -⟩ := copies_get_answers h id k c
    rw [hget] at ho'
    cases ho'
    rw [hstate]
    exact h
  | remove k r =>
    have ho' : ((copies id).remove k c w).Settles c.thread r w' := ho
    obtain ⟨r', w₁, hremove, hstate, -⟩ := copies_remove_answers h id k c
    rw [hremove] at ho'
    cases ho'
    rw [hstate]
    exact h.erase k
  | clear r =>
    cases ho
    exact mirrors_empty
  | size r =>
    cases ho
    exact h
  | releaseLock k r =>
    cases ho
    exact h

/-- The store mirrors the map after any calls. -/
theorem mirrors_of_run {env₀ : Environment} {events : List Event}
    (hrun : Run (copies id) ⟨env₀, .empty⟩ events w) :
    Mirrors w.state (Ideal.after true events) := by
  induction hrun with
  | start => exact mirrors_empty
  | @call events w w' e c event _ _ ho ih =>
    rw [Ideal.after_append]
    exact Mirrors.step (w := ⟨e, w.state⟩) ih ho

/-! ## Floats that are not finite -/

/-- After any calls on a layer of copies above an empty store: a read answers with a copy of
the value that was put last, or with nothing if there is none, and fails exactly if that value
is a float that is not finite; the same goes for a removal.  A put is refused and leaves the
store, or stores a snapshot, which can be read unless the value is such a float. -/
theorem unreadable_iff_not_finite {env₀ : Environment} {events : List Event}
    (hrun : Run (copies id) ⟨env₀, .empty⟩ events w) (e : Environment) (c : Caller)
    (k : CacheKey) :
    (∃ r w', (copies id).get k c ⟨e, w.state⟩ = .done r w' ∧ w'.state = w.state ∧
      Answers id e (Ideal.after true events k) r) ∧
    (∃ r w', (copies id).remove k c ⟨e, w.state⟩ = .done r w' ∧ w'.state = w.state.erase k ∧
      Answers id e (Ideal.after true events k) r) ∧
    ∀ v, (∃ cause, v.toSnapshot = .error cause ∧ (copies id).put k (some v) c ⟨e, w.state⟩ =
        .done (.error (mapError id cause)) ⟨e, w.state⟩) ∨
      ∃ s, (copies id).put k (some v) c ⟨e, w.state⟩ =
          .done (.ok ()) ⟨{ e with nextAlloc := e.nextAlloc + 1 },
            w.state.insert k (some (.snapshot e.nextAlloc s))⟩ ∧
        ((∃ d, s.restore = .ok d) ↔ v.IsFinite) := by
  have h := mirrors_of_run hrun
  refine ⟨copies_get_answers (w := ⟨e, w.state⟩) h id k c,
    copies_remove_answers (w := ⟨e, w.state⟩) h id k c, ?_⟩
  intro v
  cases hv : v.toSnapshot with
  | error cause => exact .inl ⟨cause, rfl, copies_put_of_error hv id k c _⟩
  | ok s => exact .inr ⟨s, copies_put hv id k c _, Value.restore_iff_isFinite hv⟩

/-- A value that is no number. -/
def notANumber : Value := .data 0 (.f64 ⟨0x7FF8000000000000⟩) true

/-- One half. -/
def oneHalf : Value := .data 0 (.f64 ⟨0x3FE0000000000000⟩) true

/-- An empty store; one value was allocated before. -/
def fresh : World Store := ⟨{ nextAlloc := 1 }, .empty⟩

/-- One half is put, and a copy of it is read. -/
theorem unreadable_iff_not_finite_oneHalf : ∃ w₁ a d w₂,
    (copies "users").put .null (some oneHalf) ⟨"main", []⟩ fresh = .done (.ok ()) w₁ ∧
    (copies "users").get .null ⟨"main", []⟩ w₁ = .done (.ok (some (.data a d true))) w₂ := by
  obtain ⟨s, hs⟩ : ∃ s, oneHalf.toSnapshot = .ok s := ⟨_, rfl⟩
  have hput := copies_put hs "users" .null ⟨"main", []⟩ fresh
  have hrun : Run (copies "users") fresh [.put .null (some oneHalf) (.ok ())] _ :=
    Run.call Run.start (.refl _) (c := ⟨"main", []⟩) (Outcome.settles_of_eq hput)
  obtain ⟨⟨r, w₂, hget, -, hanswer⟩, -, -⟩ :=
    unreadable_iff_not_finite hrun { nextAlloc := 2 } ⟨"main", []⟩ .null
  have hlast : Ideal.after true [.put .null (some oneHalf) (.ok ())] .null = some oneHalf := by rfl
  rw [hlast, oneHalf] at hanswer
  cases hanswer with
  | copy hfinite hcopy => exact ⟨_, _, _, w₂, hput, hget⟩
  | unreadable hx => exact absurd hx (by decide)

/-- A value that is no number is put, and the next read fails. -/
theorem notANumber_poisons : ∃ w₁ reason,
    (copies "users").put .null (some notANumber) ⟨"main", []⟩ fresh = .done (.ok ()) w₁ ∧
    (copies "users").get .null ⟨"main", []⟩ w₁ =
      .done (.error (.deserialization "users" reason)) w₁ :=
  ⟨_, _, rfl, by rfl⟩

end QueryCache.Serialized
