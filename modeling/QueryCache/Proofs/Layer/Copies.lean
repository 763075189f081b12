import Mathlib
import QueryCache.Entries.Lemmas
import QueryCache.Layer.Serialized
import QueryCache.Layer.Store
import QueryCache.Proofs.Layer.Eviction
import QueryCache.Proofs.Layer.Outer
import QueryCache.Proofs.Value.RoundTrip

/-!
# Every reader has a copy of its own

A layer of copies above a store gives back what was put, as often as it is read, and
each time in an allocation that nobody else has.

1. readers
2. one call
3. many reads
4. puts, reads and a removal
-/

namespace QueryCache

variable {σ : Type}

/-! ## Readers -/

/-- A reader, who comes after a while: in between, time passes and allocations are made
elsewhere. -/
structure Reader where
  caller : Caller
  meanwhile : Environment → Environment
  later : ∀ e : Environment, e.Before (meanwhile e)

/-- The world as a reader finds it. -/
def Reader.arrive (r : Reader) (w : World σ) : World σ := ⟨r.meanwhile w.env, w.state⟩

/-- What readers of a key find, one after the other; nothing if one of them finds no value,
fails or has to wait. -/
def Cache.readAll (d : Cache σ) (k : CacheKey) : List Reader → World σ →
    Option (List Value × World σ)
  | [], w => some ([], w)
  | r :: rest, w =>
    match d.get k r.caller (r.arrive w) with
    | .done (.ok (some v)) w' => (d.readAll k rest w').map fun found => (v :: found.1, found.2)
    | _ => none

namespace Serialized

variable {id : String} {k : CacheKey} {s : Snapshot} {d : Data} {a : Nat}

/-- The layer of copies above a store. -/
def copies (id : String) : Cache Store := around (Store.cache id)

/-! ## One call -/

/-- A read restores what the store has under the key. -/
theorem copies_get_eq (id : String) (k : CacheKey) (c : Caller) (w : World Store) :
    (copies id).get k c w = Await.ofOp (restoreFound id (w.state.lookup k)) c w :=
  Await.bind_of_done rfl

/-- A removal restores it too, and takes the key out of the store. -/
theorem copies_remove_eq (id : String) (k : CacheKey) (c : Caller) (w : World Store) :
    (copies id).remove k c w =
      Await.ofOp (restoreFound id (w.state.lookup k)) c ⟨w.env, w.state.erase k⟩ :=
  Await.bind_of_done rfl

/-- A read of a snapshot that can be restored gives a new value and leaves the store. -/
theorem copies_get (hs : s.restore = .ok d) {w : World Store}
    (hfind : w.state.lookup k = some (.snapshot a s)) (id : String) (c : Caller) :
    (copies id).get k c w = .done (.ok (some (.data w.env.nextAlloc d true)))
      ⟨{ w.env with nextAlloc := w.env.nextAlloc + 1 }, w.state⟩ := by
  rw [copies_get_eq, hfind]
  exact Await.ofOp_of_eq (restoreFound_of_ok hs a id c w)

theorem copies_remove (hs : s.restore = .ok d) {w : World Store}
    (hfind : w.state.lookup k = some (.snapshot a s)) (id : String) (c : Caller) :
    (copies id).remove k c w = .done (.ok (some (.data w.env.nextAlloc d true)))
      ⟨{ w.env with nextAlloc := w.env.nextAlloc + 1 }, w.state.erase k⟩ := by
  rw [copies_remove_eq, hfind]
  exact Await.ofOp_of_eq (restoreFound_of_ok hs a id c _)

/-- A put of a value with a snapshot stores the snapshot, in a new allocation. -/
theorem copies_put {v : Value} (hv : v.toSnapshot = .ok s) (id : String) (k : CacheKey)
    (c : Caller) (w : World Store) : (copies id).put k (some v) c w = .done (.ok ())
      ⟨{ w.env with nextAlloc := w.env.nextAlloc + 1 },
        w.state.insert k (some (.snapshot w.env.nextAlloc s))⟩ :=
  Await.bind_of_done (Await.ofOp_of_eq (save_of_ok hv id c w))

/-- A value without a snapshot is refused, and the store is not touched. -/
theorem copies_put_of_error {v : Value} {e : SnapshotError} (hv : v.toSnapshot = .error e)
    (id : String) (k : CacheKey) (c : Caller) (w : World Store) :
    (copies id).put k (some v) c w = .done (.error (mapError id e)) w :=
  Await.bind_of_failed (Await.ofOp_of_eq (save_of_error hv id c w))

/-! ## Many reads -/

/-- However often a snapshot is read, each reader finds the data in an allocation later than
all earlier ones, and the store stays as it is. -/
theorem copies_readAll (hs : s.restore = .ok d) (id : String) (readers : List Reader) :
    ∀ {w : World Store}, w.state.lookup k = some (.snapshot a s) →
      ∃ (allocs : List Nat) (w' : World Store),
      (copies id).readAll k readers w = some (allocs.map fun x => .data x d true, w') ∧
      allocs.length = readers.length ∧ allocs.Pairwise (· < ·) ∧
      (∀ x ∈ allocs, w.env.nextAlloc ≤ x ∧ x < w'.env.nextAlloc) ∧ w.env.Before w'.env ∧
      w'.state = w.state := by
  induction readers with
  | nil =>
    exact fun {w} _ => ⟨[], w, rfl, rfl, .nil, fun _ hx => (by cases hx), .refl _, rfl⟩
  | cons r rest ih =>
    intro w hfind
    have hlater := r.later w.env
    obtain ⟨allocs, w', hrest, hlength, hsorted, hbetween, hbefore, hstate⟩ :=
      ih (w := ⟨{ r.meanwhile w.env with nextAlloc := (r.meanwhile w.env).nextAlloc + 1 },
        w.state⟩) hfind
    have hgrown : (r.meanwhile w.env).nextAlloc + 1 ≤ w'.env.nextAlloc := hbefore.nextAlloc_le
    refine ⟨(r.meanwhile w.env).nextAlloc :: allocs, w', ?_, ?_, ?_, ?_, ?_, hstate⟩
    · rw [Cache.readAll, copies_get hs (w := r.arrive w) hfind]
      show ((copies id).readAll k rest _).map _ = _
      rw [Reader.arrive, hrest]
      rfl
    · rw [List.length_cons, List.length_cons, hlength]
    · exact .cons (fun x hx => (hbetween x hx).1) hsorted
    · intro x hx
      rcases List.mem_cons.1 hx with rfl | hx
      · exact ⟨hlater.nextAlloc_le, hgrown⟩
      · have hx' : (r.meanwhile w.env).nextAlloc + 1 ≤ x ∧ x < w'.env.nextAlloc := hbetween x hx
        have hfirst := hlater.nextAlloc_le
        omega
    · exact ⟨le_trans hlater.now_le hbefore.now_le,
        le_trans hlater.nextAlloc_le (le_trans (Nat.le_succ _) hgrown)⟩

/-! ## Puts, reads and a removal -/

/-- Data of an exact type survive a snapshot, whatever they are.  So a serializable value that
is put into a layer of copies above a store, in whatever state, is found by any number of
readers, each time in an allocation that is neither that of the value nor that of another
reader; and a removal gives one more copy and takes out the key, and no other one. -/
theorem fresh_copies {d : Data} (hd : d.type.IsExact) {a : Nat} (id : String) (k : CacheKey)
    (c : Caller) (w : World Store) (ha : a < w.env.nextAlloc) :
    (∃ s, (Value.data a d true).toSnapshot = .ok s ∧ s.type = d.type ∧ s.restore = .ok d) ∧
    ∃ w₁, (copies id).put k (some (.data a d true)) c w = .done (.ok ()) w₁ ∧
      ∀ readers : List Reader, ∃ (allocs : List Nat) (w₂ : World Store),
        (copies id).readAll k readers w₁ = some (allocs.map fun x => .data x d true, w₂) ∧
        allocs.length = readers.length ∧ (a :: allocs).Nodup ∧
        ∀ r : Reader, ∃ x w₃,
          (copies id).remove k r.caller (r.arrive w₂) = .done (.ok (some (.data x d true))) w₃ ∧
          x ∉ a :: allocs ∧ w₃.state.find? k = none ∧
          ∀ k' ≠ k, w₃.state.find? k' = w.state.find? k' := by
  obtain ⟨s, hs, hrestore⟩ := Value.toSnapshot_of_isExact hd a
  obtain ⟨_, _, _, hv, -, rfl⟩ := Value.eq_of_toSnapshot hs
  cases hv
  refine ⟨⟨_, hs, rfl, hrestore⟩, _, copies_put hs id k c w, ?_⟩
  intro readers
  obtain ⟨allocs, w₂, hreads, hlength, hsorted, hbetween, hbefore, hstate⟩ :=
    copies_readAll hrestore id readers (k := k) (a := w.env.nextAlloc)
      (w := ⟨{ w.env with nextAlloc := w.env.nextAlloc + 1 }, w.state.insert k _⟩)
      (by rw [Store.lookup_insert, if_pos rfl])
  have hgrown : w.env.nextAlloc + 1 ≤ w₂.env.nextAlloc := hbefore.nextAlloc_le
  have hfresh : ∀ x ∈ allocs, a < x ∧ x < w₂.env.nextAlloc := by
    intro x hx
    have hx' : w.env.nextAlloc + 1 ≤ x ∧ x < w₂.env.nextAlloc := hbetween x hx
    omega
  refine ⟨allocs, w₂, hreads, hlength, ?_, ?_⟩
  · exact (List.Pairwise.cons (fun x hx => (hfresh x hx).1) hsorted).imp fun h => Nat.ne_of_lt h
  · intro r
    have hlater : w₂.env.nextAlloc ≤ (r.meanwhile w₂.env).nextAlloc := (r.later w₂.env).nextAlloc_le
    refine ⟨_, _, copies_remove hrestore (w := r.arrive w₂) (a := w.env.nextAlloc)
      (by rw [Reader.arrive, hstate, Store.lookup_insert, if_pos rfl]) id r.caller, ?_, ?_, ?_⟩
    · -- The last allocation is later than all the others.
      intro hx
      rcases List.mem_cons.1 hx with hx | hx
      · have hx' : (r.meanwhile w₂.env).nextAlloc = a := hx
        omega
      · have hx' := (hfresh _ hx).2
        exact absurd hlater (Nat.not_le.2 hx')
    · rw [Entries.find?_erase, if_pos rfl]
    · intro k' hk
      show ((r.arrive w₂).state.erase k).find? k' = _
      rw [Entries.find?_erase, if_neg hk, Reader.arrive, hstate]
      exact (Entries.find?_insert ..).trans (if_neg hk)

/-- A reader who comes at once. -/
def atOnce : Reader := ⟨⟨"main", []⟩, fun e => e, fun e => .refl e⟩

/-- Two readers of a text with a quotation mark in it. -/
theorem fresh_copies_twice : ∃ w₁ w₂ x y,
    (copies "users").put .null (some (.data 0 (.string "a\"b") true)) ⟨"main", []⟩
      ⟨{ nextAlloc := 1 }, .empty⟩ = .done (.ok ()) w₁ ∧
    (copies "users").readAll .null [atOnce, atOnce] w₁ =
      some ([.data x (.string "a\"b") true, .data y (.string "a\"b") true], w₂) ∧
    [0, x, y].Nodup := by
  have hexact : (Data.string "a\"b").type.IsExact := ⟨by decide, by decide⟩
  obtain ⟨w₁, hput, hreads⟩ := (fresh_copies hexact (a := 0) "users" .null ⟨"main", []⟩
    ⟨{ nextAlloc := 1 }, .empty⟩ Nat.one_pos).2
  obtain ⟨allocs, w₂, hread, hlength, hnodup, -⟩ := hreads [atOnce, atOnce]
  obtain ⟨x, y, rfl⟩ := List.length_eq_two.1 hlength
  exact ⟨w₁, w₂, x, y, hput, hread, hnodup⟩

end Serialized

end QueryCache
