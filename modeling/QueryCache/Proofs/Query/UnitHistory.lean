import Mathlib
import QueryCache.Proofs.Cache.Guarded
import QueryCache.Proofs.Layer.FailedRead
import QueryCache.Proofs.Query.Call
import QueryCache.Proofs.Query.Key
import QueryCache.Proofs.Query.UsersTable

/-!
# What becomes of loaded results

Calls of any number of sessions on one table have ended one after the other.  A
unit keeps the results that it has loaded until it asks for a clear or commits.
A commit shares what the unit has kept; a result that is shared already stays
so, unless the unit that commits has asked for a clear.

The latest call stands first in a history.

1. calls that have ended
2. results of a unit, and shared results
3. what a result is
4. a part of a history
5. after a committed clear
-/

namespace QueryCache.UnitHistory

open CachingSession (Call Reply)

/-! ## Calls that have ended -/

/-- A call that has ended. -/
structure Moment (ι : Type) where
  who : ι
  /-- The session when the call was made. -/
  session : Session
  /-- The statement on which the table was told to fail. -/
  failing : Option String
  call : Call Unit
  reply : Except Error Reply
  /-- The rows of the table at the end of the call. -/
  rows : List Row

variable {ι : Type}

namespace Moment

variable (m : Moment ι)

/-- The call is a query with this key, and the value has the rows that the table has for it. -/
def Loads (k : CacheKey) (v : Value) : Prop :=
  ∃ st b w a, m.call = .query st b w ∧ k = m.session.queryKey st b w ∧
    v = .data a (.rows (UsersTable.selected m.rows b w)) true

/-- The session runs an update that flushes the shared cache. -/
def Flushes (i : ι) : Prop :=
  m.who = i ∧ ∃ st b, m.call = .update st b ∧ st.flushCacheRequired = true

/-- The session commits. -/
def Commits (i : ι) : Prop := m.who = i ∧ ∃ required, m.call = .commit required

variable {m}

theorem not_flushes_of_query {st : Statement Unit} {b : BoundStatement} {w : RowBounds}
    (h : m.call = .query st b w) (i : ι) : ¬ m.Flushes i := by
  rintro ⟨-, _, _, hcall, -⟩
  cases h.symm.trans hcall

theorem not_commits_of_query {st : Statement Unit} {b : BoundStatement} {w : RowBounds}
    (h : m.call = .query st b w) (i : ι) : ¬ m.Commits i := by
  rintro ⟨-, _, hcall⟩
  cases h.symm.trans hcall

theorem not_commits_of_update {st : Statement Unit} {b : BoundStatement}
    (h : m.call = .update st b) (i : ι) : ¬ m.Commits i := by
  rintro ⟨-, _, hcall⟩
  cases h.symm.trans hcall

/-- An update that does not flush. -/
theorem not_flushes_of_update {st : Statement Unit} {b : BoundStatement}
    (h : m.call = .update st b) (hflush : st.flushCacheRequired = false) (i : ι) :
    ¬ m.Flushes i := by
  rintro ⟨-, _, _, hcall, hrequired⟩
  cases h.symm.trans hcall
  cases hflush.symm.trans hrequired

theorem Commits.not_flushes {i j : ι} (h : m.Commits i) : ¬ m.Flushes j := by
  rcases h with ⟨-, _, hcommit⟩
  rintro ⟨-, _, _, hcall, -⟩
  cases hcommit.symm.trans hcall

theorem Commits.not_loads {i : ι} {k : CacheKey} {v : Value} (h : m.Commits i) :
    ¬ m.Loads k v := by
  rcases h with ⟨-, _, hcommit⟩
  rintro ⟨_, _, _, _, hcall, -⟩
  cases hcommit.symm.trans hcall

theorem Flushes.not_loads {i : ι} {k : CacheKey} {v : Value} (h : m.Flushes i) :
    ¬ m.Loads k v := by
  rcases h with ⟨-, _, _, hupdate, -⟩
  rintro ⟨_, _, _, _, hcall, -⟩
  cases hupdate.symm.trans hcall

end Moment

/-! ## Results of a unit, and shared results -/

/-- The unit of the session has loaded the result, and has not given it up. -/
inductive Loaded (i : ι) : List (Moment ι) → CacheKey → Value → Prop where
  | loads {m : Moment ι} {history : List (Moment ι)} {k : CacheKey} {v : Value} (hi : m.who = i)
      (h : m.Loads k v) : Loaded i (m :: history) k v
  | kept {m : Moment ι} {history : List (Moment ι)} {k : CacheKey} {v : Value}
      (h : Loaded i history k v) (hflush : ¬ m.Flushes i) (hcommit : ¬ m.Commits i) :
      Loaded i (m :: history) k v

/-- The unit of the session has asked for a clear of the shared cache. -/
inductive Flushing (i : ι) : List (Moment ι) → Prop where
  | flushes {m : Moment ι} {history : List (Moment ι)} (h : m.Flushes i) : Flushing i (m :: history)
  | kept {m : Moment ι} {history : List (Moment ι)} (h : Flushing i history)
      (hcommit : ¬ m.Commits i) : Flushing i (m :: history)

/-- A commit has shared the result, and no commit has cleared it. -/
inductive Shared : List (Moment ι) → CacheKey → Value → Prop where
  | put {m : Moment ι} {history : List (Moment ι)} {k : CacheKey} {v : Value} {i : ι}
      (hi : m.Commits i) (h : Loaded i history k v) : Shared (m :: history) k v
  | stays {m : Moment ι} {history : List (Moment ι)} {k : CacheKey} {v : Value}
      (h : Shared history k v) (hclear : ∀ i, m.Commits i → ¬ Flushing i history) :
      Shared (m :: history) k v

/-- The session has a unit that has begun and not ended. -/
inductive HasUnit (i : ι) : List (Moment ι) → Prop where
  | begins {m : Moment ι} {history : List (Moment ι)} (hi : m.who = i) (h : ¬ m.Commits i) :
      HasUnit i (m :: history)
  | goesOn {m : Moment ι} {history : List (Moment ι)} (h : HasUnit i history)
      (hcommit : ¬ m.Commits i) : HasUnit i (m :: history)

variable {m : Moment ι} {history : List (Moment ι)} {k : CacheKey} {v : Value} {i : ι}

/-- A call of another session makes no difference to what a unit has loaded. -/
theorem Loaded.beside (h : Loaded i history k v) (hi : m.who ≠ i) : Loaded i (m :: history) k v :=
  h.kept (fun hf => hi hf.1) fun hc => hi hc.1

theorem Flushing.of_cons (h : Flushing i (m :: history)) (hm : ¬ m.Flushes i) :
    Flushing i history := by
  cases h with
  | flushes h => exact absurd h hm
  | kept h _ => exact h

/-- After its commit a session has not asked for a clear. -/
theorem not_flushing_of_commits (h : m.Commits i) : ¬ Flushing i (m :: history) := by
  intro hf
  cases hf with
  | flushes hf => exact h.not_flushes hf
  | kept _ hcommit => exact hcommit h

theorem not_hasUnit_of_commits (h : m.Commits i) : ¬ HasUnit i (m :: history) := by
  intro hu
  cases hu with
  | begins _ hcommit => exact hcommit h
  | goesOn _ hcommit => exact hcommit h

theorem HasUnit.of_beside (h : HasUnit i (m :: history)) (hi : m.who ≠ i) : HasUnit i history := by
  cases h with
  | begins heq _ => exact absurd heq hi
  | goesOn h _ => exact h

theorem Shared.of_not_commits (h : Shared history k v) (hm : ∀ i, ¬ m.Commits i) :
    Shared (m :: history) k v := h.stays fun i hi => absurd hi (hm i)

/-! ## What a result is -/

/-- The value consists of rows, and can be copied. -/
def IsRows (v : Value) : Prop := ∃ a rows, v = .data a (.rows rows) true

/-- Rows are restored from their snapshot. -/
theorem IsRows.isRestorable (h : IsRows v) : v.IsRestorable := by
  obtain ⟨a, rows, rfl⟩ := h
  rintro _ ⟨⟩
  exact nofun

theorem Loaded.isRows (h : Loaded i history k v) : IsRows v := by
  induction h with
  | loads _ h =>
    obtain ⟨_, _, _, a, -, -, hv⟩ := h
    exact ⟨a, _, hv⟩
  | kept _ _ _ ih => exact ih

theorem Shared.isRows (h : Shared history k v) : IsRows v := by
  induction h with
  | put _ h => exact h.isRows
  | stays _ _ ih => exact ih

/-- What a reader gets for a value that consists of rows has the same rows. -/
theorem IsRows.served {copies : Bool} {u : Value} {e e' : Environment} (hv : IsRows v)
    (h : Served copies e e' v u) :
    ∃ a a' rows, v = .data a (.rows rows) true ∧ u = .data a' (.rows rows) true := by
  obtain ⟨a, rows, rfl⟩ := hv
  cases copies with
  | false =>
    have hu : u = _ := h
    exact ⟨a, a, rows, rfl, hu⟩
  | true =>
    obtain ⟨_, _, a', d', hdata, hu, -, -, hcopy⟩ := h
    cases hdata
    rw [hcopy.eq (by rintro ⟨⟩)] at hu
    exact ⟨a, a', rows, rfl, hu⟩

/-- Which allocation a result is makes no difference. -/
theorem Moment.Loads.realloc {a : Nat} {rows : List Row} (h : m.Loads k (.data a (.rows rows) true))
    (a' : Nat) : m.Loads k (.data a' (.rows rows) true) := by
  obtain ⟨st, b, w, _, hcall, hk, hv⟩ := h
  cases hv
  exact ⟨st, b, w, a', hcall, hk, rfl⟩

theorem Loaded.realloc {a : Nat} {rows : List Row}
    (h : Loaded i history k (.data a (.rows rows) true)) (a' : Nat) :
    Loaded i history k (.data a' (.rows rows) true) := by
  generalize hv : Value.data a (.rows rows) true = v at h
  induction h with
  | loads hi h =>
    subst hv
    exact .loads hi (h.realloc a')
  | kept _ hflush hcommit ih => exact (ih hv).kept hflush hcommit

theorem Shared.realloc {a : Nat} {rows : List Row}
    (h : Shared history k (.data a (.rows rows) true)) (a' : Nat) :
    Shared history k (.data a' (.rows rows) true) := by
  generalize hv : Value.data a (.rows rows) true = v at h
  induction h with
  | put hi h =>
    subst hv
    exact .put hi (h.realloc a')
  | stays _ hclear ih => exact (ih hv).stays hclear

/-- A copy of a shared result is as good as the result. -/
theorem shared_copied (copies : Bool) : Copied copies (Shared history) := by
  intro k v u e e' h hserved
  obtain ⟨a, a', rows, rfl, rfl⟩ := h.isRows.served hserved
  exact h.realloc a'

/-- A shared result can be stored in any cache. -/
theorem shared_storable (copies : Bool) (k : CacheKey) (v : Value) (h : Shared history k v) :
    Storable copies (some v) := by
  obtain ⟨a, rows, rfl⟩ := h.isRows
  rintro - v ⟨⟩
  exact ⟨_, rfl⟩

/-! ## A part of a history -/

variable {recent old : List (Moment ι)}

/-- A result of a unit was loaded recently, or it is older and was kept all the time. -/
theorem Loaded.split (h : Loaded i (recent ++ old) k v) : (∃ m ∈ recent, m.Loads k v) ∨
    (Loaded i old k v ∧ ∀ m ∈ recent, ¬ m.Flushes i ∧ ¬ m.Commits i) := by
  induction recent with
  | nil => exact .inr ⟨h, fun m hm => nomatch hm⟩
  | cons m recent ih =>
    cases h with
    | loads _ h => exact .inl ⟨m, List.mem_cons_self, h⟩
    | kept h hflush hcommit =>
      rcases ih h with ⟨l, hl, hloads⟩ | ⟨hold, hkept⟩
      · exact .inl ⟨l, List.mem_cons_of_mem _ hl, hloads⟩
      · refine .inr ⟨hold, fun l hl => ?_⟩
        rcases List.mem_cons.1 hl with rfl | hl
        · exact ⟨hflush, hcommit⟩
        · exact hkept l hl

/-- A unit had loaded the result by the end of the old history, and kept it until it
committed in the recent one. -/
def Carried (recent old : List (Moment ι)) (k : CacheKey) (v : Value) : Prop :=
  ∃ i, Loaded i old k v ∧ ∃ newest m between, recent = newest ++ m :: between ∧ m.Commits i ∧
    ∀ l ∈ between, ¬ l.Flushes i ∧ ¬ l.Commits i

theorem Carried.cons (h : Carried recent old k v) (m : Moment ι) :
    Carried (m :: recent) old k v := by
  obtain ⟨i, hold, newest, c, between, rfl, hc, hkept⟩ := h
  exact ⟨i, hold, m :: newest, c, between, rfl, hc, hkept⟩

/-- A shared result was loaded recently, or it is older: then a unit has carried it over,
or it was shared before. -/
theorem Shared.split (h : Shared (recent ++ old) k v) : (∃ m ∈ recent, m.Loads k v) ∨
    Carried recent old k v ∨ Shared old k v := by
  induction recent with
  | nil => exact .inr (.inr h)
  | cons m recent ih =>
    cases h with
    | put hi h =>
      rcases h.split with ⟨l, hl, hloads⟩ | ⟨hold, hkept⟩
      · exact .inl ⟨l, List.mem_cons_of_mem _ hl, hloads⟩
      · exact .inr (.inl ⟨_, hold, [], m, recent, rfl, hi, hkept⟩)
    | stays h _ =>
      rcases ih h with ⟨l, hl, hloads⟩ | hcarried | hold
      · exact .inl ⟨l, List.mem_cons_of_mem _ hl, hloads⟩
      · exact .inr (.inl (hcarried.cons m))
      · exact .inr (.inr hold)

theorem Flushing.append (h : Flushing i old) (hrecent : ∀ m ∈ recent, ¬ m.Commits i) :
    Flushing i (recent ++ old) := by
  induction recent with
  | nil => exact h
  | cons m recent ih =>
    exact .kept (ih fun l hl => hrecent l (List.mem_cons_of_mem _ hl))
      (hrecent m List.mem_cons_self)

/-- Who has loaded a result has a unit. -/
theorem Loaded.hasUnit (h : Loaded i history k v) : HasUnit i history := by
  induction h with
  | loads hi h => exact .begins hi fun hc => hc.not_loads h
  | kept _ _ hcommit ih => exact ih.goesOn hcommit

/-! ## After a committed clear -/

/-- After an update that flushes a unit has nothing that it loaded before. -/
theorem not_loaded_of_flushes (h : m.Flushes i) : ¬ Loaded i (m :: history) k v := by
  intro hl
  cases hl with
  | loads _ hl => exact h.not_loads hl
  | kept _ hflush _ => exact hflush h

/-- After the commit of a unit that has asked for a clear nothing is shared but what the
unit had loaded. -/
theorem Shared.loaded_of_flushing (h : Shared (m :: history) k v) (hm : m.Commits i)
    (hf : Flushing i history) : Loaded i history k v := by
  cases h with
  | put hj h =>
    obtain rfl := hm.1.symm.trans hj.1
    exact h
  | stays _ hclear => exact absurd hf (hclear i hm)

variable {u c q : Moment ι} {before mid later : List (Moment ι)}

/-- A unit has flushed and committed.  What is shared, or loaded by a unit that began
later, was loaded after the flush, but for what other units have carried past that commit. -/
theorem loaded_since_flush (hu : u.Flushes i) (hmid : ∀ m ∈ mid, ¬ m.Commits i) (hc : c.Commits i)
    {j : ι} (hunit : ¬ HasUnit j (c :: (mid ++ u :: before)) ∨ ∃ m ∈ later, m.Commits j)
    (h : Loaded j (q :: (later ++ c :: (mid ++ u :: before))) k v ∨
      Shared (later ++ c :: (mid ++ u :: before)) k v) :
    (∃ m ∈ q :: (later ++ c :: mid), m.Loads k v) ∨
      Carried later (c :: (mid ++ u :: before)) k v := by
  have hlater : ∀ m ∈ later, m ∈ q :: (later ++ c :: mid) := fun m hm =>
    List.mem_cons_of_mem _ (List.mem_append_left _ hm)
  have hbetween : ∀ m ∈ mid, m ∈ q :: (later ++ c :: mid) := fun m hm =>
    List.mem_cons_of_mem _ (List.mem_append_right _ (List.mem_cons_of_mem _ hm))
  rcases h with h | h
  · -- in the unit of `j`, which began after the commit
    have hsplit : (∃ m ∈ q :: later, m.Loads k v) ∨ (Loaded j (c :: (mid ++ u :: before)) k v ∧
        ∀ m ∈ q :: later, ¬ m.Flushes j ∧ ¬ m.Commits j) := h.split
    rcases hsplit with ⟨m, hm, hloads⟩ | ⟨hold, hkept⟩
    · rcases List.mem_cons.1 hm with rfl | hm
      · exact .inl ⟨m, List.mem_cons_self, hloads⟩
      · exact .inl ⟨m, hlater m hm, hloads⟩
    · rcases hunit with hnone | ⟨m, hm, hcommit⟩
      · exact absurd hold.hasUnit hnone
      · exact absurd hcommit (hkept m (List.mem_cons_of_mem _ hm)).2
  · rcases h.split with ⟨m, hm, hloads⟩ | hcarried | hold
    · exact .inl ⟨m, hlater m hm, hloads⟩
    · exact .inr hcarried
    · -- shared by the commit itself, after its clear
      have hflushing : Flushing i (mid ++ u :: before) := (Flushing.flushes hu).append hmid
      rcases (hold.loaded_of_flushing hc hflushing).split with ⟨m, hm, hloads⟩ | ⟨hown, -⟩
      · exact .inl ⟨m, hbetween m hm, hloads⟩
      · exact absurd hown (not_loaded_of_flushes hu)

end QueryCache.UnitHistory
