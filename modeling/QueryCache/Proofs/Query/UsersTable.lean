import Mathlib
import QueryCache.Proofs.Cache.Triple
import QueryCache.Query.Runner

/-!
# The table of users as a database

Queries answer from the rows of the table and leave them alone; an update that
fails leaves them alone too.

1. tables with known rows
2. the operations of the table
3. what running a statement directly gives
-/

namespace QueryCache.UsersTable

/-! ## Tables with known rows -/

/-- Commits do not fail, and results may be serialized. -/
structure Reliable (t : UsersTable) : Prop where
  commits : t.failCommit = false
  serializable : t.plain = false

/-- The reliable tables that have these rows. -/
structure Serves (rows : List Row) (t : UsersTable) : Prop where
  rows_eq : t.rows = rows
  reliable : t.Reliable

/-- The rows that a query asks for, of a table with these rows. -/
def selected (rows : List Row) (b : BoundStatement) (w : RowBounds) : List Row :=
  ({ rows } : UsersTable).select b w

variable {rows : List Row} {t : UsersTable}

theorem Serves.select_eq (h : Serves rows t) (b : BoundStatement) (w : RowBounds) :
    t.select b w = selected rows b w := by
  rw [← h.rows_eq]
  rfl

theorem serves_of_reliable (h : t.Reliable) : Serves t.rows t := ⟨rfl, h⟩

/-- A scripted failure makes no difference to the rows. -/
theorem Serves.failing (h : Serves rows t) (id : Option String) :
    Serves rows { t with failingOn := id } :=
  ⟨h.rows_eq, h.reliable.commits, h.reliable.serializable⟩

/-- An update gives another reliable table. -/
theorem Reliable.apply (h : t.Reliable) (b : BoundStatement) : (t.apply b).2.Reliable := by
  unfold UsersTable.apply
  split
  · unfold rename
    split
    · exact ⟨h.commits, h.serializable⟩
    · exact h
  · exact h

/-! ## The operations -/

variable {ρ : Type} {st : Statement ρ} {b : BoundStatement} {w : RowBounds}

theorem count_serves {ε : Type} (f : RunnerCounts → RunnerCounts) :
    (count f : Op ε UsersTable Unit).Hoare (Serves rows) fun r t => r = .ok () ∧ Serves rows t := by
  intro t w hw c _
  exact ⟨rfl, hw.rows_eq, hw.reliable.commits, hw.reliable.serializable⟩

/-- A scripted failure changes nothing. -/
theorem check_serves (id : String) :
    (check id).Hoare (Serves rows) (Keeping (Serves rows) fun _ => True) := by
  refine Op.Hoare.bind_state ?_
  intro x
  split
  · exact Op.Hoare.fail fun s hs => .error hs.2
  · exact Op.Hoare.pure fun s hs => ⟨hs.2, fun _ _ => trivial⟩

/-- A query gives the rows that it asks for. -/
theorem query_serves : ((runner : StatementRunner ρ UsersTable).query st b w).Hoare (Serves rows)
    (Keeping (Serves rows) fun v => ∃ a, v = .data a (.rows (selected rows b w)) true) := by
  refine Op.Hoare.bind_ok (count_serves _) ?_
  refine Op.Hoare.bind_keeping (check_serves _) ?_
  intro _ _ t x hx c _
  refine ⟨hx, ?_⟩
  intro _ h
  cases h
  refine ⟨x.env.nextAlloc, ?_⟩
  rw [hx.select_eq, hx.reliable.serializable]
  rfl

/-- An update that fails leaves the rows alone; one that succeeds gives others. -/
theorem update_serves : ((runner : StatementRunner ρ UsersTable).update st b).Hoare (Serves rows)
    fun r t => ((∃ e, r = .error e) ∧ Serves rows t) ∨ ((∃ n, r = .ok n) ∧ t.Reliable) := by
  refine Op.Hoare.bind_ok (count_serves _) ?_
  refine Op.Hoare.bind (check_serves st.id) ?_ (fun e s hs => .inl ⟨⟨e, rfl⟩, hs.1⟩)
  intro _ t x hx c _
  exact .inr ⟨⟨_, rfl⟩, hx.1.reliable.apply b⟩

theorem finish_serves (fails : UsersTable → Bool) (name : String)
    (f : RunnerCounts → RunnerCounts) :
    (finish fails name f).Hoare (Serves rows) fun r t =>
      Serves rows t ∧ (fails t = false → r = .ok ()) := by
  refine Op.Hoare.bind_state ?_
  intro x
  split
  · rename_i hfails
    refine Op.Hoare.fail ?_
    intro s h
    rcases h with ⟨rfl, hs⟩
    refine ⟨hs, ?_⟩
    intro hok
    cases hfails.symm.trans hok
  · refine (count_serves f).mono (fun _ hs => hs.2) ?_
    intro r s h
    rcases h with ⟨hr, hs⟩
    exact ⟨hs, fun _ => hr⟩

/-- A reliable table commits. -/
theorem commit_serves : (runner : StatementRunner ρ UsersTable).commit.Hoare (Serves rows)
    fun r t => r = .ok () ∧ Serves rows t := by
  refine (finish_serves _ _ _).mono (fun _ hs => hs) ?_
  intro r t h
  rcases h with ⟨ht, hr⟩
  exact ⟨hr ht.reliable.commits, ht⟩

theorem rollback_serves : (runner : StatementRunner ρ UsersTable).rollback.Hoare (Serves rows)
    fun _ t => Serves rows t :=
  (finish_serves _ _ _).mono (fun _ hs => hs) fun _ _ hs => hs.1

theorem close_serves : (runner : StatementRunner ρ UsersTable).close.Hoare (Serves rows)
    fun _ t => Serves rows t :=
  (count_serves _).mono (fun _ hs => hs) fun _ _ hs => hs.2

/-! ## Running a statement directly -/

/-- The value has exactly the rows that running the statement directly on the
table gives, scripted failures aside. -/
def Answers (t : UsersTable) (st : Statement ρ) (b : BoundStatement) (w : RowBounds) (v : Value) :
    Prop :=
  ∃ a rs, v = .data a (.rows rs) true ∧ ∀ c e, ∃ a' x,
    (runner : StatementRunner ρ UsersTable).query st b w c ⟨e, { t with failingOn := none }⟩ =
      (.ok (.data a' (.rows rs) true), x)

theorem Serves.answers (h : Serves rows t) {a : Nat} {v : Value}
    (hv : v = .data a (.rows (selected rows b w)) true) : t.Answers st b w v := by
  refine ⟨a, _, hv, ?_⟩
  intro c e
  have hdirect : (runner : StatementRunner ρ UsersTable).query st b w c
      ⟨e, { t with failingOn := none }⟩ = (.ok (.data e.nextAlloc (.rows (t.select b w)) !t.plain),
        ⟨{ e with nextAlloc := e.nextAlloc + 1 }, { t with
          failingOn := none
          counts := { t.counts with queries := t.counts.queries + 1 } }⟩) :=
    rfl
  rw [hdirect, h.select_eq, h.reliable.serializable]
  exact ⟨_, _, rfl⟩

end QueryCache.UsersTable
