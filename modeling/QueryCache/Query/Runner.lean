import QueryCache.Cache.Operation
import QueryCache.Error
import QueryCache.Query.Statement

/-!
# Running statements

A runner takes statements to the database.  It is the boundary of the library:
a session knows nothing else of the database.

`UsersTable` is a runner over a table of users in memory: a query gives the row
whose `id` is bound, or else a window of all rows; an update gives the row of
an `id` a new `name`.  It counts its calls and can be told to fail.
-/

namespace QueryCache

/-- The operations of a database with state `σ`; `ρ` names the shared caches. -/
structure StatementRunner (ρ σ : Type) where
  /-- Runs a query and gives its result. -/
  query : Statement ρ → BoundStatement → RowBounds → Op Error σ Value
  /-- Runs an update and gives the number of rows that it changed. -/
  update : Statement ρ → BoundStatement → Op Error σ Nat
  commit : Op Error σ Unit
  rollback : Op Error σ Unit
  /-- Gives the connection up; that cannot fail. -/
  close : Op Empty σ Unit

/-- The runner on a part of a larger state. -/
def StatementRunner.within {ρ σ τ : Type} (f : Focus τ σ) (r : StatementRunner ρ σ) :
    StatementRunner ρ τ where
  query s b w := f.run (r.query s b w)
  update s b := f.run (r.update s b)
  commit := f.run r.commit
  rollback := f.run r.rollback
  close := f.run r.close

/-! ## A table in memory -/

/-- How often each kind of call was made. -/
structure RunnerCounts where
  queries : Nat := 0
  updates : Nat := 0
  commits : Nat := 0
  rollbacks : Nat := 0
  closes : Nat := 0
deriving DecidableEq, Repr

/-- A table of users, in ascending order of id. -/
structure UsersTable where
  rows : List Row
  counts : RunnerCounts := {}
  /-- The statement whose every run fails. -/
  failingOn : Option String := none
  /-- Commits fail. -/
  failCommit : Bool := false
  /-- Rollbacks fail. -/
  failRollback : Bool := false
  /-- Results are not declared serializable. -/
  plain : Bool := false
deriving DecidableEq, Repr

namespace UsersTable

/-- Puts a row into its place; an earlier row of the id gives way. -/
def insertRow (row : Row) : List Row → List Row
  | [] => [row]
  | r :: rest =>
    if row.id < r.id then row :: r :: rest
    else if row.id = r.id then row :: rest
    else r :: insertRow row rest

/-- The table with these rows. -/
def ofRows (rows : List Row) : UsersTable :=
  { rows := rows.foldl (fun t r => insertRow r t) [] }

/-- The row of an id. -/
def row? (t : UsersTable) (id : Int64) : Option Row := t.rows.find? (·.id = id)

/-- Gives the row of an id a new name; tells how many rows that changed. -/
def rename (id : Int64) (name : String) (t : UsersTable) : Nat × UsersTable :=
  if (t.row? id).isSome then
    (1, { t with rows := t.rows.map fun r => if r.id = id then { r with name } else r })
  else (0, t)

/-- The rows that a query asks for. -/
def select (t : UsersTable) (b : BoundStatement) (w : RowBounds) : List Row :=
  match b.value? "id" with
  | some (.int id) => (t.row? id).toList
  | _ => (t.rows.drop w.offset).take w.limit

/-- The rows that an update changes, and the table after it. -/
def apply (t : UsersTable) (b : BoundStatement) : Nat × UsersTable :=
  match b.value? "id", b.value? "name" with
  | some (.int id), some (.text name) => t.rename id name
  | _, _ => (0, t)

/-- Changes the counts. -/
def count {ε : Type} (f : RunnerCounts → RunnerCounts) : Op ε UsersTable Unit :=
  Op.modify fun t => { t with counts := f t.counts }

/-- Fails if the statement was told to fail. -/
def check (id : String) : Op Error UsersTable Unit := do
  if (← Op.state).failingOn = some id then
    Op.fail (.executor (.statementFailed id "scripted failure"))
  else pure ()

/-- Makes the call, unless the connection was told to fail. -/
def finish (fails : UsersTable → Bool) (name : String) (f : RunnerCounts → RunnerCounts) :
    Op Error UsersTable Unit := do
  if fails (← Op.state) then Op.fail (.executor (.statementFailed name "connection lost"))
  else count f

/-- The table as a runner. -/
def runner {ρ : Type} : StatementRunner ρ UsersTable where
  query s b w := do
    count fun n => { n with queries := n.queries + 1 }
    check s.id
    let t ← Op.state
    let a ← Op.allocate
    pure (.data a (.rows (t.select b w)) !t.plain)
  update s b := do
    count fun n => { n with updates := n.updates + 1 }
    check s.id
    Op.update fun t => t.apply b
  commit := finish (·.failCommit) "commit" fun n => { n with commits := n.commits + 1 }
  rollback := finish (·.failRollback) "rollback" fun n => { n with rollbacks := n.rollbacks + 1 }
  close := count fun n => { n with closes := n.closes + 1 }

end UsersTable

end QueryCache
