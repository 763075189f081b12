import QueryCache.Query.Runner

/-!
# A small users database

Three rows, and the statements of an application that reads and renames users
through one shared cache.
-/

namespace QueryCache.Samples

/-- The rows of the table. -/
def rows : List Row := [⟨1, "ada"⟩, ⟨2, "grace"⟩, ⟨3, "edsger"⟩]

variable {ρ : Type}

/-- Reads the user of an id. -/
def selectById (cache : ρ) : Statement ρ where
  id := "users.findById"
  kind := .select
  sql := "SELECT id, name FROM users WHERE id = ?"
  cache := some cache
  parameters := [⟨"id", .input⟩]

/-- Reads all users. -/
def selectAll (cache : ρ) : Statement ρ where
  id := "users.findAll"
  kind := .select
  sql := "SELECT id, name FROM users"
  cache := some cache

/-- Renames a user and flushes the cache. -/
def rename (cache : ρ) : Statement ρ where
  id := "users.rename"
  kind := .update
  sql := "UPDATE users SET name = ? WHERE id = ?"
  cache := some cache
  parameters := [⟨"name", .input⟩, ⟨"id", .input⟩]

/-- Calls a procedure that brings a balance back; its result cannot be cached. -/
def balanceProcedure (cache : ρ) : Statement ρ where
  id := "accounts.balance"
  kind := .select
  sql := "\x7bcall account_balance(?, ?)\x7d"
  type := .callable
  cache := some cache
  parameters := [⟨"id", .input⟩, ⟨"balance", .output⟩]

/-- The sample statement of a name. -/
def ofName? : String → Option (ρ → Statement ρ)
  | "select_by_id" => some selectById
  | "select_all" => some selectAll
  | "rename" => some rename
  | "balance_procedure" => some balanceProcedure
  | _ => none

end QueryCache.Samples
