import QueryCache.Error
import QueryCache.Text.Quoted

/-!
# Statements

A mapped statement is the configured form of a statement: its text, the shared
cache that it belongs to, whether it reads that cache and whether it flushes
it.  A bound statement is one execution of it with a value for each parameter.
-/

namespace QueryCache

/-! ## Kinds and modes -/

/-- What a statement does. -/
inductive StatementKind where
  | select
  | insert
  | update
  | delete
deriving DecidableEq, Repr

namespace StatementKind

/-- The statement reads and does not write. -/
def isSelect : StatementKind → Bool
  | .select => true
  | _ => false

/-- The name of a kind. -/
def name : StatementKind → String
  | .select => "SELECT"
  | .insert => "INSERT"
  | .update => "UPDATE"
  | .delete => "DELETE"

/-- The name of a kind as shown to a developer. -/
def debug : StatementKind → String
  | .select => "Select"
  | .insert => "Insert"
  | .update => "Update"
  | .delete => "Delete"

/-- All kinds. -/
def all : List StatementKind := [.select, .insert, .update, .delete]

/-- The kind of a name in any mixture of ASCII cases. -/
def parse (s : String) : Except ConfigError StatementKind :=
  match all.find? (·.name == s.map Char.toUpper) with
  | some k => .ok k
  | none => .error (.invalidValue "kind" s "expected SELECT, INSERT, UPDATE or DELETE")

end StatementKind

/-- How a statement is sent to the database. -/
inductive StatementType where
  | statement
  | prepared
  /-- A call of a stored procedure. -/
  | callable
deriving DecidableEq, Repr

/-- The name of a type as shown to a developer. -/
def StatementType.debug : StatementType → String
  | .statement => "Statement"
  | .prepared => "Prepared"
  | .callable => "Callable"

/-- The type of a name. -/
def StatementType.ofName? : String → Option StatementType
  | "statement" => some .statement
  | "prepared" => some .prepared
  | "callable" => some .callable
  | _ => none

/-- The direction of a parameter. -/
inductive ParameterMode where
  | input
  | output
  | both
deriving DecidableEq, Repr

namespace ParameterMode

/-- The parameter brings a value back. -/
def isOutput : ParameterMode → Bool
  | .input => false
  | _ => true

/-- The mode of a name. -/
def ofName? : String → Option ParameterMode
  | "in" => some .input
  | "out" => some .output
  | "inout" => some .both
  | _ => none

/-- The name of a mode as shown to a developer. -/
def debug : ParameterMode → String
  | .input => "In"
  | .output => "Out"
  | .both => "InOut"

end ParameterMode

/-- A declared parameter. -/
structure ParameterMapping where
  property : String
  mode : ParameterMode := .input
deriving DecidableEq, Repr

/-- How a declared parameter is shown to a developer. -/
def ParameterMapping.debug (p : ParameterMapping) : String :=
  Text.record "ParameterMapping" [("property", Text.quoted p.property), ("mode", p.mode.debug)]

/-- The rows of a result that are wanted. -/
structure RowBounds where
  offset : Nat := 0
  limit : Nat := 2147483647
deriving DecidableEq, Repr

/-! ## Bound statements -/

/-- A parameter with its value. -/
structure BoundParameter where
  property : String
  mode : ParameterMode
  value : KeyComponent
deriving DecidableEq, Repr

/-- The text of a statement and the values of its parameters. -/
structure BoundStatement where
  sql : String
  parameters : List BoundParameter := []
deriving DecidableEq, Repr

namespace BoundStatement

/-- The values that make up the key: all but those of pure output parameters. -/
def keyValues (b : BoundStatement) : List KeyComponent :=
  (b.parameters.filter fun p => decide (p.mode ≠ .output)).map (·.value)

/-- The value of a property. -/
def value? (b : BoundStatement) (property : String) : Option KeyComponent :=
  (b.parameters.find? (·.property == property)).map (·.value)

end BoundStatement

/-! ## Mapped statements -/

/-- A configured statement; `ρ` names the shared caches. -/
structure Statement (ρ : Type) where
  id : String
  kind : StatementKind
  sql : String
  type : StatementType := .prepared
  /-- The shared cache of the statement. -/
  cache : Option ρ := none
  /-- Running the statement flushes caches; by default unless it is a select. -/
  flushCacheRequired : Bool := !kind.isSelect
  /-- The statement reads its shared cache; by default if it is a select. -/
  useCache : Bool := kind.isSelect
  parameters : List ParameterMapping := []

namespace Statement

variable {ρ : Type}

/-- A procedure call that brings values back. -/
def hasOutputParameters (s : Statement ρ) : Bool :=
  s.type == .callable && s.parameters.any (·.mode.isOutput)

/-- The shared cache that a query reads. -/
def applicableCache (s : Statement ρ) : Option ρ := if s.useCache then s.cache else none

/-- Gives the parameters values in order: parameters without a value are null,
values without a parameter are dropped. -/
def bindParameters : List ParameterMapping → List KeyComponent → List BoundParameter
  | [], _ => []
  | p :: ps, [] => ⟨p.property, p.mode, .null⟩ :: bindParameters ps []
  | p :: ps, v :: vs => ⟨p.property, p.mode, v⟩ :: bindParameters ps vs

/-- The statement with values for its parameters. -/
def bind (s : Statement ρ) (values : List KeyComponent) : BoundStatement :=
  ⟨s.sql, bindParameters s.parameters values⟩

/-- How a statement is shown to a developer; `idOf` gives the id of a cache. -/
def debug (idOf : ρ → String) (s : Statement ρ) : String :=
  Text.record "MappedStatement"
    [("id", Text.quoted s.id),
      ("kind", s.kind.debug),
      ("statement_type", s.type.debug),
      ("cache", Text.optional (s.cache.map fun r => Text.quoted (idOf r))),
      ("flush_cache_required", Text.boolean s.flushCacheRequired),
      ("use_cache", Text.boolean s.useCache),
      ("parameter_mappings", Text.bracketed (s.parameters.map (·.debug)))]

end Statement

end QueryCache
