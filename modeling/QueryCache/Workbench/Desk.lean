import QueryCache.Cache.Registry
import QueryCache.Query.CachingSession

/-!
# A desk of named objects

A desk holds caches, buffers, units of work, registries, databases, sessions
and statements under names, and values in slots.  Objects refer to each other:
two statements may share a cache, two sessions a database.  What a name stands
for may change while a step that started with the earlier object is waiting;
the step goes on with the object that it started with.  So whatever changes is
kept in a place of its own, apart from the names, and stays there as long as
some object or some waiting step refers to it.

1. parts and objects
2. the desk
3. what is held
4. parts of the desk on which operations run
-/

namespace QueryCache

/-! ## Parts and objects -/

/-- A session, its database and, if it uses shared caches, its unit of work. -/
structure DeskSession where
  work : Option (UnitOfWork CacheRef) := none
  session : Session := {}
  /-- The place of the database. -/
  table : Nat := 0

/-- A part of the desk that only one step at a time may use; a unit of work
comes with its number when it was last looked at. -/
inductive DeskPart where
  | vacant
  | buffer (content : Buffer)
  | work (content : UnitOfWork CacheRef) (unitSeen : Nat)
  | session (content : DeskSession) (unitSeen : Nat)

namespace DeskPart

/-- The values that a part holds. -/
def held : DeskPart → List Value
  | .vacant => []
  | .buffer b => b.held
  | .work u _ => u.held
  | .session s _ => s.session.held ++ (s.work.map (·.held)).getD []

/-- The shared caches that a part refers to. -/
def caches : DeskPart → List CacheRef
  | .work u _ => u.buffers.values.map Prod.fst
  | .session s _ => (s.work.map fun u => u.buffers.values.map Prod.fst).getD []
  | _ => []

/-- Changes the unit of work. -/
def setWork (u : UnitOfWork CacheRef) : DeskPart → DeskPart
  | .work _ seen => .work u seen
  | p => p

/-- Changes the session. -/
def setSession (s : DeskSession) : DeskPart → DeskPart
  | .session _ seen => .session s seen
  | p => p

/-- Looks at the unit of work: tells whether it is another one than
at the last look. -/
def lookAtUnit : DeskPart → Bool × DeskPart
  | .work u seen => (u.unit != seen, .work u u.unit)
  | .session s seen =>
    let unit := (s.work.map (·.unit)).getD seen
    (unit != seen, .session s unit)
  | p => (false, p)

end DeskPart

/-- What a name stands for. -/
inductive DeskObject where
  /-- A cache, those of its layers that can be addressed, innermost first, and
  the place of its store if that can be looked at. -/
  | cache (ref : CacheRef) (layers : List CacheRef) (store : Option Nat)
  | buffer (ref : CacheRef) (place : Nat)
  | work (place : Nat)
  | registry (content : Registry)
  | table (place : Nat)
  | session (place : Nat)
  | statement (content : Statement CacheRef)

namespace DeskObject

/-- The place of the part that the object refers to. -/
def place? : DeskObject → Option Nat
  | .buffer _ place | .work place | .session place => some place
  | _ => none

/-- The shared caches that the object itself refers to. -/
def caches : DeskObject → List CacheRef
  | .cache r _ _ => [r]
  | .buffer r _ => [r]
  | .registry g => g.caches.values
  | .statement s => s.cache.toList
  | .work _ | .table _ | .session _ => []

end DeskObject

/-- What a step needs on the desk until it ends. -/
structure Needs where
  /-- The objects that the step has looked up. -/
  objects : List DeskObject := []
  /-- The place of the part that nobody else may use. -/
  claim : Option Nat := none
  /-- The values that the step holds. -/
  values : List Value := []

/-! ## The desk -/

/-- Everything that has a name or a place. -/
structure Desk where
  pool : Pool := {}
  tables : List UsersTable := []
  parts : List DeskPart := []
  objects : Entries String DeskObject := .empty
  slots : Entries String Value := .empty
  /-- The needs of the waiting steps, by thread. -/
  waiting : Entries Thread Needs := .empty

namespace Desk

/-- The object of a name. -/
def object? (d : Desk) (name : String) : Option DeskObject := d.objects.find? name

/-- Gives a name to an object. -/
def setObject (name : String) (o : DeskObject) (d : Desk) : Desk :=
  { d with objects := d.objects.insert name o }

/-- The part at a place. -/
def part (d : Desk) (place : Nat) : DeskPart := d.parts.getD place .vacant

/-- Changes the part at a place. -/
def setPart (place : Nat) (p : DeskPart) (d : Desk) : Desk :=
  { d with parts := d.parts.set place p }

/-- No waiting step claims the part at a place. -/
def isFree (d : Desk) (place : Nat) : Bool := d.waiting.values.all (·.claim != some place)

/-- The database at a place. -/
def table (d : Desk) (place : Nat) : UsersTable := d.tables.getD place (.ofRows [])

/-- Changes the database at a place. -/
def setTable (place : Nat) (t : UsersTable) (d : Desk) : Desk :=
  { d with tables := d.tables.set place t }

/-- The objects that have a name or that a waiting step needs. -/
def needed (d : Desk) : List DeskObject :=
  d.objects.values ++ d.waiting.values.flatMap (·.objects)

/-- Empties the places to which nothing refers any more. -/
def tidy (d : Desk) : Desk :=
  let places := d.needed.filterMap (·.place?)
  let parts := d.parts.zipIdx.map fun e => if e.2 ∈ places then e.1 else .vacant
  let caches := d.needed.flatMap (·.caches) ++ parts.flatMap (·.caches)
  { d with parts, pool := d.pool.retain caches }

/-- The names of the caches that are the same as a cache, in ascending order. -/
def namesOf (d : Desk) (r : CacheRef) : List String :=
  (d.objects.toList.filterMap fun
    | (name, .cache other _ _) => if other.isSame r then some name else none
    | _ => none).mergeSort fun a b => decide (a ≤ b)

/-- The slots that hold a value, in ascending order. -/
def slotsOf (d : Desk) (v : Value) : List String :=
  ((d.slots.toList.filter (·.2.alloc == v.alloc)).map Prod.fst).mergeSort fun a b =>
    decide (a ≤ b)

/-! ## What is held -/

/-- The values in slots and those that waiting steps hold. -/
def heldAside (d : Desk) : List Value :=
  d.slots.values ++ d.waiting.values.flatMap (·.values)

/-- The values in all parts but the one at a place. -/
def heldBeside (d : Desk) (place : Nat) : List Value :=
  d.heldAside ++ (d.parts.zipIdx.filter (·.2 != place)).flatMap (·.1.held)

/-- The values outside the shared caches. -/
def heldOutsidePool (d : Desk) : List Value := d.heldAside ++ d.parts.flatMap (·.held)

/-- All values on the desk. -/
def held (d : Desk) : List Value := d.heldOutsidePool ++ d.pool.held

/-! ## Parts of the desk on which operations run -/

/-- The shared caches. -/
def shared : Focus Desk Pool where
  get d := d.pool
  set p d := { d with pool := p }
  held := heldOutsidePool

/-- The buffer at a place. -/
def bufferAt (d : Desk) (place : Nat) : Buffer :=
  match d.part place with
  | .buffer b => b
  | _ => .empty

/-- A buffer beside the shared caches. -/
def buffer (place : Nat) : Focus Desk (Buffer × Pool) where
  get d := (d.bufferAt place, d.pool)
  set s d := { d with pool := s.2 }.setPart place (.buffer s.1)
  held d := d.heldBeside place

/-- The unit of work at a place. -/
def workAt (d : Desk) (place : Nat) : UnitOfWork CacheRef :=
  match d.part place with
  | .work u _ => u
  | _ => {}

/-- A unit of work beside the shared caches. -/
def work (place : Nat) : Focus Desk (UnitOfWork CacheRef × Pool) where
  get d := (d.workAt place, d.pool)
  set s d := { d with pool := s.2 }.setPart place ((d.part place).setWork s.1)
  held d := d.heldBeside place

/-- What lies below a session: the shared caches and a database. -/
abbrev Backend : Type := Pool × UsersTable

/-- The shared caches of a backend. -/
def Backend.caches (r : CacheRef) : Cache Backend :=
  (Pool.cache r).within
    { get := Prod.fst, set := fun p t => (p, t.2), held := fun _ => [] }

/-- The database of a backend. -/
def Backend.database : StatementRunner CacheRef Backend :=
  UsersTable.runner.within (Focus.second Pool.held)

/-- The session at a place. -/
def sessionAt (d : Desk) (place : Nat) : DeskSession :=
  match d.part place with
  | .session s _ => s
  | _ => {}

/-- A session beside its backend. -/
def session (place : Nat) : Focus Desk (Session × Backend) where
  get d :=
    let s := d.sessionAt place
    (s.session, d.pool, d.table s.table)
  set t d :=
    let s := d.sessionAt place
    ({ d with pool := t.2.1 }.setTable s.table t.2.2).setPart place
      ((d.part place).setSession { s with session := t.1 })
  held d := d.heldBeside place

/-- A session that uses shared caches: its unit of work beside itself beside its
backend. -/
def cachingSession (place : Nat) : Focus Desk (CachingSession.State CacheRef Backend) where
  get d :=
    let s := d.sessionAt place
    (s.work.getD {}, s.session, d.pool, d.table s.table)
  set t d :=
    let s := d.sessionAt place
    ({ d with pool := t.2.2.1 }.setTable s.table t.2.2.2).setPart place
      ((d.part place).setSession { s with work := some t.1, session := t.2.1 })
  held d := d.heldBeside place

end Desk

end QueryCache
