import QueryCache.Json.Value
import QueryCache.Workbench.Desk

/-!
# A workbench

A workbench is a desk with its environment, on which steps are made.  It
remembers how the keys of earlier steps were written and what it last reported
of each object, so that after a step it can tell what has changed.

1. the workbench and its steps
2. keys and names
3. making objects
4. reports
-/

namespace QueryCache

/-! ## The workbench and its steps -/

/-- Why a step has no ordinary answer. -/
inductive StepError where
  /-- The step is not well formed. -/
  | badInput
  /-- There is no object of the name, or it is of another kind. -/
  | noSuchObject
  /-- A text in the step is not the JSON that it should be. -/
  | jsonError
  /-- The step failed: the name of the cause and its wording. -/
  | failed (kind message : String)
deriving DecidableEq, Repr

namespace StepError

/-- A cache failed. -/
def ofCache (e : CacheError) : StepError := .failed e.kind e.message

/-- A configuration failed. -/
def ofConfig (e : ConfigError) : StepError := .failed e.kind e.message

/-- Any part failed; the wording says which kind of error it is. -/
def ofError (e : Error) : StepError := .failed e.kind e.message

/-- A snapshot failed. -/
def ofSnapshot (e : SnapshotError) : StepError := .failed e.kind e.message

end StepError

/-- What a report tells about an object. -/
inductive ObjectState where
  /-- The number of entries of a store, and the keys in it as they were written. -/
  | store (size : Nat) (keys : List String)
  | buffer (writes misses : Nat) (clearPending : Bool)
  /-- The number of results that a session remembers. -/
  | results (size : Nat)
deriving DecidableEq, Repr

/-- A desk, and what is known of the steps so far. -/
structure Workbench where
  env : Environment := {}
  desk : Desk := {}
  /-- What the step that is being made needs. -/
  current : Needs := {}
  /-- The keys that were used, as they were written. -/
  written : List (Json × CacheKey) := []
  /-- The keys that have names. -/
  keyNames : Entries String CacheKey := .empty
  /-- What was last reported of the objects. -/
  reported : Entries String ObjectState := .empty

/-- A step of a workbench. -/
abbrev WorkbenchM : Type → Type := ExceptT StepError (StateM Workbench)

namespace Workbench

/-- The world on which operations run. -/
def world (b : Workbench) : World Desk := ⟨b.env, b.desk⟩

/-- Changes the world. -/
def setWorld (w : World Desk) (b : Workbench) : Workbench :=
  { b with env := w.env, desk := w.state }

/-- Changes the desk. -/
def modifyDesk (f : Desk → Desk) : WorkbenchM Unit := modify fun b => { b with desk := f b.desk }

/-- Takes a new allocation. -/
def allocate : WorkbenchM Nat :=
  modifyGet fun b =>
    (b.env.nextAlloc, { b with env := { b.env with nextAlloc := b.env.nextAlloc + 1 } })

/-! ## Keys and names -/

/-- Notes a key as it was written; of two ways to write a key each is noted once. -/
def noteKey (j : Json) (k : CacheKey) (b : Workbench) : Workbench :=
  if b.written.any (·.1.render == j.render) then b
  else { b with written := b.written ++ [(j, k)] }

/-- Gives a key a name, and notes it under that name; a key that had the name
gives up its place to it. -/
def nameKey (name : String) (k : CacheKey) (b : Workbench) : Workbench :=
  let spec : Json := .object [("ref", .string name)]
  let rename := fun (e : Json × CacheKey) => if e.1.render == spec.render then (spec, k) else e
  { b with
    keyNames := b.keyNames.insert name k
    written := b.written.map rename }.noteKey spec k

/-- How a key was first written: a string without its quotes, anything else as
JSON; a key that was never written is shown as itself. -/
def keyLabel (b : Workbench) (k : CacheKey) : String :=
  match b.written.find? (·.2 == k) with
  | some (.string s, _) => s
  | some (j, _) => j.render
  | none => k.display

/-- The object of a name, which the step needs from now on. -/
def object (name : String) : WorkbenchM DeskObject := do
  match (← get).desk.object? name with
  | some o =>
    modify fun b =>
      { b with current := { b.current with objects := o :: b.current.objects } }
    pure o
  | none => throw .noSuchObject

/-- The cache of a name. -/
def cacheRef (name : String) : WorkbenchM CacheRef := do
  match ← object name with
  | .cache r _ _ => pure r
  | _ => throw .noSuchObject

/-- The database of a name. -/
def tablePlace (name : String) : WorkbenchM Nat := do
  match ← object name with
  | .table place => pure place
  | _ => throw .noSuchObject

/-- The statement of a name. -/
def statement (name : String) : WorkbenchM (Statement CacheRef) := do
  match ← object name with
  | .statement s => pure s
  | _ => throw .noSuchObject

/-- The value in a slot. -/
def slot (name : String) : WorkbenchM Value := do
  match (← get).desk.slots.find? name with
  | some v => pure v
  | none => throw .noSuchObject

/-- Puts a value into a slot. -/
def fillSlot (name : String) (v : Value) : WorkbenchM Unit :=
  modifyDesk fun d => { d with slots := d.slots.insert name v }

/-- Empties a slot; tells whether there was a value in it. -/
def emptySlot (name : String) : WorkbenchM Bool :=
  modifyGet fun b =>
    (b.desk.slots.contains name,
      { b with desk := { b.desk with slots := b.desk.slots.erase name } })

/-! ## Making objects -/

/-- Gives a name to an object; what had the name before is without it. -/
def bind (name : String) (o : DeskObject) : WorkbenchM Unit :=
  modify fun b =>
    { b with desk := b.desk.setObject name o, reported := b.reported.erase name }

/-- Changes what an object is, which keeps its name. -/
def change (name : String) (o : DeskObject) : WorkbenchM Unit := modifyDesk (.setObject name o)

/-- Sets up a database; gives its place. -/
def addTable (t : UsersTable) : WorkbenchM Nat :=
  modifyGet fun b =>
    (b.desk.tables.length, { b with desk := { b.desk with tables := b.desk.tables ++ [t] } })

/-- Sets up a part; gives its place. -/
def addPart (p : DeskPart) : WorkbenchM Nat :=
  modifyGet fun b =>
    (b.desk.parts.length, { b with desk := { b.desk with parts := b.desk.parts ++ [p] } })

/-- Looks at the unit of work of a part: tells whether it is another one than at
the last look. -/
def lookAtUnit (place : Nat) : WorkbenchM Bool :=
  modifyGet fun b =>
    let (isNew, part) := (b.desk.part place).lookAtUnit
    (isNew, { b with desk := b.desk.setPart place part })

/-- Sets up a store. -/
def addStore (id : String) : WorkbenchM CacheRef :=
  modifyGet fun b =>
    let (r, pool) := b.desk.pool.addStore id
    (r, { b with desk := { b.desk with pool } })

/-- Sets up layers around a cache, innermost first; gives the new cache and adds
every step on the way to the addressable layers. -/
def addLayers : List Layer → CacheRef → List CacheRef → WorkbenchM (CacheRef × List CacheRef)
  | [], r, known => pure (r, known)
  | l :: rest, r, known => do
    let r ← modifyGet fun b =>
      let (r, pool) := b.desk.pool.addLayer b.env.now l r
      (r, { b with desk := { b.desk with pool } })
    addLayers rest r (known ++ [r])

/-- Sets up a stack. -/
def addStack (s : Stack) : WorkbenchM CacheRef :=
  modifyGet fun b =>
    let (r, pool) := b.desk.pool.addStack b.env.now s
    (r, { b with desk := { b.desk with pool } })

/-- Builds the cache of a namespace in a registry, which keeps its name; who asks
for it makes no difference. -/
def buildIn (name : String) (g : Registry) (ns : String) (settings : CacheSettings) :
    WorkbenchM CacheRef := do
  let b ← get
  let (result, w) := Registry.build ns settings ⟨"main", []⟩ ⟨b.env, (g, b.desk.pool)⟩
  modify (·.setWorld
    ⟨w.env, { b.desk with pool := w.state.2 }.setObject name (.registry w.state.1)⟩)
  match result with
  | .ok r => pure r
  | .error e => throw (.ofError e)

/-! ## Reports -/

/-- The text of an observed call. -/
def callText (b : Workbench) : String × ObservedCall → String
  | (name, .put k stored) =>
    name ++ ":put " ++ b.keyLabel k ++ (if stored then " some" else " none")
  | (name, .get k) => name ++ ":get " ++ b.keyLabel k
  | (name, .remove k) => name ++ ":remove " ++ b.keyLabel k
  | (name, .clear) => name ++ ":clear"
  | (name, .size) => name ++ ":size"
  | (name, .releaseLock k) => name ++ ":release_lock " ++ b.keyLabel k

/-- The state of an object, if a report tells about it, and the state in which a
new object is taken to be. -/
def stateOf (b : Workbench) : DeskObject → Option (ObjectState × ObjectState)
  | .cache _ _ (some place) =>
    let store := b.desk.pool.storeAt place
    let keys := (b.written.filter fun e => store.contains e.2).map (·.1.render)
    some (.store store.size keys, .store 0 [])
  | .buffer _ place =>
    let content := b.desk.bufferAt place
    some (.buffer content.writes.size content.misses.length content.clearPending,
      .buffer 0 0 false)
  | .session place =>
    some (.results (b.desk.sessionAt place).session.results.size, .results 0)
  | _ => none

/-- The objects whose state is not the one that was last reported. -/
def changes (b : Workbench) : List (String × ObjectState) :=
  b.desk.objects.toList.filterMap fun (name, o) =>
    match b.stateOf o with
    | some (state, initial) =>
      if state = (b.reported.find? name).getD initial then none else some (name, state)
    | none => none

/-- Reports what has changed and which calls were observed. -/
def report (b : Workbench) : (List (String × ObjectState) × List String) × Workbench :=
  let changed := b.changes
  ((changed, b.env.observed.reverse.map b.callText),
    { b with
      reported := changed.foldl (fun m e => m.insert e.1 e.2) b.reported
      env := { b.env with observed := [] } })

end Workbench

end QueryCache
