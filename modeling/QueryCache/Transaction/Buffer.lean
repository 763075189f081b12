import QueryCache.Cache.Basic

/-!
# Writes of a unit of work

A unit of work reads a shared cache directly, but its writes wait in a buffer
until the unit is committed.  A requested clear waits too, drops the writes
before it and hides the whole shared cache from the unit.  The keys for which a
read found nothing are kept: a commit stores an absence under those that were
not written, and a rollback gives their locks back.

1. the buffer
2. what a commit does to the shared cache
3. operations of the unit
-/

namespace QueryCache

/-! ## The buffer -/

/-- What a unit of work has done to a shared cache. -/
structure Buffer where
  clearPending : Bool := false
  /-- The last value put under each key, in the order of the first puts. -/
  writes : Entries CacheKey (Option Value) := .empty
  /-- The keys for which a read found nothing, each once. -/
  misses : List CacheKey := []

namespace Buffer

/-- A buffer without anything in it. -/
def empty : Buffer := {}

/-- The values that the buffer holds. -/
def held (b : Buffer) : List Value := b.writes.values.filterMap (·)

/-- Buffers a write. -/
def write (key : CacheKey) (value : Option Value) (b : Buffer) : Buffer :=
  { b with writes := b.writes.insert key value }

/-- Notes that a read found nothing. -/
def miss (key : CacheKey) (b : Buffer) : Buffer :=
  if key ∈ b.misses then b else { b with misses := b.misses ++ [key] }

/-- Requests a clear and drops the writes. -/
def requestClear (b : Buffer) : Buffer := { b with clearPending := true, writes := .empty }

/-! ## What a commit does -/

/-- A call on a shared cache. -/
inductive SharedCall where
  | clear
  | put (key : CacheKey) (value : Option Value)
deriving DecidableEq, Repr

namespace SharedCall

/-- Makes the call. -/
def run {σ : Type} (d : Cache σ) : SharedCall → CacheCall σ Unit
  | clear => d.clear
  | put key value => d.put key value

/-- Makes the calls in order; stops at the first failure. -/
def runAll {σ : Type} (d : Cache σ) : List SharedCall → CacheCall σ Unit
  | [] => pure ()
  | call :: rest => do
    call.run d
    runAll d rest

end SharedCall

/-- The calls of a commit that writes the missed keys in the given order: the
clear, the buffered writes, an absence for each missed key that was not
written. -/
def planWith (b : Buffer) (misses : List CacheKey) : List SharedCall :=
  (if b.clearPending then [.clear] else []) ++
    b.writes.toList.map (fun e => .put e.1 e.2) ++
    (misses.filter fun k => !b.writes.contains k).map (.put · none)

/-- The calls of a commit. -/
def plan (b : Buffer) : List SharedCall := b.planWith b.misses

/-! ## Operations of the unit -/

variable {σ : Type}

/-- The shared cache, which runs while the buffer holds its values. -/
abbrev shared (d : Cache σ) : Cache (Buffer × σ) := d.under held

/-- Reads the shared cache; a pending clear hides what was found. -/
def get (d : Cache σ) (key : CacheKey) : CacheCall (Buffer × σ) (Option Value) := do
  let value ← (shared d).get key
  .ofOp (Op.updateLayer fun b =>
    -- What counts as missed is what the shared cache has, not what the reader is given.
    let b := if value.isNone then b.miss key else b
    (if b.clearPending then none else value, b))

/-- Buffers a write. -/
def put (key : CacheKey) (value : Option Value) : CacheOp (Buffer × σ) Unit :=
  Op.modifyLayer (write key value)

/-- Requests a clear. -/
def clear : CacheOp (Buffer × σ) Unit := Op.modifyLayer requestClear

/-- Makes the calls of the commit, the missed keys in the order that `order`
gives, then empties the buffer.  A call that fails ends the commit and leaves
the buffer as it was. -/
def commitWith (order : Buffer → List CacheKey) (d : Cache σ) : CacheCall (Buffer × σ) Unit := do
  let b ← .ofOp Op.layer
  SharedCall.runAll (shared d) (b.planWith (order b))
  .ofOp (Op.modifyLayer fun _ => empty)

/-- Commits the buffer. -/
def commit (d : Cache σ) : CacheCall (Buffer × σ) Unit := commitWith misses d

/-- Gives the locks of the keys back; failures are passed over. -/
def releaseAll (d : Cache σ) : List CacheKey → CacheOp (Buffer × σ) Unit
  | [] => pure ()
  | key :: rest => do
    let _ ← ((shared d).releaseLock key).result
    releaseAll d rest

/-- Gives the locks of the missed keys back and empties the buffer. -/
def rollback (d : Cache σ) : CacheOp (Buffer × σ) Unit := do
  let b ← Op.layer
  releaseAll d b.misses
  Op.modifyLayer fun _ => empty

/-- The number of entries in the shared cache. -/
def size (d : Cache σ) : CacheCall (Buffer × σ) Nat := (shared d).size

/-- How a buffer is shown to a developer. -/
def debug (id : String) (b : Buffer) : String :=
  Text.record "TransactionalCache"
    [("id", Text.quoted id),
      ("clear_on_commit", Text.boolean b.clearPending),
      ("pending_writes", toString b.writes.size),
      ("missed_keys", toString b.misses.length)]

end Buffer

end QueryCache
