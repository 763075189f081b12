import QueryCache.Cache.Basic

/-!
# Copies instead of shared values

The layer stores a snapshot of every value and restores a new value from it at
every read, so no reader sees what another one does to its copy.
-/

namespace QueryCache.Serialized

variable {σ : Type}

/-- The cache error for a snapshot error. -/
def mapError (id : String) : SnapshotError → CacheError
  | .notSerializable typeName => .notSerializable id typeName
  | .encode typeName reason => .serialization id (SnapshotError.encode typeName reason).message
  | .decode typeName => .deserialization id (SnapshotError.decode typeName).message

/-- Stores a snapshot in a new allocation. -/
def save (id : String) (v : Value) : CacheOp σ Value := do
  let s ← Op.ofExcept (v.toSnapshot.mapError (mapError id))
  let a ← Op.allocate
  pure (.snapshot a s)

/-- Restores a stored snapshot into a new allocation. -/
def restore (id : String) (stored : Value) : CacheOp σ Value :=
  match stored with
  | .snapshot _ s => do
    let d ← Op.ofExcept (s.restore.mapError (mapError id))
    let a ← Op.allocate
    pure (.data a d true)
  | _ => Op.fail (.unexpectedValue id .serializedSnapshot)

/-- Restores what was found, if anything was. -/
def restoreFound (id : String) : Option Value → CacheOp σ (Option Value)
  | none => pure none
  | some stored => do pure (some (← restore id stored))

/-- The layer around a cache. -/
def around (d : Cache σ) : Cache σ :=
  { d with
    put := fun key value => do
      match value with
      | none => d.put key none
      | some v =>
        let stored ← .ofOp (save d.id v)
        d.put key (some stored)
    get := fun key => do
      let found ← d.get key
      .ofOp (restoreFound d.id found)
    remove := fun key => do
      let found ← d.remove key
      .ofOp (restoreFound d.id found) }

end QueryCache.Serialized
