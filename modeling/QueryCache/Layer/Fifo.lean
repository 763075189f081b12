import QueryCache.Cache.Basic

/-!
# First in, first out

A queue records every put, so a key that is put again is queued again, and a
key that is removed stays queued.  Once more puts are queued than the capacity
allows, the oldest key leaves the queue and the cache below, before the new
entry is stored.
-/

namespace QueryCache

/-- The order of the puts. -/
structure Fifo where
  capacity : Nat
  /-- The keys of the puts, oldest first. -/
  queue : List CacheKey := []
deriving DecidableEq, Repr

namespace Fifo

/-- Queues a put; gives the key that has to leave for it. -/
def enqueue (key : CacheKey) (s : Fifo) : Option CacheKey × Fifo :=
  let queue := s.queue ++ [key]
  -- At most one key leaves, even if it is queued again further back.
  if s.capacity < queue.length then (queue.head?, { s with queue := queue.tail })
  else (none, { s with queue })

/-- The layer around a cache. -/
def around {σ : Type} (d : Cache σ) : Cache (Fifo × σ) :=
  let below := d.under fun _ : Fifo => []
  { below with
    put := fun key value => do
      match ← .ofOp (Op.updateLayer (enqueue key)) with
      | some oldest =>
        let _ ← (below.remove oldest).holding value.toList
        below.put key value
      | none => below.put key value
    clear := do
      below.clear
      .ofOp (Op.modifyLayer fun s => { s with queue := [] }) }

/-- Changes the capacity, and nothing else: the keys that are too many stay. -/
def setCapacity {σ : Type} (capacity : Nat) : CacheCall (Fifo × σ) Unit :=
  .ofOp (Op.modifyLayer fun s => { s with capacity })

end Fifo

end QueryCache
