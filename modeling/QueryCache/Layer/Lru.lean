import QueryCache.Cache.Basic

/-!
# Least recently used

A bounded list of keys, the most recently used one first.  A put moves its key
to the front; if the key is new and the list is full, the last key leaves the
list and the cache below, after the new entry is stored.  A read moves its key
to the front if the list has it.  Removing an entry leaves its key in the list.
-/

namespace QueryCache

/-- Keys in order of use. -/
structure Recency where
  capacity : Nat
  /-- The keys, the most recently used one first. -/
  keys : List CacheKey := []
deriving DecidableEq, Repr

namespace Recency

/-- Moves a key to the front if the list has it. -/
def touch (key : CacheKey) (s : Recency) : Recency :=
  if key ∈ s.keys then { s with keys := key :: s.keys.erase key } else s

/-- Puts a key to the front; gives the key that leaves a full list for it. -/
def push (key : CacheKey) (s : Recency) : Option CacheKey × Recency :=
  if key ∈ s.keys then (none, { s with keys := key :: s.keys.erase key })
  else if s.keys.length < s.capacity then (none, { s with keys := key :: s.keys })
  else (s.keys.getLast?, { s with keys := key :: s.keys.dropLast })

/-- Changes the capacity; gives the keys that are too many, the least recently
used one first. -/
def resize (capacity : Nat) (s : Recency) : List CacheKey × Recency :=
  ((s.keys.drop capacity).reverse, ⟨capacity, s.keys.take capacity⟩)

end Recency

namespace Lru

variable {σ : Type}

/-- The layer around a cache. -/
def around (d : Cache σ) : Cache (Recency × σ) :=
  let below := d.under fun _ : Recency => []
  { below with
    put := fun key value => do
      below.put key value
      match ← .ofOp (Op.updateLayer (Recency.push key)) with
      | some eldest =>
        let _ ← below.remove eldest
        pure ()
      | none => pure ()
    get := fun key => do
      .ofOp (Op.modifyLayer (Recency.touch key))
      below.get key
    clear := do
      below.clear
      .ofOp (Op.modifyLayer fun s => { s with keys := [] }) }

/-- Removes the keys in order; stops at the first failure. -/
def removeAll (d : Cache σ) : List CacheKey → CacheCall σ Unit
  | [] => pure ()
  | key :: rest => do
    let _ ← d.remove key
    removeAll d rest

/-- Changes the capacity; the keys that are too many leave the cache at once. -/
def setCapacity (d : Cache σ) (capacity : Nat) : CacheCall (Recency × σ) Unit := do
  let surplus ← .ofOp (Op.updateLayer (Recency.resize capacity))
  removeAll (d.under fun _ => []) surplus

end Lru

end QueryCache
