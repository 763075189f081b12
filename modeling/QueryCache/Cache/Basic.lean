import QueryCache.Cache.Operation
import QueryCache.Entries
import QueryCache.Error

/-!
# Caches

A cache maps keys to values or to absences: an absence says that a key is
known to have no value.  Reading it gives nothing, as for a key without entry,
but it counts as an entry.

`Cache σ` holds the operations of a cache whose state is a `σ`.  A layer is a
function from the cache below it to a cache with its own state beside that of
the cache below.
-/

namespace QueryCache

/-! ## Statistics -/

/-- How many reads found a value and how many did not. -/
structure CacheStats where
  hits : UInt64 := 0
  misses : UInt64 := 0
deriving DecidableEq, Repr

namespace CacheStats

/-- The number of reads. -/
def requests (s : CacheStats) : UInt64 := s.hits + s.misses

/-- The share of the reads that found a value; zero before the first read. -/
def hitRate (s : CacheStats) : Binary64 :=
  if s.requests = 0 then ⟨0⟩ else .ofFloat (s.hits.toFloat / s.requests.toFloat)

end CacheStats

/-! ## Caches -/

/-- The entries that a bounded cache keeps when no size is given. -/
def defaultCapacity : Nat := 1024

/-- An operation of a cache that always comes to its end. -/
abbrev CacheOp (σ α : Type) : Type := Op CacheError σ α

/-- A call on a cache, which may have to wait for another thread. -/
abbrev CacheCall (σ α : Type) : Type := Await CacheError σ α

/-- The operations of a cache with state `σ`. -/
structure Cache (σ : Type) where
  /-- The namespace that the cache serves. -/
  id : String
  /-- Stores a value, or an absence, under a key. -/
  put : CacheKey → Option Value → CacheCall σ Unit
  /-- The value under a key; nothing for an absence. -/
  get : CacheKey → CacheCall σ (Option Value)
  /-- Takes a key out and gives the value that was there. -/
  remove : CacheKey → CacheCall σ (Option Value)
  /-- Takes every key out. -/
  clear : CacheCall σ Unit
  /-- The number of entries. -/
  size : CacheCall σ Nat
  /-- Gives back the lock of a key, if the thread holds it. -/
  releaseLock : CacheKey → CacheOp σ Unit
  /-- The statistics, if a layer keeps any. -/
  stats : σ → Option CacheStats
  /-- The values that the cache holds. -/
  held : σ → List Value

namespace Cache

variable {σ τ : Type}

/-- The cache as part of a larger state. -/
def within (f : Focus τ σ) (d : Cache σ) : Cache τ where
  id := d.id
  put k v := f.await (d.put k v)
  get k := f.await (d.get k)
  remove k := f.await (d.remove k)
  clear := f.await d.clear
  size := f.await d.size
  releaseLock k := f.run (d.releaseLock k)
  stats s := d.stats (f.get s)
  held s := d.held (f.get s)

/-- The cache below a layer with state `lam` that holds the values `held`. -/
abbrev under {lam : Type} (d : Cache σ) (held : lam → List Value) : Cache (lam × σ) :=
  d.within (Focus.second held)

end Cache

namespace Op

variable {ε σ lam : Type}

/-- The state of the layer itself. -/
def layer : Op ε (lam × σ) lam := fun _ w => (.ok w.state.1, w)

/-- Changes the state of the layer itself. -/
def modifyLayer (f : lam → lam) : Op ε (lam × σ) Unit :=
  modify fun s => (f s.1, s.2)

/-- Changes the state of the layer itself and gives a value. -/
def updateLayer {α : Type} (f : lam → α × lam) : Op ε (lam × σ) α :=
  update fun s =>
    let (a, l) := f s.1
    (a, (l, s.2))

end Op

end QueryCache
