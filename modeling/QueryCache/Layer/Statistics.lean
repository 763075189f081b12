import QueryCache.Cache.Basic

/-!
# Counting hits

The layer counts the reads that pass through it, and those that found a value.
A read that fails below is counted and is no hit.
-/

namespace QueryCache

/-- The reads so far. -/
structure ReadCounts where
  requests : UInt64 := 0
  hits : UInt64 := 0
deriving DecidableEq, Repr

namespace ReadCounts

/-- The statistics of the reads. -/
def stats (s : ReadCounts) : CacheStats :=
  let hits := min s.hits s.requests
  { hits, misses := s.requests - hits }

/-- Counts a read. -/
def request (s : ReadCounts) : ReadCounts := { s with requests := s.requests + 1 }

/-- Counts a hit. -/
def hit (s : ReadCounts) : ReadCounts := { s with hits := s.hits + 1 }

/-- The layer around a cache. -/
def around {σ : Type} (d : Cache σ) : Cache (ReadCounts × σ) :=
  let below := d.under fun _ : ReadCounts => []
  { below with
    get := fun key => do
      .ofOp (Op.modifyLayer request)
      match ← below.get key with
      | some v =>
        .ofOp (Op.modifyLayer hit)
        pure (some v)
      | none => pure none
    stats := fun s => some s.1.stats }

end ReadCounts

end QueryCache
