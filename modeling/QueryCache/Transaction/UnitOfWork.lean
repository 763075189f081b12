import QueryCache.Transaction.Buffer

/-!
# Units of work over several caches

A unit of work has a buffer for every shared cache that it touched, by the id
of the cache: of two caches with one id the one touched first gets all calls.
Commit and rollback take the buffers one after the other.  A unit that has been
committed or rolled back goes on as a new unit with the same, empty buffers.
-/

namespace QueryCache

/-- The buffers of a unit of work; `ρ` names the shared caches. -/
structure UnitOfWork (ρ : Type) where
  /-- The number of the unit; every unit has another one. -/
  unit : Nat := 0
  /-- The shared cache and the buffer for each id. -/
  buffers : Entries String (ρ × Buffer) := .empty

namespace UnitOfWork

variable {ρ σ : Type}

/-- The values that the buffers hold. -/
def held (u : UnitOfWork ρ) : List Value := u.buffers.values.flatMap (·.2.held)

/-- The number of caches that were touched. -/
def tracked (u : UnitOfWork ρ) : Nat := u.buffers.size

/-- The buffer for an id. -/
def buffer (u : UnitOfWork ρ) (id : String) : Buffer :=
  match u.buffers.find? id with
  | some (_, b) => b
  | none => .empty

/-- Sets the buffer for an id that was touched before. -/
def setBuffer (u : UnitOfWork ρ) (id : String) (b : Buffer) : UnitOfWork ρ :=
  match u.buffers.find? id with
  | some (r, _) => { u with buffers := u.buffers.insert id (r, b) }
  | none => u

/-- Touches a cache: gives the one that was touched first under this id. -/
def track (r : ρ) (id : String) (u : UnitOfWork ρ) : ρ × UnitOfWork ρ :=
  match u.buffers.find? id with
  | some (first, _) => (first, u)
  | none => (r, { u with buffers := u.buffers.insert id (r, .empty) })

/-- The buffer for an id as a part of the unit; the other buffers hold values. -/
def focus (id : String) : Focus (UnitOfWork ρ × σ) (Buffer × σ) where
  get s := (s.1.buffer id, s.2)
  set s t := (t.1.setBuffer id s.1, s.2)
  held t := ((t.1.buffers.erase id).values.flatMap (·.2.held))

/-- Reads a shared cache. -/
def get (caches : ρ → Cache σ) (r : ρ) (key : CacheKey) :
    CacheCall (UnitOfWork ρ × σ) (Option Value) := do
  let id := (caches r).id
  let first ← .ofOp (Op.updateLayer (track r id))
  (focus id).await (Buffer.get (caches first) key)

/-- Buffers a write to a shared cache. -/
def put (caches : ρ → Cache σ) (r : ρ) (key : CacheKey) (value : Option Value) :
    CacheOp (UnitOfWork ρ × σ) Unit := do
  let id := (caches r).id
  let _ ← Op.updateLayer (track r id)
  (focus id).run (Buffer.put key value)

/-- Requests a clear of a shared cache. -/
def clear (caches : ρ → Cache σ) (r : ρ) : CacheOp (UnitOfWork ρ × σ) Unit := do
  let id := (caches r).id
  let _ ← Op.updateLayer (track r id)
  (focus id).run Buffer.clear

/-- Commits the buffers for the ids in order, the missed keys of each in the
order that `misses` gives; stops at the first failure. -/
def commitAll (misses : Buffer → List CacheKey) (caches : ρ → Cache σ) :
    List (String × ρ) → CacheCall (UnitOfWork ρ × σ) Unit
  | [] => pure ()
  | (id, r) :: rest => do
    (focus id).await (Buffer.commitWith misses (caches r))
    commitAll misses caches rest

/-- Rolls back the buffers for the ids in order. -/
def rollbackAll (caches : ρ → Cache σ) : List (String × ρ) → CacheOp (UnitOfWork ρ × σ) Unit
  | [] => pure ()
  | (id, r) :: rest => do
    (focus id).run (Buffer.rollback (caches r))
    rollbackAll caches rest

/-- The touched caches, in the order in which they were touched. -/
def touched (u : UnitOfWork ρ) : List (String × ρ) :=
  u.buffers.toList.map fun e => (e.1, e.2.1)

/-- Goes on as a new unit. -/
def renew : CacheOp (UnitOfWork ρ × σ) Unit :=
  Op.modifyLayer fun u => { u with unit := u.unit + 1 }

/-- Commits every buffer, in the order that `order` gives, and the missed keys
of each in the order that `misses` gives; a failure ends the commit and keeps
the unit. -/
def commitWith (order : UnitOfWork ρ → List (String × ρ)) (misses : Buffer → List CacheKey)
    (caches : ρ → Cache σ) : CacheCall (UnitOfWork ρ × σ) Unit := do
  let u ← .ofOp Op.layer
  commitAll misses caches (order u)
  .ofOp renew

/-- Commits every buffer. -/
def commit (caches : ρ → Cache σ) : CacheCall (UnitOfWork ρ × σ) Unit :=
  commitWith touched Buffer.misses caches

/-- Rolls back every buffer. -/
def rollback (caches : ρ → Cache σ) : CacheOp (UnitOfWork ρ × σ) Unit := do
  let u ← Op.layer
  rollbackAll caches u.touched
  renew

end UnitOfWork

end QueryCache
