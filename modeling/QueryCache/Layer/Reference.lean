import QueryCache.Cache.Basic

/-!
# Entries that live while they are used

In place of a value the layer stores a handle to it.  A weak handle gives the
value back only while somebody else owns it.  A soft handle owns its value
until it has gone unread for more than `retention` generations; then it is
demoted and behaves like a weak one.

Puts, reads and removals start a new generation.  Every value that is read
goes to the front of a bounded ring of hard links, which owns it.  The registry
knows the handle of every key; before a put, a removal and a count, the keys
whose value nobody owns any more leave the registry and the cache below.
-/

namespace QueryCache

/-- How the layer holds the values stored in it. -/
inductive Reachability where
  | weak
  | soft (retention : Nat)
deriving DecidableEq, Repr

/-- The generations that a soft value may go unread when nothing else is said. -/
def defaultRetention : Nat := 1024

/-- The length of the ring when nothing else is said. -/
def defaultHardLinks : Nat := 256

namespace Reachability

/-- A new handle holds its target. -/
def isStrong : Reachability → Bool
  | .weak => false
  | .soft _ => true

/-- A handle that was last used in a generation has gone unread for too long. -/
def isIdle (r : Reachability) (generation touched : Nat) : Bool :=
  match r with
  | .weak => false
  | .soft retention => retention < generation - touched

end Reachability

/-- The registry of handles and the ring of hard links.  Generations are counted
without bound: a counter of 64 bits would take 2^64 calls to come round. -/
structure References where
  /-- The values read last, latest first. -/
  ring : List Value := []
  ringCapacity : Nat := defaultHardLinks
  /-- The handle stored under each key. -/
  registry : Entries CacheKey Value := .empty
  generation : Nat := 0

namespace References

/-- The values that the layer holds. -/
def held (s : References) : List Value := s.ring ++ s.registry.values

/-- Puts a value at the front of the ring. -/
def link (v : Value) (s : References) : References :=
  { s with ring := (v :: s.ring).take s.ringCapacity }

/-- Bounds the ring. -/
def setRingCapacity (capacity : Nat) (s : References) : References :=
  { s with ring := s.ring.take capacity, ringCapacity := capacity }

/-- Forgets every handle and every hard link. -/
def reset (s : References) : References := { s with ring := [], registry := .empty }

/-- Registers the handle of a key. -/
def register (key : CacheKey) (handle : Value) (s : References) : References :=
  { s with registry := s.registry.insert key handle }

/-- Forgets the handle of a key. -/
def forget (key : CacheKey) (s : References) : References :=
  { s with registry := s.registry.erase key }

end References

namespace Environment

/-- The value that a handle gives back: its target, if the handle holds it or
some owner keeps it alive. -/
def deref (e : Environment) (owners : List Value) (handle : Value) : Option Value :=
  match handle with
  | .handle a target =>
    if (e.handles a).strong || e.isAlive owners target then some target else none
  | _ => none

/-- Demotes a handle. -/
def demote (e : Environment) (handle : Value) : Environment :=
  e.setHandle handle.alloc { e.handles handle.alloc with strong := false }

/-- Demotes the handles that have gone unread for too long. -/
def demoteIdle (e : Environment) (r : Reachability) (generation : Nat) :
    List Value → Environment
  | [] => e
  | handle :: rest =>
    let e := if r.isIdle generation (e.handles handle.alloc).touched then e.demote handle else e
    e.demoteIdle r generation rest

/-- Notes the use of a handle. -/
def touch (e : Environment) (handle : Value) (generation : Nat) : Environment :=
  e.setHandle handle.alloc { e.handles handle.alloc with touched := generation }

end Environment

namespace Reference

variable {σ : Type}

/-- The cache below, which runs while the layer holds its ring and its handles. -/
def below (d : Cache σ) : Cache (References × σ) := d.under References.held

/-- Everything that owns values during a call. -/
def owners (d : Cache σ) (c : Caller) (s : References × σ) : List Value :=
  c.owners ++ s.1.held ++ d.held s.2

/-- Demotes idle handles and forgets the keys whose value nobody owns; gives
those keys. -/
def sweep (r : Reachability) (d : Cache σ) : CacheOp (References × σ) (List CacheKey) :=
  fun c w =>
    let refs := w.state.1
    let env := w.env.demoteIdle r refs.generation refs.registry.values
    -- Demotion comes first, so a value that only its idle handle owned goes at once.
    let alive := fun (e : CacheKey × Value) => (env.deref (owners d c w.state) e.2).isSome
    let reclaimed := (refs.registry.toList.filter fun e => !alive e).map Prod.fst
    (.ok reclaimed, ⟨env, { refs with registry := refs.registry.filter alive }, w.state.2⟩)

/-- Removes the keys from the cache below; stops at the first failure. -/
def removeAll (d : Cache σ) : List CacheKey → CacheCall (References × σ) Unit
  | [] => pure ()
  | key :: rest => do
    let _ ← (below d).remove key
    removeAll d rest

/-- Takes out the keys whose value nobody owns. -/
def collect (r : Reachability) (d : Cache σ) : CacheCall (References × σ) Unit := do
  removeAll d (← .ofOp (sweep r d))

/-- Starts a new generation. -/
def advance : CacheOp (References × σ) Nat :=
  Op.updateLayer fun s => (s.generation + 1, { s with generation := s.generation + 1 })

/-- Makes a handle to a value. -/
def wrap (r : Reachability) (v : Value) (generation : Nat) : CacheOp (References × σ) Value := do
  let a ← Op.allocate
  Op.modifyEnvironment (·.setHandle a ⟨r.isStrong, generation⟩)
  pure (.handle a v)

/-- The stored value is a handle. -/
def expectHandle (d : Cache σ) (stored : Value) : CacheOp (References × σ) Value :=
  match stored with
  | .handle a target => pure (.handle a target)
  | _ => Op.fail (.unexpectedValue d.id .referenceHandle)

/-- The value that a handle gives back in the middle of a call, in which the
handle itself is held too. -/
def deref (d : Cache σ) (handle : Value) : CacheOp (References × σ) (Option Value) :=
  fun c w => (.ok (w.env.deref (owners d c w.state) handle), w)

/-- Gives the value behind a stored handle and notes the use; a handle without
value leaves the registry and the cache below, and is held until it has left. -/
def follow (d : Cache σ) (key : CacheKey) (stored : Value) (generation : Nat) :
    CacheCall (References × σ) (Option Value) := do
  let handle ← .ofOp (expectHandle d stored)
  match ← .ofOp (deref d handle) with
  | some v =>
    .ofOp (Op.modifyEnvironment (·.touch handle generation))
    .ofOp (Op.modifyLayer (References.link v))
    pure (some v)
  | none =>
    .ofOp (Op.modifyLayer (References.forget key))
    let _ ← ((below d).remove key).holding [handle]
    pure none

/-- Stores a handle to a value, or an absence. -/
def store (r : Reachability) (d : Cache σ) (key : CacheKey) (value : Option Value) :
    CacheCall (References × σ) Unit := do
  collect r d
  let generation ← .ofOp advance
  match value with
  | none =>
    .ofOp (Op.modifyLayer (References.forget key))
    (below d).put key none
  | some v =>
    let handle ← .ofOp (wrap r v generation)
    -- A put that fails below leaves the handle in the registry.
    .ofOp (Op.modifyLayer (References.register key handle))
    (below d).put key (some handle)

/-- The layer around a cache.  A value that is put is held until the cache below
has its handle. -/
def around (r : Reachability) (d : Cache σ) : Cache (References × σ) where
  id := d.id
  put key value := (store r d key value).holding value.toList
  get key := do
    let generation ← .ofOp advance
    match ← (below d).get key with
    | none => pure none
    | some stored => follow d key stored generation
  remove key := do
    collect r d
    let _ ← .ofOp advance
    .ofOp (Op.modifyLayer (References.forget key))
    match ← (below d).remove key with
    | none => pure none
    | some stored => .ofOp (do deref d (← expectHandle d stored))
  clear := do
    .ofOp (Op.modifyLayer References.reset)
    (below d).clear
  size := do
    collect r d
    (below d).size
  releaseLock key := (below d).releaseLock key
  stats s := d.stats s.2
  held s := s.1.held ++ d.held s.2

end Reference

end QueryCache
