import QueryCache.Cache.Basic

/-!
# One thread fills a missing entry

A read takes the lock of its key.  If it finds a value or fails, it gives the
lock back; if it finds nothing, the thread keeps the lock and is expected to
put a value under the key, which gives the lock back.  Other threads that read
the key wait until then, or until the timeout has passed.

A thread that holds the lock of a key takes it again at once, and gives it back
once.  Only the holder can give a lock back.
-/

namespace QueryCache

/-- The thread that holds the lock of each locked key. -/
abbrev KeyLocks := Entries CacheKey Thread

namespace KeyLocks

/-- The thread may take the lock of the key. -/
def isFree (s : KeyLocks) (key : CacheKey) (thread : Thread) : Bool :=
  match s.find? key with
  | none => true
  | some holder => holder == thread

/-- Takes the lock. -/
def acquire (s : KeyLocks) (key : CacheKey) (thread : Thread) : KeyLocks := s.insert key thread

/-- Gives the lock back, if the thread holds it. -/
def release (s : KeyLocks) (key : CacheKey) (thread : Thread) : KeyLocks :=
  if s.find? key = some thread then s.erase key else s

end KeyLocks

namespace Blocking

variable {ε σ : Type}

/-- The cache below. -/
abbrev below (d : Cache σ) : Cache (KeyLocks × σ) := d.under fun _ => []

/-- Gives the lock of a key back, if the calling thread holds it. -/
def release (key : CacheKey) : Op ε (KeyLocks × σ) Unit := do
  let c ← Op.caller
  Op.modifyLayer (·.release key c.thread)

/-- Takes the lock of a key that is free for the calling thread. -/
def take (key : CacheKey) : Op ε (KeyLocks × σ) Unit := do
  let c ← Op.caller
  Op.modifyLayer (·.acquire key c.thread)

/-- The lock of the key is free for the thread. -/
def isReady (key : CacheKey) (thread : Thread) (w : World (KeyLocks × σ)) : Bool :=
  w.state.1.isFree key thread

/-- Takes the lock of a key, or waits for it until the timeout has passed. -/
def acquire (timeout : Option Duration) (id : String) (key : CacheKey) :
    CacheCall (KeyLocks × σ) Unit := fun c w =>
  if isReady key c.thread w then Await.ofOp (take key) c w
  else
    let deadline := timeout.map fun t => w.env.now + t.nanos
    -- At the deadline the lock is looked at once more.
    .waiting w { ready := isReady key c.thread, deadline } fun c w =>
      if isReady key c.thread w then Await.ofOp (take key) c w
      else .done (.error (.lockTimeout id key (timeout.getD ⟨0⟩))) w

/-- The layer around a cache. -/
def around (timeout : Option Duration) (d : Cache σ) : Cache (KeyLocks × σ) :=
  { below d with
    put := fun key value => do
      let r ← ((below d).put key value).result
      .ofOp (release key)
      .ofOp (Op.ofExcept r)
    get := fun key => do
      acquire timeout d.id key
      match ← ((below d).get key).result with
      | .ok (some v) =>
        .ofOp (release key)
        pure (some v)
      -- The thread keeps the lock: it is expected to put a value.
      | .ok none => pure none
      | .error e =>
        .ofOp (release key)
        .ofOp (Op.fail e)
    remove := fun key => do
      .ofOp (release key)
      pure none
    releaseLock := fun key => do
      release key
      (below d).releaseLock key }

end Blocking

end QueryCache
