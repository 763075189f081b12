import QueryCache.Layer.Gate

/-!
# Clearing on schedule

A put, a read, a removal or a count that comes more than the interval after
the last clear first clears the cache below.  A read that does so finds
nothing.  The time of the clear is noted before the cache below is cleared, and
while it is cleared other calls wait.
-/

namespace QueryCache

/-- The interval when nothing else is said: an hour. -/
def defaultClearInterval : Duration := .ofSeconds 3600

/-- The time of the last clear, and the gate of the clear that is going on. -/
structure LastClear where
  time : Nat
  gate : Gate := {}
deriving DecidableEq, Repr

namespace LastClear

/-- Notes the time of a clear. -/
def note (now : Nat) (s : LastClear) : LastClear := { s with time := now }

/-- Sets the gate. -/
def setGate (gate : Gate) (s : LastClear) : LastClear := { s with gate }

end LastClear

namespace Scheduled

variable {σ : Type}

/-- The cache below. -/
abbrev below (d : Cache σ) : Cache (LastClear × σ) := d.under fun _ => []

/-- The clear is due. -/
def isDue (interval : Duration) (now : Nat) (s : LastClear) : Bool := interval.nanos < now - s.time

/-- Clears the cache below if that is due; tells whether it was.  No other call
looks at the time until the clear has come to its end.  `values` are held
meanwhile. -/
def clearWhenDue (interval : Duration) (d : Cache σ) (values : List Value) :
    CacheCall (LastClear × σ) Bool :=
  .holding values <| Gate.pass LastClear.gate LastClear.setGate [] do
    let now ← .ofOp Op.clock
    if isDue interval now (← .ofOp Op.layer) then
      .ofOp (Op.modifyLayer (LastClear.note now))
      (below d).clear
      pure true
    else pure false

/-- The layer around a cache. -/
def around (interval : Duration) (d : Cache σ) : Cache (LastClear × σ) :=
  { below d with
    put := fun key value => do
      let _ ← clearWhenDue interval d value.toList
      (below d).put key value
    get := fun key => do
      if ← clearWhenDue interval d [] then pure none
      else (below d).get key
    remove := fun key => do
      let _ ← clearWhenDue interval d []
      (below d).remove key
    clear := do
      -- The time is read before the gate, so a clear that had to wait notes an earlier one.
      let now ← .ofOp Op.clock
      Gate.pass LastClear.gate LastClear.setGate [] <|
        .ofOp (Op.modifyLayer (LastClear.note now))
      (below d).clear
    size := do
      let _ ← clearWhenDue interval d []
      (below d).size }

end Scheduled

end QueryCache
