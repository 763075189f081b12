import QueryCache.Cache.Basic

/-!
# One call at a time

A gate lets one call in; others wait outside until it has come to its end,
also while it waits for a lock further in.  A layer with a gate around all its
calls makes them one step each for all threads.  Giving locks back and reading
statistics pass the gate by, so a call inside can be helped from outside.
-/

namespace QueryCache

/-- Whether a call is inside. -/
structure Gate where
  isTaken : Bool := false
deriving DecidableEq, Repr

namespace Gate

variable {ε lam σ α : Type}

/-- Runs a call inside the gate of a layer; the call holds `values` while it
waits outside. -/
def pass (gate : lam → Gate) (set : Gate → lam → lam) (values : List Value)
    (m : Await ε (lam × σ) α) : Await ε (lam × σ) α := do
  (Await.waitFor fun s => !(gate s.1).isTaken).holding values
  .ofOp (Op.modifyLayer (set ⟨true⟩))
  let r ← m.result
  .ofOp (Op.modifyLayer (set ⟨false⟩))
  .ofOp (Op.ofExcept r)

/-- The cache below. -/
abbrev below (d : Cache σ) : Cache (Gate × σ) := d.under fun _ => []

/-- Runs a call inside a gate that is a layer of its own. -/
def alone (values : List Value) (m : CacheCall (Gate × σ) α) : CacheCall (Gate × σ) α :=
  pass id (fun g _ => g) values m

/-- The layer around a cache. -/
def around (d : Cache σ) : Cache (Gate × σ) :=
  { below d with
    put := fun key value => alone value.toList ((below d).put key value)
    get := fun key => alone [] ((below d).get key)
    remove := fun key => alone [] ((below d).remove key)
    clear := alone [] (below d).clear
    size := alone [] (below d).size }

end Gate

end QueryCache
