import QueryCache.Key.Basic
import QueryCache.Value.Basic

/-!
# What surrounds a cache

A call on a cache runs in a *world*: the state of the cache together with an
*environment* that it shares with everything else.  The environment has the
clock, the supply of allocations, the state of the reference handles, and the
record of observed calls.

1. reference handles and what a value keeps alive
2. the environment
3. callers: the thread that makes a call, and who else holds values
4. worlds, and the part of a larger state that a call runs on
-/

namespace QueryCache

/-! ## Handles and liveness -/

/-- Whether a reference handle holds its target, and the generation of its
last use, counted without bound. -/
structure HandleState where
  strong : Bool
  touched : Nat
deriving DecidableEq, Repr

/-- The values that stay alive with a value: itself, and the target of a
handle that holds its target. -/
def Value.reach (handles : Nat → HandleState) : Value → List Value
  | .handle a target =>
    .handle a target :: (if (handles a).strong then target.reach handles else [])
  | v => [v]

/-! ## The environment -/

/-- A call that an observing layer saw. -/
inductive ObservedCall where
  | put (key : CacheKey) (stored : Bool)
  | get (key : CacheKey)
  | remove (key : CacheKey)
  | clear
  | size
  | releaseLock (key : CacheKey)
deriving DecidableEq, Repr

/-- What all caches share. -/
structure Environment where
  /-- The time in nanoseconds. -/
  now : Nat := 0
  /-- The identity of the next allocation. -/
  nextAlloc : Nat := 0
  /-- The state of each reference handle, by allocation. -/
  handles : Nat → HandleState := fun _ => ⟨false, 0⟩
  /-- The calls seen by observing layers, by the name of the layer, latest first. -/
  observed : List (String × ObservedCall) := []

namespace Environment

/-- A reading of the clock takes this long, so no two readings agree. -/
def readingTime : Nat := 100

/-- Sets the state of a handle. -/
def setHandle (e : Environment) (alloc : Nat) (s : HandleState) : Environment :=
  { e with handles := fun a => if a = alloc then s else e.handles a }

/-- One of the owners keeps the value alive. -/
def isAlive (e : Environment) (owners : List Value) (v : Value) : Bool :=
  owners.any fun o => (o.reach e.handles).any (·.alloc == v.alloc)

/-- The number of owners of a value: the places that hold it, and the living
handles that hold it as their target. -/
def ownerCount (e : Environment) (owners : List Value) (v : Value) : Nat :=
  let places := owners.filter (·.alloc == v.alloc)
  let holders := (owners.flatMap (·.reach e.handles)).filterMap fun
    | .handle a target => if (e.handles a).strong && target.alloc == v.alloc then some a else none
    | _ => none
  places.length + holders.eraseDups.length

end Environment

/-! ## Callers -/

/-- The name of a thread. -/
abbrev Thread := String

/-- Who makes a call, and the values held outside the state that it runs on.  A
value that is passed to a call is handed on to the layer that keeps it; the
caller holds it only if it has it elsewhere too. -/
structure Caller where
  thread : Thread
  owners : List Value := []

/-- The caller, which holds more values. -/
def Caller.holding (values : List Value) (c : Caller) : Caller :=
  { c with owners := c.owners ++ values }

/-! ## Worlds -/

/-- The environment and the state that a call runs on. -/
structure World (σ : Type) where
  env : Environment
  state : σ

/-- A part `σ` of a larger state `τ`. -/
structure Focus (τ σ : Type) where
  get : τ → σ
  set : σ → τ → τ
  /-- The values that the rest of the larger state holds. -/
  held : τ → List Value

namespace Focus

variable {τ σ : Type}

/-- The world of the part. -/
def narrow (f : Focus τ σ) (w : World τ) : World σ := ⟨w.env, f.get w.state⟩

/-- Puts the world of the part back into the larger state. -/
def widen (f : Focus τ σ) (outer : τ) (w : World σ) : World τ := ⟨w.env, f.set w.state outer⟩

/-- The caller as the part sees it: the rest of the larger state holds values too. -/
def caller (f : Focus τ σ) (outer : τ) (c : Caller) : Caller :=
  { c with owners := c.owners ++ f.held outer }

/-- The second component of a pair, where `held` gives the values that the
first one holds. -/
def second {lam : Type} (held : lam → List Value) : Focus (lam × σ) σ where
  get s := s.2
  set s t := (t.1, s)
  held t := held t.1

/-- A part of a part. -/
def comp {ρ : Type} (g : Focus ρ τ) (f : Focus τ σ) : Focus ρ σ where
  get s := f.get (g.get s)
  set s t := g.set (f.set s (g.get t)) t
  held t := g.held t ++ f.held (g.get t)

end Focus

end QueryCache
