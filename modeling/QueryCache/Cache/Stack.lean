import QueryCache.Layer.Blocking
import QueryCache.Layer.Fifo
import QueryCache.Layer.Gate
import QueryCache.Layer.Lru
import QueryCache.Layer.Probe
import QueryCache.Layer.Reference
import QueryCache.Layer.Scheduled
import QueryCache.Layer.Serialized
import QueryCache.Layer.Statistics
import QueryCache.Layer.Store

/-!
# Stacks of layers

A stack is a store with layers around it.  Its description says which layers
there are and how each is set up; its state is the state of each layer beside
that of what lies below, down to the store.
-/

namespace QueryCache

/-! ## Layers -/

/-- A layer and its setup. -/
inductive Layer where
  | fifo (capacity : Nat)
  | lru (capacity : Nat)
  | reference (reachability : Reachability) (hardLinks : Nat)
  | serialized
  | statistics
  /-- Lets one call in at a time. -/
  | synchronized
  | scheduled (interval : Duration)
  | blocking (timeout : Option Duration)
  | probe (name : String) (refusals : Refusals)
deriving DecidableEq, Repr

namespace Layer

/-- The state of a layer. -/
def State : Layer → Type
  | fifo _ => Fifo
  | lru _ => Recency
  | reference _ _ => References
  | serialized => Unit
  | statistics => ReadCounts
  | synchronized => Gate
  | scheduled _ => LastClear
  | blocking _ => KeyLocks
  | probe _ _ => Refusals

/-- The state of a layer that is set up at the time `now`. -/
def initial (now : Nat) : (l : Layer) → l.State
  | fifo capacity => ({ capacity } : Fifo)
  | lru capacity => ({ capacity } : Recency)
  | reference _ hardLinks => ({ ringCapacity := hardLinks } : References)
  | serialized => ()
  | statistics => ({} : ReadCounts)
  | synchronized => ({} : Gate)
  | scheduled _ => ({ time := now } : LastClear)
  | blocking _ => (.empty : KeyLocks)
  | probe _ refusals => refusals

/-- The values that a layer holds itself. -/
def held : (l : Layer) → l.State → List Value
  | reference _ _, (s : References) => s.held
  | _, _ => []

/-- The cache with the layer around it. -/
def around {σ : Type} (d : Cache σ) : (l : Layer) → Cache (l.State × σ)
  | fifo _ => Fifo.around d
  | lru _ => Lru.around d
  | reference reachability _ => Reference.around reachability d
  | serialized => (Serialized.around d).under fun _ : Unit => []
  | statistics => ReadCounts.around d
  | synchronized => Gate.around d
  | scheduled interval => Scheduled.around interval d
  | blocking timeout => Blocking.around timeout d
  | probe name _ => Probe.around name d

end Layer

/-! ## Stacks -/

/-- A store and the layers around it. -/
structure Stack where
  /-- The namespace that the store serves. -/
  id : String
  /-- The layers, outermost first. -/
  layers : List Layer := []
deriving DecidableEq, Repr

namespace Stack

/-- The state of layers around a store. -/
def StateOf : List Layer → Type
  | [] => Store
  | l :: rest => l.State × StateOf rest

/-- The state of a stack. -/
abbrev State (s : Stack) : Type := StateOf s.layers

/-- The state of layers that are set up at the time `now` around an empty store. -/
def initialOf (now : Nat) : (layers : List Layer) → StateOf layers
  | [] => (Entries.empty : Store)
  | l :: rest => (l.initial now, initialOf now rest)

/-- The state of a stack that is set up at the time `now`. -/
def initial (s : Stack) (now : Nat) : s.State := initialOf now s.layers

/-- The cache that layers make of a store. -/
def cacheOf (id : String) : (layers : List Layer) → Cache (StateOf layers)
  | [] => Store.cache id
  | l :: rest => l.around (cacheOf id rest)

/-- The stack as a cache. -/
def cache (s : Stack) : Cache s.State := cacheOf s.id s.layers

/-- The stack with one more layer around it. -/
def wrap (s : Stack) (l : Layer) : Stack := { s with layers := l :: s.layers }

end Stack

end QueryCache
