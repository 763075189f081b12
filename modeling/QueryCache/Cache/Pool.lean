import QueryCache.Cache.Stack

/-!
# Caches that share layers

A pool holds stores and layers, each in a place of its own.  A cache of the
pool is a store and the places of the layers around it; two caches may share a
store and the layers next to it.  Two caches are the same when their outermost
places are.
-/

namespace QueryCache

/-- A layer with its state. -/
structure PlacedLayer where
  layer : Layer
  state : layer.State

/-- Stores and layers by place. -/
structure Pool where
  stores : List Store := []
  layers : List PlacedLayer := []

/-- A cache of a pool. -/
structure CacheRef where
  /-- The namespace of the store. -/
  id : String
  /-- The place of the store. -/
  store : Nat
  /-- The layers around it and their places, outermost first. -/
  layers : List (Nat × Layer) := []
deriving DecidableEq, Repr

namespace PlacedLayer

/-- The state of a placed layer, if it is the layer that is asked for. -/
def stateOf (p : PlacedLayer) (l : Layer) : l.State :=
  if h : p.layer = l then h ▸ p.state else l.initial 0

/-- The values that a placed layer holds. -/
def held (p : PlacedLayer) : List Value := p.layer.held p.state

end PlacedLayer

namespace CacheRef

/-- The stack that a cache of a pool makes. -/
def stack (r : CacheRef) : Stack := ⟨r.id, r.layers.map Prod.snd⟩

/-- The two caches have the same outermost place. -/
def isSame (a b : CacheRef) : Bool :=
  a.store == b.store && (a.layers.map Prod.fst).head? == (b.layers.map Prod.fst).head?

end CacheRef

namespace Pool

/-- Sets up a store in a new place. -/
def addStore (p : Pool) (id : String) : CacheRef × Pool :=
  (⟨id, p.stores.length, []⟩, { p with stores := p.stores ++ [.empty] })

/-- Sets up a layer in a new place around a cache. -/
def addLayer (p : Pool) (now : Nat) (l : Layer) (r : CacheRef) : CacheRef × Pool :=
  ({ r with layers := (p.layers.length, l) :: r.layers },
    { p with layers := p.layers ++ [⟨l, l.initial now⟩] })

/-- Sets up layers around a cache, innermost first. -/
def addLayers (p : Pool) (now : Nat) : List Layer → CacheRef → CacheRef × Pool
  | [], r => (r, p)
  | l :: rest, r =>
    let (r, p) := p.addLayer now l r
    p.addLayers now rest r

/-- Sets up a stack in new places. -/
def addStack (p : Pool) (now : Nat) (s : Stack) : CacheRef × Pool :=
  let (r, p) := p.addStore s.id
  p.addLayers now s.layers.reverse r

/-- The store at a place. -/
def storeAt (p : Pool) (i : Nat) : Store := p.stores.getD i .empty

/-- The state of a layer at a place. -/
def layerAt (p : Pool) (i : Nat) (l : Layer) : l.State :=
  match p.layers[i]? with
  | some placed => placed.stateOf l
  | none => l.initial 0

/-- Changes the store at a place. -/
def setStore (p : Pool) (i : Nat) (s : Store) : Pool := { p with stores := p.stores.set i s }

/-- Changes the state of a layer at a place. -/
def setLayer (p : Pool) (i : Nat) (l : Layer) (s : l.State) : Pool :=
  { p with layers := p.layers.set i ⟨l, s⟩ }

/-- The state of the layers of a cache, outermost first, around its store. -/
def read (p : Pool) (store : Nat) :
    (layers : List (Nat × Layer)) → Stack.StateOf (layers.map Prod.snd)
  | [] => p.storeAt store
  | (i, l) :: rest => (p.layerAt i l, p.read store rest)

/-- Changes the state of the layers of a cache and of its store. -/
def write (p : Pool) (store : Nat) :
    (layers : List (Nat × Layer)) → Stack.StateOf (layers.map Prod.snd) → Pool
  | [], s => p.setStore store s
  | (i, l) :: rest, s => (p.write store rest s.2).setLayer i l s.1

/-- The values in all places but those of a cache. -/
def heldOutside (p : Pool) (r : CacheRef) : List Value :=
  let stores := p.stores.zipIdx.filter fun e => e.2 != r.store
  let layers := p.layers.zipIdx.filter fun e => (r.layers.map Prod.fst).all (· != e.2)
  stores.flatMap (·.1.held) ++ layers.flatMap (·.1.held)

/-- The values in all places. -/
def held (p : Pool) : List Value := p.stores.flatMap (·.held) ++ p.layers.flatMap (·.held)

/-- A cache as a part of the pool. -/
def focus (r : CacheRef) : Focus Pool r.stack.State where
  get p := p.read r.store r.layers
  set s p := p.write r.store r.layers s
  held p := p.heldOutside r

/-- The operations of a cache of the pool. -/
def cache (r : CacheRef) : Cache Pool :=
  { r.stack.cache.within (focus r) with held := held }

/-- Changes the capacity of the outermost layer of a cache, if it evicts the
least recently used keys; the keys that are too many leave the cache at once. -/
def setLruCapacity (r : CacheRef) (capacity : Nat) : CacheCall Pool Unit :=
  match r.layers with
  | (i, .lru n) :: rest =>
    (focus { r with layers := (i, .lru n) :: rest }).await
      (Lru.setCapacity (Stack.cacheOf r.id (rest.map Prod.snd)) capacity)
  | _ => pure ()

/-- Changes the capacity of the outermost layer of a cache, if it evicts the
oldest keys. -/
def setFifoCapacity (r : CacheRef) (capacity : Nat) : CacheCall Pool Unit :=
  match r.layers with
  | (i, .fifo n) :: rest =>
    (focus { r with layers := (i, .fifo n) :: rest }).await (Fifo.setCapacity capacity)
  | _ => pure ()

/-- Empties every place that belongs to none of the caches. -/
def retain (p : Pool) (caches : List CacheRef) : Pool :=
  let usesStore := fun i => caches.any (·.store == i)
  let usesLayer := fun i => caches.any fun r => r.layers.any (·.1 == i)
  { stores := p.stores.zipIdx.map fun e => if usesStore e.2 then e.1 else .empty
    layers := p.layers.zipIdx.map fun e =>
      if usesLayer e.2 then e.1 else ⟨e.1.layer, e.1.layer.initial 0⟩ }

end Pool

end QueryCache
