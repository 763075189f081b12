import QueryCache.Cache.Builder
import QueryCache.Cache.Pool

/-!
# The registry of namespaces

Each namespace has one cache, under the cache's own id.  A namespace is bound
once; another namespace may use its cache by looking it up.
-/

namespace QueryCache

/-- The cache of each namespace. -/
structure Registry where
  caches : Entries String CacheRef := .empty

namespace Registry

/-- Binds a cache to its namespace. -/
def add (g : Registry) (r : CacheRef) : Except ConfigError Registry :=
  if g.caches.contains r.id then .error (.duplicateNamespace r.id)
  else .ok ⟨g.caches.insert r.id r⟩

/-- The cache of a namespace. -/
def find? (g : Registry) (ns : String) : Option CacheRef := g.caches.find? ns

/-- The cache of a namespace that must be bound. -/
def resolve (g : Registry) (ns : String) : Except ConfigError CacheRef :=
  match g.find? ns with
  | some r => .ok r
  | none => .error (.unknownNamespace ns)

/-- The namespace is bound. -/
def contains (g : Registry) (ns : String) : Bool := g.caches.contains ns

/-- The bound namespaces in ascending order. -/
def ids (g : Registry) : List String := (g.caches.keys).mergeSort fun a b => decide (a ≤ b)

/-- The number of bound namespaces. -/
def size (g : Registry) : Nat := g.caches.size

/-- Clears the caches in order; stops at the first failure. -/
def clearCaches : List CacheRef → CacheCall Pool Unit
  | [] => pure ()
  | r :: rest => do
    (Pool.cache r).clear
    clearCaches rest

/-- Clears every cache. -/
def clearAll (g : Registry) : CacheCall Pool Unit := clearCaches g.caches.values

/-- How a registry is shown to a developer. -/
def debug (g : Registry) : String :=
  Text.record "CacheRegistry" [("namespaces", Text.bracketed (g.ids.map Text.quoted))]

/-! ## A registry beside the pool of its caches -/

/-- Binds a cache to its namespace, in the registry beside a pool. -/
def enter (r : CacheRef) : Op ConfigError (Registry × Pool) Unit := do
  let g ← Op.layer
  let bound ← Op.ofExcept (g.add r)
  Op.modifyLayer fun _ => bound

/-- Sets up a stack in the pool beside a registry. -/
def setUp (stack : Stack) : Op Error (Registry × Pool) CacheRef := do
  let env ← Op.environment
  Op.update fun s =>
    let (r, p) := s.2.addStack env.now stack
    (r, (s.1, p))

/-- Builds the cache of a namespace from its settings and binds it.  If the
namespace is bound already, the new cache is left in the pool, where nobody
refers to it. -/
def build (ns : String) (settings : CacheSettings) : Op Error (Registry × Pool) CacheRef := do
  Op.ofExcept (settings.validate.mapError .config)
  let stack ← Op.ofExcept (CacheBuilder.ofSettings ns settings).build
  let r ← setUp stack
  (enter r).mapError .config
  pure r

end Registry

end QueryCache
