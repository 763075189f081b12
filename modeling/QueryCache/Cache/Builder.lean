import QueryCache.Cache.Stack
import QueryCache.Settings

/-!
# Building a cache

A builder collects what a namespace asks for and makes a stack of it.  From the
store outwards the layers are: the eviction policy, custom layers in the order
in which they were added, copies for a read-write cache, statistics, one call
at a time, clearing on schedule, blocking.  A custom store is taken as it is
and gets statistics only.
-/

namespace QueryCache

/-- What a namespace asks of its cache. -/
structure CacheBuilder where
  id : String
  /-- Makes a store in place of the usual one. -/
  implementation : Option (String → Properties → Except Error Stack) := none
  eviction : EvictionPolicy := .standard
  /-- The custom layers, in the order in which they are put on. -/
  decorators : List (Stack → Properties → Except Error Stack) := []
  size : Option Nat := none
  clearInterval : Option Duration := none
  readWrite : Bool := true
  blocking : Bool := false
  blockingTimeout : Option Duration := none
  properties : Properties := []

namespace CacheBuilder

/-- The builder for the settings of a namespace. -/
def ofSettings (id : String) (s : CacheSettings) : CacheBuilder where
  id := id
  eviction := s.eviction
  size := s.size
  clearInterval := s.flushInterval
  readWrite := s.readWrite
  blocking := s.blocking
  blockingTimeout := s.blockingTimeout
  properties := s.properties

/-- Refuses what no cache can honour; of several reasons the first counts. -/
def validate (b : CacheBuilder) : Except ConfigError Unit := do
  if b.id.isEmpty then throw (.missingRequired "id")
  CacheSettings.checkSize b.size
  CacheSettings.checkInterval "clear_interval" b.clearInterval
  CacheSettings.checkTimeout b.blocking b.blockingTimeout
  if b.implementation.isNone ∧ b.eviction = .weak ∧ b.readWrite then
    throw (.incompatibleOptions "eviction = WEAK" "read_write = true")

/-- A list of recently used keys must have room for one; the other policies take any size. -/
def checkEviction (b : CacheBuilder) : Except ConfigError Unit :=
  if b.eviction = .lru then CacheSettings.checkSize b.size else .ok ()

/-- The layer of the eviction policy. -/
def evictionLayer (b : CacheBuilder) : Layer :=
  match b.eviction with
  | .lru => .lru (b.size.getD defaultCapacity)
  | .fifo => .fifo (b.size.getD defaultCapacity)
  | .soft => .reference (.soft defaultRetention) (b.size.getD defaultHardLinks)
  | .weak => .reference .weak (b.size.getD defaultHardLinks)

/-- Puts the custom layers on, one after the other. -/
def decorate (properties : Properties) :
    List (Stack → Properties → Except Error Stack) → Stack → Except Error Stack
  | [], s => .ok s
  | d :: rest, s => do decorate properties rest (← d s properties)

/-- The layers around the custom ones, outermost first. -/
def outerLayers (b : CacheBuilder) : List Layer :=
  (if b.blocking then [.blocking b.blockingTimeout] else []) ++
    (match b.clearInterval with
      | some interval => [.scheduled interval]
      | none => []) ++
    [.synchronized, .statistics] ++
    (if b.readWrite then [.serialized] else [])

/-- The stack that the builder describes. -/
def build (b : CacheBuilder) : Except Error Stack := do
  b.validate.mapError .config
  match b.implementation with
  | some make =>
    let base ← make b.id b.properties
    if base.id ≠ b.id then
      throw (.config (.invalidValue "implementation" base.id ("cache id must be '" ++ b.id ++ "'")))
    pure (base.wrap .statistics)
  | none =>
    b.checkEviction.mapError .config
    let inner ← decorate b.properties b.decorators ⟨b.id, [b.evictionLayer]⟩
    pure { inner with layers := b.outerLayers ++ inner.layers }

/-- How a builder is shown to a developer. -/
def debug (b : CacheBuilder) : String :=
  Text.record "CacheBuilder"
    [("id", Text.quoted b.id),
      ("custom_implementation", Text.boolean b.implementation.isSome),
      ("eviction", b.eviction.debug),
      ("decorators", toString b.decorators.length),
      ("size", Text.optional (b.size.map toString)),
      ("clear_interval", Text.optional (b.clearInterval.map (·.text))),
      ("read_write", Text.boolean b.readWrite),
      ("blocking", Text.boolean b.blocking),
      ("blocking_timeout", Text.optional (b.blockingTimeout.map (·.text))),
      ("properties",
        Text.braced (b.properties.map fun p => (Text.quoted p.1, Text.quoted p.2)))]

end CacheBuilder

end QueryCache
