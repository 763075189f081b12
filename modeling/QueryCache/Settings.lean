import QueryCache.Entries
import QueryCache.Error

/-!
# Settings of a cache namespace

What a namespace asks of its cache: which entries to evict and how many to
keep, whether readers share one value or get copies, whether a missing entry
blocks other readers, how often everything is dropped.  `validate` refuses
settings that no cache can honour.
-/

namespace QueryCache

/-! ## Eviction -/

/-- Which entries a full cache gives up. -/
inductive EvictionPolicy where
  /-- The least recently used one. -/
  | lru
  /-- The one put first. -/
  | fifo
  /-- Those that went unread for long and that nobody holds. -/
  | soft
  /-- Those that nobody holds. -/
  | weak
deriving DecidableEq, Repr

namespace EvictionPolicy

/-- The policy of a namespace that states none. -/
def standard : EvictionPolicy := .lru

/-- The name of a policy in settings. -/
def name : EvictionPolicy → String
  | .lru => "LRU"
  | .fifo => "FIFO"
  | .soft => "SOFT"
  | .weak => "WEAK"

/-- The name of a policy as shown to a developer. -/
def debug : EvictionPolicy → String
  | .lru => "Lru"
  | .fifo => "Fifo"
  | .soft => "Soft"
  | .weak => "Weak"

/-- All policies. -/
def all : List EvictionPolicy := [.lru, .fifo, .soft, .weak]

/-- The policy of exactly this name. -/
def ofName? (s : String) : Option EvictionPolicy := all.find? (·.name == s)

/-- The policy of a name in any mixture of ASCII cases. -/
def parse (s : String) : Except ConfigError EvictionPolicy :=
  match ofName? (s.map Char.toUpper) with
  | some p => .ok p
  | none => .error (.unknownEviction s)

end EvictionPolicy

/-! ## Settings -/

/-- Properties for custom parts of a cache, in ascending order of name. -/
abbrev Properties := List (String × String)

/-- The settings of a namespace. -/
structure CacheSettings where
  eviction : EvictionPolicy := .standard
  /-- The capacity of the eviction policy. -/
  size : Option Nat := none
  /-- Everything is dropped this long after the last time. -/
  flushInterval : Option Duration := none
  /-- All readers share the stored value. -/
  readOnly : Bool := false
  /-- A missing entry blocks other readers of the key. -/
  blocking : Bool := false
  /-- How long a reader waits for a blocked key. -/
  blockingTimeout : Option Duration := none
  properties : Properties := []
deriving DecidableEq, Repr

namespace CacheSettings

/-- Readers get copies of the stored value. -/
def readWrite (s : CacheSettings) : Bool := !s.readOnly

/-- The size is missing or positive. -/
def checkSize : Option Nat → Except ConfigError Unit
  | some 0 => .error (.invalidValue "size" "0" "must be greater than zero")
  | _ => .ok ()

/-- The interval is missing or positive; `field` is its name in the message. -/
def checkInterval (field : String) : Option Duration → Except ConfigError Unit
  | some d =>
    if d.isZero then .error (.invalidValue field "0s" "must be greater than zero") else .ok ()
  | none => .ok ()

/-- A timeout goes with blocking only. -/
def checkTimeout (blocking : Bool) (timeout : Option Duration) : Except ConfigError Unit :=
  if timeout.isSome && !blocking then
    .error (.incompatibleOptions "blocking_timeout" "blocking = false")
  else .ok ()

/-- Refuses settings that no cache can honour; of several reasons the first
counts.  A copy has no owner outside the cache, so a weak cache of copies
would lose every entry at once. -/
def validate (s : CacheSettings) : Except ConfigError Unit := do
  checkSize s.size
  checkInterval "flush_interval" s.flushInterval
  checkTimeout s.blocking s.blockingTimeout
  if s.eviction = .weak ∧ s.readWrite then
    throw (.incompatibleOptions "eviction = WEAK" "read_only = false")

end CacheSettings

end QueryCache
