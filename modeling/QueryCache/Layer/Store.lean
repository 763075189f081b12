import QueryCache.Cache.Basic

/-!
# The store at the bottom of a cache

A map without bound and without any rule for giving up entries.  Two stores
are the same store for their users when they serve the same namespace.
-/

namespace QueryCache

/-- The entries of a store: a value or an absence under each key. -/
abbrev Store := Entries CacheKey (Option Value)

namespace Store

/-- The value under a key; nothing for an absence. -/
def lookup (s : Store) (k : CacheKey) : Option Value := (s.find? k).join

/-- The values in the store. -/
def held (s : Store) : List Value := s.values.filterMap (·)

/-- The store as a cache that serves a namespace. -/
def cache (id : String) : Cache Store where
  id := id
  put k v := .ofOp (Op.modify (·.insert k v))
  get k := .ofOp (Op.update fun s => (s.lookup k, s))
  remove k := .ofOp (Op.update fun s => (s.lookup k, s.erase k))
  clear := .ofOp (Op.modify fun _ => .empty)
  size := .ofOp (Op.update fun s => (s.size, s))
  releaseLock _ := pure ()
  stats _ := none
  held := held

/-- How a store is shown to a developer. -/
def debug (id : String) (s : Store) : String :=
  Text.record "PerpetualCache" [("id", Text.quoted id), ("entries", toString s.size)]

/-- The hash of a store depends on its namespace alone. -/
def hash (id : String) : UInt64 := SipHash.hash (Text.utf8 id ++ [0xFF])

end Store

end QueryCache
