import QueryCache.Key.Component

/-!
# Cache keys

A key is folded component by component and then frozen.  The fold keeps a
running hash, in which the `i`-th component counts `i` times, and a running
sum of the component hashes, the checksum.  A frozen key can be extended only
by starting a new builder from a copy of it.

The null key stands for "no key": it equals itself alone and cannot be extended.
-/

namespace QueryCache

/-- A key under construction. -/
structure KeyBuilder where
  hashcode : UInt64
  checksum : UInt64
  /-- The folded components, first one first. -/
  components : List KeyComponent
deriving DecidableEq, Repr

namespace KeyBuilder

/-- The hash of no components. -/
def seed : UInt64 := 17

/-- The weight of a component against the one after it. -/
def multiplier : UInt64 := 37

/-- The builder without components. -/
def empty : KeyBuilder := ⟨seed, 0, []⟩

/-- Folds one component. -/
def update (b : KeyBuilder) (c : KeyComponent) : KeyBuilder :=
  let components := b.components ++ [c]
  { components
    checksum := b.checksum + c.baseHash
    hashcode := multiplier * b.hashcode + c.baseHash * UInt64.ofNat components.length }

/-- Folds the components in order. -/
def updateAll (b : KeyBuilder) (cs : List KeyComponent) : KeyBuilder := cs.foldl update b

/-- The number of folded components. -/
def count (b : KeyBuilder) : Nat := b.components.length

end KeyBuilder

/-- A frozen key. -/
inductive CacheKey where
  /-- The key of "no key". -/
  | null
  | folded (content : KeyBuilder)
deriving DecidableEq, Repr

/-- Freezes a builder. -/
def KeyBuilder.build (b : KeyBuilder) : CacheKey := .folded b

namespace CacheKey

/-- The key folded from the components in order. -/
def ofComponents (cs : List KeyComponent) : CacheKey := (KeyBuilder.empty.updateAll cs).build

/-- The key of a single text component. -/
def ofText (s : String) : CacheKey := ofComponents [.text s]

/-- The null key. -/
def isNull : CacheKey → Bool
  | .null => true
  | .folded _ => false

/-- The fold behind a key; the null key has none of its own. -/
def content : CacheKey → KeyBuilder
  | .null => .empty
  | .folded b => b

/-- The components of a key. -/
def components (k : CacheKey) : List KeyComponent := k.content.components

/-- The number of components. -/
def count (k : CacheKey) : Nat := k.content.count

/-- A builder that starts from a copy of the key; the null key has none. -/
def toBuilder? : CacheKey → Option KeyBuilder
  | .null => none
  | .folded b => some b

/-- The octets by which a key is hashed: the running hash, then whether it is
the null key. -/
def hashOctets (k : CacheKey) : List UInt8 :=
  octets64 k.content.hashcode ++ [if k.isNull then 1 else 0]

/-- The hash of a key. -/
def hash (k : CacheKey) : UInt64 := SipHash.hash k.hashOctets

/-- How a key is shown: hash, checksum and components, between colons. -/
def display : CacheKey → String
  | .null => "null-key"
  | .folded b =>
    ":".intercalate (toString b.hashcode :: toString b.checksum :: b.components.map (·.display))

/-- How a key is shown to a developer. -/
def debug (k : CacheKey) : String := "CacheKey(" ++ k.display ++ ")"

end CacheKey

end QueryCache
