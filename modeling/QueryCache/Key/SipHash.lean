/-!
# SipHash-1-3

The keyed hash with one round per block and three final rounds, here under the
all-zero key.  Blocks are eight octets, little-endian; the last block holds the
octets left over and, in its top octet, the length of the input modulo 256.
-/

namespace QueryCache.SipHash

/-- The four words of the running state. -/
structure State where
  v0 : UInt64
  v1 : UInt64
  v2 : UInt64
  v3 : UInt64
deriving DecidableEq, Repr

/-- The state before any input, under the all-zero key. -/
def initial : State :=
  ⟨0x736f6d6570736575, 0x646f72616e646f6d, 0x6c7967656e657261, 0x7465646279746573⟩

/-- Rotation to the left. -/
def rotl (x : UInt64) (n : UInt64) : UInt64 := (x <<< n) ||| (x >>> (64 - n))

/-- One round of additions, rotations and exclusive ors. -/
def State.round (s : State) : State :=
  let v0 := s.v0 + s.v1
  let v1 := rotl s.v1 13 ^^^ v0
  let v0 := rotl v0 32
  let v2 := s.v2 + s.v3
  let v3 := rotl s.v3 16 ^^^ v2
  let v0 := v0 + v3
  let v3 := rotl v3 21 ^^^ v0
  let v2 := v2 + v1
  let v1 := rotl v1 17 ^^^ v2
  let v2 := rotl v2 32
  ⟨v0, v1, v2, v3⟩

/-- Takes in one block. -/
def State.absorb (s : State) (block : UInt64) : State :=
  let s := { s with v3 := s.v3 ^^^ block }.round
  { s with v0 := s.v0 ^^^ block }

/-- The three final rounds and the combination of the words. -/
def State.finish (s : State) : UInt64 :=
  let s := { s with v2 := s.v2 ^^^ 0xff }.round.round.round
  s.v0 ^^^ s.v1 ^^^ s.v2 ^^^ s.v3

/-- The number that the octets spell, least significant octet first. -/
def word : List UInt8 → UInt64
  | [] => 0
  | b :: rest => b.toUInt64 ||| (word rest <<< 8)

/-- Takes in the octets; `length` is the length of the whole input. -/
def State.absorbAll (length : Nat) : State → List UInt8 → State
  | s, b0 :: b1 :: b2 :: b3 :: b4 :: b5 :: b6 :: b7 :: rest =>
    absorbAll length (s.absorb (word [b0, b1, b2, b3, b4, b5, b6, b7])) rest
  -- Fewer than eight octets are left, so the top octet is free for the length.
  | s, rest => s.absorb (word rest ||| (UInt64.ofNat length <<< 56))

/-- The hash of the octets under the all-zero key. -/
def hash (input : List UInt8) : UInt64 :=
  (State.absorbAll input.length initial input).finish

end QueryCache.SipHash

namespace QueryCache

/-- The eight octets of a word, least significant first. -/
def octets64 (x : UInt64) : List UInt8 :=
  (List.range 8).map fun i => (x >>> UInt64.ofNat (8 * i)).toUInt8

end QueryCache
