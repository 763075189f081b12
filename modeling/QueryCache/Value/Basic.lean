import QueryCache.Text.Quoted
import QueryCache.Value.Codec

/-!
# Cached values

A cache passes values around without looking inside.  Every value has the
identity of its allocation: a copy of a value is the same allocation, a
restored snapshot is a new one.  A value is a piece of data, which may be
declared serializable, or something that a cache layer stores in place of the
data: a snapshot of their octets, or a handle that refers to another value.
-/

namespace QueryCache

/-- The octets of a serialized value and the type to restore. -/
structure Snapshot where
  type : DataType
  octets : List UInt8
deriving DecidableEq, Repr

/-- A value in a cache, with the identity of its allocation. -/
inductive Value where
  | data (alloc : Nat) (d : Data) (serializable : Bool)
  /-- A stored snapshot. -/
  | snapshot (alloc : Nat) (s : Snapshot)
  /-- A stored reference to another value. -/
  | handle (alloc : Nat) (target : Value)
deriving DecidableEq, Repr

/-- Why a value cannot be saved or restored. -/
inductive SnapshotError where
  | notSerializable (typeName : String)
  | encode (typeName : String) (reason : String)
  | decode (typeName : String)
deriving DecidableEq, Repr

/-- The wording of a snapshot error. -/
def SnapshotError.message : SnapshotError → String
  | .notSerializable t => "type " ++ t ++ " is not declared serializable"
  | .encode t reason => "encoding " ++ t ++ " failed: " ++ reason
  | .decode t => "decoding " ++ t ++ " failed: "

/-- The name of the cause. -/
def SnapshotError.kind : SnapshotError → String
  | .notSerializable .. => "NotSerializable"
  | .encode .. => "Encode"
  | .decode .. => "Decode"

namespace Value

/-- The identity of the allocation. -/
def alloc : Value → Nat
  | .data a _ _ => a
  | .snapshot a _ => a
  | .handle a _ => a

/-- The value may be saved as a snapshot. -/
def isSerializable : Value → Bool
  | .data _ _ s => s
  | _ => false

/-- The name of the value's type. -/
def typeName : Value → String
  | .data _ d _ => d.type.name
  | .snapshot _ _ => "tessera_core::value::Snapshot"
  | .handle _ _ => "tessera_cache::decorators::reference::ReferenceHandle"

/-- The value holds data of the type. -/
def hasType (v : Value) (t : DataType) : Bool :=
  match v with
  | .data _ d _ => d.type == t
  | _ => false

/-- Saves a value as a snapshot. -/
def toSnapshot : Value → Except SnapshotError Snapshot
  | .data _ d true =>
    match d.encode with
    | .ok text => .ok ⟨d.type, Text.utf8 text⟩
    | .error reason => .error (.encode d.type.name reason)
  | v => .error (.notSerializable v.typeName)

/-- How a value is shown to a developer. -/
def debug (v : Value) : String :=
  Text.record "CacheValue"
    [("type_name", Text.quoted v.typeName), ("serializable", Text.boolean v.isSerializable)]

/-- How a non-owning reference to a value is shown to a developer. -/
def weakDebug (v : Value) (reclaimed : Bool) : String :=
  Text.record "WeakCacheValue"
    [("type_name", Text.quoted v.typeName), ("reclaimed", Text.boolean reclaimed)]

end Value

namespace Snapshot

/-- Restores the data of a snapshot; they are serializable again. -/
def restore (s : Snapshot) : Except SnapshotError Data :=
  match Data.decode? s.type s.octets with
  | some d => .ok d
  | none => .error (.decode s.type.name)

/-- How a snapshot is shown to a developer. -/
def debug (s : Snapshot) : String :=
  Text.record "Snapshot"
    [("type_name", Text.quoted s.type.name), ("len", toString s.octets.length)]

end Snapshot

end QueryCache
