import QueryCache.Decimal.Layout
import QueryCache.Key.SipHash
import QueryCache.Text.Quoted
import QueryCache.Text.Utf8

/-!
# Key components

A cache key is folded from components.  A component is compared by its kind
and content: the integer `5` and the unsigned `5` differ, floats are compared
by their bits, lists item by item.  Its hash is the hash of an octet string
that starts with the index of the kind; the null component hashes to one.
-/

namespace QueryCache

/-- A single value folded into a cache key. -/
inductive KeyComponent where
  | null
  | bool (b : Bool)
  | int (i : Int64)
  | uint (u : UInt64)
  | float (x : Binary64)
  | text (s : String)
  | bytes (b : List UInt8)
  | list (items : List KeyComponent)
deriving Repr

namespace KeyComponent

/-! ## Equality -/

mutual

/-- Equality of components is decidable. -/
protected def decEq : (a b : KeyComponent) → Decidable (a = b)
  | .null, .null => isTrue rfl
  | .bool a, .bool b => decidable_of_iff (a = b) (by simp)
  | .int a, .int b => decidable_of_iff (a = b) (by simp)
  | .uint a, .uint b => decidable_of_iff (a = b) (by simp)
  | .float a, .float b => decidable_of_iff (a = b) (by simp)
  | .text a, .text b => decidable_of_iff (a = b) (by simp)
  | .bytes a, .bytes b => decidable_of_iff (a = b) (by simp)
  | .list a, .list b =>
    match KeyComponent.decEqList a b with
    | isTrue h => isTrue (by rw [h])
    | isFalse h => isFalse (fun e => h (by injection e))
  | .null, .bool _ | .null, .int _ | .null, .uint _ | .null, .float _ | .null, .text _
  | .null, .bytes _ | .null, .list _ => isFalse (by simp)
  | .bool _, .null | .bool _, .int _ | .bool _, .uint _ | .bool _, .float _ | .bool _, .text _
  | .bool _, .bytes _ | .bool _, .list _ => isFalse (by simp)
  | .int _, .null | .int _, .bool _ | .int _, .uint _ | .int _, .float _ | .int _, .text _
  | .int _, .bytes _ | .int _, .list _ => isFalse (by simp)
  | .uint _, .null | .uint _, .bool _ | .uint _, .int _ | .uint _, .float _ | .uint _, .text _
  | .uint _, .bytes _ | .uint _, .list _ => isFalse (by simp)
  | .float _, .null | .float _, .bool _ | .float _, .int _ | .float _, .uint _ | .float _, .text _
  | .float _, .bytes _ | .float _, .list _ => isFalse (by simp)
  | .text _, .null | .text _, .bool _ | .text _, .int _ | .text _, .uint _ | .text _, .float _
  | .text _, .bytes _ | .text _, .list _ => isFalse (by simp)
  | .bytes _, .null | .bytes _, .bool _ | .bytes _, .int _ | .bytes _, .uint _ | .bytes _, .float _
  | .bytes _, .text _ | .bytes _, .list _ => isFalse (by simp)
  | .list _, .null | .list _, .bool _ | .list _, .int _ | .list _, .uint _ | .list _, .float _
  | .list _, .text _ | .list _, .bytes _ => isFalse (by simp)

/-- Equality of lists of components is decidable. -/
protected def decEqList : (a b : List KeyComponent) → Decidable (a = b)
  | [], [] => isTrue rfl
  | [], _ :: _ | _ :: _, [] => isFalse (by simp)
  | a :: as, b :: bs =>
    match KeyComponent.decEq a b, KeyComponent.decEqList as bs with
    | isTrue h, isTrue hs => isTrue (by rw [h, hs])
    | isFalse h, _ => isFalse (fun e => h (by injection e))
    | _, isFalse hs => isFalse (fun e => hs (by injection e))

end

instance : DecidableEq KeyComponent := KeyComponent.decEq

/-- The null component. -/
def isNull : KeyComponent → Bool
  | .null => true
  | _ => false

/-! ## Hash -/

mutual

/-- The octets that are hashed: the number of the kind, in the order of the
constructors, then the content.  Text ends with an octet that UTF-8 never uses;
bytes and lists start with a length. -/
def octets : KeyComponent → List UInt8
  | .null => octets64 0
  | .bool b => octets64 1 ++ [if b then 1 else 0]
  | .int i => octets64 2 ++ octets64 i.toUInt64
  | .uint u => octets64 3 ++ octets64 u
  | .float x => octets64 4 ++ octets64 x.bits
  | .text s => octets64 5 ++ Text.utf8 s ++ [0xFF]
  | .bytes b => octets64 6 ++ octets64 (UInt64.ofNat b.length) ++ b
  | .list items => octets64 7 ++ octets64 (UInt64.ofNat items.length) ++ octetsOfList items

/-- The octets of the items, one after the other. -/
def octetsOfList : List KeyComponent → List UInt8
  | [] => []
  | c :: rest => c.octets ++ octetsOfList rest

end

/-- The contribution of a component to the hash of a key. -/
def baseHash (c : KeyComponent) : UInt64 :=
  if c.isNull then 1 else SipHash.hash c.octets

/-! ## Text -/

mutual

/-- How a component is shown. -/
def display : KeyComponent → String
  | .null => "null"
  | .bool b => Text.boolean b
  | .int i => toString i
  | .uint u => toString u
  | .float x => Layout.display.render x
  | .text s => s
  | .bytes b => Text.bracketed (b.map toString)
  | .list items => Text.bracketed (displayItems items)

/-- How the items of a list are shown. -/
def displayItems : List KeyComponent → List String
  | [] => []
  | c :: rest => c.display :: displayItems rest

end

end KeyComponent

end QueryCache
