import QueryCache.Json.Value
import QueryCache.Key.Component

/-!
# Key components and JSON

Two ways lead from JSON to a component.  A JSON parameter becomes the component
that stands for it: objects are kept as their compact text, whose members are
in order of name.  A component in its own JSON form names its kind: `"Null"`
alone, every other kind as the single member of an object.
-/

namespace QueryCache.KeyComponent

/-! ## JSON parameters -/

mutual

/-- The component that stands for a JSON value. -/
def ofJson : Json → KeyComponent
  | .null => .null
  | .bool b => .bool b
  | .number (.int i) => .int i
  | .number (.uint u) => .uint u
  | .number (.float x) => .float x
  | .string s => .text s
  | .array items => .list (ofJsonItems items)
  | .object members => .text (Json.object members).render

/-- The components that stand for the items of an array. -/
def ofJsonItems : List Json → List KeyComponent
  | [] => []
  | item :: rest => ofJson item :: ofJsonItems rest

end

/-! ## The JSON form of a component -/

mutual

/-- A component as a JSON value; a float is given by its bits. -/
def toJsonText : KeyComponent → String
  | .null => "\"Null\""
  | .bool b => "\x7b\"Bool\":" ++ Text.boolean b ++ "\x7d"
  | .int i => "\x7b\"Int\":" ++ toString i ++ "\x7d"
  | .uint u => "\x7b\"UInt\":" ++ toString u ++ "\x7d"
  | .float x => "\x7b\"Float\":" ++ toString x.bits ++ "\x7d"
  | .text s => "\x7b\"Text\":" ++ Json.quote s ++ "\x7d"
  | .bytes b => "\x7b\"Bytes\":[" ++ ",".intercalate (b.map toString) ++ "]\x7d"
  | .list items => "\x7b\"List\":[" ++ ",".intercalate (itemTexts items) ++ "]\x7d"

/-- The JSON texts of the items of a list. -/
def itemTexts : List KeyComponent → List String
  | [] => []
  | c :: rest => c.toJsonText :: itemTexts rest

end

end QueryCache.KeyComponent

namespace QueryCache.Json.Syntax

/-! ## Reading plain types -/

/-- The boolean that a tree stands for. -/
def bool? : Syntax → Option Bool
  | .bool b => some b
  | _ => none

/-- The integer that a tree stands for: no literal with a point, an exponent or
a negative zero is one. -/
def integer? : Syntax → Option Int
  | .number n =>
    match n.value? with
    | some (.int i) => some i.toInt
    | some (.uint u) => some u.toNat
    | _ => none
  | _ => none

/-- The integer of a tree, between two bounds. -/
def integerIn? (low high : Int) (tree : Syntax) : Option Int := do
  let i ← tree.integer?
  if low ≤ i ∧ i ≤ high then some i else none

/-- A signed 64-bit integer. -/
def int64? (tree : Syntax) : Option Int64 :=
  (tree.integerIn? Int64.minValue.toInt Int64.maxValue.toInt).map Int64.ofInt

/-- An unsigned 64-bit integer. -/
def uint64? (tree : Syntax) : Option UInt64 :=
  (tree.integerIn? 0 (UInt64.size - 1)).map fun i => UInt64.ofNat i.toNat

/-- An octet. -/
def uint8? (tree : Syntax) : Option UInt8 :=
  (tree.integerIn? 0 255).map fun i => UInt8.ofNat i.toNat

/-- The string that a tree stands for. -/
def string? : Syntax → Option String
  | .string raw => text? raw
  | _ => none

/-- The items of an array that may stand `depth` levels deep. -/
def items? : Nat → Syntax → Option (List Syntax)
  | _ + 1, .array items => some items
  | _, _ => none

/-- A list of octets. -/
def octets? (depth : Nat) (tree : Syntax) : Option (List UInt8) := do
  (← tree.items? depth).mapM uint8?

end QueryCache.Json.Syntax

namespace QueryCache.KeyComponent

open Json (Syntax)

mutual

/-- Reads the JSON form of a component, nested at most `depth` deep. -/
def ofSyntax? : Nat → Syntax → Option KeyComponent
  | _, .string raw => do
    if (← Json.text? raw) = "Null" then some .null else none
  | depth + 1, .object [(raw, tree)] => do
    match ← Json.text? raw with
    | "Null" => match tree with
      | .null => some .null
      | _ => none
    | "Bool" => tree.bool?.map .bool
    | "Int" => tree.int64?.map .int
    | "UInt" => tree.uint64?.map .uint
    | "Float" => tree.uint64?.map fun bits => .float ⟨bits⟩
    | "Text" => tree.string?.map .text
    | "Bytes" => (tree.octets? depth).map .bytes
    | "List" =>
      match depth, tree with
      | depth + 1, .array items => (ofSyntaxItems? depth items).map .list
      | _, _ => none
    | _ => none
  | _, _ => none

/-- Reads the items of a list. -/
def ofSyntaxItems? : Nat → List Syntax → Option (List KeyComponent)
  | _, [] => some []
  | depth, tree :: rest => do
    let c ← ofSyntax? depth tree
    let cs ← ofSyntaxItems? depth rest
    pure (c :: cs)

end

/-- Reads a component from a text that holds its JSON form. -/
def parse? (text : String) : Option KeyComponent := do
  ofSyntax? Json.maxDepth (← Syntax.read (Text.utf8 text))

end QueryCache.KeyComponent
