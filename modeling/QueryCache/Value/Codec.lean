import QueryCache.Key.Codec
import QueryCache.Value.Data

/-!
# Data as JSON octets

Data are written as compact JSON.  Reading asks for the given type: an integer
type refuses a float literal and a number out of range, a float takes any
number, a row is an object with exactly one `id` and one `name` among members
of other names, or an array of the two.  Two kinds of data do not come back: a
float that is not finite is written as `null`, and a map keyed by pairs can be
written only while it is empty, since JSON names are strings.
-/

namespace QueryCache

namespace Data

/-! ## Writing -/

/-- A row as a JSON object. -/
def rowText (r : Row) : String :=
  "\x7b\"id\":" ++ toString r.id ++ ",\"name\":" ++ Json.quote r.name ++ "\x7d"

/-- A JSON array of texts. -/
def arrayText (items : List String) : String := "[" ++ ",".intercalate items ++ "]"

/-- The JSON text of data; an error gives the reason why there is none. -/
def encode : Data → Except String String
  | .string s => .ok (Json.quote s)
  | .i64 i => .ok (toString i)
  | .u64 u => .ok (toString u)
  | .f64 x => .ok (Number.float x).render
  | .bool b => .ok (Text.boolean b)
  | .optI64 none => .ok "null"
  | .optI64 (some i) => .ok (toString i)
  | .bytes b => .ok (arrayText (b.map toString))
  | .row r => .ok (rowText r)
  | .rows rs => .ok (arrayText (rs.map rowText))
  | .pairMap [] => .ok "\x7b\x7d"
  | .pairMap (_ :: _) => .error "key must be a string"

end Data

/-! ## Reading -/

namespace Json.Syntax

/-- The float that a tree stands for; an integer is converted. -/
def float? : Syntax → Option Binary64
  | .number n => n.value?.map fun
    | .int i => .ofFloat i.toFloat
    | .uint u => .ofFloat u.toFloat
    | .float x => x
  | _ => none

/-- Collects the fields of a row; a field that occurs twice is refused. -/
def rowMembers? : List (List UInt8 × Syntax) → Option Int64 → Option String → Option Row
  | [], id, name => do pure ⟨← id, ← name⟩
  | (raw, tree) :: rest, id, name => do
    match ← text? raw with
    | "id" => if id.isSome then none else rowMembers? rest (some (← tree.int64?)) name
    | "name" => if name.isSome then none else rowMembers? rest id (some (← tree.string?))
    | _ => rowMembers? rest id name

/-- The row that a tree stands for. -/
def row? : Nat → Syntax → Option Row
  | _ + 1, .array [id, name] => do pure ⟨← id.int64?, ← name.string?⟩
  | _ + 1, .object members => rowMembers? members none none
  | _, _ => none

/-- The data of a type that a tree stands for. -/
def data? (type : DataType) (tree : Syntax) : Option Data :=
  match type with
  | .string => tree.string?.map .string
  | .i64 => tree.int64?.map .i64
  | .u64 => tree.uint64?.map .u64
  | .f64 => tree.float?.map .f64
  | .bool => tree.bool?.map .bool
  | .optI64 =>
    match tree with
    | .null => some (.optI64 none)
    | tree => tree.int64?.map fun i => .optI64 (some i)
  | .bytes => (tree.octets? maxDepth).map .bytes
  | .row => (tree.row? maxDepth).map .row
  | .rows => do
    let items ← tree.items? maxDepth
    pure (.rows (← items.mapM (row? (maxDepth - 1))))
  | .pairMap =>
    match tree with
    | .object [] => some (.pairMap [])
    | _ => none

end Json.Syntax

/-- Reads data of a type from JSON octets. -/
def Data.decode? (type : DataType) (octets : List UInt8) : Option Data := do
  (← Json.Syntax.read octets).data? type

end QueryCache
