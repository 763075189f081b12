import QueryCache.Decimal.Layout
import QueryCache.Entries
import QueryCache.Json.Number
import QueryCache.Json.Text

/-!
# JSON values

A value forgets how it was written: of two members of one name the last one
counts, and members stand in the order of their names.  Values nest at most
`maxDepth` deep.  The compact text of a value has no blanks.
-/

namespace QueryCache

/-- A JSON value.  The members of an object are in ascending order of name. -/
inductive Json where
  | null
  | bool (b : Bool)
  | number (n : Number)
  | string (s : String)
  | array (items : List Json)
  | object (members : List (String × Json))
deriving Repr

namespace Json

/-- Arrays and objects may nest this deep. -/
def maxDepth : Nat := 127

mutual

/-- The value of a tree that nests at most `depth` deep. -/
def ofSyntax? : Nat → Syntax → Option Json
  | _, .null => some .null
  | _, .bool b => some (.bool b)
  | _, .number n => n.value?.map .number
  | _, .string raw => (text? raw).map .string
  | 0, .array _ => none
  | depth + 1, .array items => (ofItems? depth items).map .array
  | 0, .object _ => none
  | depth + 1, .object members => (ofMembers? depth members []).map .object

/-- The values of the items. -/
def ofItems? : Nat → List Syntax → Option (List Json)
  | _, [] => some []
  | depth, item :: rest => do
    let value ← ofSyntax? depth item
    let values ← ofItems? depth rest
    pure (value :: values)

/-- The members in order of name, each put over those before it. -/
def ofMembers? : Nat → List (List UInt8 × Syntax) → List (String × Json) →
    Option (List (String × Json))
  | _, [], members => some members
  | depth, (raw, tree) :: rest, members => do
    let name ← text? raw
    let value ← ofSyntax? depth tree
    ofMembers? depth rest (insertNamed name value members)

end

/-- The value of a JSON text. -/
def parse? (text : String) : Option Json := do
  ofSyntax? maxDepth (← Syntax.read (Text.utf8 text))

end Json

/-- The text of a number in JSON. -/
def Number.render : Number → String
  | .int i => toString i
  | .uint u => toString u
  | .float x => if x.isFinite then Layout.json.render x else "null"

namespace Json

mutual

/-- The compact text of a value. -/
def render : Json → String
  | .null => "null"
  | .bool b => if b then "true" else "false"
  | .number n => n.render
  | .string s => quote s
  | .array items => "[" ++ ",".intercalate (renderItems items) ++ "]"
  | .object members => "\x7b" ++ ",".intercalate (renderMembers members) ++ "\x7d"

/-- The texts of the items. -/
def renderItems : List Json → List String
  | [] => []
  | item :: rest => item.render :: renderItems rest

/-- The texts of the members. -/
def renderMembers : List (String × Json) → List String
  | [] => []
  | (name, value) :: rest => (quote name ++ ":" ++ value.render) :: renderMembers rest

end

end Json

end QueryCache
