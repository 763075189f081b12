/-!
# Quoted text and bracketed lists

The forms used where a value is shown to a developer: a string in double
quotes with its special characters escaped, a list in square brackets, a map
in braces, an optional value.
-/

namespace QueryCache.Text

/-- A character inside double quotes.  Control characters without a short form
are written by their hexadecimal number. -/
def quotedChar (c : Char) : String :=
  match c with
  | '"' => "\\\""
  | '\\' => "\\\\"
  | '\n' => "\\n"
  | '\t' => "\\t"
  | '\r' => "\\r"
  | '\x00' => "\\0"
  | c =>
    if c.toNat < 0x20 ∨ c.toNat = 0x7f then
      "\\u\x7b" ++ String.ofList (Nat.toDigits 16 c.toNat) ++ "\x7d"
    else String.singleton c

/-- A string in double quotes. -/
def quoted (s : String) : String :=
  "\"" ++ String.join (s.toList.map quotedChar) ++ "\""

/-- `[a, b]` -/
def bracketed (items : List String) : String :=
  "[" ++ ", ".intercalate items ++ "]"

/-- A map in braces, `key: value` for each entry. -/
def braced (entries : List (String × String)) : String :=
  "\x7b" ++ ", ".intercalate (entries.map fun e => e.1 ++ ": " ++ e.2) ++ "\x7d"

/-- A named record: the name, then its fields in braces. -/
def record (name : String) (fields : List (String × String)) : String :=
  name ++ " \x7b " ++ ", ".intercalate (fields.map fun e => e.1 ++ ": " ++ e.2) ++ " \x7d"

/-- `Some(x)` or `None`. -/
def optional : Option String → String
  | some x => "Some(" ++ x ++ ")"
  | none => "None"

/-- `true` or `false`. -/
def boolean (b : Bool) : String := if b then "true" else "false"

end QueryCache.Text
