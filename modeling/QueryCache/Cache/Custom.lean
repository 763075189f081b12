import QueryCache.Cache.Builder
import QueryCache.Json.Access

/-!
# Custom parts of a cache

A custom part is made from the properties of its namespace when the cache is
built.  A property that is needed and missing, or that cannot be used, is
reported as a missing field under its name.
-/

namespace QueryCache

/-! ## Properties -/

/-- The value of a property. -/
def Properties.find? (p : Properties) (name : String) : Option String :=
  (List.find? (·.1 == name) p).map Prod.snd

/-- The 64-bit number that decimal text spells, with or without a plus sign. -/
def naturalText? (s : String) : Option Nat := do
  let n ← match s.toList with
    | '+' :: digits => Json.decimal? digits
    | digits => Json.decimal? digits
  if n < UInt64.size then some n else none

/-- The capacity that a property gives. -/
def Properties.capacity? (p : Properties) (name : String) : Option Nat :=
  (p.find? name).bind naturalText?

/-! ## Parts -/

/-- A plain store, under an id of its own or that of the namespace; a property
may be required. -/
def customStore (id : Option String) (required : Option String) (ns : String) (p : Properties) :
    Except Error Stack :=
  match required.filter fun name => (p.find? name).isNone with
  | some name => .error (.config (.missingRequired name))
  | none => .ok ⟨id.getD ns, []⟩

/-- A layer made from the properties; `field` is blamed if it cannot be made. -/
def customLayer (field : String) (make : Properties → Option Layer) (s : Stack) (p : Properties) :
    Except Error Stack :=
  match make p with
  | some l => .ok (s.wrap l)
  | none => .error (.config (.missingRequired field))

end QueryCache
