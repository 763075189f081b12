import QueryCache.Decimal.Binary64

/-!
# Data held in a cache

The types of data that a cached value may have, and the data themselves.  A
pair map is kept in ascending order of its keys, one entry for each key.
-/

namespace QueryCache

/-- A row of a query result. -/
structure Row where
  id : Int64
  name : String
deriving DecidableEq, Repr

/-- The type of a piece of data. -/
inductive DataType where
  | string
  | i64
  | u64
  | f64
  | bool
  | optI64
  | bytes
  | row
  | rows
  | pairMap
deriving DecidableEq, Repr

/-- The full name of a type, as messages give it. -/
def DataType.name : DataType → String
  | .string => "alloc::string::String"
  | .i64 => "i64"
  | .u64 => "u64"
  | .f64 => "f64"
  | .bool => "bool"
  | .optI64 => "core::option::Option<i64>"
  | .bytes => "alloc::vec::Vec<u8>"
  | .row => "tessera_test_utils::Row"
  | .rows => "alloc::vec::Vec<tessera_test_utils::Row>"
  | .pairMap => "alloc::collections::btree::map::BTreeMap<(i64, i64), alloc::string::String>"

/-- All types. -/
def DataType.all : List DataType :=
  [.string, .i64, .u64, .f64, .bool, .optI64, .bytes, .row, .rows, .pairMap]

/-- The short name of a type. -/
def DataType.tag : DataType → String
  | .string => "string"
  | .i64 => "i64"
  | .u64 => "u64"
  | .f64 => "f64"
  | .bool => "bool"
  | .optI64 => "opt_i64"
  | .bytes => "bytes"
  | .row => "row"
  | .rows => "rows"
  | .pairMap => "pairmap"

/-- The type of a short name. -/
def DataType.ofTag? (tag : String) : Option DataType := all.find? (·.tag == tag)

/-- An entry of a map keyed by pairs of integers. -/
abbrev PairEntry := (Int64 × Int64) × String

/-- The pair comes before another, the first number deciding. -/
def pairBefore (a b : Int64 × Int64) : Bool :=
  a.1 < b.1 || (a.1 == b.1 && a.2 < b.2)

/-- Puts an entry into its place; an earlier entry of the key gives way. -/
def insertPair (entry : PairEntry) : List PairEntry → List PairEntry
  | [] => [entry]
  | e :: rest =>
    if pairBefore entry.1 e.1 then entry :: e :: rest
    else if entry.1 = e.1 then entry :: rest
    else e :: insertPair entry rest

/-- A piece of typed data. -/
inductive Data where
  | string (s : String)
  | i64 (i : Int64)
  | u64 (u : UInt64)
  | f64 (x : Binary64)
  | bool (b : Bool)
  | optI64 (i : Option Int64)
  | bytes (b : List UInt8)
  | row (r : Row)
  | rows (rs : List Row)
  /-- The entries in ascending order of key. -/
  | pairMap (entries : List PairEntry)
deriving DecidableEq, Repr

/-- The type of a piece of data. -/
def Data.type : Data → DataType
  | .string _ => .string
  | .i64 _ => .i64
  | .u64 _ => .u64
  | .f64 _ => .f64
  | .bool _ => .bool
  | .optI64 _ => .optI64
  | .bytes _ => .bytes
  | .row _ => .row
  | .rows _ => .rows
  | .pairMap _ => .pairMap

end QueryCache
