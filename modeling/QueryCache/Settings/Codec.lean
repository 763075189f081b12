import QueryCache.Key.Codec
import QueryCache.Settings

/-!
# Settings as JSON

Settings are written as an object with every field in order; a length of time
is an object of whole seconds and nanoseconds.  Reading takes an object, in
which missing fields keep their defaults and unknown ones are passed over, or
an array of the fields in order, of which the last ones may be missing.
-/

namespace QueryCache

open Json (Syntax)

/-! ## Writing -/

/-- A length of time as a JSON object. -/
def Duration.json (d : Duration) : String :=
  "\x7b\"secs\":" ++ toString d.seconds ++ ",\"nanos\":" ++ toString d.subsecond ++ "\x7d"

/-- The text, or `null` if there is none. -/
def Json.nullable : Option String → String
  | some text => text
  | none => "null"

/-- The settings as a JSON object. -/
def CacheSettings.json (s : CacheSettings) : String :=
  "\x7b\"eviction\":" ++ Json.quote s.eviction.name ++
    ",\"size\":" ++ Json.nullable (s.size.map toString) ++
    ",\"flush_interval\":" ++ Json.nullable (s.flushInterval.map (·.json)) ++
    ",\"read_only\":" ++ Text.boolean s.readOnly ++
    ",\"blocking\":" ++ Text.boolean s.blocking ++
    ",\"blocking_timeout\":" ++ Json.nullable (s.blockingTimeout.map (·.json)) ++
    ",\"properties\":\x7b" ++
    ",".intercalate (s.properties.map fun p => Json.quote p.1 ++ ":" ++ Json.quote p.2) ++
    "\x7d\x7d"

/-! ## Reading -/

/-- Whole seconds and nanoseconds; a second's worth of nanoseconds carries
over, and the seconds must fit 64 bits. -/
def Duration.ofParts? (seconds nanos : Nat) : Option Duration :=
  let d : Duration := ⟨seconds * 1000000000 + nanos⟩
  if d.seconds < UInt64.size then some d else none

namespace Json.Syntax

/-- A natural number below `size`. -/
def natural? (size : Nat) (tree : Syntax) : Option Nat :=
  (tree.integerIn? 0 (size - 1)).map Int.toNat

/-- Collects the fields of a length of time: each once, and no others. -/
def durationMembers? : List (List UInt8 × Syntax) → Option Nat → Option Nat → Option Duration
  | [], seconds, nanos => do Duration.ofParts? (← seconds) (← nanos)
  | (raw, tree) :: rest, seconds, nanos => do
    match ← text? raw with
    | "secs" =>
      if seconds.isSome then none
      else durationMembers? rest (some (← tree.natural? UInt64.size)) nanos
    | "nanos" =>
      if nanos.isSome then none
      else durationMembers? rest seconds (some (← tree.natural? UInt32.size))
    | _ => none

/-- The length of time that a tree stands for. -/
def duration? : Syntax → Option Duration
  | .array [seconds, nanos] => do
    Duration.ofParts? (← seconds.natural? UInt64.size) (← nanos.natural? UInt32.size)
  | .object members => durationMembers? members none none
  | _ => none

/-- `null`, or what `read` makes of the tree. -/
def option? {α : Type} (read : Syntax → Option α) : Syntax → Option (Option α)
  | .null => some none
  | tree => (read tree).map some

/-- The eviction policy that a tree stands for, by its exact name. -/
def eviction? : Syntax → Option EvictionPolicy
  | .string raw => do EvictionPolicy.ofName? (← text? raw)
  | .object [(raw, .null)] => do EvictionPolicy.ofName? (← text? raw)
  | _ => none

/-- The members of an object of strings, put into order one by one. -/
def propertyMembers? : List (List UInt8 × Syntax) → Properties → Option Properties
  | [], properties => some properties
  | (raw, tree) :: rest, properties => do
    propertyMembers? rest (insertNamed (← text? raw) (← tree.string?) properties)

/-- The properties that a tree stands for. -/
def properties? : Syntax → Option Properties
  | .object members => propertyMembers? members []
  | _ => none

/-- The names of the fields, in order. -/
def settingNames : List String :=
  ["eviction", "size", "flush_interval", "read_only", "blocking", "blocking_timeout",
    "properties"]

/-- Sets a field from a tree. -/
def setting? (s : CacheSettings) (name : String) (tree : Syntax) : Option CacheSettings :=
  match name with
  | "eviction" => tree.eviction?.map fun x => { s with eviction := x }
  | "size" => (tree.option? (natural? UInt64.size)).map fun x => { s with size := x }
  | "flush_interval" => (tree.option? duration?).map fun x => { s with flushInterval := x }
  | "read_only" => tree.bool?.map fun x => { s with readOnly := x }
  | "blocking" => tree.bool?.map fun x => { s with blocking := x }
  | "blocking_timeout" => (tree.option? duration?).map fun x => { s with blockingTimeout := x }
  | "properties" => tree.properties?.map fun x => { s with properties := x }
  | _ => some s

/-- Sets the fields of an object; a field that occurs twice is refused. -/
def settingMembers? : List (List UInt8 × Syntax) → List String → CacheSettings →
    Option CacheSettings
  | [], _, s => some s
  | (raw, tree) :: rest, seen, s => do
    let name ← text? raw
    if name ∈ seen ∧ name ∈ settingNames then none
    else settingMembers? rest (name :: seen) (← setting? s name tree)

/-- Sets the fields in order; there may be fewer items than fields. -/
def settingItems? : List Syntax → List String → CacheSettings → Option CacheSettings
  | [], _, s => some s
  | _ :: _, [], _ => none
  | tree :: rest, name :: names, s => do settingItems? rest names (← setting? s name tree)

/-- The settings that a tree stands for. -/
def settings? : Syntax → Option CacheSettings
  | .object members => settingMembers? members [] {}
  | .array items => settingItems? items settingNames {}
  | _ => none

end Json.Syntax

/-- Reads settings from JSON. -/
def CacheSettings.parse? (text : String) : Option CacheSettings := do
  (← Syntax.read (Text.utf8 text)).settings?

/-- Reads an eviction policy from JSON. -/
def EvictionPolicy.parseJson? (text : String) : Option EvictionPolicy := do
  (← Syntax.read (Text.utf8 text)).eviction?

end QueryCache
