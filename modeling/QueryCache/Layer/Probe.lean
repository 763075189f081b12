import QueryCache.Cache.Basic

/-!
# Watching and refusing calls

The layer records every call that reaches it and then either passes the call
on or refuses it.  Which calls it refuses is a table that can be changed.
-/

namespace QueryCache

/-- The kinds of calls that a probe sees. -/
inductive CallKind where
  | put
  | get
  | remove
  | clear
  | size
  | releaseLock
deriving DecidableEq, Repr

/-- The name of a kind of call. -/
def CallKind.name : CallKind → String
  | .put => "put"
  | .get => "get"
  | .remove => "remove"
  | .clear => "clear"
  | .size => "size"
  | .releaseLock => "release_lock"

/-- The kind of a name. -/
def CallKind.ofName? (name : String) : Option CallKind :=
  [CallKind.put, .get, .remove, .clear, .size, .releaseLock].find? (·.name == name)

/-- The kind of an observed call. -/
def ObservedCall.kind : ObservedCall → CallKind
  | .put _ _ => .put
  | .get _ => .get
  | .remove _ => .remove
  | .clear => .clear
  | .size => .size
  | .releaseLock _ => .releaseLock

/-- The key of an observed call, if it has one. -/
def ObservedCall.key? : ObservedCall → Option CacheKey
  | .put k _ | .get k | .remove k | .releaseLock k => some k
  | .clear | .size => none

/-- The keys for which a call is refused. -/
inductive Refusal where
  | always
  | keys (ks : List CacheKey)
deriving DecidableEq, Repr

/-- The calls that a probe refuses. -/
abbrev Refusals := List (CallKind × Refusal)

/-- A call of the kind, on the key if it has one, is refused. -/
def Refusals.refuses (s : Refusals) (kind : CallKind) (key : Option CacheKey) : Bool :=
  match (s.find? (·.1 = kind)).map Prod.snd with
  | none => false
  | some .always => true
  | some (.keys ks) => key.any (· ∈ ks)

namespace Probe

variable {σ : Type}

/-- The cache below. -/
abbrev below (d : Cache σ) : Cache (Refusals × σ) := d.under fun _ => []

/-- Records a call, and fails if it is refused. -/
def observe (name id : String) (call : ObservedCall) : CacheOp (Refusals × σ) Unit := do
  Op.modifyEnvironment fun e => { e with observed := (name, call) :: e.observed }
  if (← Op.layer).refuses call.kind call.key? then
    Op.fail (.serialization id ("refused " ++ call.kind.name))
  else pure ()

/-- The layer around a cache. -/
def around (name : String) (d : Cache σ) : Cache (Refusals × σ) :=
  { below d with
    put := fun key value => do
      .ofOp (observe name d.id (.put key value.isSome))
      (below d).put key value
    get := fun key => do
      .ofOp (observe name d.id (.get key))
      (below d).get key
    remove := fun key => do
      .ofOp (observe name d.id (.remove key))
      (below d).remove key
    clear := do
      .ofOp (observe name d.id .clear)
      (below d).clear
    size := do
      .ofOp (observe name d.id .size)
      (below d).size
    releaseLock := fun key => do
      observe name d.id (.releaseLock key)
      (below d).releaseLock key }

end Probe

end QueryCache
