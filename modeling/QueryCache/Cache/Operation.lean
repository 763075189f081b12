import QueryCache.Cache.World

/-!
# Operations

An operation takes a caller and a world to a result and a new world; a failed
operation keeps the changes that it made before it failed.  An `Op` always
comes to its end.  An `Await` may have to wait for another thread first: its
outcome is then a world, what it waits for, and the rest of the operation,
which is resumed in a later world.

1. operations that end: `Op`
2. operations that may wait: `Wait`, `Outcome` and `Await`
3. operations on a part of the state
-/

namespace QueryCache

/-! ## Operations that end -/

/-- An operation on a state `σ` that fails with `ε` or gives an `α`. -/
def Op (ε σ α : Type) : Type := Caller → World σ → Except ε α × World σ

namespace Op

variable {ε σ α β : Type}

/-- Gives a value and changes nothing. -/
protected def pure (a : α) : Op ε σ α := fun _ w => (.ok a, w)

/-- Goes on with the value of an operation that did not fail. -/
protected def bind (m : Op ε σ α) (f : α → Op ε σ β) : Op ε σ β := fun c w =>
  match m c w with
  | (.ok a, w') => f a c w'
  | (.error e, w') => (.error e, w')

instance : Monad (Op ε σ) where
  pure := Op.pure
  bind := Op.bind

/-- Fails. -/
def fail (e : ε) : Op ε σ α := fun _ w => (.error e, w)

/-- Gives a result or fails with it. -/
def ofExcept (r : Except ε α) : Op ε σ α := fun _ w => (r, w)

/-- The result of an operation, whether or not it failed. -/
def result {ε' : Type} (m : Op ε σ α) : Op ε' σ (Except ε α) := fun c w =>
  let (r, w') := m c w
  (.ok r, w')

/-- Changes the error of a failed operation. -/
def mapError {ε' : Type} (f : ε → ε') (m : Op ε σ α) : Op ε' σ α := fun c w =>
  let (r, w') := m c w
  (r.mapError f, w')

/-- An operation that cannot fail, among operations that can. -/
def ofSafe (m : Op Empty σ α) : Op ε σ α := m.mapError Empty.elim

/-- The caller. -/
def caller : Op ε σ Caller := fun c w => (.ok c, w)

/-- The state. -/
def state : Op ε σ σ := fun _ w => (.ok w.state, w)

/-- Changes the state. -/
def modify (f : σ → σ) : Op ε σ Unit := fun _ w => (.ok (), { w with state := f w.state })

/-- Changes the state and gives a value. -/
def update (f : σ → α × σ) : Op ε σ α := fun _ w =>
  let (a, s) := f w.state
  (.ok a, { w with state := s })

/-- The environment. -/
def environment : Op ε σ Environment := fun _ w => (.ok w.env, w)

/-- Changes the environment. -/
def modifyEnvironment (f : Environment → Environment) : Op ε σ Unit := fun _ w =>
  (.ok (), { w with env := f w.env })

/-- Reads the clock. -/
def clock : Op ε σ Nat := fun _ w =>
  (.ok w.env.now, { w with env := { w.env with now := w.env.now + Environment.readingTime } })

/-- Takes a new allocation. -/
def allocate : Op ε σ Nat := fun _ w =>
  (.ok w.env.nextAlloc, { w with env := { w.env with nextAlloc := w.env.nextAlloc + 1 } })

end Op

/-! ## Operations that may wait -/

/-- What a waiting operation waits for.  It is resumed in a world in which it
may go on, or at its deadline. -/
structure Wait (σ : Type) where
  /-- The operation may go on. -/
  ready : World σ → Bool
  /-- The time at which it goes on in any case. -/
  deadline : Option Nat := none
  /-- The values that the operation itself holds while it waits. -/
  held : List Value := []

/-- The wait in a larger state. -/
def Wait.widen {τ σ : Type} (f : Focus τ σ) (a : Wait σ) : Wait τ where
  ready w := a.ready (f.narrow w)
  deadline := a.deadline
  held := a.held

/-- What became of an operation. -/
inductive Outcome (ε σ α : Type) where
  | done (result : Except ε α) (world : World σ)
  | waiting (world : World σ) (wait : Wait σ) (resume : Caller → World σ → Outcome ε σ α)

namespace Outcome

variable {ε σ α β : Type}

/-- Goes on with the value of an operation that did not fail, once it is there. -/
protected def bind (o : Outcome ε σ α) (f : α → Caller → World σ → Outcome ε σ β) (c : Caller) :
    Outcome ε σ β :=
  match o with
  | .done (.ok a) w => f a c w
  | .done (.error e) w => .done (.error e) w
  | .waiting w wait resume => .waiting w wait fun c w => (resume c w).bind f c

/-- The result of an operation as a value, whether or not it failed. -/
def result {ε' : Type} : Outcome ε σ α → Outcome ε' σ (Except ε α)
  | .done r w => .done (.ok r) w
  | .waiting w wait resume => .waiting w wait fun c w => (resume c w).result

/-- Changes the error of a failed operation. -/
def mapError {ε' : Type} (f : ε → ε') : Outcome ε σ α → Outcome ε' σ α
  | .done r w => .done (r.mapError f) w
  | .waiting w wait resume => .waiting w wait fun c w => (resume c w).mapError f

/-- The outcome of an operation that holds values until it ends. -/
def holding (values : List Value) : Outcome ε σ α → Outcome ε σ α
  | .done r w => .done r w
  | .waiting w wait resume =>
    .waiting w { wait with held := wait.held ++ values } fun c w =>
      (resume (c.holding values) w).holding values

/-- The outcome in a larger state; `outer` is the larger state at the start. -/
def widen {τ : Type} (f : Focus τ σ) (outer : τ) : Outcome ε σ α → Outcome ε τ α
  | .done r w => .done r (f.widen outer w)
  | .waiting w wait resume =>
    .waiting (f.widen outer w) (wait.widen f) fun c w =>
      (resume (f.caller w.state c) (f.narrow w)).widen f w.state

/-- The world at the end of the operation, or at its wait. -/
def world : Outcome ε σ α → World σ
  | .done _ w => w
  | .waiting w _ _ => w

end Outcome

/-- An operation that may wait. -/
def Await (ε σ α : Type) : Type := Caller → World σ → Outcome ε σ α

namespace Await

variable {ε σ α β : Type}

/-- An operation that does not wait. -/
def ofOp (m : Op ε σ α) : Await ε σ α := fun c w =>
  let (r, w') := m c w
  .done r w'

instance : Monad (Await ε σ) where
  pure a := ofOp (Op.pure a)
  bind m f := fun c w => (m c w).bind f c

/-- The result of an operation, whether or not it failed. -/
def result {ε' : Type} (m : Await ε σ α) : Await ε' σ (Except ε α) := fun c w => (m c w).result

/-- Changes the error of a failed operation. -/
def mapError {ε' : Type} (f : ε → ε') (m : Await ε σ α) : Await ε' σ α := fun c w =>
  (m c w).mapError f

/-- Runs an operation while the caller holds more values. -/
def holding (values : List Value) (m : Await ε σ α) : Await ε σ α := fun c w =>
  (m (c.holding values) w).holding values

/-- Waits until the state is ready. -/
def waitFor (ready : σ → Bool) : Await ε σ Unit := fun _ w =>
  if ready w.state then .done (.ok ()) w
  else .waiting w { ready := fun w => ready w.state } fun _ w => .done (.ok ()) w

end Await

/-! ## Operations on a part of the state -/

namespace Focus

variable {ε τ σ α : Type}

/-- Runs an operation on the part. -/
def run (f : Focus τ σ) (m : Op ε σ α) : Op ε τ α := fun c w =>
  let (r, w') := m (f.caller w.state c) (f.narrow w)
  (r, f.widen w.state w')

/-- Runs an operation that may wait on the part. -/
def await (f : Focus τ σ) (m : Await ε σ α) : Await ε τ α := fun c w =>
  (m (f.caller w.state c) (f.narrow w)).widen f w.state

end Focus

end QueryCache
