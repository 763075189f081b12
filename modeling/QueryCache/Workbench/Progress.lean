import QueryCache.Workbench.Basic

/-!
# Steps that wait

A step that has to wait for another thread comes to a stop on the workbench: it
says what it waits for and how it goes on.  Besides calls on caches, a step
waits if it wants a part of the desk that a waiting step claims, or if it wants
time to pass.
-/

namespace QueryCache

/-- A step has its answer, or waits. -/
inductive Progress where
  | done (answer : Except StepError Json)
  | waiting (wait : Wait Desk) (resume : Workbench → Progress × Workbench)

/-- The answer of a step, if it has one. -/
def Progress.answer? : Progress → Option (Except StepError Json)
  | .done a => some a
  | .waiting _ _ => none

namespace Workbench

/-- Follows an operation to its end or to its wait; `finish` makes the answer. -/
def follow {ε α : Type} (toError : ε → StepError) (thread : Thread)
    (finish : α → WorkbenchM Json) : Outcome ε Desk α → Workbench → Progress × Workbench
  | .done (.ok a) w, b =>
    let (r, b) := (finish a).run (b.setWorld w)
    (.done r, b)
  | .done (.error e) w, b => (.done (.error (toError e)), b.setWorld w)
  | .waiting w wait resume, b =>
    (.waiting wait fun b => follow toError thread finish (resume ⟨thread, []⟩ b.world) b,
      b.setWorld w)

/-- Starts an operation that may wait on a part of the desk. -/
def start {ε σ α : Type} (toError : ε → StepError) (f : Focus Desk σ) (thread : Thread)
    (m : Await ε σ α) (finish : α → WorkbenchM Json) : WorkbenchM Progress :=
  modifyGet fun b => follow toError thread finish (f.await m ⟨thread, []⟩ b.world) b

/-- Makes a step up to its answer or to its wait; a failure is an answer. -/
def make (m : WorkbenchM Progress) (b : Workbench) : Progress × Workbench :=
  match m.run b with
  | (.ok p, b) => (p, b)
  | (.error e, b) => (.done (.error e), b)

/-- Makes a step that alone uses a part of the desk until it ends. -/
def claim (place : Nat) (m : WorkbenchM Progress) : WorkbenchM Progress := do
  let alone : WorkbenchM Progress := do
    modify fun b => { b with current := { b.current with claim := some place } }
    m
  if (← get).desk.isFree place then alone
  else pure (.waiting { ready := fun w => w.state.isFree place } (make alone))

/-- Lets time pass. -/
def sleep (nanos : Nat) : WorkbenchM Progress := do
  let deadline := (← get).env.now + nanos
  pure (.waiting { ready := fun _ => false, deadline } fun b => (.done (.ok .null), b))

end Workbench

end QueryCache
