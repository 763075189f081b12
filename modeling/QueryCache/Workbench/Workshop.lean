import QueryCache.Workbench.Progress

/-!
# A workshop of several threads

A thread that starts a step without waiting for its answer leaves the step
standing and can do nothing else until the step is joined.  Every step takes
some time.  A standing step goes on as soon as what it waits for has come, the
step that has waited longest first; and when time passes, the standing steps
meet their deadlines one after the other, each at its own time.
-/

namespace QueryCache

/-- A workbench and the steps that have not been joined. -/
structure Workshop where
  bench : Workbench := {}
  /-- The standing step of each thread, the one that has waited longest first. -/
  standing : List (Thread × Progress) := []

/-- What happens next: a standing step goes on. -/
structure Turn where
  time : Nat
  thread : Thread
  resume : Workbench → Progress × Workbench

namespace Workshop

/-- The thread has a standing step. -/
def isBusy (s : Workshop) (thread : Thread) : Bool := s.standing.any (·.1 == thread)

/-- Changes the workbench. -/
def onBench (f : Workbench → Workbench) (s : Workshop) : Workshop := { s with bench := f s.bench }

/-! ## One step goes on -/

/-- Makes or resumes a step of a thread and leaves it standing; if it waits, the
desk keeps what it needs. -/
def proceed (thread : Thread) (resume : Workbench → Progress × Workbench) (s : Workshop) :
    Workshop :=
  let desk := s.bench.desk
  let needs := (desk.waiting.find? thread).getD {}
  let (p, b) := resume
    { s.bench with
      desk := { desk with waiting := desk.waiting.erase thread }
      current := { needs with values := [] } }
  let desk := match p with
    | .done _ => b.desk
    | .waiting wait _ =>
      let needs := { b.current with values := wait.held }
      { b.desk with waiting := b.desk.waiting.insert thread needs }
  { bench := { b with desk := desk.tidy, current := {} }
    standing := s.standing.filter (·.1 != thread) ++ [(thread, p)] }

/-! ## Time -/

/-- The time that a step takes. -/
def stepTime : Nat := 2000

/-- The first standing step that is ready goes on at once. -/
def readyTurn? (s : Workshop) : Option Turn :=
  s.standing.findSome? fun
    | (thread, .waiting wait resume) =>
      if wait.ready s.bench.world then some ⟨s.bench.env.now, thread, resume⟩ else none
    | (_, .done _) => none

/-- The deadlines of the standing steps. -/
def deadlines (s : Workshop) : List Turn :=
  s.standing.filterMap fun
    | (thread, .waiting wait resume) => wait.deadline.map fun t => ⟨t, thread, resume⟩
    | (_, .done _) => none

/-- The standing step that goes on next: the first one that is ready, or else the
one with the earliest deadline. -/
def nextTurn? (s : Workshop) : Option Turn :=
  s.readyTurn? <|> s.deadlines.foldl (fun first turn =>
    match first with
    | some earlier => if turn.time < earlier.time then some turn else some earlier
    | none => some turn) none

/-- A step goes on at its time, or now if that has passed. -/
def take (turn : Turn) (s : Workshop) : Workshop :=
  (s.onBench fun b => { b with env := { b.env with now := max b.env.now turn.time } }).proceed
    turn.thread turn.resume

/-- Standing steps go on, at most `fuel` of them, until `isOver` holds or the next
one does not go on by the time `limit`. -/
def run (isOver : Workshop → Bool) (limit : Option Nat) : Nat → Workshop → Workshop
  | 0, s => s
  | fuel + 1, s =>
    if isOver s then s
    else
      match s.nextTurn? with
      | some turn => if limit.all (turn.time ≤ ·) then run isOver limit fuel (s.take turn) else s
      | none => s

/-- Between two steps standing steps go on no more often than this. -/
def maxTurns : Nat := 10000

/-- Lets every standing step go on as far as it can. -/
def settle (s : Workshop) : Workshop := run (fun _ => false) (some s.bench.env.now) maxTurns s

/-- Lets the time of a step pass. -/
def tick (s : Workshop) : Workshop :=
  let time := s.bench.env.now + stepTime
  (run (fun _ => false) (some time) maxTurns s).onBench fun b =>
    { b with env := { b.env with now := max b.env.now time } }

/-! ## Steps -/

/-- The answer of the standing step of a thread. -/
def answer? (s : Workshop) (thread : Thread) : Option (Except StepError Json) :=
  (s.standing.find? (·.1 == thread)).bind (·.2.answer?)

/-- Forgets the standing step of a thread. -/
def dismiss (thread : Thread) (s : Workshop) : Workshop where
  bench :=
    { s.bench with
      desk := { s.bench.desk with waiting := s.bench.desk.waiting.erase thread } }
  standing := s.standing.filter (·.1 != thread)

/-- Joins the standing step of a thread: lets time pass until it has its answer.
A step that would wait for ever is refused. -/
def join (thread : Thread) (s : Workshop) : Except StepError Json × Workshop :=
  let s := run (fun s => (s.answer? thread).isSome) none maxTurns s
  ((s.answer? thread).getD (.error .badInput), s.dismiss thread)

/-- Starts a step of a thread and leaves it standing. -/
def leave (thread : Thread) (m : WorkbenchM Progress) (s : Workshop) :
    Except StepError Unit × Workshop :=
  if s.isBusy thread then (.error .badInput, s)
  else (.ok (), s.proceed thread (Workbench.make m))

/-- Does a step of a thread to its end. -/
def perform (thread : Thread) (m : WorkbenchM Progress) (s : Workshop) :
    Except StepError Json × Workshop :=
  match s.leave thread m with
  | (.ok (), s) => s.join thread
  | (.error e, s) => (.error e, s)

/-- Reports what has changed, unless a step is standing. -/
def report (s : Workshop) : Option (List (String × ObjectState) × List String) × Workshop :=
  if s.standing.isEmpty then
    let (r, bench) := s.bench.report
    (some r, { s with bench })
  else (none, s)

end Workshop

end QueryCache
