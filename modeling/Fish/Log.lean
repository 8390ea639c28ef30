import Fish.Scheduler

/-!
The log: what a program and its scheduler tell of their work, apart from its output. A filter
says which events are written. How a line of the log is laid out, and the time that it bears,
are the logger's own affair; an event is what such a line says.
-/

namespace Fish

inductive Level
  | warn
  | debug
  | trace
  deriving DecidableEq

/-- What can be told of. A place is where the program was when it began a cycle. -/
inductive Event
  | loaded (width height : Nat)
  | executing (x y : Nat) (c : Char)
  | halted (steps : Nat)
  | waiting (x y : Nat)
  | failed (x y : Nat) (fault : Fault)
  | batchFinished (steps total : Nat) (stop : Option Stop)
  deriving DecidableEq

namespace Event

def level : Event → Level
  | loaded .. => .debug
  | executing .. => .trace
  | halted _ => .debug
  | waiting .. => .debug
  | failed .. => .warn
  | batchFinished .. => .debug

def isWarning (e : Event) : Bool := e.level = .warn

def message : Event → String
  | loaded .. => "program loaded"
  | executing .. => "execute"
  | halted _ => "halted"
  | waiting .. => "waiting for input"
  | failed .. => "something smells fishy"
  | batchFinished .. => "batch finished"

end Event

/-- Which events are written. -/
abbrev Filter := Event → Bool

/-- What is told of a program that was loaded. -/
def Program.loaded (p : Program) : Event := .loaded p.codebox.width p.codebox.height

/-- What is told of an attempt to advance that came to `step`: nothing if the program has
terminated before. -/
def Program.events (p : Program) (step : Step) : List Event :=
  if p.hasTerminated then []
  else
    let place := p.state.pointer
    .executing place.x place.y (p.state.current p.codebox) :: match step with
      | .progressed => []
      | .blocked => [.waiting place.x place.y]
      | .halted => [.halted (p.steps + 1)]
      | .failed fault => [.failed place.x place.y fault]

/-- A program with what it has logged. -/
structure Logged where
  filter : Filter
  program : Program
  log : Array Event := #[]

namespace Logged

def advance (m : Logged) : Step × Logged :=
  let (step, p) := m.program.advance
  (step, { m with program := p, log := m.log ++ (m.program.events step).filter m.filter })

def read : EStateM NoOutput Logged String := fun m =>
  match m.program.read with
  | .ok text p => .ok text { m with program := p }
  | .error e p => .error e { m with program := p }

instance : Machine Logged where
  advance := advance
  hasTerminated m := m.program.hasTerminated
  read := read
  isTerminal_of_hasTerminated m := m.program.isTerminal_of_hasTerminated

end Logged

namespace Scheduler

/-- The scheduler with its program logged from now on. -/
def logged (filter : Filter) (s : Scheduler Program) : Scheduler Logged :=
  { s with machine := { filter := filter, program := s.machine } }

/-- Runs one batch, and tells what was logged in it. -/
def runBatchLogged (filter : Filter) (s : Scheduler Program) :
    BatchReport × List Event × Scheduler Program :=
  let (report, t) := (s.logged filter).runBatch
  let finished := Event.batchFinished report.steps t.totalSteps report.stop
  (report, t.machine.log.toList ++ [finished].filter filter, t.map Logged.program)

/-- What is logged in up to `batches` batches, none of them after one that stops. -/
def runLog (filter : Filter) : Nat → Scheduler Program → List Event
  | 0, _ => []
  | batches + 1, s =>
    match s.runBatchLogged filter with
    | (report, events, s) =>
      match report.stop with
      | some _ => events
      | none => events ++ runLog filter batches s

end Scheduler

/-- What a program logs when it is run to completion. -/
def Program.completionLog (filter : Filter) (p : Program) (limit : Nat) : List Event :=
  (Scheduler.ofMachine p { stepLimit := some limit }).runLog filter (limit + 1)

end Fish
