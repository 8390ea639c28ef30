import Fish.State

/-!
Programs: a codebox and the state of its execution. A program runs one instruction at a
time. Once it has halted, or met a fault, it stays as it is and gives the same answer.
-/

namespace Fish

/-- How a program ended. -/
inductive Termination
  | halted
  | failed (fault : Fault)
  deriving DecidableEq

/-- What came of an attempt to advance. -/
inductive Step
  | progressed
  /-- Input is missing; nothing has changed. -/
  | blocked
  | halted
  | failed (fault : Fault)
  deriving DecidableEq

def Step.isTerminal : Step → Bool
  | halted => true
  | failed _ => true
  | progressed => false
  | blocked => false

def Termination.step : Termination → Step
  | halted => .halted
  | failed fault => .failed fault

structure Program where
  codebox : Codebox
  state : State
  termination : Option Termination := none
  /-- The instructions done so far, the one that failed included. -/
  steps : Nat := 0

namespace Program

/-- A program about to start, with values on its stack listed bottom first. -/
def load (source : String) (values : List Value) (seed : UInt64) : Program where
  codebox := .ofSource source
  state := .initial values (.ofSeed seed)

def hasTerminated (p : Program) : Bool := p.termination.isSome

/-- Does the instruction under the pointer and moves on. -/
def advance (p : Program) : Step × Program :=
  match p.termination with
  | some termination => (termination.step, p)
  | none =>
    match State.execute p.codebox (p.state.current p.codebox) p.state with
    | .ok .halt s =>
      (.halted, { p with state := s, steps := p.steps + 1, termination := some .halted })
    | .ok flow s =>
      (.progressed, { p with state := s.follow p.codebox flow, steps := p.steps + 1 })
    | .error .blocked s => (.blocked, { p with state := s })
    | .error (.fatal fault) s =>
      (.failed fault,
        { p with state := s, steps := p.steps + 1, termination := some (.failed fault) })

/-- An operation on the channel of a program. -/
def onChannel {ε α : Type} (op : EStateM ε Channel α) : EStateM ε Program α := fun p =>
  match op p.state.channel with
  | .ok a channel => .ok a { p with state := { p.state with channel := channel } }
  | .error e channel => .error e { p with state := { p.state with channel := channel } }

/-- Queues a text of exactly one character as input. -/
def give (text : String) : EStateM InputRefusal Program Unit := onChannel (Channel.give text)

/-- Queues a text as input, character by character. -/
def feed (text : String) : EStateM InputRefusal Program Unit := onChannel (Channel.feed text)

/-- Takes the output written since the last time. -/
def read : EStateM NoOutput Program String := onChannel Channel.read

/-- No more input will come. -/
def close (p : Program) : Program :=
  { p with state := { p.state with channel := p.state.channel.close } }

/-- The fault that ended the program, if one did. -/
def fault? (p : Program) : Option Fault :=
  match p.termination with
  | some (.failed fault) => some fault
  | _ => none

/-- Advances up to `n` times, not beyond the first step that is no progress. -/
def run : Nat → Program → Step × Program
  | 0, p => (.progressed, p)
  | n + 1, p =>
    match p.advance with
    | (.progressed, p) => run n p
    | (step, p) => (step, p)

end Program

end Fish
