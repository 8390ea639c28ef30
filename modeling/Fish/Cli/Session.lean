import Fish.Log

/-!
A session runs one program and shows its output as it comes. Whenever the program waits for
input, one line of standard input is queued; the end of standard input closes the input.
-/

namespace Fish.Cli

/-- How a command ends: its exit code, and all that it has written. The log comes first on
standard error, and the message last. -/
structure Outcome where
  exit : Nat
  stdout : String
  /-- What the command itself says on standard error. -/
  message : String
  log : List Event := []
  /-- The logs of programs that ran side by side. How their lines mingle is left open. -/
  sideLogs : List (List Event) := []
  deriving DecidableEq

/-- What standard input gives when a line is asked for. -/
inductive Line
  /-- A line with its newline, which only the last one may lack. -/
  | text (line : String)
  /-- A line that is not text. -/
  | malformed
  | endOfInput
  deriving DecidableEq, Repr

/-- Cuts bytes after each newline. -/
def cutLines (bytes : List UInt8) : List (List UInt8) :=
  bytes.foldr (fun b lines =>
    if b = 10 then [b] :: lines
    else match lines with
      | line :: rest => (b :: line) :: rest
      | [] => [[b]]) []

def Line.ofBytes (bytes : List UInt8) : Line :=
  if bytes.isEmpty then .endOfInput
  else match String.fromUTF8? ⟨bytes.toArray⟩ with
    | some line => .text line
    | none => .malformed

/-- The lines of standard input, before its end. -/
def linesOf (stdin : ByteArray) : List Line :=
  (cutLines stdin.data.toList).map Line.ofBytes

def faultNotice (fault : Fault) : String :=
  "something smells fishy... (" ++ fault.message ++ ")"

/-- What follows a batch. -/
inductive Sequel
  | batch
  | line
  | exit (code : Nat) (complaint : String)
  deriving DecidableEq

def sequel (totalSteps : Nat) : Option Stop → Sequel
  | none => .batch
  | some .blocked => .line
  | some .halted => .exit 0 ""
  | some (.failed fault) => .exit 1 (faultNotice fault ++ "\n")
  | some .stepLimit =>
    .exit 1 ("step limit reached after " ++ toString totalSteps ++ " instructions\n")
  | some .cancelled => .exit 1 ""

/-- Hands a line to the waiting program, or tells why that cannot be done. -/
def answer (line : Line) (s : Scheduler Program) : Except String (Scheduler Program) :=
  match line with
  | .text text =>
    match Program.feed text s.machine with
    | .ok _ p => .ok { s with machine := p }
    | .error refusal _ => .error (refusal.message ++ "\n")
  | .malformed => .error "cannot read stdin: stream did not contain valid UTF-8\n"
  | .endOfInput => .ok { s with machine := s.machine.close }

structure Session where
  scheduler : Scheduler Program
  /-- The lines that were not asked for yet. -/
  unread : List Line
  /-- What is logged. -/
  filter : Filter
  /-- How often a line was asked for, the end of input included. -/
  reads : Nat := 0
  printed : String := ""
  log : List Event := []

namespace Session

/-- How a session ends now. -/
def ending (code : Nat) (complaint : String) (s : Session) : Outcome :=
  { exit := code, stdout := s.printed, message := complaint, log := s.log }

/-- Asks for a line and hands it on. -/
def readLine (s : Session) : Except Outcome Session :=
  match answer (s.unread.head?.getD .endOfInput) s.scheduler with
  | .ok scheduler =>
    .ok { s with scheduler := scheduler, unread := s.unread.tail, reads := s.reads + 1 }
  | .error complaint => .error (s.ending 1 complaint)

/-- Runs one batch, shows its output and does what follows. -/
def step (s : Session) : Except Outcome Session :=
  match s.scheduler.runBatchLogged s.filter with
  | (report, events, scheduler) =>
    let s := { s with
      scheduler := scheduler
      printed := s.printed ++ report.output
      log := s.log ++ events }
    match sequel scheduler.totalSteps report.stop with
    | .batch => .ok s
    | .line => s.readLine
    | .exit code complaint => .error (s.ending code complaint)

/-- Runs a session to its end; `none` if `batches` were not enough. -/
def run : Nat → Session → Option Outcome
  | 0, _ => none
  | batches + 1, s =>
    match s.step with
    | .ok s => run batches s
    | .error outcome => some outcome

end Session

end Fish.Cli
