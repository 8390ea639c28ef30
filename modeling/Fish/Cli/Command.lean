import Fish.Cli.Directory
import Fish.Cli.Report
import Fish.Cli.Options

/-!
The command as a whole: from arguments and the texts of the source files to a session with
one program or a report on several.
-/

namespace Fish.Cli

/-- What a command line comes to, once its files were read. -/
inductive Plan
  | refuse (complaint : String)
  | session (scheduler : Scheduler Program)
  | report (limit : Nat) (programs : List (String × Program))

/-- Loads the programs in order, up to the first that cannot be, and tells of each that was
loaded. They get the initial stack and the input that the options give. Without a seed among
them, `entropy` is the seed. -/
def Options.loadAll (o : Options) (entropy : UInt64) :
    List (String × Except ReadError String) →
      List Event × Except String (List (String × Program))
  | [] => ([], .ok [])
  | (path, .error e) :: _ => ([], .error ("cannot read " ++ path ++ ": " ++ e.cause ++ "\n"))
  | (path, .ok source) :: rest =>
    let program := Program.load source o.stack (o.seed?.getD entropy)
    match Program.feed (o.input?.getD "") program with
    | .error refusal _ => ([program.loaded], .error (refusal.message ++ "\n"))
    | .ok _ fed =>
      let (events, programs) := o.loadAll entropy rest
      (program.loaded :: events, programs.map fun programs => (path, fed) :: programs)

/-- The step limit of a report where none is given: the greatest word. -/
def Options.reportLimit (o : Options) : Nat := o.stepLimit?.getD (UInt64.size - 1)

/-- What to do with the programs. The input of a session is closed at the start unless
standard input is to follow. -/
def Options.plan (o : Options) : Except String (List (String × Program)) → Plan
  | .error complaint => .refuse complaint
  | .ok [(_, program)] =>
    .session (Scheduler.ofMachine (if o.stdin then program else program.close)
      { stepsPerBatch := o.stepsPerBatch, stepLimit := o.stepLimit? })
  | .ok programs =>
    if o.stdin then .refuse "--stdin needs exactly one source file\n"
    else .report o.reportLimit programs

/-- What a command finds around it. -/
structure Surroundings where
  directory : Directory
  entropy : UInt64 := 0
  /-- The filter of the log that is set from outside, if one is. -/
  filter? : Option Filter := none
  /-- The words of the parser for a command line that it refuses. -/
  parserText : Refusal → String := fun _ => ""

/-- How a refused command line ends. Help is no error. -/
def Refusal.outcome (parserText : Refusal → String) (refusal : Refusal) : Outcome :=
  match refusal with
  | .help => { exit := 0, stdout := parserText .help, message := "" }
  | _ => { exit := 2, stdout := "", message := parserText refusal }

/-- Runs the command; `none` if a session does not end within `batches` batches. -/
def run (batches : Nat) (w : Surroundings) (stdin : ByteArray) (args : List String) :
    Option Outcome :=
  match Options.ofArgs args with
  | .error refusal => some (refusal.outcome w.parserText)
  | .ok o =>
    let filter := o.filter w.filter?
    let (events, programs) :=
      o.loadAll w.entropy (o.files.map fun path => (path, w.directory.read path))
    let log := events.filter filter
    match o.plan programs with
    | .refuse complaint => some { exit := 1, stdout := "", message := complaint, log := log }
    | .session scheduler =>
      Session.run batches
        { scheduler := scheduler, unread := linesOf stdin, filter := filter, log := log }
    | .report limit programs => some (report filter log limit programs)

end Fish.Cli
