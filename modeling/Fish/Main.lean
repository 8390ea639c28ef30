import Fish.Cli.Command

/-!
The command at a terminal: it reads the files, prints the output of each batch when it is
over, and reads a line of standard input whenever the program waits for one. Here no filter of
the log is set from outside, and its lines bear no time.
-/

namespace Fish.Main

open Cli

/-- A line of standard input with its newline; empty at the end of input. -/
partial def readBytes (stdin : IO.FS.Stream) (line : Array UInt8) : IO (Array UInt8) := do
  let bytes ← stdin.read 1
  match bytes.data[0]? with
  | none => return line
  | some b => if b = 10 then return line.push b else readBytes stdin (line.push b)

def readSource (path : String) : IO (Except ReadError String) := do
  try
    return decodeText (← IO.FS.readBinFile path)
  catch
    | .noFileOrDirectory .. => return .error .notFound
    | .inappropriateType _ code _ =>
      return .error (if code = 21 then .isDirectory else .notDirectory)
    | e => return .error (.other (toString e))

def usage (_ : Refusal) : String := "Usage: reef [OPTIONS] <FILES>...\n"

def levelText : Level → String
  | .warn => " WARN "
  | .debug => "DEBUG "
  | .trace => "TRACE "

def stopText : Option Stop → String
  | none => "None"
  | some .halted => "Halted"
  | some (.failed fault) => "Failed(" ++ fault.message ++ ")"
  | some .blocked => "Blocked"
  | some .cancelled => "Cancelled"
  | some .stepLimit => "StepLimit"

def fields : Event → List (String × String)
  | .loaded width height => [("width", toString width), ("height", toString height)]
  | .executing x y c =>
    [("x", toString x), ("y", toString y), ("instruction", Text.quotedChar c)]
  | .halted steps => [("steps", toString steps)]
  | .waiting x y => [("x", toString x), ("y", toString y)]
  | .failed x y fault => [("x", toString x), ("y", toString y), ("error", fault.message)]
  | .batchFinished steps total stop =>
    [("steps", toString steps), ("total", toString total), ("stop", stopText stop)]

def logLine (e : Event) : String :=
  levelText e.level ++ e.message ++
    String.join ((fields e).map fun (name, value) => " " ++ name ++ "=" ++ value) ++ "\n"

def writeLog (events : List Event) : IO Unit := events.forM fun e => IO.eprint (logLine e)

def finish (outcome : Outcome) : IO UInt32 := do
  writeLog outcome.log
  outcome.sideLogs.forM writeLog
  IO.print outcome.stdout
  (← IO.getStdout).flush
  IO.eprint outcome.message
  return UInt32.ofNat outcome.exit

partial def converse (delay : Nat) (filter : Filter) (scheduler : Scheduler Program) :
    IO UInt32 := do
  let (report, events, scheduler) := scheduler.runBatchLogged filter
  writeLog events
  IO.print report.output
  (← IO.getStdout).flush
  match sequel scheduler.totalSteps report.stop with
  | .batch =>
    if delay ≠ 0 then IO.sleep (UInt32.ofNat (min delay (UInt32.size - 1)))
    converse delay filter scheduler
  | .line =>
    let line := Line.ofBytes (← readBytes (← IO.getStdin) #[]).toList
    match answer line scheduler with
    | .ok scheduler => converse delay filter scheduler
    | .error complaint => finish { exit := 1, stdout := "", message := complaint }
  | .exit code complaint => finish { exit := code, stdout := "", message := complaint }

def command (args : List String) : IO UInt32 := do
  match Options.ofArgs args with
  | .error refusal => finish (refusal.outcome usage)
  | .ok o =>
    let entropy ← IO.getRandomBytes 8
    let sources ← o.files.mapM fun path => do return (path, ← readSource path)
    let filter := o.filter none
    let (events, programs) :=
      o.loadAll (entropy.foldl (fun n b => n * 256 + b.toUInt64) 0) sources
    let log := events.filter filter
    match o.plan programs with
    | .refuse complaint => finish { exit := 1, stdout := "", message := complaint, log := log }
    | .session scheduler =>
      writeLog log
      converse o.delay filter scheduler
    | .report limit programs => finish (report filter log limit programs)

end Fish.Main

def main (args : List String) : IO UInt32 := Fish.Main.command args
