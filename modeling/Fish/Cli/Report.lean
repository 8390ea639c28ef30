import Fish.Batch
import Fish.Cli.Session

/-!
Several programs run side by side, without further input. The output of each is shown
under its name when all have ended, and each one that did not halt is complained of.
-/

namespace Fish.Cli

/-- A program, under the name of its file, with the summary of its run. -/
structure Entry where
  path : String
  summary : Summary

namespace Entry

/-- The output under a heading, ended by a newline unless it is empty. -/
def shown (e : Entry) : String :=
  let output := e.summary.output
  let ending := match output.toList.getLast? with
    | none => ""
    | some c => if c = '\n' then "" else "\n"
  "==> " ++ e.path ++ " <==\n" ++ output ++ ending

def halted (e : Entry) : Bool := e.summary.stop == .halted

def stoppedAfter (e : Entry) (reason : String) : String :=
  e.path ++ ": stopped after " ++ toString e.summary.steps ++ " instructions (" ++ reason ++ ")\n"

/-- What is to be said of a program that did not halt. -/
def complaint (e : Entry) : String :=
  match e.summary.stop with
  | .halted => ""
  | .failed fault => e.path ++ ": " ++ faultNotice fault ++ "\n"
  | .blocked => e.stoppedAfter "Blocked"
  | .cancelled => e.stoppedAfter "Cancelled"
  | .stepLimit => e.stoppedAfter "StepLimit"

end Entry

/-- Runs the programs, and shows them in their order. `log` is what was logged before. -/
def report (filter : Filter) (log : List Event) (limit : Nat)
    (programs : List (String × Program)) : Outcome :=
  let results := Program.runAll (programs.map fun p => p.2.close) limit
  let entries := (programs.zip results).map fun (p, result) => Entry.mk p.1 result.1
  { exit := if entries.all Entry.halted then 0 else 1
    stdout := String.join (entries.map Entry.shown)
    message := String.join (entries.map Entry.complaint)
    log := log
    sideLogs := programs.map fun p => p.2.close.completionLog filter limit }

end Fish.Cli
