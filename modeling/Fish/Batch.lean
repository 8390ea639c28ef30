import Fish.Scheduler

/-!
Whole runs of programs under a step limit. Each ends, because every batch that does not
stop brings the limit nearer, and each is summed up by its output, the reason of its stop
and the number of its steps. A program is handed back in its final state, so that one that
waits for input can be given some and run again.
-/

namespace Fish

structure Summary where
  output : String
  stop : Stop
  steps : Nat
  deriving DecidableEq

namespace Scheduler

variable {μ : Type} [Machine μ]

/-- Runs batches until one stops and puts their output together after `output`. -/
def collect : Nat → String → Scheduler μ → Option (Summary × μ)
  | 0, _, _ => none
  | batches + 1, output, s =>
    match s.runBatch with
    | (report, s) =>
      match report.stop with
      | some stop => some (⟨output ++ report.output, stop, s.totalSteps⟩, s.machine)
      | none => collect batches (output ++ report.output) s

/-- As many batches as there are steps up to the limit, and one more, are enough. -/
theorem isSome_collect (batches limit : Nat) (output : String) (s : Scheduler μ)
    (limited : s.stepLimit = some limit) (enough : limit - s.totalSteps < batches) :
    (s.collect batches output).isSome = true := by
  induction batches generalizing output s with
  | zero => omega
  | succ batches ih =>
    unfold collect
    cases stopped : s.runBatch.1.stop with
    | some stop => simp [stopped]
    | none =>
      simp only [stopped]
      have below : s.totalSteps < limit := by
        refine Nat.lt_of_not_le fun reached => ?_
        exact s.stop_runBatch_of_limitReached (by simp [limitReached, limited, reached]) stopped
      have total := s.totalSteps_runBatch stopped
      have positive := s.batchSize_pos
      exact ih _ s.runBatch.2 (by simpa using limited) (by omega)

end Scheduler

namespace Program

/-- Runs a program until it stops or has done `limit` steps. -/
def runToCompletion (p : Program) (limit : Nat) : Summary × Program :=
  let s := Scheduler.ofMachine p { stepLimit := some limit }
  (s.collect (limit + 1) "").get
    (Scheduler.isSome_collect (limit + 1) limit "" s rfl (by
      show limit - 0 < limit + 1
      omega))

/-- Runs independent programs, each under the same limit. -/
def runAll (programs : List Program) (limit : Nat) : List (Summary × Program) :=
  programs.map fun p => p.runToCompletion limit

end Program

end Fish
