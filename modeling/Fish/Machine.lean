import Fish.Program

/-!
Machines: what a scheduler can drive, one cycle at a time. A machine that has terminated
must keep saying so. Programs are the machines at hand.
-/

namespace Fish

class Machine (μ : Type) where
  advance : μ → Step × μ
  hasTerminated : μ → Bool
  read : EStateM NoOutput μ String
  isTerminal_of_hasTerminated :
    ∀ m : μ, hasTerminated m = true → (advance m).1.isTerminal = true

theorem Termination.isTerminal_step (t : Termination) : t.step.isTerminal = true := by
  cases t <;> rfl

theorem Program.isTerminal_of_hasTerminated (p : Program) (ended : p.hasTerminated = true) :
    p.advance.1.isTerminal = true := by
  unfold Program.hasTerminated at ended
  cases h : p.termination with
  | none => simp [h] at ended
  | some t =>
    have : p.advance = (t.step, p) := by simp [Program.advance, h]
    rw [this]
    exact t.isTerminal_step

instance : Machine Program where
  advance := Program.advance
  hasTerminated := Program.hasTerminated
  read := Program.read
  isTerminal_of_hasTerminated := Program.isTerminal_of_hasTerminated

end Fish
