import Fish.Proofs.Calls

/-!
The lifetime of a program. It ends at most once, when a cycle says so, and from then on it is as
it was. As long as it runs, every cycle is counted that did not have to wait, the last one too.
-/

namespace Fish

theorem Termination.step_inj {s t : Termination} : s.step = t.step ↔ s = t := by
  constructor
  · intro h
    cases s <;> cases t <;> cases h <;> rfl
  · exact congrArg Termination.step

theorem Step.isTerminal_iff (step : Step) :
    step.isTerminal = true ↔ ∃ termination : Termination, step = termination.step := by
  constructor
  · intro h
    cases step with
    | progressed => cases h
    | blocked => cases h
    | halted => exact ⟨.halted, rfl⟩
    | failed fault => exact ⟨.failed fault, rfl⟩
  · intro h
    obtain ⟨termination, rfl⟩ := h
    exact termination.isTerminal_step

namespace Program

/-- The next cycle is one that is counted: the program runs, and need not wait. -/
def Counts (p : Program) : Prop := p.termination = none ∧ p.advance.1 ≠ .blocked

instance (p : Program) : Decidable p.Counts := inferInstanceAs (Decidable (_ ∧ _))

/-- A cycle leaves a program ended if and only if its step says how. -/
theorem termination_advance_iff (p : Program) (termination : Termination) :
    p.advance.2.termination = some termination ↔ p.advance.1 = termination.step := by
  have hcycle := p.cycle_advance
  generalize p.advance = outcome at hcycle
  obtain ⟨step, q⟩ := outcome
  cases hcycle with
  | ended hended hstep =>
    rw [← hstep, hended, Option.some.injEq]
    exact Termination.step_inj.symm
  | waiting hrunning _ =>
    rw [hrunning]
    cases termination <;> simp [Termination.step]
  | @failing fault _ _ =>
    rw [Option.some.injEq]
    exact (Termination.step_inj (s := .failed fault)).symm
  | halting _ _ =>
    rw [Option.some.injEq]
    exact (Termination.step_inj (s := .halted)).symm
  | going hrunning _ _ =>
    dsimp only
    rw [hrunning]
    cases termination <;> simp [Termination.step]

theorem steps_advance (p : Program) :
    p.advance.2.steps = p.steps + if p.Counts then 1 else 0 := by
  have hcycle := p.cycle_advance
  have hcounts : p.Counts ↔ p.termination = none ∧ p.advance.1 ≠ .blocked := Iff.rfl
  generalize p.advance = outcome at hcycle hcounts
  obtain ⟨step, q⟩ := outcome
  cases hcycle with
  | ended hended _ =>
    dsimp only at hended hcounts
    simp [hcounts, hended]
  | waiting _ _ => simp [hcounts]
  | failing hrunning _ => simp [hcounts, hrunning]
  | halting hrunning _ => simp [hcounts, hrunning]
  | going hrunning _ _ => simp [hcounts, hrunning]

theorem steps_respond_of_ne {call : Call} (h : call ≠ .advance) (p : Program) :
    (p.respond call).2.steps = p.steps := by
  obtain ⟨answer, ch, -, hrespond⟩ := respond_of_ne h p
  rw [hrespond]
  rfl

/-- The steps of a program are the counted cycles among all those that it was made to try. -/
theorem steps_replay (calls : List Call) (p : Program) :
    (p.replay calls).2.steps = p.steps + (advanced calls p).countP (·.Counts) := by
  induction calls generalizing p with
  | nil => rfl
  | cons call calls ih =>
    rw [replay_cons, ih]
    by_cases hadvance : call = .advance
    · subst hadvance
      have hsteps : (p.respond .advance).2.steps = _ := p.steps_advance
      have hmet : advanced (.advance :: calls) p =
          p :: advanced calls (p.respond .advance).2 := rfl
      rw [hsteps, hmet, List.countP_cons]
      simp only [decide_eq_true_eq]
      omega
    · rw [steps_respond_of_ne hadvance, advanced_of_ne hadvance]

theorem length_advanced_le (calls : List Call) (p : Program) :
    (advanced calls p).length ≤ calls.length := by
  induction calls generalizing p with
  | nil => exact Nat.le_refl 0
  | cons call calls ih =>
    have hrest := ih (p.respond call).2
    rw [advanced, List.length_append, List.length_cons]
    split <;> simp only [List.length_singleton, List.length_nil] <;> omega

/-- Once ended, a program stays so whatever is done to it. -/
theorem termination_replay {p : Program} {termination : Termination}
    (h : p.termination = some termination) (calls : List Call) :
    (p.replay calls).2.termination = some termination := by
  refine replay_keeps (P := fun q => q.termination = some termination) ?_ ?_ h calls
  · intro q hq
    rw [advance_of_ended hq]
    exact hq
  · intro q ch hq
    exact hq

end Program

open Program in
/-- A program ends at most once, and its steps are counted exactly: they are the cycles that were
tried while it ran and did not have to wait. -/
theorem ends_once (source : String) (values : List Value) (seed : UInt64) (calls : List Call) :
    let p := load source values seed
    let q := (p.replay calls).2
    p.termination = none ∧
    (∀ termination, q.termination = some termination →
      q.advance = (termination.step, q) ∧
        ∀ later, (q.replay later).2.termination = some termination) ∧
    (∀ call, call ≠ .advance → ∃ answer ch, q.respond call = (answer, q.withChannel ch)) ∧
    (∀ termination,
      q.advance.2.termination = some termination ↔ q.advance.1 = termination.step) ∧
    (q.advance.1.isTerminal = true ↔ q.advance.2.termination ≠ none) ∧
    q.steps = (advanced calls p).countP (·.Counts) ∧ q.steps ≤ calls.length := by
  intro p q
  have hsteps : q.steps = (advanced calls p).countP (·.Counts) :=
    (steps_replay calls p).trans (Nat.zero_add _)
  refine ⟨rfl, fun termination hended => ?_, fun call hcall => ?_, q.termination_advance_iff, ?_,
    hsteps, ?_⟩
  · exact ⟨advance_of_ended hended, termination_replay hended⟩
  · obtain ⟨answer, ch, -, hrespond⟩ := respond_of_ne hcall q
    exact ⟨answer, ch, hrespond⟩
  · simp only [Step.isTerminal_iff, ← termination_advance_iff, Option.ne_none_iff_exists']
  · rw [hsteps]
    exact Nat.le_trans List.countP_le_length (length_advanced_le calls p)

open Program in
/-- A program that waits, reads, and fails on the one value it has read. -/
theorem ends_once_underflow :
    let calls : List Call := [.advance, .give "a", .advance, .advance, .advance, .read]
    let q := ((load "i+" [] 0).replay calls).2
    let fault : Fault := .stackUnderflow 2 1
    q.termination = some (.failed fault) ∧ q.advance = (.failed fault, q) ∧ q.steps = 2 ∧
      (∃ answer ch, q.respond .close = (answer, q.withChannel ch)) ∧
      ∀ later, (q.replay later).2.termination = some (.failed fault) := by
  intro calls q fault
  obtain ⟨-, hends, hcalls, -, -, hsteps, -⟩ := ends_once "i+" [] 0 calls
  have hended : q.termination = some (.failed fault) := by decide
  have hcount : (advanced calls (load "i+" [] 0)).countP (·.Counts) = 2 := by decide
  obtain ⟨hadvance, hlater⟩ := hends _ hended
  exact ⟨hended, hadvance, hsteps.trans hcount, hcalls .close (by decide), hlater⟩

end Fish
