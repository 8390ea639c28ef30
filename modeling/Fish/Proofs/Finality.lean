import Fish.Proofs.Cancellation
import Fish.Proofs.Lifetime

/-!
The end of a program is final. A scheduler whose program has ended does no more steps and reads no
more output, whatever is asked of it; and as its count stands still, it gives the same reason for
that again and again. The step limit comes before the end of the program, so that it is the reason
where it has been reached.
-/

namespace Fish

/-- The reason that a batch gives when it meets the end of a program. -/
def Termination.stop : Termination → Stop
  | halted => .halted
  | failed fault => .failed fault

theorem Termination.stop?_step (termination : Termination) :
    termination.step.stop? = some termination.stop := by
  cases termination <;> rfl

/-- Only the end of a program is given as such a reason. -/
theorem Termination.step_of_stop {termination : Termination} {step : Step}
    (h : step.stop? = some termination.stop) : step = termination.step := by
  cases step <;> cases termination <;> cases h <;> rfl

namespace Program

/-- An ended program is left ended by every call, and without output if it has none. -/
theorem respond_of_ended {p : Program} {termination : Termination}
    (h : p.termination = some termination) (houtput : p.output = "") (call : Call) :
    (p.respond call).2.termination = some termination ∧ (p.respond call).2.output = "" := by
  refine ⟨termination_replay h [call], ?_⟩
  by_cases hadvance : call = .advance
  · rw [hadvance, respond, advance_of_ended h]
    exact houtput
  · by_cases hread : call = .read
    · rw [hread, respond_read]
      rfl
    · rw [(output_respond hadvance hread p).1, houtput]

end Program

namespace Scheduler

section Refusals

variable {μ : Type} {s : Scheduler μ}

/-- What stops a batch is the limit, where it is reached, and otherwise what comes up. -/
theorem refusal_getD (h : s.cancelled = false) (stop : Stop) :
    s.refusal?.getD stop = if s.limitReached then .stepLimit else stop := by
  rw [refusal?, h]
  cases s.limitReached <;> rfl

theorem refusal_ne_stop (s : Scheduler μ) (termination : Termination) :
    s.refusal? ≠ some termination.stop := by
  unfold refusal?
  intro h
  split at h
  · cases termination <;> cases h
  · split at h
    · cases termination <;> cases h
    · cases h

end Refusals

variable {s : Scheduler Program} {termination : Termination}

/-- A batch that gives the end of the program as its reason leaves it ended. -/
theorem ended_of_stop_work (budget : Nat) (h : (s.work budget).1 = some termination.stop) :
    (s.work budget).2.machine.termination = some termination := by
  refine work_induction
    (P := fun _ _ stop t =>
      stop = some termination.stop → t.machine.termination = some termination)
    ?_ ?_ ?_ ?_ budget s h
  · intro _ h
    cases h
  · intro _ s stop hrefusal h
    exact absurd (hrefusal.trans h) (s.refusal_ne_stop termination)
  · intro _ s stop _ hstop h
    exact (s.machine.termination_advance_iff termination).mpr
      (Termination.step_of_stop (hstop.trans h))
  · intro _ s stop t _ _ hrest
    exact hrest

theorem ended_of_stop (h : s.runBatch.1.stop = some termination.stop) :
    s.runBatch.2.machine.termination = some termination := by
  have hended := ended_of_stop_work s.batchSize h
  simp only [runBatch, drain_eq]
  exact hended

/-- A cycle of an ended program changes nothing, and it is not counted. -/
theorem cycle_of_ended (h : s.machine.termination = some termination) :
    s.cycle = (termination.step, s) := by
  have hcount : s.machine.countAfter s.totalSteps = s.totalSteps :=
    if_pos (.inl (Option.isSome_iff_exists.mpr ⟨termination, h⟩))
  rw [cycle_eq, hcount, Program.advance_of_ended h]

theorem work_of_ended (h : s.machine.termination = some termination) :
    s.work s.batchSize = (some (s.refusal?.getD termination.stop), s) := by
  cases hrefusal : s.refusal? with
  | some stop => exact work_batch_of_refusal hrefusal
  | none =>
    have hstop : s.cycle.1.stop? = some termination.stop := by
      rw [cycle_of_ended h]
      exact termination.stop?_step
    obtain ⟨budget, hsize⟩ := s.exists_batchSize
    rw [hsize, work_of_stop hrefusal hstop, cycle_of_ended h]
    rfl

/-- A batch of an ended program only reads what it has left. -/
theorem runBatch_of_ended (h : s.machine.termination = some termination) :
    s.runBatch.1 = ⟨0, s.machine.output, some (s.refusal?.getD termination.stop)⟩ ∧
      s.runBatch.2 = { s with machine := s.machine.drained }.notify s.runBatch.1 := by
  simp only [runBatch, work_of_ended h, drain_eq, Nat.sub_self, and_self]

/-- The program has ended, all its output was read, and the limit is reached or not. -/
structure Over (termination : Termination) (reached : Bool) (s : Scheduler Program) : Prop where
  ended : s.machine.termination = some termination
  silent : s.machine.output = ""
  limit : s.limitReached = reached

theorem lasting_over (termination : Termination) (reached : Bool) :
    Lasting Program.respond (Over termination reached) where
  subscribe _ _ h := ⟨h.ended, h.silent, h.limit⟩
  unsubscribe _ _ h := ⟨h.ended, h.silent, h.limit⟩
  batch h := by
    rw [(runBatch_of_ended h.ended).2]
    exact ⟨h.ended, rfl, h.limit⟩
  cancel h := ⟨h.ended, h.silent, h.limit⟩
  call call s h := by
    obtain ⟨hended, hsilent⟩ := Program.respond_of_ended h.ended h.silent call
    exact ⟨hended, hsilent, h.limit⟩

theorem over_of_stop (h : s.runBatch.1.stop = some termination.stop) :
    s.runBatch.2.Over termination s.runBatch.2.limitReached :=
  ⟨ended_of_stop h, s.output_runBatch, rfl⟩

theorem runBatch_of_over {reached : Bool} (h : s.Over termination reached)
    (hcancelled : s.cancelled = false) :
    s.runBatch.1 = ⟨0, "", some (if reached then .stepLimit else termination.stop)⟩ := by
  rw [(runBatch_of_ended h.ended).1, h.silent, refusal_getD hcancelled, h.limit]

/-- All that comes of an ended program is the output that it has left. -/
theorem collect_of_ended (h : s.machine.termination = some termination)
    (hcancelled : s.cancelled = false) (batches : Nat) :
    s.collect (batches + 1) "" =
      some (⟨s.machine.output, if s.limitReached then .stepLimit else termination.stop,
        s.totalSteps⟩, s.machine.drained) := by
  obtain ⟨hreport, hafter⟩ := runBatch_of_ended h
  obtain ⟨hrun, hreports⟩ := run_of_stop (congrArg BatchReport.stop hreport) batches
  rw [collect_eq, hrun, hreports, outputs_singleton, Option.map_some, hafter, hreport,
    refusal_getD hcancelled, String.empty_append]
  rfl

end Scheduler

theorem Program.runToCompletion_of_ended {p : Program} {termination : Termination}
    (h : p.termination = some termination) (limit : Nat) :
    p.runToCompletion limit =
      (⟨p.output, if limit = 0 then .stepLimit else termination.stop, 0⟩, p.drained) := by
  have hreached : (Scheduler.ofMachine p { stepLimit := some limit }).limitReached =
      decide (limit = 0) := decide_eq_decide.mpr Nat.le_zero
  have hended : (Scheduler.ofMachine p { stepLimit := some limit }).machine.termination =
      some termination := h
  have hcollect := p.collect_runToCompletion limit
  rw [Scheduler.collect_of_ended hended rfl, hreached, Option.some.injEq] at hcollect
  rw [← hcollect]
  simp only [decide_eq_true_eq]
  rfl

/-- The end of a program is final: whatever is asked later, as long as nobody cancels, all batches
and runs do nothing and give the same reason, or the step limit where it was reached with the end.
-/
theorem end_is_final (termination : Termination) :
    (∀ s : Scheduler Program, s.runBatch.1.stop = some termination.stop →
      ∀ later : List Request,
        let t := (s.runBatch.2.serveAll later).2
        let report : BatchReport :=
          ⟨0, "", some (if s.runBatch.2.limitReached then .stepLimit else termination.stop)⟩
        t.cancelled = false →
          t.runBatch.1 = report ∧
          ∀ batches, (t.run (batches + 1)).map Prod.fst = report.stop ∧
            t.reports (batches + 1) = [report]) ∧
    ∀ (p : Program) (limit : Nat), p.termination = some termination →
      p.runToCompletion limit =
        (⟨p.output, if limit = 0 then .stepLimit else termination.stop, 0⟩, p.drained) := by
  refine ⟨?_, fun p limit h => Program.runToCompletion_of_ended h limit⟩
  intro s hstop later t report hcancelled
  have hover : t.Over termination s.runBatch.2.limitReached :=
    (Scheduler.lasting_over termination _).serveAllBy later (Scheduler.over_of_stop hstop)
  have hreport : t.runBatch.1 = report := Scheduler.runBatch_of_over hover hcancelled
  refine ⟨hreport, fun batches => ?_⟩
  obtain ⟨hrun, hreports⟩ := Scheduler.run_of_stop (congrArg BatchReport.stop hreport) batches
  rw [hrun, hreports, hreport]
  exact ⟨rfl, rfl⟩

/-- A program that has halted before the limit gives so each time. -/
theorem end_is_final_halted :
    let s := Scheduler.ofMachine (Program.load ";" [] 0) ⟨4, some 2⟩
    let t := (s.runBatch.2.serveAll [.batch, .call (.feed "a"), .run 3]).2
    (s.runBatch.1.stop = some Termination.halted.stop ∧ t.cancelled = false ∧
      t.runBatch.1 = ⟨0, "", some .halted⟩) ∧
    t.machine.termination = some .halted ∧
      (t.machine.runToCompletion 1).1 = ⟨"", .halted, 0⟩ := by
  intro s t
  obtain ⟨hbatches, hruns⟩ := end_is_final .halted
  have hstop : s.runBatch.1.stop = some Termination.halted.stop := by decide
  have hcancelled : t.cancelled = false := by decide
  have hended : t.machine.termination = some .halted := by decide
  refine ⟨⟨hstop, hcancelled, ?_⟩, hended, ?_⟩
  · exact (hbatches s hstop [.batch, .call (.feed "a"), .run 3] hcancelled).1
  · have houtput : t.machine.output = "" := by decide
    rw [hruns t.machine 1 hended, houtput]
    rfl

/-- A program whose end comes with the last step that it is allowed gives that end once, and from
then on the limit. -/
theorem end_is_final_but_for_limit :
    let s := Scheduler.ofMachine (Program.load ";" [] 0) ⟨1024, some 1⟩
    (s.runBatch.1 = ⟨1, "", some .halted⟩ ∧ s.runBatch.2.cancelled = false ∧
      s.runBatch.2.runBatch.1 = ⟨0, "", some .stepLimit⟩) ∧
    s.runBatch.2.machine.termination = some .halted ∧
      (s.runBatch.2.machine.runToCompletion 0).1.stop = .stepLimit := by
  intro s
  have hbatches : s.runBatch.1 = ⟨1, "", some .halted⟩ ∧ s.runBatch.2.cancelled = false ∧
      s.runBatch.2.runBatch.1 = ⟨0, "", some .stepLimit⟩ := by decide
  have hended : s.runBatch.2.machine.termination = some .halted := by decide
  refine ⟨hbatches, hended, ?_⟩
  rw [Program.runToCompletion_of_ended hended]
  rfl

end Fish
