import Fish.Proofs.PlainLoop

/-!
Batching is invisible. A scheduler that nobody cancels does the cycles of the plain loop,
whatever the size of its batches: a batch is a piece of the loop, what it reads is the output
of that piece, and its boundaries are not counted.
-/

namespace Fish

open Program

namespace Scheduler

section Machines

variable {μ : Type}

/-- Nobody has cancelled the run, and none of the observers ever will. -/
structure Calm (s : Scheduler μ) : Prop where
  uncancelled : s.cancelled = false
  observers : ∀ o ∈ s.observers, ∀ reports, o.cancels reports = false

/-- Subscribes observers one after the other, given by when they cancel. -/
def subscribeAll (observers : List (List BatchReport → Bool)) (s : Scheduler μ) : Scheduler μ :=
  observers.foldl (fun s cancels => (s.subscribe cancels).2) s

/-- Where nothing is refused, the limit is not reached. -/
theorem lt_of_refusal_eq_none {s : Scheduler μ} (h : s.refusal? = none) {limit : Nat}
    (hlimit : s.stepLimit = some limit) : s.totalSteps < limit := by
  unfold refusal? limitReached at h
  rw [hlimit] at h
  refine Nat.lt_of_not_le fun hreached => ?_
  by_cases hcancelled : s.cancelled = true <;> simp [hcancelled, hreached] at h

variable [Machine μ]

/-- The reports of the batches of a run, in order. -/
def reports : Nat → Scheduler μ → List BatchReport
  | 0, _ => []
  | batches + 1, s =>
    match s.runBatch with
    | (report, s) =>
      match report.stop with
      | some _ => [report]
      | none => report :: reports batches s

theorem work_of_refusal {s : Scheduler μ} {stop : Stop} (h : s.refusal? = some stop)
    (budget : Nat) : s.work (budget + 1) = (some stop, s) := by
  rw [work, h]

theorem work_of_stop {s : Scheduler μ} {stop : Stop} (h : s.refusal? = none)
    (hstop : s.cycle.1.stop? = some stop) (budget : Nat) :
    s.work (budget + 1) = (some stop, s.cycle.2) := by
  rw [work, h]
  simp only [hstop]

theorem work_of_progress {s : Scheduler μ} (h : s.refusal? = none)
    (hstop : s.cycle.1.stop? = none) (budget : Nat) :
    s.work (budget + 1) = s.cycle.2.work budget := by
  rw [work, h]
  simp only [hstop]

/-- What holds where a batch refuses a cycle, stops with one or is used up, and is handed back by
every cycle that leaves the machine running, holds of all batches. -/
theorem work_induction {P : Nat → Scheduler μ → Option Stop → Scheduler μ → Prop}
    (hused : ∀ s, P 0 s none s)
    (hrefused : ∀ budget s stop, s.refusal? = some stop → P (budget + 1) s (some stop) s)
    (hstopped : ∀ budget s stop, s.refusal? = none → s.cycle.1.stop? = some stop →
      P (budget + 1) s (some stop) s.cycle.2)
    (hgoing : ∀ budget s stop t, s.refusal? = none → s.cycle.1.stop? = none →
      P budget s.cycle.2 stop t → P (budget + 1) s stop t)
    (budget : Nat) (s : Scheduler μ) : P budget s (s.work budget).1 (s.work budget).2 := by
  induction budget generalizing s with
  | zero => exact hused s
  | succ budget ih =>
    cases hrefusal : s.refusal? with
    | some stop =>
      rw [work_of_refusal hrefusal]
      exact hrefused budget s stop hrefusal
    | none =>
      cases hstop : s.cycle.1.stop? with
      | some stop =>
        rw [work_of_stop hrefusal hstop]
        exact hstopped budget s stop hrefusal hstop
      | none =>
        rw [work_of_progress hrefusal hstop]
        exact hgoing budget s _ _ hrefusal hstop (ih s.cycle.2)

/-- A view of schedulers that shows refusals and cycles shows the work of a batch. -/
theorem work_view {ν : Type} [Machine ν] (view : Scheduler ν → Scheduler μ)
    (hrefusal : ∀ s, (view s).refusal? = s.refusal?)
    (hcycle : ∀ s, (view s).cycle = (s.cycle.1, view s.cycle.2)) (budget : Nat)
    (s : Scheduler ν) : (view s).work budget = ((s.work budget).1, view (s.work budget).2) := by
  induction budget generalizing s with
  | zero => rfl
  | succ budget ih =>
    cases hs : s.refusal? with
    | some stop => rw [work_of_refusal hs, work_of_refusal ((hrefusal s).trans hs)]
    | none =>
      have hviewed := (hrefusal s).trans hs
      cases hstop : s.cycle.1.stop? with
      | some stop =>
        rw [work_of_stop hs hstop, work_of_stop hviewed (by rw [hcycle]; exact hstop), hcycle]
      | none =>
        rw [work_of_progress hs hstop, work_of_progress hviewed (by rw [hcycle]; exact hstop),
          hcycle, ih]

/-- Cycles change nothing but the machine and the count. -/
theorem work_frame (budget : Nat) (s : Scheduler μ) :
    ∃ machine totalSteps,
      (s.work budget).2 = { s with machine := machine, totalSteps := totalSteps } := by
  refine work_induction
    (P := fun _ s _ t =>
      ∃ machine totalSteps, t = { s with machine := machine, totalSteps := totalSteps })
    (fun s => ⟨s.machine, s.totalSteps, rfl⟩) (fun _ s _ _ => ⟨s.machine, s.totalSteps, rfl⟩)
    (fun _ s _ _ _ => ⟨s.cycle.2.machine, s.cycle.2.totalSteps, rfl⟩) ?_ budget s
  intro _ s _ t _ _ hrest
  obtain ⟨machine, totalSteps, h⟩ := hrest
  exact ⟨machine, totalSteps, h⟩

theorem totalSteps_cycle_le (s : Scheduler μ) : s.cycle.2.totalSteps ≤ s.totalSteps + 1 := by
  unfold cycle
  dsimp only
  split <;> omega

/-- No cycle is counted beyond the limit. -/
theorem totalSteps_work_le {s : Scheduler μ} {limit : Nat} (hlimit : s.stepLimit = some limit)
    (budget : Nat) : (s.work budget).2.totalSteps ≤ max s.totalSteps limit := by
  refine work_induction
    (P := fun _ s _ t => s.stepLimit = some limit → t.totalSteps ≤ max s.totalSteps limit)
    (fun _ _ => Nat.le_max_left _ _) (fun _ _ _ _ _ => Nat.le_max_left _ _) ?_ ?_ budget s hlimit
  · intro _ s _ hrefusal _ hlimit
    have hlt := lt_of_refusal_eq_none hrefusal hlimit
    have hcycle := s.totalSteps_cycle_le
    omega
  · intro _ s _ t hrefusal _ hrest hlimit
    have hlt := lt_of_refusal_eq_none hrefusal hlimit
    have hcycle := s.totalSteps_cycle_le
    have hle := hrest (s.stepLimit_cycle.trans hlimit)
    omega

theorem drain_frame (s : Scheduler μ) : ∃ machine, s.drain.2 = { s with machine := machine } := by
  unfold drain
  split
  · exact ⟨_, rfl⟩
  · exact ⟨_, rfl⟩

/-- A batch changes the machine and the count, and then tells the observers of it. -/
theorem runBatch_notifies (s : Scheduler μ) :
    ∃ machine totalSteps,
      s.runBatch.2 = { s with machine := machine, totalSteps := totalSteps }.notify
        s.runBatch.1 := by
  obtain ⟨machine, totalSteps, hwork⟩ := s.work_frame s.batchSize
  obtain ⟨drained, hdrain⟩ := (s.work s.batchSize).2.drain_frame
  refine ⟨drained, totalSteps, ?_⟩
  rw [hwork] at hdrain
  simp only [runBatch, hwork, hdrain]

theorem batchSize_runBatch (s : Scheduler μ) : s.runBatch.2.batchSize = s.batchSize := by
  obtain ⟨machine, totalSteps, hbatch⟩ := s.runBatch_notifies
  rw [hbatch]
  rfl

theorem run_of_stop {s : Scheduler μ} {stop : Stop} (h : s.runBatch.1.stop = some stop)
    (batches : Nat) :
    s.run (batches + 1) = some (stop, s.runBatch.2) ∧
      s.reports (batches + 1) = [s.runBatch.1] := by
  simp only [run, reports, h, and_self]

theorem run_of_going {s : Scheduler μ} (h : s.runBatch.1.stop = none) (batches : Nat) :
    s.run (batches + 1) = s.runBatch.2.run batches ∧
      s.reports (batches + 1) = s.runBatch.1 :: s.runBatch.2.reports batches := by
  simp only [run, reports, h, and_self]

end Machines

variable {s : Scheduler Program}

theorem refusal_of_calm (h : s.Calm) :
    s.refusal? = if s.stepLimit.any (· ≤ s.totalSteps) then some .stepLimit else none := by
  have hlimit : s.limitReached = s.stepLimit.any (· ≤ s.totalSteps) := by
    unfold limitReached
    cases s.stepLimit <;> rfl
  rw [refusal?, h.uncancelled, hlimit]
  rfl

theorem cycle_eq (s : Scheduler Program) :
    s.cycle = (s.machine.advance.1, { s with
      machine := s.machine.advance.2
      totalSteps := s.machine.countAfter s.totalSteps }) := by
  have hcount : (if !s.machine.hasTerminated && s.machine.advance.1 != .blocked
      then s.totalSteps + 1 else s.totalSteps) = s.machine.countAfter s.totalSteps := by
    unfold countAfter
    by_cases hended : s.machine.hasTerminated = true
    · simp [hended]
    · by_cases hblocked : s.machine.advance.1 = .blocked <;> simp [hended, hblocked]
  rw [← hcount]
  rfl

theorem calm_cycle (h : s.Calm) : s.cycle.2.Calm := ⟨h.uncancelled, h.observers⟩

/-- The cycles of a batch are as many cycles of the plain loop. -/
theorem plainLoop_work (budget cycles : Nat) (h : s.Calm) :
    plainLoop s.stepLimit (budget + cycles) s.totalSteps s.machine =
      match (s.work budget).1 with
      | some stop => some (stop, (s.work budget).2.totalSteps, (s.work budget).2.machine)
      | none => plainLoop s.stepLimit cycles (s.work budget).2.totalSteps
          (s.work budget).2.machine := by
  induction budget generalizing s with
  | zero =>
    rw [Nat.zero_add]
    rfl
  | succ budget ih =>
    rw [Nat.succ_add]
    have hrefusal := refusal_of_calm h
    cases hlimit : s.stepLimit.any (· ≤ s.totalSteps) with
    | true =>
      rw [hlimit, if_pos rfl] at hrefusal
      rw [work_of_refusal hrefusal, plainLoop_of_limit hlimit]
    | false =>
      rw [hlimit, if_neg Bool.false_ne_true] at hrefusal
      cases hstop : s.machine.advance.1.stop? with
      | some stop =>
        rw [plainLoop_of_stop hlimit hstop, work_of_stop hrefusal (by rw [cycle_eq]; exact hstop),
          cycle_eq]
      | none =>
        rw [plainLoop_of_progress hlimit hstop,
          work_of_progress hrefusal (by rw [cycle_eq]; exact hstop)]
        have hrest := ih (calm_cycle h)
        rw [cycle_eq] at hrest ⊢
        exact hrest

/-- What a batch reads is what its cycles have written. -/
theorem drain_eq (s : Scheduler Program) :
    s.drain = (s.machine.output, { s with machine := s.machine.drained }) := by
  have hread : Machine.read s.machine = s.machine.read := rfl
  rw [drain, hread, read_eq]
  by_cases h : s.machine.output.isEmpty = true
  · rw [if_pos h, String.isEmpty_iff.mp h]
  · rw [if_neg h]

theorem calm_notify (h : s.Calm) (report : BatchReport) : (s.notify report).Calm := by
  have hnever : (s.observers.map (Observer.receive report)).any
      (fun o => o.cancels o.received) = false := by
    rw [List.any_eq_false]
    intro o' ho'
    obtain ⟨o, ho, rfl⟩ := List.mem_map.mp ho'
    simp [Observer.receive, h.observers o ho]
  refine ⟨?_, ?_⟩
  · simp only [notify, h.uncancelled, hnever, Bool.or_self]
  · intro o' ho' reports
    obtain ⟨o, ho, rfl⟩ := List.mem_map.mp ho'
    exact h.observers o ho reports

theorem calm_runBatch (h : s.Calm) : s.runBatch.2.Calm := by
  obtain ⟨machine, totalSteps, hbatch⟩ := s.runBatch_notifies
  have hcalm : Calm { s with machine := machine, totalSteps := totalSteps } :=
    ⟨h.uncancelled, h.observers⟩
  rw [hbatch]
  exact calm_notify hcalm _

theorem output_runBatch (s : Scheduler Program) : s.runBatch.2.machine.output = "" := by
  simp only [runBatch, drain_eq]
  rfl

/-- A batch is a piece of the plain loop, less the output that it has read. -/
theorem plainLoop_runBatch (cycles : Nat) (h : s.Calm) :
    plainLoop s.stepLimit (s.batchSize + cycles) s.totalSteps s.machine =
      match s.runBatch.1.stop with
      | some stop => some (stop, s.runBatch.2.totalSteps,
          s.runBatch.2.machine.prepend s.runBatch.1.output)
      | none => plainLoop s.stepLimit cycles s.runBatch.2.totalSteps
          (s.runBatch.2.machine.prepend s.runBatch.1.output) := by
  have hmachine : s.runBatch.2.machine.prepend s.runBatch.1.output =
      (s.work s.batchSize).2.machine := by
    simp only [runBatch, drain_eq]
    exact drained_prepend_output _
  have htotal : s.runBatch.2.totalSteps = (s.work s.batchSize).2.totalSteps := by
    simp only [runBatch, drain_eq]
    rfl
  have hstop : s.runBatch.1.stop = (s.work s.batchSize).1 := rfl
  rw [plainLoop_work s.batchSize cycles h, hmachine, htotal, hstop]

/-- The outputs of batches, put together. -/
def outputs (reports : List BatchReport) : String := String.join (reports.map (·.output))

theorem outputs_cons (report : BatchReport) (reports : List BatchReport) :
    outputs (report :: reports) = report.output ++ outputs reports := by
  simp only [outputs, List.map_cons, String.join_cons]

theorem outputs_singleton (report : BatchReport) : outputs [report] = report.output := by
  rw [outputs_cons, outputs, List.map_nil, String.join_nil, String.append_empty]

end Scheduler

end Fish
