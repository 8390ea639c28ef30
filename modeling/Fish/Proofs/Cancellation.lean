import Fish.Proofs.BoundedRuns
import Fish.Proofs.Observers

/-!
Cancellation is final. A cancelled scheduler refuses every cycle, whatever else would stop it, and
nothing takes the cancellation back. Its batches hand over the output and tell the observers, and
that is all they do. Where an observer cancels in the middle of a run, the run has at most one more
batch.
-/

namespace Fish

namespace Scheduler

variable {μ : Type} {s : Scheduler μ}

/-- Cancellation comes before everything else that may stop a batch. -/
theorem refusal_of_cancelled (h : s.cancelled = true) : s.refusal? = some .cancelled := by
  rw [refusal?, if_pos h]

variable [Machine μ]

/-- An observer cancels when told of the next batch. -/
def Trips (s : Scheduler μ) : Prop :=
  ∃ o ∈ s.observers, o.cancels (s.runBatch.1 :: o.received) = true

instance (s : Scheduler μ) : Decidable s.Trips := inferInstanceAs (Decidable (∃ o ∈ _, _))

theorem cancelled_of_trips (h : s.Trips) : s.runBatch.2.cancelled = true := by
  obtain ⟨o, ho, hcancels⟩ := h
  obtain ⟨machine, totalSteps, hbatch⟩ := s.runBatch_notifies
  rw [hbatch, notify, Bool.or_eq_true, List.any_eq_true]
  exact .inr ⟨o.receive s.runBatch.1, List.mem_map_of_mem ho, hcancels⟩

theorem work_batch_of_refusal {stop : Stop} (h : s.refusal? = some stop) :
    s.work s.batchSize = (some stop, s) := by
  obtain ⟨budget, hsize⟩ := s.exists_batchSize
  rw [hsize, work_of_refusal h]

/-- Where the first cycle is refused, there is only output to report. -/
theorem runBatch_of_refusal {stop : Stop} (h : s.refusal? = some stop) :
    s.runBatch = (⟨0, s.drain.1, some stop⟩, s.drain.2.notify ⟨0, s.drain.1, some stop⟩) := by
  simp only [runBatch, work_batch_of_refusal h, Nat.sub_self]

theorem runBatch_of_cancelled (h : s.cancelled = true) :
    s.runBatch.1 = ⟨0, s.drain.1, some .cancelled⟩ ∧
      s.runBatch.2 = { s with
        machine := s.drain.2.machine
        observers := s.observers.map (Observer.receive s.runBatch.1)
        notified := s.notified ++ s.observers.map fun o => (o.id, s.runBatch.1) } := by
  obtain ⟨machine, hdrain⟩ := s.drain_frame
  rw [runBatch_of_refusal (refusal_of_cancelled h)]
  refine ⟨rfl, ?_⟩
  simp only [hdrain, notify, h, Bool.true_or]

/-- What was cancelled stays so, and counts no further steps. -/
theorem lasting_cancelled (answer : Call → μ → Answer × μ) (steps : Nat) :
    Lasting answer fun t => t.cancelled = true ∧ t.totalSteps = steps where
  subscribe _ _ h := h
  unsubscribe _ _ h := h
  batch h := by
    rw [(runBatch_of_cancelled h.1).2]
    exact h
  cancel h := ⟨rfl, h.2⟩
  call _ _ h := h

/-- A run that meets a cancellation is over with its first batch. -/
theorem run_of_cancelled (h : s.cancelled = true) (batches : Nat) :
    s.run (batches + 1) = some (.cancelled, s.runBatch.2) ∧
      s.reports (batches + 1) = [s.runBatch.1] :=
  run_of_stop (congrArg BatchReport.stop (runBatch_of_cancelled h).1) batches

theorem advances_of_cancelled (h : s.cancelled = true) (batches : Nat) :
    (s.metered.afterBatches batches).machine.advances = 0 := by
  have hmetered : s.metered.cancelled = true := h
  cases batches with
  | zero => rfl
  | succ batches =>
    rw [afterBatches_of_stop (congrArg BatchReport.stop (runBatch_of_cancelled hmetered).1),
      advances_runBatch, work_batch_of_refusal (refusal_of_cancelled hmetered)]
    rfl

/-- A run that has not stopped is over with the next batch that has. -/
theorem run_of_stop_after {batches : Nat} {stop : Stop} (h : s.run batches = none)
    (hstop : (s.afterBatches batches).runBatch.1.stop = some stop) (more : Nat) :
    s.run (batches + (more + 1)) = some (stop, (s.afterBatches batches).runBatch.2) ∧
      s.reports (batches + (more + 1)) =
        s.reports batches ++ [(s.afterBatches batches).runBatch.1] := by
  obtain ⟨hrun, hreports⟩ := run_add h (more + 1)
  obtain ⟨hlast, hreport⟩ := run_of_stop hstop more
  exact ⟨hrun.trans hlast, hreports.trans (congrArg _ hreport)⟩

/-- Where an observer cancels at a batch that has not stopped, the run has one more. -/
theorem run_of_trips {batches : Nat} (h : s.run batches = none)
    (htrips : (s.afterBatches batches).Trips)
    (hgoing : (s.afterBatches batches).runBatch.1.stop = none) (more : Nat) :
    s.run (batches + (more + 2)) =
        some (.cancelled, (s.afterBatches batches).runBatch.2.runBatch.2) ∧
      s.reports (batches + (more + 2)) = s.reports batches ++
        [(s.afterBatches batches).runBatch.1,
          ⟨0, (s.afterBatches batches).runBatch.2.drain.1, some .cancelled⟩] := by
  have hcancelled := cancelled_of_trips htrips
  obtain ⟨hrun, hreports⟩ := run_add h (more + 2)
  obtain ⟨hnext, hreport⟩ := run_of_going hgoing (more + 1)
  obtain ⟨hlast, hlastReport⟩ := run_of_cancelled hcancelled more
  rw [hlastReport, (runBatch_of_cancelled hcancelled).1] at hreport
  exact ⟨(hrun.trans hnext).trans hlast, hreports.trans (congrArg _ hreport)⟩

end Scheduler

/-- After a cancellation, from outside or by an observer, nothing is executed, whatever is asked: a
batch has no steps and is cancelled, and a run is over with such a batch. -/
theorem nothing_after_cancellation {μ : Type} [Machine μ] (answer : Call → μ → Answer × μ)
    (s : Scheduler μ) :
    ((s.serveBy answer .cancel).2.cancelled = true ∧
      (s.Trips → (s.serveBy answer .batch).2.cancelled = true)) ∧
    (s.cancelled = true → ∀ later : List Request,
      let t := (s.serveAllBy answer later).2
      t.cancelled = true ∧ t.totalSteps = s.totalSteps ∧
        t.runBatch.1 = ⟨0, t.drain.1, some .cancelled⟩ ∧
        t.runBatch.2 = { t with
          machine := t.drain.2.machine
          observers := t.observers.map (Observer.receive t.runBatch.1)
          notified := t.notified ++ t.observers.map fun o => (o.id, t.runBatch.1) } ∧
        ∀ batches,
          t.run (batches + 1) = some (.cancelled, t.runBatch.2) ∧
            t.reports (batches + 1) = [t.runBatch.1] ∧
            (t.metered.afterBatches batches).machine.advances = 0) ∧
    ∀ batches, s.run batches = none →
      let t := s.afterBatches batches
      t.Trips →
        t.runBatch.1 = t.unobserved.runBatch.1 ∧
        ∀ more,
          (∀ stop, t.runBatch.1.stop = some stop →
            s.run (batches + (more + 1)) = some (stop, t.runBatch.2) ∧
              s.reports (batches + (more + 1)) = s.reports batches ++ [t.runBatch.1]) ∧
          (t.runBatch.1.stop = none →
            s.run (batches + (more + 2)) = some (.cancelled, t.runBatch.2.runBatch.2) ∧
              s.reports (batches + (more + 2)) = s.reports batches ++
                [t.runBatch.1, ⟨0, t.runBatch.2.drain.1, some .cancelled⟩]) := by
  refine ⟨⟨rfl, Scheduler.cancelled_of_trips⟩, ?_, ?_⟩
  · intro hcancelled later t
    obtain ⟨ht, hsteps⟩ := (Scheduler.lasting_cancelled answer s.totalSteps).serveAllBy later
      ⟨hcancelled, rfl⟩
    obtain ⟨hreport, hafter⟩ := Scheduler.runBatch_of_cancelled ht
    refine ⟨ht, hsteps, hreport, hafter, fun batches => ?_⟩
    obtain ⟨hrun, hreports⟩ := Scheduler.run_of_cancelled ht batches
    exact ⟨hrun, hreports, Scheduler.advances_of_cancelled ht batches⟩
  · intro batches hrun t htrips
    refine ⟨t.runBatch_unobserved.1.symm, fun more => ⟨?_, ?_⟩⟩
    · intro stop hstop
      exact Scheduler.run_of_stop_after hrun hstop more
    · intro hgoing
      exact Scheduler.run_of_trips hrun htrips hgoing more

/-- An observer cancels at the second report of a run that would go on for ever. Input that comes
later is taken, but nothing is executed. -/
theorem nothing_after_cancellation_secondReport :
    let cancels (reports : List BatchReport) := decide (2 ≤ reports.length)
    let s := ((Scheduler.ofMachine (Program.load "1" [] 0) ⟨1, none⟩).subscribe cancels).2
    (s.run 1 = none ∧ (s.afterBatches 1).Trips ∧
      (s.run 3).map Prod.fst = some .cancelled ∧
      s.reports 3 = [⟨1, "", none⟩, ⟨1, "", none⟩, ⟨0, "", some .cancelled⟩]) ∧
    let t := s.afterBatches 3
    t.cancelled = true ∧
      (t.serveAllBy Program.respond [.call (.feed "a"), .run 5, .batch]).2.totalSteps = 2 := by
  intro cancels s
  obtain ⟨-, -, hduring⟩ := nothing_after_cancellation Program.respond s
  have hgoing : s.run 1 = none := rfl
  have htrips : (s.afterBatches 1).Trips := by decide
  have hstop : (s.afterBatches 1).runBatch.1.stop = none := by decide
  obtain ⟨hrun, hreported⟩ := ((hduring 1 hgoing htrips).2 0).2 hstop
  have hreports : (s.reports 1 ++ [(s.afterBatches 1).runBatch.1,
      ⟨0, (s.afterBatches 1).runBatch.2.drain.1, some .cancelled⟩]) =
      [⟨1, "", none⟩, ⟨1, "", none⟩, ⟨0, "", some .cancelled⟩] := by decide
  refine ⟨⟨hgoing, htrips, congrArg _ hrun, hreported.trans hreports⟩, ?_⟩
  intro t
  obtain ⟨-, hlater, -⟩ := nothing_after_cancellation Program.respond t
  have hcancelled : t.cancelled = true := by decide
  have hsteps : t.totalSteps = 2 := by decide
  exact ⟨hcancelled, (hlater hcancelled [.call (.feed "a"), .run 5, .batch]).2.1.trans hsteps⟩

end Fish
