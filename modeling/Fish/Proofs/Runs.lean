import Fish.Proofs.Batching

/-!
A run of batches is a run of the plain loop: it ends when the loop does, for the same reason
and after as many cycles, with the same machine, and its reports hold the same output.
-/

namespace Fish

open Program

namespace Scheduler

variable {s : Scheduler Program}

theorem plainLoop_of_run {batches : Nat} {stop : Stop} {t : Scheduler Program} (h : s.Calm)
    (hrun : s.run batches = some (stop, t)) :
    plainLoop s.stepLimit (batches * s.batchSize) s.totalSteps s.machine =
        some (stop, t.totalSteps, t.machine.prepend (outputs (s.reports batches))) ∧
      t.machine.output = "" := by
  induction batches generalizing s with
  | zero => cases hrun
  | succ batches ih =>
    have hbatch := plainLoop_runBatch (batches * s.batchSize) h
    rw [Nat.add_comm s.batchSize, ← Nat.succ_mul] at hbatch
    cases hstop : s.runBatch.1.stop with
    | some stop' =>
      obtain ⟨hrun', hreports⟩ := run_of_stop hstop batches
      rw [hrun'] at hrun
      cases hrun
      rw [hbatch, hstop, hreports, outputs_singleton]
      exact ⟨rfl, s.output_runBatch⟩
    | none =>
      obtain ⟨hrun', hreports⟩ := run_of_going hstop batches
      rw [hrun'] at hrun
      obtain ⟨hloop, houtput⟩ := ih (calm_runBatch h) hrun
      rw [batchSize_runBatch, stepLimit_runBatch] at hloop
      refine ⟨?_, houtput⟩
      rw [hbatch, hstop, hreports, outputs_cons, ← prepend_prepend]
      simp only [plainLoop_prepend, hloop, Option.map_some]

/-- As many batches as the plain loop has cycles are enough. -/
theorem exists_run {cycles : Nat} {ending : Stop × Nat × Program} (h : s.Calm)
    (hloop : plainLoop s.stepLimit cycles s.totalSteps s.machine = some ending) :
    ∃ stop t, s.run cycles = some (stop, t) := by
  induction cycles generalizing s ending with
  | zero => cases hloop
  | succ cycles ih =>
    cases hstop : s.runBatch.1.stop with
    | some stop => exact ⟨stop, s.runBatch.2, (run_of_stop hstop cycles).1⟩
    | none =>
      have hle : cycles + 1 ≤ s.batchSize + cycles := by
        have hpos := s.batchSize_pos
        omega
      have hbatch := plainLoop_mono hle hloop
      rw [plainLoop_runBatch cycles h, hstop] at hbatch
      simp only [plainLoop_prepend, Option.map_eq_some_iff] at hbatch
      obtain ⟨ending', hloop', -⟩ := hbatch
      rw [← stepLimit_runBatch] at hloop'
      rw [(run_of_going hstop cycles).1]
      exact ih (calm_runBatch h) hloop'

/-- The plain loop ends as a run does, with the output of all its batches unread. -/
theorem ends_iff_run (h : s.Calm) (ending : Stop × Nat × Program) :
    Ends s.stepLimit s.totalSteps s.machine ending ↔
      ∃ batches t, s.run batches = some (ending.1, t) ∧ t.totalSteps = ending.2.1 ∧
        t.machine = ending.2.2.drained ∧ outputs (s.reports batches) = ending.2.2.output := by
  constructor
  · intro hends
    obtain ⟨cycles, hloop⟩ := hends
    obtain ⟨stop, t, hrun⟩ := exists_run h hloop
    obtain ⟨hloop', houtput⟩ := plainLoop_of_run h hrun
    obtain rfl := plainLoop_unique hloop' hloop
    refine ⟨cycles, t, hrun, rfl, ?_, ?_⟩
    · exact (drained_of_output_empty houtput).symm
    · rw [output_prepend, houtput, String.append_empty]
  · intro hruns
    obtain ⟨batches, t, hrun, htotal, hmachine, houtput⟩ := hruns
    obtain ⟨hloop, -⟩ := plainLoop_of_run h hrun
    refine ⟨batches * s.batchSize, ?_⟩
    rw [hloop, htotal, hmachine, houtput, drained_prepend_output]

/-- Every observer is told of all batches, in order. -/
theorem received_of_run {batches : Nat} {stop : Stop} {t : Scheduler Program}
    (hrun : s.run batches = some (stop, t)) :
    t.observers = s.observers.map fun o =>
      { o with received := (s.reports batches).reverse ++ o.received } := by
  induction batches generalizing s with
  | zero => cases hrun
  | succ batches ih =>
    obtain ⟨machine, totalSteps, hbatch⟩ := s.runBatch_notifies
    have hobservers : s.runBatch.2.observers = s.observers.map (Observer.receive s.runBatch.1) := by
      rw [hbatch]
      rfl
    cases hstop : s.runBatch.1.stop with
    | some stop' =>
      obtain ⟨hrun', hreports⟩ := run_of_stop hstop batches
      rw [hrun'] at hrun
      cases hrun
      rw [hobservers, hreports]
      rfl
    | none =>
      obtain ⟨hrun', hreports⟩ := run_of_going hstop batches
      rw [hrun'] at hrun
      rw [ih hrun, hobservers, hreports, List.map_map]
      refine List.map_congr_left fun o _ => ?_
      simp only [Function.comp_apply, Observer.receive, List.reverse_cons, List.append_assoc,
        List.singleton_append]

/-- Subscribing only adds observers, each with its own will to cancel and no report so far. -/
theorem subscribeAll_frame (observers : List (List BatchReport → Bool)) (s : Scheduler Program) :
    ∃ added nextId, s.subscribeAll observers =
        { s with observers := s.observers ++ added, nextId := nextId } ∧
      ∀ o ∈ added, o.cancels ∈ observers ∧ o.received = [] := by
  induction observers generalizing s with
  | nil => exact ⟨[], s.nextId, by simp [subscribeAll], by simp⟩
  | cons cancels observers ih =>
    obtain ⟨added, nextId, hframe, hadded⟩ := ih (s.subscribe cancels).2
    refine ⟨⟨s.nextId, cancels, []⟩ :: added, nextId, ?_, ?_⟩
    · rw [subscribeAll, List.foldl_cons]
      refine hframe.trans ?_
      simp only [subscribe, List.append_assoc, List.singleton_append]
    · intro o ho
      rcases List.mem_cons.mp ho with rfl | ho
      · exact ⟨List.mem_cons_self, rfl⟩
      · exact ⟨List.mem_cons_of_mem _ (hadded o ho).1, (hadded o ho).2⟩

theorem calm_subscribeAll {observers : List (List BatchReport → Bool)}
    (hnever : ∀ cancels ∈ observers, ∀ reports, cancels reports = false) (h : s.Calm) :
    (s.subscribeAll observers).Calm := by
  obtain ⟨added, nextId, hframe, hadded⟩ := s.subscribeAll_frame observers
  rw [hframe]
  refine ⟨h.uncancelled, fun o ho => ?_⟩
  rcases List.mem_append.mp ho with ho | ho
  · exact h.observers o ho
  · exact hnever o.cancels (hadded o ho).1

theorem fresh_subscribeAll (observers : List (List BatchReport → Bool)) (s : Scheduler Program)
    (h : ∀ o ∈ s.observers, o.received = []) :
    ∀ o ∈ (s.subscribeAll observers).observers, o.received = [] := by
  obtain ⟨added, nextId, hframe, hadded⟩ := s.subscribeAll_frame observers
  rw [hframe]
  intro o ho
  rcases List.mem_append.mp ho with ho | ho
  · exact h o ho
  · exact (hadded o ho).2

theorem calm_ofMachine (p : Program) (pacing : Pacing) : (ofMachine p pacing).Calm :=
  ⟨rfl, fun _ ho => by cases ho⟩

theorem collect_eq (batches : Nat) (output : String) (s : Scheduler Program) :
    s.collect batches output = (s.run batches).map fun (stop, t) =>
      (⟨output ++ outputs (s.reports batches), stop, t.totalSteps⟩, t.machine) := by
  induction batches generalizing output s with
  | zero => rfl
  | succ batches ih =>
    cases hstop : s.runBatch.1.stop with
    | some stop =>
      obtain ⟨hrun, hreports⟩ := run_of_stop hstop batches
      rw [hrun, hreports, outputs_singleton]
      simp only [collect, hstop, Option.map_some]
    | none =>
      obtain ⟨hrun, hreports⟩ := run_of_going hstop batches
      rw [hrun, hreports, outputs_cons, ← String.append_assoc, ← ih]
      simp only [collect, hstop]

end Scheduler

namespace Program

theorem plainRun_iff (limit : Option Nat) (p : Program) (result : Summary × Program) :
    (∃ cycles, p.plainRun limit cycles = some result) ↔
      ∃ ending, Ends limit 0 p ending ∧ sumUp ending = result := by
  simp only [plainRun, Option.map_eq_some_iff, Ends]
  constructor
  · intro h
    obtain ⟨cycles, ending, hloop, hsum⟩ := h
    exact ⟨ending, ⟨cycles, hloop⟩, hsum⟩
  · intro h
    obtain ⟨ending, ⟨cycles, hloop⟩, hsum⟩ := h
    exact ⟨cycles, ending, hloop, hsum⟩

end Program

namespace Scheduler

variable {s : Scheduler Program}

/-- A scheduler that has not begun runs as the plain loop does. -/
theorem run_iff_of_calm (h : s.Calm) (hfresh : s.totalSteps = 0) (result : Summary × Program) :
    (∃ batches t, s.run batches = some (result.1.stop, t) ∧ t.totalSteps = result.1.steps ∧
        t.machine = result.2 ∧ outputs (s.reports batches) = result.1.output) ↔
      ∃ cycles, s.machine.plainRun s.stepLimit cycles = some result := by
  rw [plainRun_iff, ← hfresh]
  constructor
  · intro hruns
    obtain ⟨batches, t, hrun, htotal, hmachine, houtput⟩ := hruns
    obtain ⟨hloop, hdrained⟩ := plainLoop_of_run h hrun
    refine ⟨_, ⟨_, hloop⟩, ?_⟩
    rw [sumUp_eq, output_prepend, hdrained, String.append_empty, drained_prepend,
      drained_of_output_empty hdrained, htotal, hmachine, houtput]
  · intro hends
    obtain ⟨⟨stop, executed, q⟩, hends, rfl⟩ := hends
    simp only [sumUp_eq]
    exact (ends_iff_run h _).mp hends

end Scheduler

namespace Program

theorem plainRun_runToCompletion (p : Program) (limit : Nat) :
    ∃ cycles, p.plainRun (some limit) cycles = some (p.runToCompletion limit) := by
  have hcalm := Scheduler.calm_ofMachine p { stepLimit := some limit }
  have hcollect : (Scheduler.ofMachine p { stepLimit := some limit }).collect (limit + 1) "" =
      some (p.runToCompletion limit) := by
    rw [runToCompletion, Option.some_get]
  rw [Scheduler.collect_eq, Option.map_eq_some_iff] at hcollect
  obtain ⟨⟨stop, t⟩, hrun, hresult⟩ := hcollect
  rw [← hresult]
  refine (Scheduler.run_iff_of_calm hcalm rfl _).mp ⟨limit + 1, t, hrun, rfl, rfl, ?_⟩
  exact String.empty_append.symm

end Program

open Scheduler in
/-- A fresh scheduler that no observer cancels does what the plain loop does, and says the same
of it. So does a run to completion. The size of the batches plays no part in it. -/
theorem run_iff_plainRun (p : Program) (pacing : Pacing)
    (observers : List (List BatchReport → Bool))
    (hnever : ∀ cancels ∈ observers, ∀ reports, cancels reports = false) :
    (∀ result : Summary × Program,
      (∃ batches t, ((ofMachine p pacing).subscribeAll observers).run batches =
          some (result.1.stop, t) ∧
        t.totalSteps = result.1.steps ∧ t.machine = result.2 ∧
        outputs (((ofMachine p pacing).subscribeAll observers).reports batches) =
          result.1.output ∧
        ∀ o ∈ t.observers,
          o.received.reverse = ((ofMachine p pacing).subscribeAll observers).reports batches) ↔
      ∃ cycles, p.plainRun pacing.stepLimit cycles = some result) ∧
    ∀ limit, ∃ cycles, p.plainRun (some limit) cycles = some (p.runToCompletion limit) := by
  refine ⟨fun result => ?_, p.plainRun_runToCompletion⟩
  have hfresh := fresh_subscribeAll observers (ofMachine p pacing) (fun _ ho => by cases ho)
  have hcalm := calm_subscribeAll hnever (calm_ofMachine p pacing)
  obtain ⟨added, nextId, hframe, -⟩ := (ofMachine p pacing).subscribeAll_frame observers
  have hsame : ((ofMachine p pacing).subscribeAll observers).machine = p := by
    rw [hframe]
    rfl
  have hlimit : ((ofMachine p pacing).subscribeAll observers).stepLimit = pacing.stepLimit := by
    rw [hframe]
    rfl
  have hruns := run_iff_of_calm hcalm (by rw [hframe]; rfl) result
  rw [hsame, hlimit] at hruns
  rw [← hruns]
  constructor
  · intro hruns
    obtain ⟨batches, t, hrun, htotal, hmachine, houtput, -⟩ := hruns
    exact ⟨batches, t, hrun, htotal, hmachine, houtput⟩
  · intro hruns
    obtain ⟨batches, t, hrun, htotal, hmachine, houtput⟩ := hruns
    refine ⟨batches, t, hrun, htotal, hmachine, houtput, fun o ho => ?_⟩
    rw [received_of_run hrun] at ho
    obtain ⟨o, hsubscribed, rfl⟩ := List.mem_map.mp ho
    simp only [hfresh o hsubscribed, List.append_nil, List.reverse_reverse]

open Scheduler in
theorem run_iff_plainRun_oneByOne :
    (∀ cancels ∈ [fun _ : List BatchReport => false], ∀ reports, cancels reports = false) ∧
    ∃ batches t,
      ((ofMachine (Program.load "1n2n;" [] 0) ⟨0, some 5⟩).subscribeAll [fun _ => false]).run
          batches = some (.halted, t) ∧
        t.totalSteps = 5 ∧ t.machine.steps = 5 ∧
        ∀ o ∈ t.observers, outputs o.received.reverse = "12" := by
  have hnever : ∀ cancels ∈ [fun _ : List BatchReport => false],
      ∀ reports, cancels reports = false := by simp
  refine ⟨hnever, ?_⟩
  obtain ⟨batches, t, hrun, htotal, hmachine, houtput, hobservers⟩ :=
    ((run_iff_plainRun (Program.load "1n2n;" [] 0) ⟨0, some 5⟩ [fun _ => false] hnever).1
      (((Program.load "1n2n;" [] 0).plainRun (some 5) 5).get (by decide))).mpr
      ⟨5, (Option.some_get _).symm⟩
  refine ⟨batches, t, ?_, ?_, ?_, fun o ho => ?_⟩
  · exact hrun.trans (congrArg (fun stop => some (stop, t)) (by decide))
  · rw [htotal]
    decide
  · rw [hmachine]
    decide
  · rw [hobservers o ho, houtput]
    decide

end Fish
