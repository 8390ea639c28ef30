import Fish.Proofs.Lifetime
import Fish.Proofs.Requests

/-!
The books of a scheduler. Whatever is asked of it, and whatever is done to its program in
between, its count of steps, the count that the program keeps itself, the reports of the batches
and the texts that were read agree with each other.
-/

namespace Fish

namespace Program

theorem countAfter_eq (executed : Nat) (p : Program) :
    p.countAfter executed = executed + if p.Counts then 1 else 0 := by
  have hcounts : ¬ (p.hasTerminated = true ∨ p.advance.1 = .blocked) ↔ p.Counts := by
    rw [not_or, Counts, hasTerminated, Bool.not_eq_true, Option.isSome_eq_false_iff,
      Option.isNone_iff_eq_none]
  unfold countAfter
  by_cases h : p.Counts
  · rw [if_neg (hcounts.mpr h), if_pos h]
  · rw [if_pos (Decidable.not_not.mp (mt hcounts.mp h)), if_neg h]
    rfl

end Program

namespace Scheduler

variable {s t u : Scheduler Program}

/-- The scheduler and its program count the same cycles of a batch, no more of them than the
batch has. -/
theorem steps_work (budget : Nat) (s : Scheduler Program) :
    ∃ done ≤ budget, (s.work budget).2.totalSteps = s.totalSteps + done ∧
      (s.work budget).2.machine.steps = s.machine.steps + done := by
  have hcycle : ∀ s : Scheduler Program, ∃ one ≤ 1, s.cycle.2.totalSteps = s.totalSteps + one ∧
      s.cycle.2.machine.steps = s.machine.steps + one := by
    intro s
    rw [cycle_eq]
    exact ⟨if s.machine.Counts then 1 else 0, by split <;> omega,
      s.machine.countAfter_eq _, s.machine.steps_advance⟩
  refine work_induction
    (P := fun budget s _ t => ∃ done ≤ budget, t.totalSteps = s.totalSteps + done ∧
      t.machine.steps = s.machine.steps + done)
    (fun s => ⟨0, Nat.le_refl 0, rfl, rfl⟩) (fun _ s _ _ => ⟨0, Nat.zero_le _, rfl, rfl⟩)
    ?_ ?_ budget s
  · intro budget s _ _ _
    obtain ⟨one, hone, htotal, hsteps⟩ := hcycle s
    exact ⟨one, by omega, htotal, hsteps⟩
  · intro budget s _ t _ _ hrest
    obtain ⟨one, hone, htotal, hsteps⟩ := hcycle s
    obtain ⟨done, hdone, htotal', hsteps'⟩ := hrest
    exact ⟨one + done, by omega, by omega, by omega⟩

theorem stepsIn_append (reports reports' : List BatchReport) :
    stepsIn (reports ++ reports') = stepsIn reports + stepsIn reports' := by
  induction reports with
  | nil => exact (Nat.zero_add _).symm
  | cons report reports ih =>
    have hcons : ∀ rest, stepsIn (report :: rest) = report.steps + stepsIn rest := fun _ => rfl
    rw [List.cons_append, hcons, hcons, ih]
    omega

/-- From one scheduler to a later one the books are kept: what the batches have reported, the
texts that were read, the calls that the program got, and the programs that were advanced
directly account for all that has changed. -/
structure Accounts (s t : Scheduler Program) (reports : List BatchReport) (texts : List String)
    (calls : List Call) (met : List Program) : Prop where
  batchSize : t.batchSize = s.batchSize
  stepLimit : t.stepLimit = s.stepLimit
  total : t.totalSteps = s.totalSteps + stepsIn reports
  steps : t.machine.steps = s.machine.steps + stepsIn reports + met.countP (·.Counts)
  sized : ∀ report ∈ reports, report.steps ≤ s.batchSize ∧
    (report.stop = none → report.steps = s.batchSize)
  limited : ∀ limit, s.stepLimit = some limit → s.totalSteps ≤ limit → t.totalSteps ≤ limit
  machine : t.machine = (s.machine.replay calls).2
  read : readIn (s.machine.replay calls).1 = String.join texts

namespace Accounts

variable {reports reports' : List BatchReport} {texts texts' : List String}
  {calls calls' : List Call} {met met' : List Program}

/-- Where the program and the count stand still there is nothing to account for. -/
theorem still (hbatch : t.batchSize = s.batchSize) (hlimit : t.stepLimit = s.stepLimit)
    (htotal : t.totalSteps = s.totalSteps) (hmachine : t.machine = s.machine) :
    s.Accounts t [] [] [] [] where
  batchSize := hbatch
  stepLimit := hlimit
  total := htotal
  steps := congrArg Program.steps hmachine
  sized _ h := absurd h List.not_mem_nil
  limited limit _ hle := by omega
  machine := hmachine
  read := rfl

theorem trans (h : s.Accounts t reports texts calls met)
    (h' : t.Accounts u reports' texts' calls' met') :
    s.Accounts u (reports ++ reports') (texts ++ texts') (calls ++ calls') (met ++ met') where
  batchSize := h'.batchSize.trans h.batchSize
  stepLimit := h'.stepLimit.trans h.stepLimit
  total := by
    rw [h'.total, h.total, stepsIn_append]
    omega
  steps := by
    rw [h'.steps, h.steps, stepsIn_append, List.countP_append]
    omega
  sized := by
    intro report hreport
    rcases List.mem_append.mp hreport with hreport | hreport
    · exact h.sized report hreport
    · rw [← h.batchSize]
      exact h'.sized report hreport
  limited := by
    intro limit hlimit hle
    exact h'.limited limit (h.stepLimit.trans hlimit) (h.limited limit hlimit hle)
  machine := by rw [h'.machine, h.machine, Program.replay_append]
  read := by
    rw [Program.replay_append, readIn_append, h.read, ← h.machine, h'.read, String.join_append]

end Accounts

theorem accounts_runBatch (s : Scheduler Program) :
    s.Accounts s.runBatch.2 [s.runBatch.1] [s.runBatch.1.output] s.batchCalls [] := by
  obtain ⟨machine, totalSteps, hframe⟩ := work_frame s.batchSize s
  obtain ⟨done, hdone, htotal, hsteps⟩ := steps_work s.batchSize s
  obtain ⟨hmachine, hread⟩ := s.replay_batchCalls
  have hworked : s.runBatch.2.batchSize = (s.work s.batchSize).2.batchSize ∧
      s.runBatch.2.totalSteps = (s.work s.batchSize).2.totalSteps ∧
      s.runBatch.2.machine.steps = (s.work s.batchSize).2.machine.steps := by
    simp only [runBatch, drain_eq]
    exact ⟨rfl, rfl, rfl⟩
  obtain ⟨hbatch, htotal', hsteps'⟩ := hworked
  have hreport : s.runBatch.1.steps = done := by
    have hdiff : s.runBatch.1.steps = (s.work s.batchSize).2.totalSteps - s.totalSteps := rfl
    omega
  constructor
  · rw [hbatch, hframe]
  · exact s.stepLimit_runBatch
  · rw [htotal', htotal, ← hreport]
    rfl
  · rw [hsteps', hsteps, ← hreport]
    rfl
  · intro report hmem
    rw [List.mem_singleton.mp hmem]
    refine ⟨by omega, fun hstop => ?_⟩
    have hfull := s.totalSteps_runBatch hstop
    omega
  · intro limit hlimit hle
    have hwork := totalSteps_work_le hlimit s.batchSize
    omega
  · exact hmachine
  · rw [hread, String.join_cons, String.join_nil, String.append_empty]

theorem accounts_run (batches : Nat) (s : Scheduler Program) :
    s.Accounts (s.afterBatches batches) (s.reports batches)
      ((s.reports batches).map (·.output)) (s.runCalls batches) [] := by
  induction batches generalizing s with
  | zero => exact .still rfl rfl rfl rfl
  | succ batches ih =>
    have hbatch := s.accounts_runBatch
    rw [afterBatches, reports, runCalls]
    cases hstop : s.runBatch.1.stop with
    | some stop =>
      simp only [hstop, List.append_nil]
      exact hbatch
    | none =>
      simp only [hstop]
      exact hbatch.trans (ih s.runBatch.2)

theorem accounts_call (call : Call) (s : Scheduler Program) :
    s.Accounts (s.serve (.call call)).2 [] (s.machine.respond call).1.text?.toList [call]
      (s.advancedBy (.call call)) where
  batchSize := rfl
  stepLimit := rfl
  total := rfl
  steps := by
    have hserved : (s.serve (.call call)).2.machine = (s.machine.respond call).2 := rfl
    rw [hserved]
    by_cases hadvance : call = .advance
    · subst hadvance
      have hsteps : (s.machine.respond .advance).2.steps = _ := s.machine.steps_advance
      have hmet : s.advancedBy (.call .advance) = [s.machine] := rfl
      rw [hsteps, hmet, List.countP_singleton]
      simp only [decide_eq_true_eq]
      rfl
    · have hmet : s.advancedBy (.call call) = [] := by
        cases call with
        | advance => exact absurd rfl hadvance
        | _ => rfl
      rw [Program.steps_respond_of_ne hadvance, hmet]
      rfl
  sized _ h := absurd h List.not_mem_nil
  limited _ _ h := h
  machine := rfl
  read := by
    have hreplay : (s.machine.replay [call]).1 = [(s.machine.respond call).1] := rfl
    rw [hreplay, Program.readIn_cons]
    cases (s.machine.respond call).1.text? with
    | none => rfl
    | some text =>
      rw [Option.toList_some, String.join_cons]
      rfl

/-- The books are kept by every request. -/
theorem accounts_serve (request : Request) (s : Scheduler Program) :
    s.Accounts (s.serve request).2 (s.serve request).1.reports (s.serve request).1.texts
      (s.callsFor request) (s.advancedBy request) := by
  cases request with
  | subscribe cancels => exact .still rfl rfl rfl rfl
  | unsubscribe id => exact .still rfl rfl rfl rfl
  | batch => exact s.accounts_runBatch
  | run batches => exact s.accounts_run batches
  | cancel => exact .still rfl rfl rfl rfl
  | call call => exact s.accounts_call call

theorem accounts_serveAll (requests : List Request) (s : Scheduler Program) :
    s.Accounts (s.serveAll requests).2 (reportsIn (s.serveAll requests).1)
      (textsIn (s.serveAll requests).1) (s.callsIn requests) (s.advancedDirectly requests) := by
  induction requests generalizing s with
  | nil => exact .still rfl rfl rfl rfl
  | cons request requests ih =>
    rw [serveAll, serveAllBy_cons, reportsIn, textsIn, List.flatMap_cons, List.flatMap_cons]
    exact (s.accounts_serve request).trans (ih (s.serve request).2)

end Scheduler

open Program in
/-- The accounting is exact, whatever is asked of a fresh scheduler: steps counted are steps
reported and steps done, none beyond the size of a batch or the limit, and what was written is what
was read and what is left to read. -/
theorem accounting_exact (p : Program) (pacing : Pacing) (requests : List Request) :
    let s := Scheduler.ofMachine p pacing
    let responses := (s.serveAll requests).1
    let t := (s.serveAll requests).2
    t.totalSteps = stepsIn (reportsIn responses) ∧
    t.machine.steps =
      p.steps + t.totalSteps + (s.advancedDirectly requests).countP (·.Counts) ∧
    (∀ report ∈ reportsIn responses, report.steps ≤ max 1 pacing.stepsPerBatch ∧
      (report.stop = none → report.steps = max 1 pacing.stepsPerBatch)) ∧
    (∀ limit, pacing.stepLimit = some limit → t.totalSteps ≤ limit) ∧
    t.machine = (p.replay (s.callsIn requests)).2 ∧
    p.output ++ String.join (emittedIn (s.callsIn requests) p) =
      String.join (textsIn responses) ++ t.machine.output := by
  intro s responses t
  have haccounts : s.Accounts t (reportsIn responses) (textsIn responses) _ _ :=
    s.accounts_serveAll requests
  have htotal : t.totalSteps = stepsIn (reportsIn responses) :=
    haccounts.total.trans (Nat.zero_add _)
  refine ⟨htotal, ?_, haccounts.sized, ?_, haccounts.machine, ?_⟩
  · rw [htotal]
    exact haccounts.steps
  · intro limit hlimit
    exact haccounts.limited limit hlimit (Nat.zero_le limit)
  · rw [← haccounts.read, haccounts.machine]
    exact (read_emitted (s.callsIn requests) p).symm

open Program in
/-- A program that is advanced directly twice, waits once, and is stopped by the limit. -/
theorem accounting_exact_aside :
    let p := load "1n2ni3n;" [] 0
    let pacing : Pacing := { stepsPerBatch := 2, stepLimit := some 5 }
    let requests : List Request := [.subscribe (fun _ => false), .batch, .call .advance, .run 5,
      .call (.give "x"), .run 5, .call .advance]
    ∃ responses t, (Scheduler.ofMachine p pacing).serveAll requests = (responses, t) ∧
      reportsIn responses = [⟨2, "1", none⟩, ⟨1, "2", some .blocked⟩, ⟨2, "", none⟩,
        ⟨0, "", some .stepLimit⟩] ∧
      t.totalSteps = 5 ∧ t.totalSteps ≤ 5 ∧ t.machine.steps = 7 ∧
      "123" = String.join (textsIn responses) ++ t.machine.output := by
  intro p pacing requests
  obtain ⟨htotal, hsteps, -, hlimited, -, hread⟩ := accounting_exact p pacing requests
  have hreports : reportsIn ((Scheduler.ofMachine p pacing).serveAll requests).1 =
      [⟨2, "1", none⟩, ⟨1, "2", some .blocked⟩, ⟨2, "", none⟩, ⟨0, "", some .stepLimit⟩] := by
    decide
  have hdirect : ((Scheduler.ofMachine p pacing).advancedDirectly requests).countP
      (·.Counts) = 2 := by decide
  have hemitted : emittedIn ((Scheduler.ofMachine p pacing).callsIn requests) p =
      ["1", "2", "3"] := by decide
  rw [hreports] at htotal
  rw [htotal, hdirect] at hsteps
  rw [hemitted] at hread
  exact ⟨_, _, (Prod.eta _).symm, hreports, htotal, hlimited 5 rfl, hsteps, hread⟩

end Fish
