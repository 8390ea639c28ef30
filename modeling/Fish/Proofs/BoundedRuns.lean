import Fish.Proofs.Requests
import Fish.Proofs.Runs
import Fish.Proofs.Views

/-!
Runs under a step limit end. A batch that is used up brings the limit nearer by its size, and a
machine is made to advance only below the limit; so what is left up to there bounds the batches of
a run and the advances of its machine. A meter on the machine counts the advances, and with it a
run goes as it does without.
-/

namespace Fish

/-- A machine with the number of times it was made to advance. -/
structure Metered (μ : Type) where
  machine : μ
  advances : Nat := 0

namespace Metered

variable {μ : Type} [Machine μ]

instance : Machine (Metered μ) where
  advance m := ((Machine.advance m.machine).1, ⟨(Machine.advance m.machine).2, m.advances + 1⟩)
  hasTerminated m := Machine.hasTerminated m.machine
  read m :=
    match Machine.read m.machine with
    | .ok text n => .ok text { m with machine := n }
    | .error e n => .error e { m with machine := n }
  isTerminal_of_hasTerminated m h := Machine.isTerminal_of_hasTerminated m.machine h

theorem read_eq (m : Metered μ) :
    Machine.read m = match Machine.read m.machine with
      | .ok text n => .ok text { m with machine := n }
      | .error e n => .error e { m with machine := n } := rfl

theorem shows_machine : Machine.Shows (machine : Metered μ → μ) where
  advance _ := rfl
  hasTerminated _ := rfl
  read m := by
    rw [read_eq]
    cases Machine.read m.machine <;> rfl

end Metered

namespace Scheduler

/-- The scheduler with a meter on its machine. -/
def metered {μ : Type} (s : Scheduler μ) : Scheduler (Metered μ) :=
  { s with machine := ⟨s.machine, 0⟩ }

section Advances

variable {μ : Type} [Machine μ] {s t : Scheduler (Metered μ)}

/-- A batch that is used up has made its machine advance for each cycle it has. -/
theorem advances_work (budget : Nat) (hgoing : (s.work budget).1 = none) :
    (s.work budget).2.machine.advances = s.machine.advances + budget := by
  refine work_induction
    (P := fun budget s stop t =>
      stop = none → t.machine.advances = s.machine.advances + budget)
    (fun _ _ => rfl) ?_ ?_ ?_ budget s hgoing
  · intro _ s stop _ hgoing
    cases hgoing
  · intro _ s stop _ _ hgoing
    cases hgoing
  · intro budget s stop t _ _ hrest hgoing
    have hadvance : s.cycle.2.machine.advances = s.machine.advances + 1 := rfl
    rw [hrest hgoing, hadvance]
    omega

/-- The last advance need not be counted by the scheduler, but there is one only below the
limit. -/
theorem advances_work_le {limit : Nat} (hlimit : s.stepLimit = some limit) (budget : Nat) :
    (s.work budget).2.machine.advances ≤ s.machine.advances + (limit - s.totalSteps) := by
  refine work_induction
    (P := fun _ s _ t => s.stepLimit = some limit →
      t.machine.advances ≤ s.machine.advances + (limit - s.totalSteps))
    (fun _ _ => Nat.le_add_right _ _) (fun _ _ _ _ _ => Nat.le_add_right _ _) ?_ ?_ budget s hlimit
  · intro _ s _ hrefusal _ hlimit
    have hlt := lt_of_refusal_eq_none hrefusal hlimit
    have hadvance : s.cycle.2.machine.advances = s.machine.advances + 1 := rfl
    omega
  · intro _ s _ t hrefusal hstop hrest hlimit
    have hlt := lt_of_refusal_eq_none hrefusal hlimit
    have hadvance : s.cycle.2.machine.advances = s.machine.advances + 1 := rfl
    have htotal := s.totalSteps_cycle hstop
    have hle := hrest (s.stepLimit_cycle.trans hlimit)
    omega

theorem advances_runBatch (s : Scheduler (Metered μ)) :
    s.runBatch.2.machine.advances = (s.work s.batchSize).2.machine.advances := by
  have hdrain : ∀ u : Scheduler (Metered μ), u.drain.2.machine.advances = u.machine.advances := by
    intro u
    rw [drain, Metered.read_eq]
    cases Machine.read u.machine.machine <;> rfl
  exact hdrain _

/-- A run makes its machine advance no more often than it is below the limit. -/
theorem advances_run_le {limit batches : Nat} {stop : Stop} (hlimit : s.stepLimit = some limit)
    (hrun : s.run batches = some (stop, t)) :
    t.machine.advances ≤ s.machine.advances + (limit - s.totalSteps) := by
  induction batches generalizing s with
  | zero => cases hrun
  | succ batches ih =>
    have hbatch := s.advances_runBatch
    have hle := advances_work_le hlimit s.batchSize
    cases hstop : s.runBatch.1.stop with
    | some stop' =>
      rw [(run_of_stop hstop batches).1] at hrun
      cases hrun
      omega
    | none =>
      have htotal := s.totalSteps_runBatch hstop
      have hused := advances_work s.batchSize hstop
      rw [(run_of_going hstop batches).1] at hrun
      have hrest := ih (s.stepLimit_runBatch.trans hlimit) hrun
      omega

end Advances

section Batches

variable {μ : Type} [Machine μ] {s : Scheduler μ} {limit : Nat}

theorem totalSteps_runBatch_le (hlimit : s.stepLimit = some limit) :
    s.runBatch.2.totalSteps ≤ max s.totalSteps limit := by
  have hwork := totalSteps_work_le hlimit s.batchSize
  simpa [runBatch, notify] using hwork

/-- The batches that can be used up before the limit is reached. -/
def batchesLeft (limit : Nat) (s : Scheduler μ) : Nat := (limit - s.totalSteps) / s.batchSize

/-- A batch that is used up is one of those that were left. -/
theorem batchesLeft_runBatch (hlimit : s.stepLimit = some limit)
    (hgoing : s.runBatch.1.stop = none) :
    s.batchesLeft limit = s.runBatch.2.batchesLeft limit + 1 := by
  have htotal := s.totalSteps_runBatch hgoing
  have hle := totalSteps_runBatch_le hlimit
  have hpos := s.batchSize_pos
  have hroom : s.batchSize ≤ limit - s.totalSteps := by omega
  have hrest : limit - (s.totalSteps + s.batchSize) = limit - s.totalSteps - s.batchSize := by
    omega
  rw [batchesLeft, batchesLeft, batchSize_runBatch, htotal, hrest]
  exact Nat.div_eq_sub_div hpos hroom

/-- One batch more than can be used up is enough. -/
theorem exists_run_of_batchesLeft {batches : Nat} (hlimit : s.stepLimit = some limit)
    (henough : s.batchesLeft limit < batches) : ∃ stop t, s.run batches = some (stop, t) := by
  induction batches generalizing s with
  | zero => exact absurd henough (Nat.not_lt_zero _)
  | succ batches ih =>
    cases hstop : s.runBatch.1.stop with
    | some stop => exact ⟨stop, s.runBatch.2, (run_of_stop hstop batches).1⟩
    | none =>
      have hleft := batchesLeft_runBatch hlimit hstop
      rw [(run_of_going hstop batches).1]
      exact ih (s.stepLimit_runBatch.trans hlimit) (by omega)

theorem stepLimit_afterBatches (batches : Nat) (s : Scheduler μ) :
    (s.afterBatches batches).stepLimit = s.stepLimit :=
  afterBatches_keeps (P := fun t => t.stepLimit = s.stepLimit)
    (fun t ht => t.stepLimit_runBatch.trans ht) batches rfl

theorem totalSteps_afterBatches_le (hlimit : s.stepLimit = some limit) (batches : Nat) :
    (s.afterBatches batches).totalSteps ≤ max s.totalSteps limit := by
  have hbatch : ∀ t : Scheduler μ,
      t.stepLimit = some limit ∧ t.totalSteps ≤ max s.totalSteps limit →
        t.runBatch.2.stepLimit = some limit ∧
          t.runBatch.2.totalSteps ≤ max s.totalSteps limit := by
    rintro t ⟨hlimit, hle⟩
    have := totalSteps_runBatch_le hlimit
    exact ⟨t.stepLimit_runBatch.trans hlimit, by omega⟩
  exact (afterBatches_keeps hbatch batches ⟨hlimit, Nat.le_max_left _ _⟩).2

/-- A run that has ended is not continued. -/
theorem collect_mono {batches batches' : Nat} {output : String} {result : Summary × μ}
    (hle : batches ≤ batches') (h : s.collect batches output = some result) :
    s.collect batches' output = some result := by
  induction batches generalizing batches' output s with
  | zero => cases h
  | succ batches ih =>
    obtain ⟨more, rfl⟩ : ∃ more, batches' = more + 1 := ⟨batches' - 1, by omega⟩
    rw [collect] at h ⊢
    cases hstop : s.runBatch.1.stop with
    | some stop =>
      simp only [hstop] at h ⊢
      exact h
    | none =>
      simp only [hstop] at h ⊢
      exact ih (by omega) h

end Batches

end Scheduler

namespace Program

theorem collect_runToCompletion (p : Program) (limit : Nat) :
    (Scheduler.ofMachine p { stepLimit := some limit }).collect (limit / 1024 + 1) "" =
      some (p.runToCompletion limit) := by
  have hleft : (Scheduler.ofMachine p { stepLimit := some limit }).batchesLeft limit <
      limit / 1024 + 1 := Nat.lt_succ_self _
  obtain ⟨stop, t, hrun⟩ := Scheduler.exists_run_of_batchesLeft rfl hleft
  have hcollect := Scheduler.collect_eq (limit / 1024 + 1) ""
    (Scheduler.ofMachine p { stepLimit := some limit })
  rw [hrun, Option.map_some] at hcollect
  have hlonger := Scheduler.collect_mono (by omega : limit / 1024 + 1 ≤ limit + 1) hcollect
  rw [hcollect, ← hlonger, runToCompletion, Option.some_get]

theorem steps_runToCompletion_le (p : Program) (limit : Nat) :
    (p.runToCompletion limit).1.steps ≤ limit := by
  have hcollect := p.collect_runToCompletion limit
  rw [Scheduler.collect_eq, Option.map_eq_some_iff] at hcollect
  obtain ⟨⟨stop, t⟩, hrun, hresult⟩ := hcollect
  have hle := Scheduler.totalSteps_afterBatches_le
    (s := .ofMachine p { stepLimit := some limit }) rfl (limit / 1024 + 1)
  rw [Scheduler.afterBatches_of_run hrun] at hle
  rw [← hresult]
  exact Nat.le_trans hle (Nat.max_le.mpr ⟨Nat.zero_le limit, Nat.le_refl limit⟩)

end Program

/-- Bounded runs end, whatever the machine and the state of the scheduler. As many batches as fit
below the limit, and one more, are enough. -/
theorem bounded_runs_end :
    (∀ (μ : Type) [Machine μ] (s : Scheduler μ) (b limit : Nat),
      s.batchSize = max 1 b → s.stepLimit = some limit →
      (∃ stop t,
        s.metered.run ((limit - s.totalSteps) / max 1 b + 1) = some (stop, t) ∧
        s.run ((limit - s.totalSteps) / max 1 b + 1) = some (stop, t.map Metered.machine) ∧
        t.machine.advances ≤ limit - s.totalSteps ∧ t.totalSteps ≤ max s.totalSteps limit) ∧
      ∀ batches budget,
        ((s.afterBatches batches).work budget).2.totalSteps ≤ max s.totalSteps limit) ∧
    ∀ (programs : List Program) (limit : Nat),
      programs.map (fun p =>
          (Scheduler.ofMachine p { stepLimit := some limit }).collect (limit / 1024 + 1) "") =
        (Program.runAll programs limit).map some ∧
      ∀ result ∈ Program.runAll programs limit, result.1.steps ≤ limit := by
  constructor
  · intro μ _ s b limit hsize hlimit
    have hleft : s.metered.batchesLeft limit < (limit - s.totalSteps) / max 1 b + 1 := by
      rw [← hsize]
      exact Nat.lt_succ_self _
    have hmetered : s.metered.stepLimit = some limit := hlimit
    obtain ⟨stop, t, hrun⟩ := Scheduler.exists_run_of_batchesLeft hmetered hleft
    refine ⟨⟨stop, t, hrun, ?_, ?_, ?_⟩, fun batches budget => ?_⟩
    · have hview := Scheduler.run_map Metered.shows_machine
        ((limit - s.totalSteps) / max 1 b + 1) s.metered
      rw [hrun] at hview
      exact hview
    · have hadvances := Scheduler.advances_run_le hmetered hrun
      rwa [show s.metered.machine.advances = 0 from rfl, Nat.zero_add] at hadvances
    · have htotal := Scheduler.totalSteps_afterBatches_le hmetered
        ((limit - s.totalSteps) / max 1 b + 1)
      rwa [Scheduler.afterBatches_of_run hrun] at htotal
    · have hbefore := Scheduler.totalSteps_afterBatches_le hlimit batches
      have hwork := Scheduler.totalSteps_work_le
        ((s.stepLimit_afterBatches batches).trans hlimit) budget
      omega
  · intro programs limit
    refine ⟨?_, fun result hresult => ?_⟩
    · rw [Program.runAll, List.map_map]
      exact List.map_congr_left fun p _ => p.collect_runToCompletion limit
    · obtain ⟨p, -, rfl⟩ := List.mem_map.mp hresult
      exact p.steps_runToCompletion_le limit

/-- A program that goes round for ever, in batches of no size, beside one that waits. -/
theorem bounded_runs_end_looping :
    let s := Scheduler.ofMachine (Program.load " " [] 0) ⟨0, some 3⟩
    (s.batchSize = max 1 0 ∧ s.stepLimit = some 3 ∧
      ∃ t, s.metered.run 4 = some (.stepLimit, t) ∧ t.machine.advances ≤ 3 ∧ t.totalSteps ≤ 3) ∧
    ∀ result ∈ Program.runAll [.load " " [] 0, .load "1i" [] 0] 3, result.1.steps ≤ 3 := by
  intro s
  obtain ⟨hmachines, hprograms⟩ := bounded_runs_end
  obtain ⟨⟨stop, t, hrun, -, hadvances, htotal⟩, -⟩ :=
    hmachines Program s 0 3 (by decide) (by decide)
  have hbatches : (3 - s.totalSteps) / max 1 0 + 1 = 4 := by decide
  have hstop : (s.metered.run 4).map Prod.fst = some .stepLimit := by decide
  rw [hbatches] at hrun
  rw [hrun] at hstop
  obtain rfl : stop = .stepLimit := Option.some.inj hstop
  exact ⟨⟨by decide, by decide, t, hrun, hadvances, htotal⟩, (hprograms _ 3).2⟩

end Fish
