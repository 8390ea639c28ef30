import Fish.Proofs.Batching

/-!
Machines seen through others. What a scheduler does with a machine can be seen through every view
of it that shows its answers; what else the machine keeps has no part in it.
-/

namespace Fish

/-- A view of a machine that shows what it does. -/
structure Machine.Shows {ν μ : Type} [Machine ν] [Machine μ] (view : ν → μ) : Prop where
  advance : ∀ m, Machine.advance (view m) = ((Machine.advance m).1, view (Machine.advance m).2)
  hasTerminated : ∀ m : ν, Machine.hasTerminated (view m) = Machine.hasTerminated m
  read : ∀ m, Machine.read (view m) = match Machine.read m with
    | .ok text n => .ok text (view n)
    | .error e n => .error e (view n)

namespace Scheduler

variable {ν μ : Type} [Machine ν] [Machine μ] {view : ν → μ}

theorem cycle_map (h : Machine.Shows view) (s : Scheduler ν) :
    (s.map view).cycle = (s.cycle.1, s.cycle.2.map view) := by
  simp only [cycle, map, h.advance, h.hasTerminated]

theorem work_map (h : Machine.Shows view) (budget : Nat) (s : Scheduler ν) :
    (s.map view).work budget = ((s.work budget).1, (s.work budget).2.map view) :=
  work_view (map view) (fun _ => rfl) (cycle_map h) budget s

theorem drain_map (h : Machine.Shows view) (s : Scheduler ν) :
    (s.map view).drain = (s.drain.1, s.drain.2.map view) := by
  have hread : Machine.read (s.map view).machine = _ := h.read s.machine
  unfold drain
  rw [hread]
  cases Machine.read s.machine <;> rfl

theorem runBatch_map (h : Machine.Shows view) (s : Scheduler ν) :
    (s.map view).runBatch = (s.runBatch.1, s.runBatch.2.map view) := by
  have hsize : (s.map view).batchSize = s.batchSize := rfl
  simp only [runBatch, hsize, work_map h, drain_map h]
  rfl

/-- What a run does can be seen through a view of its machine. -/
theorem run_map (h : Machine.Shows view) (batches : Nat) (s : Scheduler ν) :
    (s.map view).run batches = (s.run batches).map fun r => (r.1, r.2.map view) := by
  induction batches generalizing s with
  | zero => rfl
  | succ batches ih =>
    have hbatch := s.runBatch_map h
    cases hstop : s.runBatch.1.stop with
    | some stop =>
      have hmapped : (s.map view).runBatch.1.stop = some stop := by rw [hbatch]; exact hstop
      rw [(run_of_stop hstop batches).1, (run_of_stop hmapped batches).1, hbatch]
      rfl
    | none =>
      have hmapped : (s.map view).runBatch.1.stop = none := by rw [hbatch]; exact hstop
      rw [(run_of_going hstop batches).1, (run_of_going hmapped batches).1, hbatch, ih]

end Scheduler

end Fish
