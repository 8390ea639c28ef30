import Mathlib.Data.List.Basic
import Fish.Log
import Fish.Proofs.Runs
import Fish.Proofs.Views

/-!
Warnings. A program warns where it fails, and nowhere else; so what was warned of can be read off
the program as it is left, whatever the batches in which it was driven there. Logging takes no
part in what a scheduler does.
-/

namespace Fish

namespace Program

/-- The warning of a program that has failed. -/
def warnings (p : Program) : List Event :=
  p.fault?.toList.map fun fault => .failed p.state.pointer.x p.state.pointer.y fault

theorem warnings_of_running {p : Program} (h : p.termination = none) : p.warnings = [] := by
  simp only [warnings, fault?, h, Option.toList_none, List.map_nil]

/-- A running program warns of a failure only. -/
theorem warned_of_running {p : Program} (h : p.termination = none) (step : Step) :
    (p.events step).filter Event.isWarning = match step with
      | .failed fault => [.failed p.state.pointer.x p.state.pointer.y fault]
      | _ => [] := by
  cases step <;> simp [events, hasTerminated, h, Event.isWarning, Event.level]

/-- A failure leaves the pointer where it happened. -/
theorem warnings_of_cycle {p q : Program} {step : Step} (h : Cycle p step q) :
    q.warnings = p.warnings ++ (p.events step).filter Event.isWarning := by
  cases h with
  | ended hended _ => simp [events, hasTerminated, hended]
  | waiting hrunning _ => rw [warned_of_running hrunning, List.append_nil]
  | failing hrunning _ =>
    rw [warnings_of_running hrunning, warned_of_running hrunning]
    rfl
  | halting hrunning _ =>
    rw [warnings_of_running hrunning, warned_of_running hrunning]
    rfl
  | going hrunning _ _ =>
    rw [warnings_of_running hrunning, warned_of_running hrunning]
    exact warnings_of_running hrunning

theorem warnings_advance (p : Program) :
    p.advance.2.warnings = p.warnings ++ (p.events p.advance.1).filter Event.isWarning :=
  warnings_of_cycle p.cycle_advance

end Program

namespace Logged

theorem read_eq (m : Logged) :
    Machine.read m = match Machine.read m.program with
      | .ok text p => .ok text { m with program := p }
      | .error e p => .error e { m with program := p } := rfl

theorem log_advance (m : Logged) :
    (Machine.advance m).2.log.toList =
      m.log.toList ++ (m.program.events m.program.advance.1).filter m.filter :=
  Array.toList_appendList

theorem shows_program : Machine.Shows Logged.program where
  advance _ := rfl
  hasTerminated _ := rfl
  read m := by
    rw [read_eq]
    cases Machine.read m.program <;> rfl

/-- The log holds what its filter lets pass, and behind the warnings `before` those of its program
among it. -/
structure Notes (filter : Filter) (before : List Event) (m : Logged) : Prop where
  filter_eq : m.filter = filter
  warnings : before ++ m.log.toList.filter Event.isWarning = m.program.warnings.filter filter
  passes : ∀ e ∈ m.log.toList, filter e = true

variable {filter : Filter} {before : List Event}

theorem notes_advance {m : Logged} (h : m.Notes filter before) :
    (Machine.advance m).2.Notes filter before where
  filter_eq := h.filter_eq
  warnings := by
    have hprogram : (Machine.advance m).2.program = m.program.advance.2 := rfl
    rw [log_advance, List.filter_append, ← List.append_assoc, h.warnings, h.filter_eq,
      List.filter_comm, ← List.filter_append, hprogram, m.program.warnings_advance]
  passes := by
    intro e he
    rw [log_advance, List.mem_append, h.filter_eq] at he
    rcases he with he | he
    · exact h.passes e he
    · exact List.of_mem_filter he

end Logged

namespace Scheduler

variable {filter : Filter} {before : List Event}

theorem notes_work {s : Scheduler Logged} (h : s.machine.Notes filter before) (budget : Nat) :
    (s.work budget).2.machine.Notes filter before :=
  work_induction
    (P := fun _ s _ t => s.machine.Notes filter before → t.machine.Notes filter before)
    (fun _ h => h) (fun _ _ _ _ h => h) (fun _ _ _ _ _ h => Logged.notes_advance h)
    (fun _ _ _ _ _ _ hrest h => hrest (Logged.notes_advance h)) budget s h

theorem notes_drain {s : Scheduler Logged} (h : s.machine.Notes filter before) :
    s.drain.2.machine.Notes filter before := by
  have hread : Machine.read s.machine.program = s.machine.program.read := rfl
  unfold drain
  rw [Logged.read_eq, hread, Program.read_eq]
  by_cases hempty : s.machine.program.output.isEmpty = true
  · rw [if_pos hempty]
    exact ⟨h.filter_eq, h.warnings, h.passes⟩
  · rw [if_neg hempty]
    exact ⟨h.filter_eq, h.warnings, h.passes⟩

/-- What is logged in a batch. -/
def batchLog (filter : Filter) (s : Scheduler Program) : List Event :=
  (s.runBatchLogged filter).2.1

/-- A batch that is logged does what it does without. -/
theorem runBatchLogged_eq (filter : Filter) (s : Scheduler Program) :
    s.runBatchLogged filter = (s.runBatch.1, s.batchLog filter, s.runBatch.2) := by
  have hview : s.runBatch = _ := runBatch_map Logged.shows_program (s.logged filter)
  rw [hview]
  rfl

theorem notes_runBatch (filter : Filter) (s : Scheduler Program) :
    (s.logged filter).runBatch.2.machine.Notes filter (s.machine.warnings.filter filter) := by
  have hstart : (s.logged filter).machine.Notes filter (s.machine.warnings.filter filter) :=
    ⟨rfl, List.append_nil _, fun _ he => by cases he⟩
  exact notes_drain (notes_work hstart s.batchSize)

/-- The warnings of a batch are those that its program comes to in it. -/
theorem warnings_batchLog (filter : Filter) (s : Scheduler Program) :
    s.machine.warnings.filter filter ++ (s.batchLog filter).filter Event.isWarning =
      s.runBatch.2.machine.warnings.filter filter := by
  have hview : s.runBatch.2 = (s.logged filter).runBatch.2.map Logged.program :=
    congrArg (·.2.2) (s.runBatchLogged_eq filter).symm
  have hfinished : ∀ steps total stop,
      ([Event.batchFinished steps total stop].filter filter).filter Event.isWarning = [] := by
    intro steps total stop
    rw [List.filter_comm]
    rfl
  rw [hview]
  refine Eq.trans ?_ (s.notes_runBatch filter).warnings
  simp only [batchLog, runBatchLogged, List.filter_append, hfinished, List.append_nil]

theorem passes_batchLog {s : Scheduler Program} {e : Event} (he : e ∈ s.batchLog filter) :
    filter e = true := by
  rcases List.mem_append.mp he with he | he
  · exact (s.notes_runBatch filter).passes e he
  · exact List.of_mem_filter he

section Runs

variable {s t : Scheduler Program} {stop : Stop} {batches : Nat}

theorem runLog_of_stop (h : s.runBatch.1.stop = some stop) (filter : Filter) (batches : Nat) :
    s.runLog filter (batches + 1) = s.batchLog filter := by
  simp only [runLog, runBatchLogged_eq, h]

theorem runLog_of_going (h : s.runBatch.1.stop = none) (filter : Filter) (batches : Nat) :
    s.runLog filter (batches + 1) = s.batchLog filter ++ s.runBatch.2.runLog filter batches := by
  simp only [runLog, runBatchLogged_eq, h]

/-- The warnings of a run are those that its program comes to in it. -/
theorem warnings_runLog (filter : Filter) (hrun : s.run batches = some (stop, t)) :
    s.machine.warnings.filter filter ++ (s.runLog filter batches).filter Event.isWarning =
      t.machine.warnings.filter filter := by
  induction batches generalizing s with
  | zero => cases hrun
  | succ batches ih =>
    have hbatch := s.warnings_batchLog filter
    cases hstop : s.runBatch.1.stop with
    | some stop' =>
      rw [(run_of_stop hstop batches).1] at hrun
      cases hrun
      rw [runLog_of_stop hstop, hbatch]
    | none =>
      rw [(run_of_going hstop batches).1] at hrun
      rw [runLog_of_going hstop, List.filter_append, ← List.append_assoc, hbatch]
      exact ih hrun

theorem passes_runLog {e : Event} (he : e ∈ s.runLog filter batches) : filter e = true := by
  induction batches generalizing s with
  | zero => cases he
  | succ batches ih =>
    cases hstop : s.runBatch.1.stop with
    | some stop =>
      rw [runLog_of_stop hstop] at he
      exact passes_batchLog he
    | none =>
      rw [runLog_of_going hstop] at he
      rcases List.mem_append.mp he with he | he
      · exact passes_batchLog he
      · exact ih he

end Runs

end Scheduler

end Fish
