import Fish.Machine

/-!
Scheduling: a machine is driven in batches of cycles, and observers hear of each batch when
it is over. A batch ends early when the machine stops or waits for input, when the step
limit is reached, or when the run was cancelled. A run is a sequence of batches up to the
first that says why it stopped; under a step limit there always is one.
-/

namespace Fish

/-- Why a batch, and with it a run, stopped. -/
inductive Stop
  | halted
  | failed (fault : Fault)
  | blocked
  | cancelled
  | stepLimit
  deriving DecidableEq

def Step.stop? : Step → Option Stop
  | progressed => none
  | blocked => some .blocked
  | halted => some .halted
  | failed fault => some (.failed fault)

structure BatchReport where
  /-- The cycles done; waiting for input is not one. -/
  steps : Nat
  output : String
  /-- Absent when the batch was used up. -/
  stop : Option Stop
  deriving DecidableEq

/-- Someone who is told of every batch, and who may cancel the run at any of them, going by
all reports so far, the last one first. -/
structure Observer where
  id : Nat
  cancels : List BatchReport → Bool
  received : List BatchReport := []

def Observer.receive (report : BatchReport) (o : Observer) : Observer :=
  { o with received := report :: o.received }

structure Pacing where
  stepsPerBatch : Nat := 1024
  stepLimit : Option Nat := none

structure Scheduler (μ : Type) where
  machine : μ
  batchSize : Nat
  batchSize_pos : 0 < batchSize
  stepLimit : Option Nat
  cancelled : Bool := false
  /-- Those who are told, in the order in which they subscribed. -/
  observers : List Observer := []
  nextId : Nat := 0
  totalSteps : Nat := 0
  /-- Who was told what, in order. -/
  notified : Array (Nat × BatchReport) := #[]

namespace Scheduler

variable {μ : Type}

/-- A batch has at least one cycle. -/
def ofMachine (machine : μ) (pacing : Pacing) : Scheduler μ where
  machine := machine
  batchSize := max 1 pacing.stepsPerBatch
  batchSize_pos := by omega
  stepLimit := pacing.stepLimit

/-- The scheduler of what is seen of the machine. -/
def map {ν : Type} (view : ν → μ) (s : Scheduler ν) : Scheduler μ :=
  { s with machine := view s.machine }

/-- Adds an observer under a fresh number. -/
def subscribe (cancels : List BatchReport → Bool) (s : Scheduler μ) : Nat × Scheduler μ :=
  (s.nextId,
    { s with
      observers := s.observers ++ [{ id := s.nextId, cancels := cancels }]
      nextId := s.nextId + 1 })

def isSubscribed (id : Nat) (s : Scheduler μ) : Bool := s.observers.any fun o => o.id == id

/-- Removes an observer, and tells whether there was one of that number. -/
def unsubscribe (id : Nat) (s : Scheduler μ) : Bool × Scheduler μ :=
  (s.isSubscribed id, { s with observers := s.observers.filter fun o => o.id != id })

def cancel (s : Scheduler μ) : Scheduler μ := { s with cancelled := true }

def limitReached (s : Scheduler μ) : Bool :=
  match s.stepLimit with
  | some limit => limit ≤ s.totalSteps
  | none => false

/-- Why no further cycle may be tried. -/
def refusal? (s : Scheduler μ) : Option Stop :=
  if s.cancelled then some .cancelled
  else if s.limitReached then some .stepLimit
  else none

/-- Tells every observer of a batch. -/
def notify (report : BatchReport) (s : Scheduler μ) : Scheduler μ :=
  let observers := s.observers.map (Observer.receive report)
  { s with
    observers := observers
    cancelled := s.cancelled || observers.any fun o => o.cancels o.received
    notified := s.notified ++ s.observers.map fun o => (o.id, report) }

variable [Machine μ]

/-- Tries one cycle. It counts if the machine was running and did not have to wait. -/
def cycle (s : Scheduler μ) : Step × Scheduler μ :=
  let outcome := Machine.advance s.machine
  let counted := !Machine.hasTerminated s.machine && outcome.1 != .blocked
  (outcome.1,
    { s with
      machine := outcome.2
      totalSteps := if counted then s.totalSteps + 1 else s.totalSteps })

/-- Runs up to `budget` cycles. -/
def work : Nat → Scheduler μ → Option Stop × Scheduler μ
  | 0, s => (none, s)
  | budget + 1, s =>
    match s.refusal? with
    | some stop => (some stop, s)
    | none =>
      match s.cycle with
      | (step, s) =>
        match step.stop? with
        | some stop => (some stop, s)
        | none => work budget s

/-- Takes what the machine has written. -/
def drain (s : Scheduler μ) : String × Scheduler μ :=
  match Machine.read s.machine with
  | .ok text machine => (text, { s with machine := machine })
  | .error _ machine => ("", { s with machine := machine })

/-- Runs one batch and tells the observers of it. -/
def runBatch (s : Scheduler μ) : BatchReport × Scheduler μ :=
  let (stop, worked) := s.work s.batchSize
  let (output, drained) := worked.drain
  let report := ⟨worked.totalSteps - s.totalSteps, output, stop⟩
  (report, drained.notify report)

/-- Runs batches until one stops; `none` if `batches` of them were not enough. -/
def run : Nat → Scheduler μ → Option (Stop × Scheduler μ)
  | 0, _ => none
  | batches + 1, s =>
    match s.runBatch with
    | (report, s) =>
      match report.stop with
      | some stop => some (stop, s)
      | none => run batches s

/-- A cycle that leaves the machine running is counted. -/
theorem totalSteps_cycle (s : Scheduler μ) (going : s.cycle.1.stop? = none) :
    s.cycle.2.totalSteps = s.totalSteps + 1 := by
  have progressed : (Machine.advance s.machine).1 = .progressed := by
    unfold cycle at going
    cases h : (Machine.advance s.machine).1 <;> simp [h, Step.stop?] at going ⊢
  have running : Machine.hasTerminated s.machine = false := by
    cases h : Machine.hasTerminated s.machine with
    | false => rfl
    | true =>
      have := Machine.isTerminal_of_hasTerminated s.machine h
      simp [progressed, Step.isTerminal] at this
  have : (Step.progressed != Step.blocked) = true := rfl
  simp [cycle, progressed, running, this]

/-- A batch that is used up has done as many cycles as it could. -/
theorem totalSteps_work (budget : Nat) (s : Scheduler μ) (going : (s.work budget).1 = none) :
    (s.work budget).2.totalSteps = s.totalSteps + budget := by
  induction budget generalizing s with
  | zero => rfl
  | succ budget ih =>
    unfold work at going ⊢
    cases refusal : s.refusal? with
    | some stop => simp [refusal] at going
    | none =>
      cases stopped : s.cycle.1.stop? with
      | some stop => simp [refusal, stopped] at going
      | none =>
        simp only [refusal, stopped] at going ⊢
        rw [ih s.cycle.2 going, totalSteps_cycle s stopped]
        omega

@[simp] theorem stepLimit_cycle (s : Scheduler μ) : s.cycle.2.stepLimit = s.stepLimit := rfl

@[simp] theorem stepLimit_work (budget : Nat) (s : Scheduler μ) :
    (s.work budget).2.stepLimit = s.stepLimit := by
  induction budget generalizing s with
  | zero => rfl
  | succ budget ih =>
    unfold work
    cases s.refusal? with
    | some stop => rfl
    | none =>
      cases stopped : s.cycle.1.stop? with
      | some stop => simp [stopped]
      | none => simp [stopped, ih]

@[simp] theorem stepLimit_drain (s : Scheduler μ) : s.drain.2.stepLimit = s.stepLimit := by
  unfold drain
  split <;> rfl

@[simp] theorem totalSteps_drain (s : Scheduler μ) :
    s.drain.2.totalSteps = s.totalSteps := by
  unfold drain
  split <;> rfl

@[simp] theorem stepLimit_runBatch (s : Scheduler μ) :
    s.runBatch.2.stepLimit = s.stepLimit := by
  simp [runBatch, notify]

omit [Machine μ] in
theorem exists_batchSize (s : Scheduler μ) : ∃ budget, s.batchSize = budget + 1 :=
  Nat.exists_eq_succ_of_ne_zero (Nat.ne_of_gt s.batchSize_pos)

/-- No batch is used up at the step limit. -/
theorem stop_runBatch_of_limitReached (s : Scheduler μ) (reached : s.limitReached = true) :
    s.runBatch.1.stop ≠ none := by
  have refused : s.refusal? ≠ none := by
    unfold refusal?
    split <;> simp
  obtain ⟨budget, size⟩ := s.exists_batchSize
  simp only [runBatch, size, work]
  cases h : s.refusal? with
  | none => exact absurd h refused
  | some stop => simp

/-- A batch that is used up brings the step limit nearer. -/
theorem totalSteps_runBatch (s : Scheduler μ) (going : s.runBatch.1.stop = none) :
    s.runBatch.2.totalSteps = s.totalSteps + s.batchSize := by
  simpa [runBatch, notify] using totalSteps_work s.batchSize s (by simpa [runBatch] using going)

end Scheduler

end Fish
