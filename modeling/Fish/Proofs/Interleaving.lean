import Fish.Proofs.BoundedRuns

/-!
Runs of several programs side by side. Each program has a scheduler of its own, and at any moment
any of those that have not stopped does its next batch. A batch leads its own job on to the
result of the program alone and leaves the others as they are, and each brings the end nearer; so
the order of the batches makes no difference, and there are only so many of them.
-/

namespace Fish

/-- A run to completion, in the making or done. -/
inductive Job
  /-- What the batches so far have read, and the scheduler after them. -/
  | running (output : String) (scheduler : Scheduler Program)
  | finished (result : Summary × Program)

namespace Job

def start (limit : Nat) (p : Program) : Job :=
  .running "" (.ofMachine p { stepLimit := some limit })

/-- The job after the next batch of its scheduler. -/
def afterBatch (output : String) (s : Scheduler Program) : Job :=
  match s.runBatch with
  | (report, s) =>
    match report.stop with
    | some stop => .finished (⟨output ++ report.output, stop, s.totalSteps⟩, s.machine)
    | none => .running (output ++ report.output) s

/-- What is left to do leads to the result of the program alone. -/
def Completes (p : Program) (limit : Nat) : Job → Prop
  | running output s =>
    s.stepLimit = some limit ∧ ∃ batches, s.collect batches output = some (p.runToCompletion limit)
  | finished result => result = p.runToCompletion limit

/-- The batches that can still follow at most. -/
def batchesLeft (limit : Nat) : Job → Nat
  | running _ s => s.batchesLeft limit + 1
  | finished _ => 0

section Batch

variable {limit : Nat} {output : String} {s : Scheduler Program}

theorem afterBatch_of_stop {stop : Stop} (h : s.runBatch.1.stop = some stop) (output : String) :
    afterBatch output s = .finished
      (⟨output ++ s.runBatch.1.output, stop, s.runBatch.2.totalSteps⟩, s.runBatch.2.machine) := by
  simp only [afterBatch, h]

theorem afterBatch_of_going (h : s.runBatch.1.stop = none) (output : String) :
    afterBatch output s = .running (output ++ s.runBatch.1.output) s.runBatch.2 := by
  simp only [afterBatch, h]

theorem completes_start (p : Program) (limit : Nat) : (start limit p).Completes p limit :=
  ⟨rfl, limit / 1024 + 1, p.collect_runToCompletion limit⟩

theorem completes_afterBatch {p : Program} (h : (running output s).Completes p limit) :
    (afterBatch output s).Completes p limit := by
  obtain ⟨hlimit, batches, hcollect⟩ := h
  cases batches with
  | zero => cases hcollect
  | succ batches =>
    rw [Scheduler.collect] at hcollect
    cases hstop : s.runBatch.1.stop with
    | some stop =>
      simp only [hstop] at hcollect
      rw [afterBatch_of_stop hstop]
      exact Option.some.inj hcollect
    | none =>
      simp only [hstop] at hcollect
      rw [afterBatch_of_going hstop]
      exact ⟨s.stepLimit_runBatch.trans hlimit, batches, hcollect⟩

theorem batchesLeft_afterBatch (hlimit : s.stepLimit = some limit) (output : String) :
    (afterBatch output s).batchesLeft limit < (running output s).batchesLeft limit := by
  cases hstop : s.runBatch.1.stop with
  | some stop =>
    rw [afterBatch_of_stop hstop]
    exact Nat.zero_lt_succ _
  | none =>
    rw [afterBatch_of_going hstop, batchesLeft, batchesLeft,
      Scheduler.batchesLeft_runBatch hlimit hstop]
    exact Nat.lt_succ_self _

end Batch

end Job

/-- An interleaving of batches, given by the places of the jobs that do them, leads from some
jobs to others. -/
inductive Interleaving : List Job → List Nat → List Job → Prop
  | none (jobs : List Job) : Interleaving jobs [] jobs
  | batch {jobs later : List Job} {i : Nat} {order : List Nat} {output : String}
      {s : Scheduler Program} (hrunning : jobs[i]? = some (.running output s))
      (hrest : Interleaving (jobs.set i (.afterBatch output s)) order later) :
      Interleaving jobs (i :: order) later

/-- Each job is on the way to the result of its program. -/
structure Together (programs : List Program) (limit : Nat) (jobs : List Job) : Prop where
  length : jobs.length = programs.length
  completes : ∀ (i : Nat) (p : Program) (job : Job), programs[i]? = some p →
    jobs[i]? = some job → job.Completes p limit

/-- The batches that can still follow in all. -/
def batchesAhead (limit : Nat) : List Job → Nat
  | [] => 0
  | job :: jobs => job.batchesLeft limit + batchesAhead limit jobs

namespace Together

variable {programs : List Program} {limit : Nat} {jobs later : List Job}

theorem start (programs : List Program) (limit : Nat) :
    Together programs limit (programs.map (Job.start limit)) := by
  refine ⟨List.length_map _, fun i p job hp hjob => ?_⟩
  rw [List.getElem?_map, hp] at hjob
  cases hjob
  exact Job.completes_start p limit

/-- The program that a job is about. -/
theorem exists_program (h : Together programs limit jobs) {i : Nat} {job : Job}
    (hjob : jobs[i]? = some job) : ∃ p, programs[i]? = some p ∧ job.Completes p limit := by
  obtain ⟨hi, -⟩ := List.getElem?_eq_some_iff.mp hjob
  rw [h.length] at hi
  exact ⟨programs[i], List.getElem?_eq_getElem hi, h.completes i _ job
    (List.getElem?_eq_getElem hi) hjob⟩

theorem batch (h : Together programs limit jobs) {i : Nat} {output : String}
    {s : Scheduler Program} (hrunning : jobs[i]? = some (.running output s)) :
    Together programs limit (jobs.set i (.afterBatch output s)) := by
  refine ⟨List.length_set.trans h.length, fun j p job hp hjob => ?_⟩
  by_cases hij : i = j
  · subst hij
    obtain ⟨hi, -⟩ := List.getElem?_eq_some_iff.mp hrunning
    rw [List.getElem?_set_self hi] at hjob
    cases hjob
    exact Job.completes_afterBatch (h.completes i p _ hp hrunning)
  · rw [List.getElem?_set_ne hij] at hjob
    exact h.completes j p job hp hjob

end Together

theorem batchesAhead_set {limit i : Nat} {jobs : List Job} {job next : Job}
    (hjob : jobs[i]? = some job) (hlt : next.batchesLeft limit < job.batchesLeft limit) :
    batchesAhead limit (jobs.set i next) < batchesAhead limit jobs := by
  induction jobs generalizing i with
  | nil => cases hjob
  | cons first rest ih =>
    cases i with
    | zero =>
      cases hjob
      simp only [List.set_cons_zero, batchesAhead]
      omega
    | succ i =>
      have hrest := ih hjob
      simp only [List.set_cons_succ, batchesAhead]
      omega

theorem batchesAhead_start (programs : List Program) (limit : Nat) :
    batchesAhead limit (programs.map (Job.start limit)) =
      programs.length * (limit / 1024 + 1) := by
  induction programs with
  | nil => exact (Nat.zero_mul _).symm
  | cons p rest ih =>
    have hleft : (Job.start limit p).batchesLeft limit = limit / 1024 + 1 := rfl
    rw [List.map_cons, batchesAhead, ih, hleft, List.length_cons, Nat.succ_mul, Nat.add_comm]

namespace Interleaving

variable {programs : List Program} {limit : Nat} {jobs later : List Job} {order : List Nat}

/-- Every batch is one of those that were ahead, and keeps the jobs on their way. -/
theorem together (h : Interleaving jobs order later) (htogether : Together programs limit jobs) :
    Together programs limit later ∧
      order.length + batchesAhead limit later ≤ batchesAhead limit jobs := by
  induction h with
  | none jobs => exact ⟨htogether, by simp⟩
  | batch hrunning hrest ih =>
    obtain ⟨p, -, hlimit, -⟩ := htogether.exists_program hrunning
    have hlt := batchesAhead_set hrunning (Job.batchesLeft_afterBatch hlimit _)
    obtain ⟨hlater, hlength⟩ := ih (htogether.batch hrunning)
    refine ⟨hlater, ?_⟩
    rw [List.length_cons]
    omega

end Interleaving

/-- Where no job is running, all results are there, in the order of the programs. -/
theorem Together.eq_finished {programs : List Program} {limit : Nat} {jobs : List Job}
    (h : Together programs limit jobs)
    (hdone : ∀ (i : Nat) (output : String) (s : Scheduler Program),
      jobs[i]? ≠ some (.running output s)) :
    jobs = (Program.runAll programs limit).map .finished := by
  refine List.ext_getElem? fun i => ?_
  rw [Program.runAll, List.getElem?_map, List.getElem?_map]
  cases hjob : jobs[i]? with
  | none =>
    have hlength := List.getElem?_eq_none_iff.mp hjob
    rw [List.getElem?_eq_none (h.length ▸ hlength)]
    rfl
  | some job =>
    obtain ⟨p, hp, hcompletes⟩ := h.exists_program hjob
    rw [hp]
    cases job with
    | running output s => exact absurd hjob (hdone i output s)
    | finished result => exact congrArg (fun r => some (Job.finished r)) hcompletes

/-- Programs side by side end with the same results, whatever the order of their batches, and all
orders are complete at the same point. -/
theorem interleaving_irrelevant (programs : List Program) (limit : Nat) {order : List Nat}
    {jobs : List Job} (h : Interleaving (programs.map (Job.start limit)) order jobs) :
    order.length ≤ programs.length * (limit / 1024 + 1) ∧
    ((∀ i later, ¬ Interleaving jobs [i] later) ↔
      jobs = (programs.map fun p => p.runToCompletion limit).map .finished) := by
  obtain ⟨htogether, hlength⟩ := h.together (.start programs limit)
  rw [batchesAhead_start] at hlength
  refine ⟨by omega, fun hstill => ?_, fun hfinished i later hnext => ?_⟩
  · refine htogether.eq_finished fun i output s hrunning => ?_
    exact hstill i _ (.batch hrunning (.none _))
  · cases hnext with
    | batch hrunning hrest =>
      rw [hfinished, List.map_map, List.getElem?_map, Option.map_eq_some_iff] at hrunning
      obtain ⟨p, -, hp⟩ := hrunning
      cases hp

/-- The last program fails first, then the first one halts, and the one in between is stopped by
the limit. -/
theorem interleaving_irrelevant_lastFirst :
    let programs := [Program.load "1n;" [] 0, .load "2n" [] 0, .load "3n+" [] 0]
    ∃ jobs, Interleaving (programs.map (Job.start 5)) [2, 0, 1] jobs ∧
      [2, 0, 1].length ≤ programs.length * (5 / 1024 + 1) ∧
      jobs = (programs.map fun p => p.runToCompletion 5).map .finished ∧
      (programs.map fun p => (p.runToCompletion 5).1) =
        [⟨"1", .halted, 3⟩, ⟨"22", .stepLimit, 5⟩, ⟨"3", .failed (.stackUnderflow 2 0), 3⟩] := by
  intro programs
  let schedulers := programs.map fun p => Scheduler.ofMachine p { stepLimit := some 5 }
  have hstops : schedulers.map (fun s => s.runBatch.1.stop) =
      [some .halted, some .stepLimit, some (.failed (.stackUnderflow 2 0))] := by decide
  obtain ⟨s, t, u, hschedulers⟩ : ∃ s t u, schedulers = [s, t, u] := ⟨_, _, _, rfl⟩
  rw [hschedulers] at hstops
  simp only [List.map_cons, List.map_nil, List.cons.injEq, and_true] at hstops
  obtain ⟨hs, ht, hu⟩ := hstops
  have hstart : programs.map (Job.start 5) = schedulers.map (Job.running "") := rfl
  have hinterleaving : Interleaving (programs.map (Job.start 5)) [2, 0, 1]
      [.afterBatch "" s, .afterBatch "" t, .afterBatch "" u] := by
    rw [hstart, hschedulers]
    exact .batch rfl (.batch rfl (.batch rfl (.none _)))
  obtain ⟨hlength, hdone⟩ := interleaving_irrelevant programs 5 hinterleaving
  refine ⟨_, hinterleaving, hlength, hdone.mp fun i later hnext => ?_, by decide⟩
  rw [Job.afterBatch_of_stop hs, Job.afterBatch_of_stop ht, Job.afterBatch_of_stop hu] at hnext
  cases hnext with
  | batch hrunning hrest =>
    match i, hrunning with
    | 0, hrunning => cases hrunning
    | 1, hrunning => cases hrunning
    | 2, hrunning => cases hrunning

end Fish
