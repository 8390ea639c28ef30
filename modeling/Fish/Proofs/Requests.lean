import Fish.Proofs.Batching
import Fish.Proofs.Emission

/-!
Histories of requests: all that can be asked of a scheduler, one request after the other, with
calls to its program in between. To the program each request comes as a row of calls, and a whole
history as one history of calls.
-/

namespace Fish

/-- A request to a scheduler, or a call to its program from outside. A run need not end; it is
followed for so many batches at most. -/
inductive Request
  | subscribe (cancels : List BatchReport → Bool)
  | unsubscribe (id : Nat)
  | batch
  | run (batches : Nat)
  | cancel
  | call (call : Call)

inductive Response
  | subscribed (id : Nat)
  | unsubscribed (found : Bool)
  | reported (report : BatchReport)
  /-- The reports of a run, and why it stopped if it has. -/
  | ran (reports : List BatchReport) (stop : Option Stop)
  | cancelled
  | answered (answer : Answer)

/-- The reports of the batches that a request has led to. -/
def Response.reports : Response → List BatchReport
  | reported report => [report]
  | ran reports _ => reports
  | _ => []

/-- The texts that a request has taken from the output, in reports or as a direct answer. -/
def Response.texts : Response → List String
  | reported report => [report.output]
  | ran reports _ => reports.map (·.output)
  | answered answer => answer.text?.toList
  | _ => []

def reportsIn (responses : List Response) : List BatchReport := responses.flatMap Response.reports

/-- All the steps that were reported. -/
def stepsIn (reports : List BatchReport) : Nat := reports.foldr (·.steps + ·) 0

def textsIn (responses : List Response) : List String := responses.flatMap Response.texts

namespace Scheduler

section Machines

variable {μ : Type} [Machine μ]

/-- The scheduler after the batches of a run, up to the first that stops. -/
def afterBatches : Nat → Scheduler μ → Scheduler μ
  | 0, s => s
  | batches + 1, s =>
    match s.runBatch with
    | (report, s) =>
      match report.stop with
      | some _ => s
      | none => afterBatches batches s

theorem afterBatches_of_stop {s : Scheduler μ} {stop : Stop}
    (h : s.runBatch.1.stop = some stop) (batches : Nat) :
    s.afterBatches (batches + 1) = s.runBatch.2 := by
  simp only [afterBatches, h]

theorem afterBatches_of_going {s : Scheduler μ} (h : s.runBatch.1.stop = none) (batches : Nat) :
    s.afterBatches (batches + 1) = s.runBatch.2.afterBatches batches := by
  simp only [afterBatches, h]

theorem afterBatches_of_run {batches : Nat} {s t : Scheduler μ} {stop : Stop}
    (h : s.run batches = some (stop, t)) : s.afterBatches batches = t := by
  induction batches generalizing s with
  | zero => cases h
  | succ batches ih =>
    cases hstop : s.runBatch.1.stop with
    | some stop' =>
      rw [(run_of_stop hstop batches).1] at h
      rw [afterBatches_of_stop hstop]
      exact congrArg Prod.snd (Option.some.inj h)
    | none =>
      rw [(run_of_going hstop batches).1] at h
      rw [afterBatches_of_going hstop, ih h]

/-- What a batch keeps, the batches of a run keep. -/
theorem afterBatches_keeps {P : Scheduler μ → Prop} (hbatch : ∀ s, P s → P s.runBatch.2)
    (batches : Nat) {s : Scheduler μ} (h : P s) : P (s.afterBatches batches) := by
  induction batches generalizing s with
  | zero => exact h
  | succ batches ih =>
    cases hstop : s.runBatch.1.stop with
    | some stop =>
      rw [afterBatches_of_stop hstop]
      exact hbatch s h
    | none =>
      rw [afterBatches_of_going hstop]
      exact ih (hbatch s h)

/-- A run that has not stopped goes on where its batches have led. -/
theorem run_add {batches : Nat} {s : Scheduler μ} (h : s.run batches = none) (more : Nat) :
    s.run (batches + more) = (s.afterBatches batches).run more ∧
      s.reports (batches + more) = s.reports batches ++ (s.afterBatches batches).reports more := by
  induction batches generalizing s with
  | zero =>
    rw [Nat.zero_add]
    exact ⟨rfl, rfl⟩
  | succ batches ih =>
    cases hstop : s.runBatch.1.stop with
    | some stop =>
      rw [(run_of_stop hstop batches).1] at h
      cases h
    | none =>
      rw [(run_of_going hstop batches).1] at h
      obtain ⟨hrun, hreports⟩ := ih h
      rw [Nat.succ_add, (run_of_going hstop _).1, (run_of_going hstop _).2,
        (run_of_going hstop _).2, afterBatches_of_going hstop, hrun, hreports, List.cons_append]
      exact ⟨rfl, rfl⟩

/-- Does what is asked, where `answer` says what calls from outside come to. -/
def serveBy (answer : Call → μ → Answer × μ) : Request → Scheduler μ → Response × Scheduler μ
  | .subscribe cancels, s => (.subscribed (s.subscribe cancels).1, (s.subscribe cancels).2)
  | .unsubscribe id, s => (.unsubscribed (s.unsubscribe id).1, (s.unsubscribe id).2)
  | .batch, s => (.reported s.runBatch.1, s.runBatch.2)
  | .run batches, s =>
    (.ran (s.reports batches) ((s.run batches).map Prod.fst), s.afterBatches batches)
  | .cancel, s => (.cancelled, s.cancel)
  | .call call, s =>
    (.answered (answer call s.machine).1, { s with machine := (answer call s.machine).2 })

/-- Serves the requests in order; the responses, and the scheduler after the last. -/
def serveAllBy (answer : Call → μ → Answer × μ) :
    List Request → Scheduler μ → List Response × Scheduler μ
  | [], s => ([], s)
  | request :: requests, s =>
    let (response, t) := s.serveBy answer request
    let (responses, u) := t.serveAllBy answer requests
    (response :: responses, u)

theorem serveAllBy_cons (answer : Call → μ → Answer × μ) (request : Request)
    (requests : List Request) (s : Scheduler μ) :
    s.serveAllBy answer (request :: requests) =
      ((s.serveBy answer request).1 ::
          ((s.serveBy answer request).2.serveAllBy answer requests).1,
        ((s.serveBy answer request).2.serveAllBy answer requests).2) := rfl

/-- No request takes it away. -/
structure Lasting (answer : Call → μ → Answer × μ) (P : Scheduler μ → Prop) : Prop where
  subscribe : ∀ cancels {s}, P s → P (s.subscribe cancels).2
  unsubscribe : ∀ id {s}, P s → P (s.unsubscribe id).2
  batch : ∀ {s}, P s → P s.runBatch.2
  cancel : ∀ {s}, P s → P s.cancel
  call : ∀ call {s}, P s → P { s with machine := (answer call s.machine).2 }

theorem Lasting.serveBy {answer : Call → μ → Answer × μ} {P : Scheduler μ → Prop}
    (h : Lasting answer P) (request : Request) {s : Scheduler μ} (hs : P s) :
    P (s.serveBy answer request).2 := by
  cases request with
  | subscribe cancels => exact h.subscribe cancels hs
  | unsubscribe id => exact h.unsubscribe id hs
  | batch => exact h.batch hs
  | run batches => exact afterBatches_keeps (fun _ => h.batch) batches hs
  | cancel => exact h.cancel hs
  | call call => exact h.call call hs

theorem Lasting.serveAllBy {answer : Call → μ → Answer × μ} {P : Scheduler μ → Prop}
    (h : Lasting answer P) (requests : List Request) {s : Scheduler μ} (hs : P s) :
    P (s.serveAllBy answer requests).2 := by
  induction requests generalizing s with
  | nil => exact hs
  | cons request requests ih => exact ih (h.serveBy request hs)

end Machines

/-- Does what is asked of the scheduler of a program, which answers the calls itself. -/
def serve : Request → Scheduler Program → Response × Scheduler Program :=
  serveBy Program.respond

def serveAll : List Request → Scheduler Program → List Response × Scheduler Program :=
  serveAllBy Program.respond

/-- The cycles that a batch tries, the one that stops it included. -/
def attempts : Nat → Scheduler Program → Nat
  | 0, _ => 0
  | budget + 1, s =>
    match s.refusal? with
    | some _ => 0
    | none =>
      match s.cycle with
      | (step, s) =>
        match step.stop? with
        | some _ => 1
        | none => attempts budget s + 1

/-- The calls that a batch makes: its cycles, and then a read. -/
def batchCalls (s : Scheduler Program) : List Call :=
  List.replicate (s.attempts s.batchSize) .advance ++ [.read]

def runCalls : Nat → Scheduler Program → List Call
  | 0, _ => []
  | batches + 1, s =>
    s.batchCalls ++
      match s.runBatch with
      | (report, s) =>
        match report.stop with
        | some _ => []
        | none => runCalls batches s

/-- The calls that a request comes to for the program. -/
def callsFor : Request → Scheduler Program → List Call
  | .batch, s => s.batchCalls
  | .run batches, s => s.runCalls batches
  | .call call, _ => [call]
  | _, _ => []

/-- The calls that the requests have come to, in order. -/
def callsIn : List Request → Scheduler Program → List Call
  | [], _ => []
  | request :: requests, s => s.callsFor request ++ callsIn requests (s.serve request).2

/-- The program that a request advances directly, without the scheduler. -/
def advancedBy : Request → Scheduler Program → List Program
  | .call .advance, s => [s.machine]
  | _, _ => []

/-- The programs that direct advances among the requests have met, in order. -/
def advancedDirectly : List Request → Scheduler Program → List Program
  | [], _ => []
  | request :: requests, s =>
    s.advancedBy request ++ advancedDirectly requests (s.serve request).2

theorem machine_work (budget : Nat) (s : Scheduler Program) :
    (s.work budget).2.machine =
      (s.machine.replay (List.replicate (s.attempts budget) .advance)).2 := by
  induction budget generalizing s with
  | zero => rfl
  | succ budget ih =>
    rw [attempts]
    cases hrefusal : s.refusal? with
    | some stop =>
      rw [work_of_refusal hrefusal]
      rfl
    | none =>
      cases hstop : s.cycle.1.stop? with
      | some stop =>
        rw [work_of_stop hrefusal hstop]
        simp only [hstop]
        rfl
      | none =>
        rw [work_of_progress hrefusal hstop, ih]
        simp only [hstop, List.replicate_succ]
        rfl

end Scheduler

theorem readIn_append (answers answers' : List Answer) :
    readIn (answers ++ answers') = readIn answers ++ readIn answers' := by
  rw [readIn, List.filterMap_append, String.join_append]
  rfl

namespace Scheduler

/-- What a batch reads is what its calls have read. -/
theorem replay_batchCalls (s : Scheduler Program) :
    s.runBatch.2.machine = (s.machine.replay s.batchCalls).2 ∧
      readIn (s.machine.replay s.batchCalls).1 = s.runBatch.1.output := by
  have hsilent : .read ∉ List.replicate (s.attempts s.batchSize) Call.advance := by
    intro h
    cases List.eq_of_mem_replicate h
  have hread := Program.readIn_of_no_read hsilent s.machine
  have hmachine : s.runBatch.2.machine = (s.work s.batchSize).2.machine.drained := by
    simp only [runBatch, drain_eq]
    rfl
  have houtput : s.runBatch.1.output = (s.work s.batchSize).2.machine.output := by
    simp only [runBatch, drain_eq]
  rw [batchCalls, Program.replay_append, readIn_append, hread, hmachine, houtput, machine_work]
  generalize (s.machine.replay (List.replicate (s.attempts s.batchSize) .advance)).2 = p
  have hreplay : p.replay [.read] = ([(p.respond .read).1], (p.respond .read).2) := rfl
  rw [hreplay, Program.readIn_cons, Program.getD_respond_read, Program.respond_read]
  exact ⟨rfl, String.empty_append.trans String.append_empty⟩

end Scheduler

end Fish
