import Fish.Cli.Session
import Fish.Proofs.Foresight
import Fish.Proofs.Warnings

/-!
A session that asks for its input line by line. Between two lines it is a run of batches, and
so a piece of the plain loop. Put together, the pieces are the plain loop of the program that
holds all lines at the start, with the input closed behind them. Its log depends on the pieces,
but the warnings in it do not.
-/

namespace Fish

open Program

namespace Scheduler

variable {s t : Scheduler Program} {batches : Nat} {stop : Stop}

theorem calm_of_run (h : s.Calm) (hrun : s.run batches = some (stop, t)) :
    t.Calm ∧ t.stepLimit = s.stepLimit := by
  induction batches generalizing s with
  | zero => cases hrun
  | succ batches ih =>
    cases hstop : s.runBatch.1.stop with
    | some stop' =>
      rw [(run_of_stop hstop batches).1] at hrun
      cases hrun
      exact ⟨calm_runBatch h, s.stepLimit_runBatch⟩
    | none =>
      rw [(run_of_going hstop batches).1] at hrun
      obtain ⟨hcalm, hlimit⟩ := ih (calm_runBatch h) hrun
      exact ⟨hcalm, hlimit.trans s.stepLimit_runBatch⟩

end Scheduler

namespace Cli

/-- An outcome with no more of its logs than the warnings. -/
def Outcome.atWarn (outcome : Outcome) : Outcome :=
  { outcome with
    log := outcome.log.filter Event.isWarning
    sideLogs := outcome.sideLogs.map fun log => log.filter Event.isWarning }

namespace Session

/-- The session ends so, given batches enough, if of its log only the warnings are heeded. -/
def Concludes (s : Session) (outcome : Outcome) : Prop :=
  ∃ batches x, run batches s = some x ∧ x.atWarn = outcome

/-- The session after batches that brought the scheduler to `t`, have written `text` and logged
`events`. -/
def after (t : Scheduler Program) (text : String) (events : List Event) (s : Session) : Session :=
  { s with scheduler := t, printed := s.printed ++ text, log := s.log ++ events }

/-- The session after its next batch, before it does what follows. -/
def batched (s : Session) : Session :=
  s.after s.scheduler.runBatch.2 s.scheduler.runBatch.1.output (s.scheduler.batchLog s.filter)

/-- What a session does when a run of batches has stopped. -/
def resume (stop : Stop) (s : Session) : Except Outcome Session :=
  match sequel s.scheduler.totalSteps (some stop) with
  | .batch => .ok s
  | .line => s.readLine
  | .exit code complaint => .error (s.ending code complaint)

theorem step_of_stop {s : Session} {stop : Stop} (h : s.scheduler.runBatch.1.stop = some stop) :
    s.step = s.batched.resume stop := by
  simp only [step, Scheduler.runBatchLogged_eq, h]
  rfl

theorem step_of_going {s : Session} (h : s.scheduler.runBatch.1.stop = none) :
    s.step = .ok s.batched := by
  simp only [step, Scheduler.runBatchLogged_eq, h]
  rfl

/-- What is true of the end of a session once it has come to the result of a step. -/
def Leads (result : Except Outcome Session) (outcome : Outcome) : Prop :=
  match result with
  | .ok s => s.Concludes outcome
  | .error x => x.atWarn = outcome

theorem concludes_iff_step (s : Session) (outcome : Outcome) :
    s.Concludes outcome ↔ Leads s.step outcome := by
  constructor
  · intro h
    obtain ⟨batches, x, hrun, hx⟩ := h
    cases batches with
    | zero => cases hrun
    | succ batches =>
      rw [run] at hrun
      cases hstep : s.step with
      | ok s' =>
        rw [hstep] at hrun
        exact ⟨batches, x, hrun, hx⟩
      | error x' =>
        rw [hstep] at hrun
        cases hrun
        exact hx
  · intro h
    cases hstep : s.step with
    | ok s' =>
      rw [hstep] at h
      obtain ⟨batches, x, hrun, hx⟩ := h
      refine ⟨batches + 1, x, ?_, hx⟩
      rw [run, hstep]
      exact hrun
    | error x =>
      rw [hstep] at h
      refine ⟨1, x, ?_, h⟩
      rw [run, hstep]

theorem after_after (t t' : Scheduler Program) (text text' : String) (events events' : List Event)
    (s : Session) :
    (s.after t text events).after t' text' events' =
      s.after t' (text ++ text') (events ++ events') := by
  simp only [after, String.append_assoc, List.append_assoc]

/-- A session goes through a whole run of batches before it does anything else. -/
theorem concludes_iff_resume {s : Session} {batches : Nat} {stop : Stop}
    {t : Scheduler Program} (hrun : s.scheduler.run batches = some (stop, t))
    (outcome : Outcome) :
    s.Concludes outcome ↔
      Leads ((s.after t (Scheduler.outputs (s.scheduler.reports batches))
        (s.scheduler.runLog s.filter batches)).resume stop) outcome := by
  induction batches generalizing s with
  | zero => cases hrun
  | succ batches ih =>
    rw [concludes_iff_step]
    cases hstop : s.scheduler.runBatch.1.stop with
    | some stop' =>
      obtain ⟨hrun', hreports⟩ := Scheduler.run_of_stop hstop batches
      rw [hrun'] at hrun
      cases hrun
      rw [step_of_stop hstop, hreports, Scheduler.outputs_singleton,
        Scheduler.runLog_of_stop hstop]
      rfl
    | none =>
      obtain ⟨hrun', hreports⟩ := Scheduler.run_of_going hstop batches
      rw [hrun'] at hrun
      rw [step_of_going hstop, hreports, Scheduler.outputs_cons,
        Scheduler.runLog_of_going hstop, ← after_after]
      exact ih (s := s.batched) hrun

/-- A session whose batches never stop does not end. -/
theorem run_eq_none {s : Session} {batches : Nat} (h : s.scheduler.run batches = none) :
    run batches s = none := by
  induction batches generalizing s with
  | zero => rfl
  | succ batches ih =>
    cases hstop : s.scheduler.runBatch.1.stop with
    | some stop =>
      rw [(Scheduler.run_of_stop hstop batches).1] at h
      cases h
    | none =>
      rw [(Scheduler.run_of_going hstop batches).1] at h
      rw [run, step_of_going hstop]
      exact ih (s := s.batched) h

/-- What the program of a session has yet to hear is `rest`: nothing once its input is closed,
and else the lines that were not read, all of them text. -/
def Awaits (s : Session) (rest : List Char) : Prop :=
  s.scheduler.machine.state.channel.closed = true ∧ rest = [] ∨
    s.scheduler.machine.state.channel.closed = false ∧
      ∃ lines : List String, s.unread = lines.map .text ∧ lines.flatMap String.toList = rest

/-- The program of the session, as if it had heard everything and nobody had read its output. -/
def foreseen (rest : List Char) (s : Session) : Program :=
  (s.scheduler.machine.foresee rest true).prepend s.printed

/-- The warnings logged so far are those of the program. -/
def Noted (s : Session) : Prop :=
  s.log.filter Event.isWarning = s.scheduler.machine.warnings.filter s.filter

/-- How many questions the session can still ask. -/
def questions (s : Session) : Nat :=
  s.unread.length + if s.scheduler.machine.state.channel.closed then 0 else 1

theorem rest_of_awaits {s : Session} {rest : List Char} (h : s.Awaits rest) :
    s.scheduler.machine.state.channel.closed = true → rest = [] ∧ true = true := by
  intro hclosed
  rcases h with ⟨-, hrest⟩ | ⟨hopen, -⟩
  · exact ⟨hrest, rfl⟩
  · exact absurd (hopen.symm.trans hclosed) Bool.false_ne_true

theorem feed_of_open {p : Program} (h : p.state.channel.closed = false) (text : String) :
    p.feed text = .ok () (p.enqueue text.toList) := by
  have hfeed : Channel.feed text p.state.channel =
      .ok () { p.state.channel with pending := p.state.channel.pending ++ text.toList } := by
    simp [Channel.feed, h]
  rw [feed, onChannel_of_ok hfeed]
  rfl

/-- A question brings the next line, or the end of input. All that a session foresees stays. -/
theorem readLine_of_awaits {s : Session} {rest : List Char} (h : s.Awaits rest)
    (hopen : s.scheduler.machine.state.channel.closed = false) :
    ∃ (p : Program) (unread : List Line) (rest' : List Char),
      let s' : Session := { s with
        scheduler := { s.scheduler with machine := p }
        unread := unread
        reads := s.reads + 1 }
      s.readLine = .ok s' ∧ s'.Awaits rest' ∧ s'.foreseen rest' = s.foreseen rest ∧
        p.warnings = s.scheduler.machine.warnings ∧ s'.questions < s.questions := by
  rcases h with ⟨hclosed, -⟩ | ⟨-, lines, hunread, hlines⟩
  · exact absurd (hopen.symm.trans hclosed) Bool.false_ne_true
  · cases lines with
    | nil =>
      subst hlines
      refine ⟨s.scheduler.machine.close, [], [], ?_, Or.inl ⟨rfl, rfl⟩, rfl, rfl, ?_⟩
      · simp only [readLine, hunread, List.map_nil, List.head?_nil, Option.getD_none, answer,
          List.tail_nil]
      · simp [questions, hopen, hunread, close, Channel.close]
    | cons line lines =>
      subst hlines
      refine ⟨s.scheduler.machine.enqueue line.toList, lines.map .text,
        lines.flatMap String.toList, ?_, Or.inr ⟨hopen, lines, rfl, rfl⟩, ?_, rfl, ?_⟩
      · simp only [readLine, hunread, List.map_cons, List.head?_cons, Option.getD_some, answer,
          feed_of_open hopen, List.tail_cons]
      · exact congrArg (prepend s.printed) (foresee_enqueue line.toList _ true _)
      · have hopen' : (s.scheduler.machine.enqueue line.toList).state.channel.closed = false :=
          hopen
        simp [questions, hopen, hopen', hunread]

end Session

/-- How a session ends whose program has ended its loop with the whole output unread. Of its log
there are the warnings. -/
def conclusion (filter : Filter) : Stop × Nat × Program → Option Outcome
  | (stop, executed, p) =>
    match sequel executed (some stop) with
    | .exit code complaint =>
      some { exit := code, stdout := p.output, message := complaint,
             log := p.warnings.filter filter }
    | _ => none

/-- Whoever does not wait exits. -/
theorem sequel_of_ne_blocked {stop : Stop} (h : stop ≠ .blocked) (totalSteps : Nat) :
    ∃ code complaint, sequel totalSteps (some stop) = .exit code complaint := by
  cases stop with
  | blocked => exact absurd rfl h
  | halted => exact ⟨_, _, rfl⟩
  | failed fault => exact ⟨_, _, rfl⟩
  | cancelled => exact ⟨_, _, rfl⟩
  | stepLimit => exact ⟨_, _, rfl⟩

namespace Session

theorem resume_eq_error {stop : Stop} (hstop : stop ≠ .blocked) (s : Session) :
    ∃ x, s.resume stop = .error x ∧
      ∀ p : Program, p.output = s.printed →
        p.warnings.filter s.filter = s.log.filter Event.isWarning →
          conclusion s.filter (stop, s.scheduler.totalSteps, p) = some x.atWarn := by
  obtain ⟨code, complaint, hsequel⟩ := sequel_of_ne_blocked hstop s.scheduler.totalSteps
  refine ⟨s.ending code complaint, ?_, fun p houtput hwarnings => ?_⟩
  · rw [resume, hsequel]
  · simp only [conclusion, hsequel, houtput, hwarnings]
    rfl

theorem foreseen_after (t : Scheduler Program) (text : String) (events : List Event)
    (rest : List Char) (s : Session) :
    (s.after t text events).foreseen rest =
      ((t.machine.prepend text).foresee rest true).prepend s.printed := by
  rw [foresee_prepend, prepend_prepend]
  rfl

section Pause

variable {s : Session} {rest : List Char} {batches : Nat} {stop : Stop} {t : Scheduler Program}

theorem noted_after (hnoted : s.Noted) (hrun : s.scheduler.run batches = some (stop, t))
    (text : String) : (s.after t text (s.scheduler.runLog s.filter batches)).Noted := by
  have hlog := Scheduler.warnings_runLog s.filter hrun
  rw [← hnoted, ← List.filter_append] at hlog
  exact hlog

/-- After a run that did not stop to wait, the session is over, and so is the loop. -/
theorem concludes_iff_of_stop (hcalm : s.scheduler.Calm) (hawaits : s.Awaits rest)
    (hnoted : s.Noted) (hrun : s.scheduler.run batches = some (stop, t)) (hstop : stop ≠ .blocked)
    (outcome : Outcome) :
    s.Concludes outcome ↔
      ∃ ending, Ends s.scheduler.stepLimit s.scheduler.totalSteps (s.foreseen rest) ending ∧
        conclusion s.filter ending = some outcome := by
  obtain ⟨hloop, houtput⟩ := Scheduler.plainLoop_of_run hcalm hrun
  rw [concludes_iff_resume hrun]
  generalize Scheduler.outputs (s.scheduler.reports batches) = text at hloop ⊢
  have hnoted' := noted_after hnoted hrun text
  generalize s.scheduler.runLog s.filter batches = events at hnoted' ⊢
  obtain ⟨x, hresume, hconclusion⟩ := resume_eq_error hstop (s.after t text events)
  have hends : Ends s.scheduler.stepLimit s.scheduler.totalSteps (s.foreseen rest)
      (stop, t.totalSteps, (s.after t text events).foreseen rest) := by
    rw [foreseen_after]
    exact ends_prepend.mpr
      ⟨_, ends_foresee (rest_of_awaits hawaits) hstop ⟨_, hloop⟩, rfl⟩
  have hprinted : ((s.after t text events).foreseen rest).output =
      (s.after t text events).printed := by
    have houtput' : (t.machine.foresee rest true).output = "" := houtput
    rw [foreseen, output_prepend]
    exact (congrArg ((s.after t text events).printed ++ ·) houtput').trans String.append_empty
  have hconcluded := hconclusion _ hprinted hnoted'.symm
  rw [hresume]
  constructor
  · intro heq
    exact ⟨_, hends, hconcluded.trans (congrArg some heq)⟩
  · intro h
    obtain ⟨ending, hends', hending⟩ := h
    obtain rfl := ends_unique hends hends'
    exact Option.some.inj (hconcluded.symm.trans hending)

/-- After a run that stopped to wait, the session reads a line, and the loop just goes on. -/
theorem concludes_iff_of_blocked (hcalm : s.scheduler.Calm) (hawaits : s.Awaits rest)
    (hnoted : s.Noted) (hrun : s.scheduler.run batches = some (.blocked, t)) :
    ∃ (s' : Session) (rest' : List Char), s'.scheduler.Calm ∧ s'.Awaits rest' ∧ s'.Noted ∧
      s'.filter = s.filter ∧ s'.questions < s.questions ∧
      (∀ outcome, s.Concludes outcome ↔ s'.Concludes outcome) ∧
      ∀ ending, Ends s.scheduler.stepLimit s.scheduler.totalSteps (s.foreseen rest) ending ↔
        Ends s'.scheduler.stepLimit s'.scheduler.totalSteps (s'.foreseen rest') ending := by
  obtain ⟨hloop, -⟩ := Scheduler.plainLoop_of_run hcalm hrun
  obtain ⟨hcalm', hlimit⟩ := Scheduler.calm_of_run hcalm hrun
  have hresumes := concludes_iff_resume hrun
  generalize Scheduler.outputs (s.scheduler.reports batches) = text at hloop hresumes
  have hnoted' := noted_after hnoted hrun text
  generalize s.scheduler.runLog s.filter batches = events at hnoted' hresumes
  obtain ⟨hblocked, hgoes⟩ := ends_foresee_of_blocked (rest_of_awaits hawaits) hloop
  have hopen : t.machine.state.channel.closed = false :=
    ((advance_blocked_iff _).mp hblocked).2.2
  have hsame : t.machine.state.channel.closed = s.scheduler.machine.state.channel.closed := by
    have hclosed := closed_of_plainLoop hloop
    exact hclosed
  have hawaits' : (s.after t text events).Awaits rest := by
    rcases hawaits with ⟨hclosed, -⟩ | ⟨-, hlines⟩
    · exact absurd (hopen.symm.trans (hsame.trans hclosed)) Bool.false_ne_true
    · exact Or.inr ⟨hopen, hlines⟩
  obtain ⟨p, unread, rest', hread, hawaits'', hforeseen, hwarnings, hless⟩ :=
    readLine_of_awaits hawaits' hopen
  refine ⟨_, rest', ⟨hcalm'.uncancelled, hcalm'.observers⟩, hawaits'', ?_, rfl, ?_,
    fun outcome => ?_, fun ending => ?_⟩
  · exact hnoted'.trans (congrArg (List.filter s.filter) hwarnings.symm)
  · have hquestions : (s.after t text events).questions = s.questions := by
      simp only [questions, after, hsame]
    rwa [hquestions] at hless
  · have hresume : (s.after t text events).resume .blocked = (s.after t text events).readLine :=
      rfl
    rw [hresumes, hresume, hread]
    rfl
  · rw [hforeseen, foreseen_after, foreseen, ends_prepend, ends_prepend]
    simp only [hgoes]
    rw [← hlimit]
    rfl

end Pause

/-- A session ends as the plain loop of the program that foresees all its lines. -/
theorem concludes_iff {s : Session} {rest : List Char} (hcalm : s.scheduler.Calm)
    (hawaits : s.Awaits rest) (hnoted : s.Noted) (outcome : Outcome) :
    s.Concludes outcome ↔
      ∃ ending, Ends s.scheduler.stepLimit s.scheduler.totalSteps (s.foreseen rest) ending ∧
        conclusion s.filter ending = some outcome := by
  induction hquestions : s.questions using Nat.strongRecOn generalizing s rest with
  | ind n ih =>
    by_cases hruns : ∃ batches stop t, s.scheduler.run batches = some (stop, t)
    · obtain ⟨batches, stop, t, hrun⟩ := hruns
      by_cases hstop : stop = .blocked
      · subst hstop
        obtain ⟨s', rest', hcalm', hawaits', hnoted', hfilter, hless, hconcludes, hends⟩ :=
          concludes_iff_of_blocked hcalm hawaits hnoted hrun
        simp only [hconcludes, hends, ← hfilter]
        exact ih s'.questions (hquestions ▸ hless) hcalm' hawaits' hnoted' rfl
      · exact concludes_iff_of_stop hcalm hawaits hnoted hrun hstop outcome
    · have hnone : ∀ batches, s.scheduler.run batches = none := by
        intro batches
        cases hrun : s.scheduler.run batches with
        | none => rfl
        | some result => exact absurd ⟨batches, result.1, result.2, hrun⟩ hruns
      constructor
      · intro h
        obtain ⟨batches, x, hrun, -⟩ := h
        rw [run_eq_none (hnone batches)] at hrun
        cases hrun
      · intro h
        obtain ⟨ending, hends, -⟩ := h
        obtain ⟨ending', ⟨cycles, hloop⟩, -⟩ := ends_prepend.mp hends
        obtain ⟨ending'', hloop'⟩ := exists_plainLoop_of_foresee (rest_of_awaits hawaits) hloop
        obtain ⟨stop, t, hrun⟩ := Scheduler.exists_run hcalm hloop'
        exact absurd ⟨cycles, stop, t, hrun⟩ hruns

end Session

end Cli

end Fish
