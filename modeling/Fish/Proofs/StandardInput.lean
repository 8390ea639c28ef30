import Fish.Cli.Command
import Fish.Proofs.Arguments
import Fish.Proofs.Conversation
import Fish.Proofs.Lines

/-!
Standard input against input given up front. Both commands come to the same program that
foresees its whole input, and so to the same outcome. Their logs may tell of different batches,
but they hold the same warnings, and by default there is nothing else in them.
-/

namespace Fish

open Program

theorem Program.exists_ends_stop_ne_blocked {p : Program}
    (hclosed : p.state.channel.closed = true) (limit executed : Nat) :
    ∃ ending, Ends (some limit) executed p ending ∧ ending.1 ≠ .blocked := by
  obtain ⟨⟨stop, executed', q⟩, hends⟩ := exists_ends limit executed p
  refine ⟨_, hends, ?_⟩
  intro heq
  subst heq
  obtain ⟨cycles, hloop⟩ := hends
  have hend : p.state.channel.closed = true → ([] : List Char) = [] ∧ true = true :=
    fun _ => ⟨rfl, rfl⟩
  obtain ⟨hblocked, -⟩ := ends_foresee_of_blocked hend hloop
  have hopen := ((advance_blocked_iff q).mp hblocked).2.2
  rw [closed_of_plainLoop hloop, hclosed] at hopen
  cases hopen

namespace Cli

/-- Whatever was logged has passed the filter. -/
def Outcome.Passes (filter : Filter) (outcome : Outcome) : Prop :=
  (∀ e ∈ outcome.log, filter e = true) ∧
    ∀ log ∈ outcome.sideLogs, ∀ e ∈ log, filter e = true

/-- Where only warnings are logged, the log is the warnings. -/
theorem Outcome.atWarn_of_passes {outcome : Outcome} (h : outcome.Passes Event.isWarning) :
    outcome.atWarn = outcome := by
  have hlog : outcome.log.filter Event.isWarning = outcome.log := List.filter_eq_self.mpr h.1
  have hside : outcome.sideLogs.map (fun log => log.filter Event.isWarning) = outcome.sideLogs :=
    (List.map_congr_left fun log hlog => List.filter_eq_self.mpr (h.2 log hlog)).trans
      (List.map_id _)
  rw [atWarn, hlog, hside]

theorem exists_conclusion {stop : Stop} (h : stop ≠ .blocked) (filter : Filter) (executed : Nat)
    (p : Program) : ∃ outcome, conclusion filter (stop, executed, p) = some outcome := by
  obtain ⟨code, complaint, hsequel⟩ := sequel_of_ne_blocked h executed
  exact ⟨_, by rw [conclusion, hsequel]⟩

namespace Session

theorem exists_concludes {s : Session} {rest : List Char} {limit : Nat}
    (hcalm : s.scheduler.Calm) (hawaits : s.Awaits rest) (hnoted : s.Noted)
    (hlimit : s.scheduler.stepLimit = some limit) : ∃ outcome, s.Concludes outcome := by
  obtain ⟨⟨stop, executed, p⟩, hends, hstop⟩ := exists_ends_stop_ne_blocked
    (p := s.foreseen rest) rfl limit s.scheduler.totalSteps
  obtain ⟨outcome, hconclusion⟩ := exists_conclusion hstop s.filter executed p
  refine ⟨outcome, (concludes_iff hcalm hawaits hnoted outcome).mpr ⟨_, ?_, hconclusion⟩⟩
  rw [hlimit]
  exact hends

/-- Whatever a session has logged has passed the filter. -/
def Passes (filter : Filter) (s : Session) : Prop :=
  s.filter = filter ∧ ∀ e ∈ s.log, filter e = true

variable {filter : Filter} {s : Session}

theorem passes_ending (h : s.Passes filter) (code : Nat) (complaint : String) :
    (s.ending code complaint).Passes filter :=
  ⟨h.2, fun _ hlog => by cases hlog⟩

theorem passes_readLine (h : s.Passes filter) :
    match s.readLine with
    | .ok t => t.Passes filter
    | .error x => x.Passes filter := by
  unfold readLine
  cases answer (s.unread.head?.getD .endOfInput) s.scheduler with
  | ok scheduler => exact h
  | error complaint => exact passes_ending h 1 complaint

theorem passes_batched (h : s.Passes filter) : s.batched.Passes filter := by
  refine ⟨h.1, fun e he => ?_⟩
  rcases List.mem_append.mp he with he | he
  · exact h.2 e he
  · exact h.1 ▸ Scheduler.passes_batchLog he

theorem passes_step (h : s.Passes filter) :
    match s.step with
    | .ok t => t.Passes filter
    | .error x => x.Passes filter := by
  have hbatched := passes_batched h
  cases hstop : s.scheduler.runBatch.1.stop with
  | none =>
    rw [step_of_going hstop]
    exact hbatched
  | some stop =>
    rw [step_of_stop hstop, resume]
    cases sequel s.batched.scheduler.totalSteps (some stop) with
    | batch => exact hbatched
    | line => exact passes_readLine hbatched
    | exit code complaint => exact passes_ending hbatched code complaint

theorem passes_run {batches : Nat} {x : Outcome} (h : s.Passes filter)
    (hrun : run batches s = some x) : x.Passes filter := by
  induction batches generalizing s with
  | zero => cases hrun
  | succ batches ih =>
    have hstep := passes_step h
    rw [run] at hrun
    cases hresult : s.step with
    | ok t =>
      rw [hresult] at hstep hrun
      exact ih hstep hrun
    | error x' =>
      rw [hresult] at hstep hrun
      cases hrun
      exact hstep

end Session

namespace Options

/-- The program of a source, as the options start it. -/
def started (o : Options) (entropy : UInt64) (source : String) : Program :=
  (Program.load source o.stack (o.seed?.getD entropy)).enqueue (o.input?.getD "").toList

theorem loadAll_cons (o : Options) (entropy : UInt64) (path source : String)
    (rest : List (String × Except ReadError String)) :
    o.loadAll entropy ((path, .ok source) :: rest) =
      ((o.started entropy source).loaded :: (o.loadAll entropy rest).1,
        (o.loadAll entropy rest).2.map fun programs =>
          (path, o.started entropy source) :: programs) := by
  have hfeed : (Program.load source o.stack (o.seed?.getD entropy)).feed (o.input?.getD "") =
      .ok () (o.started entropy source) := Session.feed_of_open rfl _
  simp only [loadAll, hfeed]
  rfl

/-- The session of the command on one source. -/
def session (o : Options) (w : Surroundings) (stdin : ByteArray) (source : String) : Session :=
  let program := o.started w.entropy source
  { scheduler := Scheduler.ofMachine (if o.stdin then program else program.close)
      { stepsPerBatch := o.stepsPerBatch, stepLimit := o.stepLimit? }
    unread := linesOf stdin
    filter := o.filter w.filter?
    log := [program.loaded].filter (o.filter w.filter?) }

theorem calm_session (o : Options) (w : Surroundings) (stdin : ByteArray) (source : String) :
    (o.session w stdin source).scheduler.Calm :=
  Scheduler.calm_ofMachine _ _

theorem noted_session (o : Options) (w : Surroundings) (stdin : ByteArray) (source : String) :
    (o.session w stdin source).Noted := by
  have hrunning : (o.session w stdin source).scheduler.machine.warnings = [] := by
    refine warnings_of_running ?_
    rw [session]
    cases o.stdin <;> rfl
  rw [Session.Noted, hrunning, session, List.filter_comm]
  rfl

theorem awaits_session_stdin (o : Options) (w : Surroundings) (source a b : String) :
    ((o.hear (some a) true).session w b.toUTF8 source).Awaits b.toList := by
  obtain ⟨lines, hlines, htext⟩ := linesOf_toUTF8 b
  exact Or.inr ⟨rfl, lines, hlines, htext⟩

theorem awaits_session_input (o : Options) (w : Surroundings) (source text : String)
    (stdin : ByteArray) : ((o.hear (some text) false).session w stdin source).Awaits [] :=
  Or.inl ⟨rfl, rfl⟩

theorem foreseen_session (o : Options) (w : Surroundings) (source a b : String)
    (stdin : ByteArray) :
    ((o.hear (some a) true).session w b.toUTF8 source).foreseen b.toList =
      ((o.hear (some (a ++ b)) false).session w stdin source).foreseen [] := by
  have hqueued : ∀ p : Program, (p.enqueue a.toList).foresee b.toList true =
      (p.enqueue (a ++ b).toList).close.foresee [] true := by
    intro p
    rw [foresee_close, foresee_enqueue, foresee_enqueue, String.toList_append, List.append_nil]
  exact congrArg (Program.prepend "") (hqueued _)

/-- A session that gets a text from standard input ends as one that has it at the start. -/
theorem concludes_session_iff (o : Options) (w : Surroundings) (source a b : String)
    (stdin : ByteArray) (outcome : Outcome) :
    ((o.hear (some a) true).session w b.toUTF8 source).Concludes outcome ↔
      ((o.hear (some (a ++ b)) false).session w stdin source).Concludes outcome := by
  have hstdin := o.awaits_session_stdin w source a b
  have hinput := o.awaits_session_input w source (a ++ b) stdin
  rw [Session.concludes_iff (calm_session ..) hstdin (noted_session ..),
    Session.concludes_iff (calm_session ..) hinput (noted_session ..),
    foreseen_session o w source a b stdin]
  rfl

end Options

section Files

variable {args : List String} {o : Options} {path : String} {w : Surroundings}

/-- The command on one file that can be read is a session. -/
theorem run_eq_session {source : String} (hargs : Options.ofArgs args = .ok o)
    (hfile : o.files = [path]) (hread : w.directory.read path = .ok source) (batches : Nat)
    (stdin : ByteArray) :
    run batches w stdin args = Session.run batches (o.session w stdin source) := by
  rw [run, hargs]
  simp only [hfile, List.map_singleton, hread, Options.loadAll_cons]
  rfl

theorem run_eq_refusal {e : ReadError} (hargs : Options.ofArgs args = .ok o)
    (hfile : o.files = [path]) (hread : w.directory.read path = .error e) (batches : Nat)
    (stdin : ByteArray) :
    run batches w stdin args =
      some { exit := 1, stdout := "",
             message := "cannot read " ++ path ++ ": " ++ e.cause ++ "\n" } := by
  rw [run, hargs]
  simp only [hfile, List.map_singleton, hread, Options.loadAll]
  rfl

/-- Whatever the command logs has passed its filter. -/
theorem passes_of_run {batches : Nat} {stdin : ByteArray} {x : Outcome}
    (hargs : Options.ofArgs args = .ok o) (hrun : run batches w stdin args = some x) :
    x.Passes (o.filter w.filter?) := by
  rw [run, hargs] at hrun
  dsimp only at hrun
  generalize o.loadAll w.entropy (o.files.map fun path => (path, w.directory.read path)) =
    loaded at hrun
  obtain ⟨events, programs⟩ := loaded
  have hlog : ∀ e ∈ events.filter (o.filter w.filter?), o.filter w.filter? e = true :=
    fun _ he => List.of_mem_filter he
  cases hplan : o.plan programs with
  | refuse complaint =>
    rw [hplan] at hrun
    cases hrun
    exact ⟨hlog, fun _ hside => by cases hside⟩
  | session scheduler =>
    rw [hplan] at hrun
    exact Session.passes_run ⟨rfl, hlog⟩ hrun
  | report limit files =>
    rw [hplan] at hrun
    cases hrun
    refine ⟨hlog, fun log hside e he => ?_⟩
    obtain ⟨file, -, rfl⟩ := List.mem_map.mp hside
    exact Scheduler.passes_runLog he

/-- By default the command logs nothing but warnings. -/
theorem atWarn_of_run {batches : Nat} {stdin : ByteArray} {x : Outcome}
    (hargs : Options.ofArgs args = .ok o) (htrace : o.trace = false) (hfilter : w.filter? = none)
    (hrun : run batches w stdin args = some x) : x.atWarn = x := by
  have hdefault : o.filter w.filter? = Event.isWarning := by
    funext e
    rw [Options.filter, hfilter, htrace]
    rfl
  exact Outcome.atWarn_of_passes (hdefault ▸ passes_of_run hargs hrun)

/-- So by default it makes no difference if only warnings are heeded. -/
theorem exists_run_iff_atWarn (hargs : Options.ofArgs args = .ok o) (htrace : o.trace = false)
    (hfilter : w.filter? = none) (stdin : ByteArray) (outcome : Outcome) :
    (∃ batches, run batches w stdin args = some outcome) ↔
      ∃ batches x, run batches w stdin args = some x ∧ x.atWarn = outcome := by
  refine exists_congr fun batches => ⟨fun hrun => ?_, fun h => ?_⟩
  · exact ⟨outcome, hrun, atWarn_of_run hargs htrace hfilter hrun⟩
  · obtain ⟨x, hrun, rfl⟩ := h
    rwa [atWarn_of_run hargs htrace hfilter hrun]

end Files

/-- Feeding a program from standard input is feeding it up front: both commands print the same,
say the same on standard error and exit alike, up to what is logged beside warnings, of which
there is nothing by default. One ends if the other does, and under a step limit both do. -/
theorem stdin_iff_input {args args' : List String} {o : Options} {path a b : String}
    (hargs : Options.ofArgs args = .ok (o.hear (some a) true))
    (hargs' : Options.ofArgs args' = .ok (o.hear (some (a ++ b)) false))
    (hfile : o.files = [path]) (w : Surroundings) (stdin : ByteArray) :
    (∀ outcome,
      (∃ batches x, run batches w b.toUTF8 args = some x ∧ x.atWarn = outcome) ↔
        ∃ batches x, run batches w stdin args' = some x ∧ x.atWarn = outcome) ∧
    (o.trace = false → w.filter? = none → ∀ outcome,
      (∃ batches, run batches w b.toUTF8 args = some outcome) ↔
        ∃ batches, run batches w stdin args' = some outcome) ∧
    (o.stepLimit? ≠ none → ∃ batches outcome, run batches w b.toUTF8 args = some outcome) := by
  have hwarn : ∀ outcome,
      (∃ batches x, run batches w b.toUTF8 args = some x ∧ x.atWarn = outcome) ↔
        ∃ batches x, run batches w stdin args' = some x ∧ x.atWarn = outcome := by
    cases hread : w.directory.read path with
    | error e =>
      simp only [run_eq_refusal hargs hfile hread, run_eq_refusal hargs' hfile hread,
        implies_true]
    | ok source =>
      simp only [run_eq_session hargs hfile hread, run_eq_session hargs' hfile hread]
      exact o.concludes_session_iff w source a b stdin
  refine ⟨hwarn, fun htrace hfilter outcome => ?_, fun hlimited => ?_⟩
  · rw [exists_run_iff_atWarn hargs htrace hfilter, exists_run_iff_atWarn hargs' htrace hfilter]
    exact hwarn outcome
  · cases hread : w.directory.read path with
    | error e => exact ⟨0, _, run_eq_refusal hargs hfile hread 0 b.toUTF8⟩
    | ok source =>
      obtain ⟨limit, hlimit⟩ := Option.ne_none_iff_exists'.mp hlimited
      obtain ⟨outcome, batches, x, hrun, -⟩ := Session.exists_concludes
        (Options.calm_session ..) (o.awaits_session_stdin w source a b)
        (Options.noted_session ..) hlimit
      exact ⟨batches, x, (run_eq_session hargs hfile hread batches b.toUTF8).trans hrun⟩

/-- Two lines of standard input, the second of them without a newline, and a failure. -/
theorem stdin_iff_input_twoLines :
    let w : Surroundings := { directory := Directory.ofFiles [("p", "ioioio+".toUTF8)] }
    let failed : Outcome :=
      { exit := 1, stdout := "x\ny",
        message := "something smells fishy... (stack underflow: needed 2 value(s), found 0)\n",
        log := [.failed 6 0 (.stackUnderflow 2 0)] }
    run 1 w "".toUTF8 ["--input=x\ny", "--step-limit=9", "p"] = some failed ∧
      ∃ batches, run batches w "\ny".toUTF8 ["--input=x", "--stdin", "--step-limit=9", "p"] =
        some failed := by
  intro w failed
  have hrest : Options.ofArgs ["--step-limit=9", "p"] =
      .ok { files := ["p"], stepLimit? := some 9 } := rfl
  have hargs := (Options.ofArgs_input hrest rfl rfl "x").1
  have hargs' := (Options.ofArgs_input hrest rfl rfl ("x" ++ "\ny")).2
  have hupfront : run 1 w "".toUTF8 ["--input=x\ny", "--step-limit=9", "p"] = some failed := by
    decide
  obtain ⟨-, hsame, -⟩ := stdin_iff_input hargs hargs' rfl w "".toUTF8
  exact ⟨hupfront, (hsame rfl rfl _).mpr ⟨1, hupfront⟩⟩

end Cli

end Fish
