import Fish.Proofs.Calls

/-!
When input arrives makes no difference. A program that already holds the input still to come
does what the program does that has to wait for it, less the waiting.
-/

namespace Fish

namespace Program

theorem respond_give {p : Program} (h : p.state.channel.closed = false) (c : Char) :
    p.respond (.give (String.singleton c)) = (.accepted, p.enqueue [c]) := by
  have hgive : Channel.give (String.singleton c) p.state.channel =
      .ok () { p.state.channel with pending := p.state.channel.pending ++ [c] } := by
    simp [Channel.give, h]
  rw [respond, give, onChannel_of_ok hgive]
  rfl

end Program

/-- The calls that give characters one by one, and close the input behind them or do not. -/
def inputCalls (chars : List Char) (closes : Bool) : List Call :=
  chars.map (fun c => .give (String.singleton c)) ++ if closes then [.close] else []

theorem inputCalls_eq_nil {chars : List Char} {closes : Bool} (h : inputCalls chars closes = []) :
    chars = [] ∧ closes = false := by
  cases chars with
  | nil => cases closes <;> simp_all [inputCalls]
  | cons c cs => cases h

theorem inputCalls_eq_give {chars : List Char} {closes : Bool} {text : String}
    {calls : List Call} (h : inputCalls chars closes = .give text :: calls) :
    ∃ c cs, chars = c :: cs ∧ text = String.singleton c ∧ inputCalls cs closes = calls := by
  cases chars with
  | nil => cases closes <;> cases h
  | cons c cs =>
    obtain ⟨htext, hcalls⟩ := List.cons.inj h
    cases htext
    exact ⟨c, cs, rfl, rfl, hcalls⟩

theorem inputCalls_eq_close {chars : List Char} {closes : Bool} {calls : List Call}
    (h : inputCalls chars closes = .close :: calls) :
    chars = [] ∧ closes = true ∧ calls = [] := by
  cases chars with
  | nil =>
    cases closes with
    | false => cases h
    | true =>
      cases h
      exact ⟨rfl, rfl, rfl⟩
  | cons c cs => cases h

theorem inputCalls_head {chars : List Char} {closes : Bool} {call : Call} {calls : List Call}
    (h : inputCalls chars closes = call :: calls) : call = .close ∨ ∃ text, call = .give text := by
  cases chars with
  | nil =>
    cases closes with
    | false => cases h
    | true =>
      cases h
      exact Or.inl rfl
  | cons c cs =>
    cases h
    exact Or.inr ⟨_, rfl⟩

namespace Program

/-- The steps without those that waited. -/
def workOf (answers : List Answer) : List Step := (stepsOf answers).filter (· ≠ .blocked)

theorem workOf_input (answers : List Answer) : workOf (.accepted :: answers) = workOf answers :=
  rfl

theorem workOf_blocked (answers : List Answer) :
    workOf (.step .blocked :: answers) = workOf answers := rfl

theorem workOf_step {step : Step} (h : step ≠ .blocked) (answers : List Answer) :
    workOf (.step step :: answers) = step :: workOf answers :=
  List.filter_cons_of_pos (by simpa using h)

/-- A program that foresees the input of a schedule does the work of the schedule without
waiting. What it still holds in the end beyond the other is what was never given. -/
theorem replay_foresee {schedule : List Call} {given ungiven : List Char} {closes : Bool}
    {p : Program} (hschedule : schedule.filter (· ≠ .advance) = inputCalls given closes)
    (hclose : closes = true → ungiven = [])
    (hend : p.state.channel.closed = true → given = [] ∧ ungiven = [] ∧ closes = false) :
    (p.foresee (given ++ ungiven) (p.state.channel.closed || closes)).replay
        (List.replicate (workOf (p.replay schedule).1).length .advance) =
      ((workOf (p.replay schedule).1).map .step, (p.replay schedule).2.enqueue ungiven) := by
  induction schedule generalizing p given closes with
  | nil =>
    obtain ⟨rfl, rfl⟩ := inputCalls_eq_nil hschedule.symm
    rw [Bool.or_false]
    rfl
  | cons call schedule ih =>
    by_cases hadvance : call = .advance
    · subst hadvance
      rw [List.filter_cons_of_neg (by simp)] at hschedule
      by_cases hblocked : p.advance.1 = .blocked
      · have hsame : p.advance.2 = p := eq_of_advance_blocked (Prod.ext hblocked rfl)
        simp only [replay_cons, respond, hblocked, hsame, workOf_blocked]
        exact ih hschedule hclose hend
      · have hforesee :
            (p.foresee (given ++ ungiven) (p.state.channel.closed || closes)).advance =
              (p.advance.1, p.advance.2.foresee (given ++ ungiven)
                (p.state.channel.closed || closes)) :=
          advance_foresee (fun hclosed => by simp [hclosed, hend hclosed]) hblocked
        have hrest := ih (p := p.advance.2) hschedule hclose (by rwa [closed_advance])
        rw [closed_advance] at hrest
        simp only [replay_cons, respond, workOf_step hblocked, List.length_cons,
          List.replicate_succ, hforesee, hrest, List.map_cons]
    · rw [List.filter_cons_of_pos (by simpa using hadvance)] at hschedule
      rcases inputCalls_head hschedule.symm with rfl | ⟨text, rfl⟩
      · obtain ⟨rfl, rfl, hnone⟩ := inputCalls_eq_close hschedule.symm
        have hrest : schedule.filter (· ≠ .advance) = inputCalls [] false := hnone
        obtain rfl := hclose rfl
        simp only [replay_cons, respond, workOf_input]
        rw [Bool.or_true]
        exact ih (p := p.close) hrest (fun _ => rfl) (fun _ => ⟨rfl, rfl, rfl⟩)
      · obtain ⟨c, cs, rfl, rfl, hrest⟩ := inputCalls_eq_give hschedule.symm
        have hopen : p.state.channel.closed = false := by
          cases hclosed : p.state.channel.closed with
          | false => rfl
          | true => cases (hend hclosed).1
        have hqueued := ih (p := p.enqueue [c]) hrest.symm hclose
          (fun hclosed => absurd (hopen.symm.trans hclosed) Bool.false_ne_true)
        rw [foresee_enqueue] at hqueued
        simp only [replay_cons, respond_give hopen, workOf_input]
        exact hqueued

theorem replay_inputCalls {p : Program} (hopen : p.state.channel.closed = false)
    (chars : List Char) (closes : Bool) :
    (p.replay (inputCalls chars closes)).2 = p.foresee chars closes := by
  induction chars generalizing p with
  | nil =>
    have hnil := p.foresee_nil
    rw [hopen] at hnil
    cases closes with
    | false => exact hnil.symm
    | true => exact congrArg close hnil.symm
  | cons c cs ih =>
    have hcalls : inputCalls (c :: cs) closes =
        .give (String.singleton c) :: inputCalls cs closes := rfl
    rw [hcalls, replay_cons, respond_give hopen]
    exact (ih (p := p.enqueue [c]) hopen).trans (p.foresee_enqueue [c] cs closes)

theorem stepsOf_map_step (steps : List Step) : stepsOf (steps.map .step) = steps := by
  rw [stepsOf, List.filterMap_map]
  exact List.filterMap_some

end Program

open Program in
/-- It makes no difference when input arrives: a program that holds it all at the start does the
same work in as many advances, less those that wait. -/
theorem input_timing_irrelevant (source : String) (values : List Value) (seed : UInt64)
    {text : String} {given ungiven : List Char} {closes : Bool} {schedule : List Call}
    (htext : text.toList = given ++ ungiven) (hclose : closes = true → ungiven = [])
    (hschedule : schedule.filter (· ≠ .advance) = inputCalls given closes) :
    let late := (load source values seed).replay schedule
    let upfront := ((load source values seed).replay (inputCalls text.toList closes)).2
    let early := upfront.replay (List.replicate (workOf late.1).length .advance)
    stepsOf early.1 = workOf late.1 ∧ early.2 = late.2.enqueue ungiven := by
  intro late upfront early
  have hupfront : upfront = (load source values seed).foresee (given ++ ungiven) closes := by
    rw [← htext]
    exact replay_inputCalls rfl text.toList closes
  have hearly : early = ((workOf late.1).map .step, late.2.enqueue ungiven) := by
    have hreplay := replay_foresee (p := load source values seed) hschedule hclose
      (fun hclosed => by cases hclosed)
    rw [← hreplay]
    exact congrArg (fun p => p.replay (List.replicate (workOf late.1).length .advance)) hupfront
  rw [hearly]
  exact ⟨stepsOf_map_step _, rfl⟩

open Program in
/-- A program that waits twice and then learns that the input has ended. -/
theorem input_timing_irrelevant_waiting :
    let schedule : List Call := [.advance, .give "a", .advance, .advance, .advance, .close,
      .advance, .advance]
    let late := (load "ini;" [] 0).replay schedule
    let upfront := ((load "ini;" [] 0).replay [.give "a", .close]).2
    let early := upfront.replay [.advance, .advance, .advance, .advance]
    stepsOf late.1 = [.blocked, .progressed, .progressed, .blocked, .progressed, .halted] ∧
      stepsOf early.1 = [.progressed, .progressed, .progressed, .halted] ∧
      early.2 = late.2.enqueue [] := by
  intro schedule late upfront early
  have hlate : stepsOf late.1 =
    [.blocked, .progressed, .progressed, .blocked, .progressed, .halted] := by decide
  have hwork : workOf late.1 = [.progressed, .progressed, .progressed, .halted] := by decide
  have htext : "a".toList = ['a'] ++ [] := by decide
  have hschedule : schedule.filter (· ≠ .advance) = inputCalls ['a'] true := by decide
  obtain ⟨hsteps, hsame⟩ :=
    input_timing_irrelevant "ini;" [] 0 htext (fun _ => rfl) hschedule
  exact ⟨hlate, hsteps.trans hwork, hsame⟩

end Fish
