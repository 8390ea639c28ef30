import Fish.Proofs.InputTiming

/-!
Someone who heeds a program gives it input only when it waits for it: one character at a time, and
when no character is left, the end. What comes of that is found piece by piece. A program works
undisturbed until it waits, is answered, and works on.
-/

namespace Fish

/-- What comes next of a text: its first character, or the end if there is none. -/
def nextInput : List Char → Call
  | [] => .close
  | c :: _ => .give (String.singleton c)

theorem nextInput_ne_advance (text : List Char) : nextInput text ≠ .advance := by
  cases text <;> simp [nextInput]

namespace Program

variable {p q r : Program} {text : List Char} {n : Nat}

/-- The calls of someone who has a text to give and lets a program advance so many times. Each time
it waits, it is given the next character, or its input is closed if there is none left. -/
def heeding : Nat → List Char → Program → List Call
  | 0, _, _ => []
  | n + 1, text, p =>
    .advance ::
      if p.advance.1 = .blocked then
        nextInput text :: heeding n text.tail (p.advance.2.respond (nextInput text)).2
      else heeding n text p.advance.2

theorem heeding_of_waits (h : p.advance.1 = .blocked) :
    p.heeding (n + 1) text =
      [.advance, nextInput text] ++ (p.respond (nextInput text)).2.heeding n text.tail := by
  have hsame : p.advance.2 = p := eq_of_advance_blocked (Prod.ext h rfl)
  rw [heeding, if_pos h, hsame]
  rfl

/-- A program that does not wait is left to itself. -/
theorem heeding_of_replay {m : Nat} {steps : List Step}
    (h : p.replay (.replicate m .advance) = (steps.map .step, q)) (hwork : .blocked ∉ steps) :
    p.heeding (m + n) text = .replicate m .advance ++ q.heeding n text := by
  induction m generalizing p steps with
  | zero =>
    obtain rfl : p = q := congrArg Prod.snd h
    rw [Nat.zero_add]
    rfl
  | succ m ih =>
    cases steps with
    | nil => cases congrArg Prod.fst h
    | cons step steps =>
      rw [List.replicate_succ, replay_cons] at h
      obtain ⟨hanswers, hreach⟩ := Prod.mk.inj h
      obtain ⟨hstep, hsteps⟩ := List.cons.inj hanswers
      obtain rfl : p.advance.1 = step := Answer.step.inj hstep
      rw [List.mem_cons, not_or] at hwork
      have hrest : p.advance.2.heeding (m + n) text = _ := ih (Prod.ext hsteps hreach) hwork.2
      rw [Nat.add_right_comm, heeding, if_neg (Ne.symm hwork.1), hrest]
      rfl

/-- The calls lead from one program to the other. With their input given and the steps counted that
do not wait, this is what they come to. -/
structure Works (p : Program) (calls inputs : List Call) (work : List Step) (q : Program) :
    Prop where
  inputs_eq : calls.filter (· ≠ .advance) = inputs
  work_eq : workOf (p.replay calls).1 = work
  replay_eq : (p.replay calls).2 = q

theorem workOf_append (answers answers' : List Answer) :
    workOf (answers ++ answers') = workOf answers ++ workOf answers' := by
  rw [workOf, stepsOf, List.filterMap_append, List.filter_append]
  rfl

theorem Works.append {calls calls' inputs inputs' : List Call} {work work' : List Step}
    (h : p.Works calls inputs work q) (h' : q.Works calls' inputs' work' r) :
    p.Works (calls ++ calls') (inputs ++ inputs') (work ++ work') r where
  inputs_eq := by rw [List.filter_append, h.inputs_eq, h'.inputs_eq]
  work_eq := by rw [replay_append, workOf_append, h.work_eq, h.replay_eq, h'.work_eq]
  replay_eq := by rw [replay_append, h.replay_eq, h'.replay_eq]

/-- Advances that do not wait. -/
theorem Works.of_replay {m : Nat} {steps : List Step}
    (h : p.replay (.replicate m .advance) = (steps.map .step, q)) (hwork : .blocked ∉ steps) :
    p.Works (.replicate m .advance) [] steps q where
  inputs_eq := by simp
  work_eq := by
    rw [h, workOf, stepsOf_map_step, List.filter_eq_self]
    intro step hstep
    exact decide_eq_true fun hblocked => hwork (hblocked ▸ hstep)
  replay_eq := by rw [h]

/-- An advance that waits, and the call that follows it. -/
theorem Works.of_waits (h : p.advance.1 = .blocked) {call : Call} (hcall : call ≠ .advance) :
    p.Works [.advance, call] [call] [] (p.respond call).2 := by
  have hsame : p.advance.2 = p := eq_of_advance_blocked (Prod.ext h rfl)
  have hreplay : p.replay [.advance, call] =
      ([.step .blocked, (p.respond call).1], (p.respond call).2) := by
    rw [replay_cons, respond, h, hsame]
    rfl
  refine ⟨?_, ?_, ?_⟩
  · simp [hcall]
  · rw [hreplay, workOf_blocked, workOf, stepsOf,
      List.filterMap_cons_none (step?_respond_of_ne hcall p)]
    rfl
  · rw [hreplay]

theorem Works.heeding_zero (text : List Char) (p : Program) :
    p.Works (p.heeding 0 text) [] [] p := ⟨rfl, rfl, rfl⟩

/-- What a program does that waits, works on what it is given, and is heeded further. -/
theorem Works.heeding {m : Nat} {steps work : List Step} {inputs : List Call}
    (hwaits : p.advance.1 = .blocked)
    (hwork : (p.respond (nextInput text)).2.replay (.replicate m .advance) = (steps.map .step, q))
    (hblocked : .blocked ∉ steps) (hrest : q.Works (q.heeding n text.tail) inputs work r) :
    p.Works (p.heeding (m + n + 1) text) (nextInput text :: inputs) (steps ++ work) r := by
  have hwait : p.Works [.advance, nextInput text] [nextInput text] [] _ :=
    .of_waits hwaits (nextInput_ne_advance text)
  have hall := (hwait.append (.of_replay hwork hblocked)).append hrest
  rw [heeding_of_waits hwaits, heeding_of_replay hwork hblocked, ← List.append_assoc]
  exact hall

end Program

end Fish
