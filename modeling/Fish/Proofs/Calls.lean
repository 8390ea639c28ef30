import Fish.Proofs.Foresight

/-!
Histories of calls: all that the outside can do to a program, one call after the other, and
what each call answers.
-/

namespace Fish

inductive Call
  | advance
  | give (text : String)
  | feed (text : String)
  | close
  | read
  deriving DecidableEq

inductive Answer
  | step (step : Step)
  | accepted
  | refused (refusal : InputRefusal)
  | text (output : String)
  | noOutput
  deriving DecidableEq

def Answer.step? : Answer → Option Step
  | step s => some s
  | _ => none

namespace Channel

/-- What an attempt to queue a text answers, and the channel after it. -/
def taken : EStateM.Result InputRefusal Channel Unit → Answer × Channel
  | .ok () ch => (.accepted, ch)
  | .error refusal ch => (.refused refusal, ch)

/-- What a call to the channel alone answers, and the channel after it; `none` for an
advance, which is no such call. -/
def respond? (ch : Channel) : Call → Option (Answer × Channel)
  | .advance => none
  | .give text => some (taken (ch.give text))
  | .feed text => some (taken (ch.feed text))
  | .close => some (.accepted, ch.close)
  | .read =>
    match ch.read with
    | .ok output ch => some (.text output, ch)
    | .error _ ch => some (.noOutput, ch)

end Channel

namespace Program

def taking (result : EStateM.Result InputRefusal Program Unit) : Answer × Program :=
  match result with
  | .ok _ q => (.accepted, q)
  | .error refusal q => (.refused refusal, q)

def respond : Call → Program → Answer × Program
  | .advance, p => (.step p.advance.1, p.advance.2)
  | .give text, p => taking (p.give text)
  | .feed text, p => taking (p.feed text)
  | .close, p => (.accepted, p.close)
  | .read, p =>
    match p.read with
    | .ok output q => (.text output, q)
    | .error _ q => (.noOutput, q)

theorem taking_onChannel (op : EStateM InputRefusal Channel Unit) (p : Program) :
    taking (onChannel op p) =
      ((Channel.taken (op p.state.channel)).1,
        p.withChannel (Channel.taken (op p.state.channel)).2) := by
  cases hop : op p.state.channel with
  | ok a ch =>
    rw [onChannel_of_ok hop]
    rfl
  | error refusal ch =>
    rw [onChannel_of_error hop]
    rfl

/-- A call that is no advance is answered by the channel, and touches nothing else. -/
theorem respond_of_ne {call : Call} (h : call ≠ .advance) (p : Program) :
    ∃ answer ch, p.state.channel.respond? call = some (answer, ch) ∧
      p.respond call = (answer, p.withChannel ch) := by
  cases call with
  | advance => exact absurd rfl h
  | give text => exact ⟨_, _, rfl, taking_onChannel _ p⟩
  | feed text => exact ⟨_, _, rfl, taking_onChannel _ p⟩
  | close => exact ⟨_, _, rfl, rfl⟩
  | read =>
    have hread : p.read = onChannel Channel.read p := rfl
    cases hop : Channel.read p.state.channel with
    | ok output ch =>
      refine ⟨.text output, ch, by simp only [Channel.respond?, hop], ?_⟩
      rw [respond, hread, onChannel_of_ok hop]
    | error e ch =>
      refine ⟨.noOutput, ch, by simp only [Channel.respond?, hop], ?_⟩
      rw [respond, hread, onChannel_of_error hop]

/-- All of a text is queued, or nothing where the input is closed. -/
theorem feed_eq (text : String) (p : Program) :
    p.feed text =
      if p.state.channel.closed = true ∧ text.toList ≠ [] then .error .closed p
      else .ok () (p.enqueue text.toList) := by
  by_cases h : p.state.channel.closed = true ∧ text.toList ≠ []
  · rw [if_pos h]
    exact onChannel_of_error (by rw [Channel.feed, if_pos h])
  · rw [if_neg h]
    exact onChannel_of_ok (by rw [Channel.feed, if_neg h])

/-- A text is queued if the input is open and it is a single character. -/
theorem give_eq (text : String) (p : Program) :
    p.give text =
      if p.state.channel.closed = true then .error .closed p
      else if text.toList.length = 1 then .ok () (p.enqueue text.toList)
      else .error (.notOneChar text) p := by
  have hgive : p.give text = onChannel (Channel.give text) p := rfl
  by_cases hclosed : p.state.channel.closed = true
  · rw [if_pos hclosed, hgive]
    exact onChannel_of_error (by rw [Channel.give, if_pos hclosed])
  · rw [if_neg hclosed, hgive]
    by_cases hone : text.toList.length = 1
    · obtain ⟨c, hc⟩ := List.length_eq_one_iff.mp hone
      rw [if_pos hone, hc]
      exact onChannel_of_ok (by rw [Channel.give, if_neg hclosed, hc])
    · rw [if_neg hone]
      refine onChannel_of_error ?_
      rw [Channel.give, if_neg hclosed]
      split
      · rename_i c hc
        exact absurd (congrArg List.length hc) hone
      · rfl

/-- A text is queued as a whole, or it is refused and nothing has changed. -/
theorem respond_text {call : Call} {text : String} (h : call = .give text ∨ call = .feed text)
    (p : Program) :
    p.respond call = (.accepted, p.enqueue text.toList) ∨
      ∃ refusal, p.respond call = (.refused refusal, p) := by
  rcases h with rfl | rfl
  · rw [respond, give_eq]
    split
    · exact .inr ⟨.closed, rfl⟩
    · split
      · exact .inl rfl
      · exact .inr ⟨.notOneChar text, rfl⟩
  · rw [respond, feed_eq]
    split
    · exact .inr ⟨.closed, rfl⟩
    · exact .inl rfl

theorem respond_read (p : Program) :
    p.respond .read = (if p.output.isEmpty then .noOutput else .text p.output, p.drained) := by
  rw [respond, read_eq]
  by_cases h : p.output.isEmpty = true
  · rw [if_pos h, if_pos h]
  · rw [if_neg h, if_neg h]

/-- Only an advance is answered by a step. -/
theorem step?_respond_of_ne {call : Call} (h : call ≠ .advance) (p : Program) :
    (p.respond call).1.step? = none := by
  have htext : ∀ text, call = .give text ∨ call = .feed text →
      (p.respond call).1.step? = none := by
    intro text hcall
    rcases p.respond_text hcall with hrespond | ⟨refusal, hrespond⟩
    · rw [hrespond]
      rfl
    · rw [hrespond]
      rfl
  cases call with
  | advance => exact absurd rfl h
  | give text => exact htext text (.inl rfl)
  | feed text => exact htext text (.inr rfl)
  | close => rfl
  | read =>
    rw [respond_read]
    dsimp only
    split <;> rfl

/-- Makes the calls in order; the answers, and the program after the last. -/
def replay : List Call → Program → List Answer × Program
  | [], p => ([], p)
  | call :: calls, p =>
    let (answer, q) := p.respond call
    let (answers, r) := q.replay calls
    (answer :: answers, r)

theorem replay_cons (call : Call) (calls : List Call) (p : Program) :
    p.replay (call :: calls) =
      ((p.respond call).1 :: ((p.respond call).2.replay calls).1,
        ((p.respond call).2.replay calls).2) := rfl

theorem replay_append (calls calls' : List Call) (p : Program) :
    p.replay (calls ++ calls') =
      ((p.replay calls).1 ++ ((p.replay calls).2.replay calls').1,
        ((p.replay calls).2.replay calls').2) := by
  induction calls generalizing p with
  | nil => rfl
  | cons call calls ih =>
    rw [List.cons_append, replay_cons, replay_cons, ih]
    rfl

theorem replay_one {p q : Program} {step : Step} (h : p.advance = (step, q)) :
    p.replay (.replicate 1 .advance) = ([.step step], q) := by
  rw [List.replicate_one, replay_cons, respond, h]
  rfl

/-- One run of advances after the other. -/
theorem replay_trans {p q r : Program} {m n : Nat} {answers later : List Answer}
    (h : p.replay (.replicate m .advance) = (answers, q))
    (h' : q.replay (.replicate n .advance) = (later, r)) :
    p.replay (.replicate (m + n) .advance) = (answers ++ later, r) := by
  rw [← List.replicate_append_replicate, replay_append, h, h']

/-- A program that has ended gives the same answer again and again. -/
theorem replay_ended {p : Program} {termination : Termination}
    (h : p.termination = some termination) (n : Nat) :
    p.replay (.replicate n .advance) = (.replicate n (.step termination.step), p) := by
  induction n with
  | zero => rfl
  | succ n ih =>
    rw [List.replicate_succ, replay_cons, respond, advance_of_ended h, ih, List.replicate_succ]

/-- What advancing keeps, and any change of the channel, every call keeps. -/
theorem respond_keeps {P : Program → Prop} (hadvance : ∀ p, P p → P p.advance.2)
    (hchannel : ∀ p ch, P p → P (p.withChannel ch)) {p : Program} (h : P p) (call : Call) :
    P (p.respond call).2 := by
  by_cases hcall : call = .advance
  · rw [hcall]
    exact hadvance p h
  · obtain ⟨answer, ch, -, hrespond⟩ := respond_of_ne hcall p
    rw [hrespond]
    exact hchannel p ch h

theorem replay_keeps {P : Program → Prop} (hadvance : ∀ p, P p → P p.advance.2)
    (hchannel : ∀ p ch, P p → P (p.withChannel ch)) {p : Program} (h : P p) (calls : List Call) :
    P (p.replay calls).2 := by
  induction calls generalizing p with
  | nil => exact h
  | cons call calls ih => exact ih (respond_keeps hadvance hchannel h call)

/-- The steps that the advances among the calls have come to. -/
def stepsOf (answers : List Answer) : List Step := answers.filterMap Answer.step?

/-- The calls, each with its answer. -/
def transcript (calls : List Call) (p : Program) : List (Call × Answer) :=
  calls.zip (p.replay calls).1

theorem transcript_cons (call : Call) (calls : List Call) (p : Program) :
    p.transcript (call :: calls) =
      (call, (p.respond call).1) :: (p.respond call).2.transcript calls := rfl

/-- The programs that the advances among the calls have met, in order. -/
def advanced : List Call → Program → List Program
  | [], _ => []
  | call :: calls, p =>
    (if call = .advance then [p] else []) ++ advanced calls (p.respond call).2

theorem advanced_advance (calls : List Call) (p : Program) :
    advanced (.advance :: calls) p = p :: advanced calls p.advance.2 := rfl

theorem advanced_of_ne {call : Call} (h : call ≠ .advance) (calls : List Call) (p : Program) :
    advanced (call :: calls) p = advanced calls (p.respond call).2 := by
  rw [advanced, if_neg h, List.nil_append]

theorem advanced_append (calls later : List Call) (p : Program) :
    advanced (calls ++ later) p = advanced calls p ++ advanced later (p.replay calls).2 := by
  induction calls generalizing p with
  | nil => rfl
  | cons call calls ih =>
    rw [List.cons_append, advanced, advanced, ih, replay_cons, List.append_assoc]

theorem stepsOf_replay (calls : List Call) (p : Program) :
    stepsOf (p.replay calls).1 = (advanced calls p).map (·.advance.1) := by
  induction calls generalizing p with
  | nil => rfl
  | cons call calls ih =>
    by_cases hcall : call = .advance
    · subst hcall
      rw [advanced_advance, List.map_cons, ← ih]
      rfl
    · rw [advanced_of_ne hcall, ← ih]
      exact List.filterMap_cons_none (step?_respond_of_ne hcall p)

/-- What advancing keeps, and any change of the channel, holds of every program that is met. -/
theorem advanced_keeps {P : Program → Prop} (hadvance : ∀ p, P p → P p.advance.2)
    (hchannel : ∀ p ch, P p → P (p.withChannel ch)) {calls : List Call} {p : Program} (h : P p) :
    ∀ q ∈ advanced calls p, P q := by
  induction calls generalizing p with
  | nil => exact fun _ hq => absurd hq List.not_mem_nil
  | cons call calls ih =>
    intro q hq
    rw [advanced, List.mem_append] at hq
    rcases hq with hfirst | hrest
    · split at hfirst
      · exact List.mem_singleton.mp hfirst ▸ h
      · exact absurd hfirst List.not_mem_nil
    · exact ih (respond_keeps hadvance hchannel h call) q hrest

/-- The map of programs is not about the channel. -/
structure OffChannel (f : Program → Program) : Prop where
  channel : ∀ p, (f p).state.channel = p.state.channel
  withChannel : ∀ p ch, f (p.withChannel ch) = (f p).withChannel ch

namespace OffChannel

variable {f : Program → Program}

theorem respond {call : Call} (h : OffChannel f) (hcall : call ≠ .advance) (p : Program) :
    (f p).respond call = ((p.respond call).1, f (p.respond call).2) := by
  obtain ⟨answer, ch, hchannel, hrespond⟩ := respond_of_ne hcall p
  obtain ⟨answer', ch', hchannel', hrespond'⟩ := respond_of_ne hcall (f p)
  rw [h.channel, hchannel] at hchannel'
  cases hchannel'
  rw [hrespond, hrespond', h.withChannel]

/-- A map under which every cycle on the way is the same goes along with the whole history. -/
theorem replay {calls : List Call} {p : Program} (h : OffChannel f)
    (hadvance : ∀ q ∈ advanced calls p, (f q).advance = (q.advance.1, f q.advance.2)) :
    (f p).replay calls = ((p.replay calls).1, f (p.replay calls).2) ∧
      advanced calls (f p) = (advanced calls p).map f := by
  induction calls generalizing p with
  | nil => exact ⟨rfl, rfl⟩
  | cons call calls ih =>
    by_cases hcall : call = .advance
    · subst hcall
      rw [advanced_advance] at hadvance
      have hfirst := hadvance p List.mem_cons_self
      obtain ⟨hreplay, hmet⟩ := ih fun q hq => hadvance q (List.mem_cons_of_mem p hq)
      rw [replay_cons, replay_cons, advanced_advance, advanced_advance, Program.respond,
        Program.respond, hfirst, hreplay, hmet]
      exact ⟨rfl, rfl⟩
    · rw [advanced_of_ne hcall] at hadvance
      obtain ⟨hreplay, hmet⟩ := ih hadvance
      rw [replay_cons, replay_cons, advanced_of_ne hcall, advanced_of_ne hcall,
        h.respond hcall, hreplay, hmet]
      exact ⟨rfl, rfl⟩

end OffChannel

/-- The instruction that the next cycle tries, if it tries one. A program that has ended tries
none, and between quotation marks no character is one. -/
def instruction? (p : Program) : Option Instruction :=
  if p.termination = none ∧ p.state.quote = none then
    Instruction.ofChar? (p.state.current p.codebox)
  else none

theorem atRead_iff (p : Program) : p.AtRead ↔ p.instruction? = some .readChar := by
  unfold AtRead instruction?
  split
  · rename_i h
    simp only [h, true_and]
  · rename_i h
    simp only [reduceCtorEq, iff_false]
    exact fun hread => h ⟨hread.1, hread.2.1⟩

end Program

end Fish
