import Fish.Proofs.Calls

/-!
Delivery of input. A character that was accepted is read once, after those accepted before it
and before those accepted later. Reading past the last one gives the end of input, which only
a closed input has, and which it has for ever after.
-/

namespace Fish

theorem Value.ofChar_ne_neg_one (c : Char) : Value.ofChar c ≠ .int (-1) := by
  intro h
  have hword : Int64.ofNat c.toNat = -1 := Value.int.inj h
  have hlt : c.toNat < 2 ^ 32 := c.val.toNat_lt
  have hvalue : (Int64.ofNat c.toNat).toInt = c.toNat := Int64.toInt_ofNat_of_lt (by omega)
  rw [hword] at hvalue
  have hneg : ((-1 : Int64)).toInt = -1 := by decide
  omega

/-- The characters that a call has added to the input. -/
def Call.accepted : Call × Answer → List Char
  | (.give text, .accepted) => text.toList
  | (.feed text, .accepted) => text.toList
  | _ => []

/-- The characters that were accepted in the course of the calls, in order. -/
def acceptedIn (history : List (Call × Answer)) : List Char := history.flatMap Call.accepted

theorem acceptedIn_cons (call : Call) (answer : Answer) (history : List (Call × Answer)) :
    acceptedIn ((call, answer) :: history) =
      Call.accepted (call, answer) ++ acceptedIn history := rfl

namespace Program

/-- Queues characters one by one, up to the first that is refused. -/
def giveEach : List Char → EStateM InputRefusal Program Unit
  | [] => pure ()
  | c :: cs => do
    give (String.singleton c)
    giveEach cs

theorem onChannel_bind {ε α β : Type} (op : EStateM ε Channel α) (next : α → EStateM ε Channel β) :
    onChannel (op >>= next) = onChannel op >>= fun a => onChannel (next a) := by
  funext p
  cases hop : op p.state.channel with
  | ok a ch =>
    have hnext : onChannel op p = .ok a (p.withChannel ch) := onChannel_of_ok hop
    rw [bind_of_ok hnext]
    simp only [onChannel, bind_of_ok hop]
    rfl
  | error e ch =>
    have hstop : onChannel op p = .error e (p.withChannel ch) := onChannel_of_error hop
    rw [bind_of_error hstop]
    exact onChannel_of_error (bind_of_error hop next)

theorem giveEach_eq_onChannel (chars : List Char) :
    giveEach chars = onChannel (Channel.giveEach chars) := by
  induction chars with
  | nil => rfl
  | cons c cs ih =>
    rw [giveEach, Channel.giveEach, onChannel_bind, ih]
    rfl

/-- A text can be queued at once or character by character. -/
theorem feed_eq_giveEach (text : String) : feed text = giveEach text.toList := by
  rw [giveEach_eq_onChannel, ← Channel.feed_eq_giveEach]
  rfl

/-- The value that the next cycle reads, if it reads one. It is on top of the stack then. -/
def received (p : Program) : Option Value :=
  if p.instruction? = some .readChar ∧ p.advance.1 = .progressed then
    p.advance.2.state.memory.active.top?
  else none

theorem received_of_not_atRead {p : Program} (h : ¬ p.AtRead) : p.received = none := by
  rw [received, if_neg]
  rw [atRead_iff] at h
  exact fun hread => h hread.1

theorem received_of_atRead {p : Program} (h : p.AtRead) :
    p.received = match p.state.channel.receive with
      | .ok received _ => some received.value
      | .error _ _ => none := by
  have hadvance : p.advance = _ := advance_reading h p.state.channel
  have hinstruction := p.atRead_iff.mp h
  rw [received, hadvance]
  cases p.state.channel.receive with
  | ok received rest =>
    rw [if_pos ⟨hinstruction, rfl⟩]
    rfl
  | error e rest =>
    rw [if_neg]
    intro hprogressed
    cases hprogressed.2

/-- What a cycle takes from the input: nothing, the character that waits longest, or word that
the input has ended, which nothing waits behind. -/
inductive Intake (p q : Program) : Option Value → Prop
  | nothing (hpending : q.state.channel.pending = p.state.channel.pending) : Intake p q none
  | char (c : Char) (hpending : p.state.channel.pending = c :: q.state.channel.pending) :
      Intake p q (some (.ofChar c))
  | ended (hbefore : p.state.channel.pending = []) (hclosed : p.state.channel.closed = true)
      (hafter : q.state.channel.pending = []) : Intake p q (some (.int (-1)))

theorem intake_advance (p : Program) : Intake p p.advance.2 p.received := by
  by_cases h : p.AtRead
  · have hadvance : p.advance = _ := advance_reading h p.state.channel
    have hreceived := received_of_atRead h
    cases hpending : p.state.channel.pending with
    | cons c cs =>
      have hreceive : p.state.channel.receive =
          .ok (.char c) { p.state.channel with pending := cs } := by
        rw [Channel.receive, hpending]
      rw [hreceived, hadvance, hreceive]
      exact .char c hpending
    | nil =>
      by_cases hclosed : p.state.channel.closed = true
      · have hreceive : p.state.channel.receive = .ok .endOfInput p.state.channel := by
          rw [Channel.receive, hpending]
          exact if_pos hclosed
        rw [hreceived, hadvance, hreceive]
        exact .ended hpending hclosed hpending
      · have hreceive : p.state.channel.receive = .error .inputExhausted p.state.channel := by
          rw [Channel.receive, hpending]
          exact if_neg hclosed
        rw [hreceived, hadvance, hreceive]
        exact .nothing rfl
  · obtain ⟨step, q, -, hwrite⟩ := advance_writing h
    have hadvance : p.advance = _ := hwrite p.state.channel
    rw [received_of_not_atRead h, hadvance]
    exact .nothing rfl

/-- The values that the cycles among the calls have read, in order. -/
def receivedIn (calls : List Call) (p : Program) : List Value :=
  (advanced calls p).filterMap received

theorem receivedIn_advance (calls : List Call) (p : Program) :
    receivedIn (.advance :: calls) p = p.received.toList ++ receivedIn calls p.advance.2 := by
  rw [receivedIn, advanced_advance, List.filterMap_cons]
  cases p.received <;> rfl

theorem receivedIn_of_ne {call : Call} (h : call ≠ .advance) (calls : List Call) (p : Program) :
    receivedIn (call :: calls) p = receivedIn calls (p.respond call).2 := by
  rw [receivedIn, advanced_of_ne h]
  rfl

theorem pending_text {call : Call} {text : String} (h : call = .give text ∨ call = .feed text)
    (p : Program) : (p.respond call).2.state.channel.pending =
      p.state.channel.pending ++ Call.accepted (call, (p.respond call).1) := by
  rcases p.respond_text h with hrespond | ⟨refusal, hrespond⟩
  · rw [hrespond]
    rcases h with rfl | rfl <;> rfl
  · rw [hrespond]
    rcases h with rfl | rfl <;> exact (List.append_nil _).symm

theorem pending_respond {call : Call} (h : call ≠ .advance) (p : Program) :
    (p.respond call).2.state.channel.pending =
      p.state.channel.pending ++ Call.accepted (call, (p.respond call).1) := by
  cases call with
  | advance => exact absurd rfl h
  | give text => exact p.pending_text (.inl rfl)
  | feed text => exact p.pending_text (.inr rfl)
  | close => exact (List.append_nil _).symm
  | read =>
    rw [respond_read]
    exact (List.append_nil _).symm

theorem closed_text {call : Call} {text : String} (h : call = .give text ∨ call = .feed text)
    (p : Program) : (p.respond call).2.state.channel.closed = p.state.channel.closed := by
  rcases p.respond_text h with hrespond | ⟨refusal, hrespond⟩
  · rw [hrespond]
    rfl
  · rw [hrespond]

theorem closed_respond {p : Program} (h : p.state.channel.closed = true) (call : Call) :
    (p.respond call).2.state.channel.closed = true := by
  cases call with
  | advance => exact p.closed_advance.trans h
  | give text => exact (p.closed_text (.inl rfl)).trans h
  | feed text => exact (p.closed_text (.inr rfl)).trans h
  | close => rfl
  | read =>
    rw [respond_read]
    exact h

theorem accepted_of_closed {p : Program} (h : p.state.channel.closed = true) (call : Call) :
    Call.accepted (call, (p.respond call).1) = [] := by
  cases call with
  | give text =>
    rw [respond, give_eq, if_pos h]
    rfl
  | feed text =>
    rw [respond, feed_eq]
    by_cases hempty : text.toList = []
    · rw [if_neg (by simp [hempty])]
      exact hempty
    · rw [if_pos ⟨h, hempty⟩]
      rfl
  | _ => rfl

theorem respond_ne_blocked {p : Program} (h : p.state.channel.closed = true) (call : Call) :
    (p.respond call).1 ≠ .step .blocked := by
  intro hblocked
  by_cases hadvance : call = .advance
  · subst hadvance
    have hstep : p.advance.1 = .blocked := Answer.step.inj hblocked
    have hopen := (p.advance_blocked_iff.mp hstep).2.2
    rw [h] at hopen
    cases hopen
  · have hstep := p.step?_respond_of_ne hadvance
    rw [hblocked] at hstep
    cases hstep

/-- A closed input stays closed, takes nothing in and lets nobody wait. -/
theorem replay_of_closed {p : Program} (h : p.state.channel.closed = true) (calls : List Call) :
    (p.replay calls).2.state.channel.closed = true ∧ acceptedIn (p.transcript calls) = [] ∧
      .step .blocked ∉ (p.replay calls).1 := by
  induction calls generalizing p with
  | nil => exact ⟨h, rfl, List.not_mem_nil⟩
  | cons call calls ih =>
    obtain ⟨hclosed, haccepted, hblocked⟩ := ih (closed_respond h call)
    refine ⟨hclosed, ?_, ?_⟩
    · rw [transcript_cons, acceptedIn_cons, accepted_of_closed h, haccepted, List.append_nil]
    · rw [replay_cons, List.mem_cons]
      rintro (hfirst | hrest)
      · exact respond_ne_blocked h call hfirst.symm
      · exact hblocked hrest

/-- What is read in the course of the calls are characters, and behind them the end of input as
often as it was asked for. The characters that were read, and behind them those that still
wait, are those that waited at first and those that were accepted. -/
theorem received_accepted (calls : List Call) (p : Program) :
    ∃ (taken : List Char) (ends : Nat),
      receivedIn calls p = taken.map .ofChar ++ List.replicate ends (.int (-1)) ∧
      taken ++ (p.replay calls).2.state.channel.pending =
        p.state.channel.pending ++ acceptedIn (p.transcript calls) ∧
      (0 < ends → (p.replay calls).2.state.channel.closed = true ∧
        (p.replay calls).2.state.channel.pending = []) := by
  induction calls generalizing p with
  | nil => exact ⟨[], 0, rfl, (List.append_nil _).symm, fun h => absurd h (Nat.lt_irrefl 0)⟩
  | cons call calls ih =>
    rw [transcript_cons, acceptedIn_cons, replay_cons]
    by_cases hadvance : call = .advance
    · subst hadvance
      obtain ⟨taken, ends, hreceived, htaken, hends⟩ := ih p.advance.2
      have hintake := p.intake_advance
      rw [receivedIn_advance, hreceived]
      generalize p.received = value at hintake
      cases hintake with
      | nothing hpending => exact ⟨taken, ends, rfl, hpending ▸ htaken, hends⟩
      | char c hpending =>
        refine ⟨c :: taken, ends, rfl, ?_, hends⟩
        rw [hpending]
        exact congrArg (List.cons c) htaken
      | ended hbefore hclosed hafter =>
        -- Nothing waits and nothing more is accepted, so that the rest has read no character.
        obtain ⟨hstays, haccepted, -⟩ := replay_of_closed (p.closed_advance.trans hclosed) calls
        rw [hafter, haccepted, List.append_nil, List.append_eq_nil_iff] at htaken
        obtain ⟨rfl, hnone⟩ := htaken
        refine ⟨[], ends + 1, rfl, ?_, fun _ => ⟨hstays, hnone⟩⟩
        rw [hbefore]
        exact hnone.trans haccepted.symm
    · obtain ⟨taken, ends, hreceived, htaken, hends⟩ := ih (p.respond call).2
      refine ⟨taken, ends, ?_, ?_, hends⟩
      · rw [receivedIn_of_ne hadvance, hreceived]
      · rw [htaken, pending_respond hadvance, List.append_assoc]

/-- The end of input is read only where nothing waits and nothing more can come. -/
theorem ended_of_received {p : Program} (h : p.received = some (.int (-1))) :
    p.state.channel.closed = true ∧ p.state.channel.pending = [] := by
  have hintake := p.intake_advance
  rw [h] at hintake
  generalize hvalue : (Value.int (-1)) = value at hintake
  cases hintake with
  | char c hpending => exact absurd hvalue.symm (Value.ofChar_ne_neg_one c)
  | ended hbefore hclosed hafter => exact ⟨hclosed, hbefore⟩

end Program

open Program in
/-- Input is delivered once and in order: what was read, and behind it what still waits, is what was
accepted. The end of input is read only behind all of it. -/
theorem input_delivered_once (source : String) (values : List Value) (seed : UInt64)
    (calls : List Call) :
    let p := load source values seed
    let q := (p.replay calls).2
    (∃ (taken : List Char) (ends : Nat),
      receivedIn calls p = taken.map .ofChar ++ List.replicate ends (.int (-1)) ∧
      taken ++ q.state.channel.pending = acceptedIn (p.transcript calls) ∧
      (0 < ends → q.state.channel.closed = true ∧ q.state.channel.pending = [])) ∧
    (∀ text, q.give text =
      if q.state.channel.closed = true then .error .closed q
      else if text.toList.length = 1 then .ok () (q.enqueue text.toList)
      else .error (.notOneChar text) q) ∧
    (∀ text, q.feed text = giveEach text.toList q ∧
      giveEach text.toList q =
        if q.state.channel.closed = true ∧ text.toList ≠ [] then .error .closed q
        else .ok () (q.enqueue text.toList)) ∧
    (q.received = some (.int (-1)) →
      q.state.channel.closed = true ∧ q.state.channel.pending = []) ∧
    (q.state.channel.closed = true → ∀ later,
      (q.replay later).2.state.channel.closed = true ∧
        .step .blocked ∉ (q.replay later).1) := by
  intro p q
  refine ⟨received_accepted calls p, fun text => give_eq text q, fun text => ?_,
    ended_of_received, fun hclosed later => ?_⟩
  · rw [← feed_eq_giveEach]
    exact ⟨rfl, feed_eq text q⟩
  · obtain ⟨hstays, -, hblocked⟩ := replay_of_closed hclosed later
    exact ⟨hstays, hblocked⟩

open Program in
/-- A text of two characters that is no single one, a text that comes after the end, and a
program that reads on behind it. -/
theorem input_delivered_once_refusals :
    let calls : List Call := [.give "a", .give "bc", .advance, .feed "de", .advance, .advance,
      .close, .feed "f", .advance]
    let p := load "i" [] 0
    let q := (p.replay calls).2
    receivedIn calls p = [.ofChar 'a', .ofChar 'd', .ofChar 'e', .int (-1)] ∧
      acceptedIn (p.transcript calls) = ['a', 'd', 'e'] ∧
      q.received = some (.int (-1)) ∧ q.state.channel.closed = true ∧
      q.state.channel.pending = [] ∧ ∀ later, .step .blocked ∉ (q.replay later).1 := by
  intro calls
  obtain ⟨-, -, -, hended, hlater⟩ := input_delivered_once "i" [] 0 calls
  have hreceived : ((load "i" [] 0).replay calls).2.received = some (.int (-1)) := by decide
  obtain ⟨hclosed, hpending⟩ := hended hreceived
  refine ⟨by decide, by decide, hreceived, hclosed, hpending, fun later => ?_⟩
  exact (hlater hclosed later).2

end Fish
