import Fish.Proofs.Atomicity

/-!
What a program does with its channel. Only the instruction that reads depends on what the
channel holds; every other one is the same over all channels, and at most adds to the output
a text that is known beforehand. So a cycle either writes or reads, and two programs that
differ in their channels alone can be compared cycle by cycle.
-/

namespace Fish

@[simp] theorem Channel.emit_empty (ch : Channel) : ch.emit "" = ch := by
  simp only [emit, String.append_empty]

namespace Stack

theorem pop_eq (s : Stack) :
    pop s = match s.top? with
      | some v => .ok v { s with values := s.values.tail }
      | none => underflow 1 s := by
  unfold pop top?
  cases s.values <;> rfl

theorem peek_zero (s : Stack) :
    peek 0 s = match s.top? with
      | some v => .ok v s
      | none => underflow 1 s := by
  unfold peek top?
  cases s.values <;> rfl

theorem takeChar_eq (s : Stack) :
    takeChar s = match s.top? with
      | some v => match v.toChar? with
        | some c => .ok c { s with values := s.values.tail }
        | none => .error (.invalidCharacter v) s
      | none => underflow 1 s := by
  have hpeek := s.peek_zero
  have hpop := s.pop_eq
  cases htop : s.top? with
  | none =>
    rw [htop] at hpeek
    rw [takeChar, bind_of_error hpeek]
    rfl
  | some v =>
    rw [htop] at hpeek hpop
    rw [takeChar, bind_of_ok hpeek]
    cases hchar : v.toChar? with
    | none =>
      simp only [hchar]
      rfl
    | some c =>
      simp only [hchar]
      rw [bind_of_ok hpop]
      rfl

end Stack

namespace State

variable {α β : Type}

theorem onStack_eq (op : StackOp α) (s : State) :
    onStack op s = match op s.memory.active with
      | .ok a active => .ok a { s with memory := { s.memory with active := active } }
      | .error e active =>
        .error (.fatal e) { s with memory := { s.memory with active := active } } := by
  unfold onStack onStacks Stacks.onActive
  cases op s.memory.active <;> rfl

def withChannel (ch : Channel) (s : State) : State := { s with channel := ch }

/-- Over every channel the effect does the same, which is to add the text to the output, or to
fail with nothing to add. -/
def Writes (e : Effect α) (s : State) (text : String) : Prop :=
  (∃ (a : α) (t : State), ∀ ch, e (s.withChannel ch) = .ok a (t.withChannel (ch.emit text))) ∨
  (text = "" ∧ ∃ (fault : Fault) (t : State), ∀ ch,
    e (s.withChannel ch) = .error (.fatal fault) (t.withChannel ch))

def Silent (e : Effect α) : Prop := ∀ s, Writes e s ""

theorem silent_pure (a : α) : Silent (pure a : Effect α) := by
  intro s
  refine Or.inl ⟨a, s, fun ch => ?_⟩
  rw [Channel.emit_empty]
  rfl

theorem Silent.bind {e : Effect α} {next : α → Effect β} (h : Silent e)
    (hnext : ∀ a, Silent (next a)) : Silent (e >>= next) := by
  intro s
  rcases h s with ⟨a, t, hok⟩ | ⟨-, fault, t, herror⟩
  · simp only [Channel.emit_empty] at hok
    rcases hnext a t with ⟨b, u, hok'⟩ | ⟨-, fault, u, herror⟩
    · exact Or.inl ⟨b, u, fun ch => (bind_of_ok (hok ch) next).trans (hok' ch)⟩
    · exact Or.inr ⟨rfl, fault, u, fun ch => (bind_of_ok (hok ch) next).trans (herror ch)⟩
  · exact Or.inr ⟨rfl, fault, t, fun ch => bind_of_error (herror ch) next⟩

theorem silent_onStacks (op : StacksOp α) : Silent (onStacks op) := by
  intro s
  cases hop : op s.memory with
  | ok a memory =>
    refine Or.inl ⟨a, { s with memory := memory }, fun ch => ?_⟩
    simp only [onStacks, withChannel, hop, Channel.emit_empty]
  | error e memory =>
    refine Or.inr ⟨rfl, e, { s with memory := memory }, fun ch => ?_⟩
    simp only [onStacks, withChannel, hop]

theorem silent_modify (f : State → State)
    (h : ∀ s ch, f (s.withChannel ch) = (f s).withChannel ch) :
    Silent (modify f : Effect PUnit) := by
  intro s
  refine Or.inl ⟨⟨⟩, f s, fun ch => ?_⟩
  rw [Channel.emit_empty, ← h]
  rfl

theorem silent_movePointer (f : Pointer → Pointer) : Silent (movePointer f) :=
  silent_modify _ fun _ _ => rfl

theorem silent_turnRandomly : Silent turnRandomly := by
  refine silent_modify _ fun s ch => ?_
  have hrandom : (s.withChannel ch).random = s.random := rfl
  rw [hrandom]
  generalize s.random.quarter = draw
  rfl

/-- What an instruction writes. -/
def written (s : State) : Instruction → String
  | .writeNumber => (s.memory.active.top?.map Value.text).getD ""
  | .writeChar => ((s.memory.active.top?.bind Value.toChar?).map String.singleton).getD ""
  | _ => ""

/-- What a result makes someone write. -/
def textOf (f : α → String) : EStateM.Result Interrupt State α → String
  | .ok a _ => f a
  | .error _ _ => ""

theorem Silent.writes_bind {e : Effect α} (h : Silent e) (f : α → String) (s : State) :
    Writes (e >>= fun a => write (f a) >>= fun _ => pure Flow.next) s (textOf f (e s)) := by
  rcases h s with ⟨a, t, hok⟩ | ⟨-, fault, t, herror⟩
  · simp only [Channel.emit_empty] at hok
    have htext : textOf f (e s) = f a := congrArg (textOf f) (hok s.channel)
    refine Or.inl ⟨.next, t, fun ch => ?_⟩
    rw [bind_of_ok (hok ch), htext]
    rfl
  · have htext : textOf f (e s) = "" := congrArg (textOf f) (herror s.channel)
    exact Or.inr ⟨htext, fault, t, fun ch => bind_of_error (herror ch) _⟩

theorem written_writeNumber (s : State) :
    s.written .writeNumber = textOf Value.text (onStack Stack.pop s) := by
  rw [onStack_eq, Stack.pop_eq, written]
  cases s.memory.active.top? <;> rfl

theorem written_writeChar (s : State) :
    s.written .writeChar = textOf String.singleton (onStack Stack.takeChar s) := by
  rw [onStack_eq, Stack.takeChar_eq, written]
  cases s.memory.active.top? with
  | none => rfl
  | some v =>
    simp only [Option.bind_some]
    cases v.toChar? <;> rfl

/-- An instruction that is not for reading has no other business with the channel than to
write. -/
theorem writes_perform (box : Codebox) {instruction : Instruction} (s : State)
    (h : instruction ≠ .readChar) : Writes (perform box instruction) s (s.written instruction) := by
  cases instruction with
  | stack instruction => exact (silent_onStacks _).bind (fun _ => silent_pure _) s
  | turn d => exact (silent_movePointer _).bind (fun _ => silent_pure _) s
  | turnRandomly => exact silent_turnRandomly.bind (fun _ => silent_pure _) s
  | reflect m => exact (silent_movePointer _).bind (fun _ => silent_pure _) s
  | skip => exact silent_pure _ s
  | skipIfZero => exact (silent_onStacks _).bind (fun _ => silent_pure _) s
  | jump =>
    refine (silent_onStacks _).bind (fun place => ?_) s
    exact (silent_movePointer _).bind fun _ => silent_pure _
  | quote q => exact (silent_modify _ fun _ _ => rfl).bind (fun _ => silent_pure _) s
  | writeNumber =>
    rw [written_writeNumber]
    exact (silent_onStacks _).writes_bind Value.text s
  | writeChar =>
    rw [written_writeChar]
    exact (silent_onStacks _).writes_bind String.singleton s
  | readChar => exact absurd rfl h
  | fetch =>
    refine (silent_onStacks _).bind (fun place => ?_) s
    exact (silent_onStacks _).bind fun _ => silent_pure _
  | halt => exact silent_pure _ s
  | blank => exact silent_pure _ s

theorem silent_readQuoted (q : Quote) (c : Char) : Silent (readQuoted q c) := by
  intro s
  by_cases hc : c = q.char
  · refine Or.inl ⟨.next, { s with quote := none }, fun ch => ?_⟩
    rw [readQuoted, if_pos hc, Channel.emit_empty]
    rfl
  · have hpush : Silent (onStack (Stack.push (.ofChar c)) >>= fun _ => pure Flow.next) :=
      (silent_onStacks _).bind fun _ => silent_pure _
    have heq : readQuoted q c = onStack (Stack.push (.ofChar c)) >>= fun _ => pure Flow.next := by
      funext s
      rw [readQuoted, if_neg hc]
    rw [heq]
    exact hpush s

end State

namespace State

theorem Writes.congr {e e' : Effect α} {s : State} {text : String} (h : Writes e s text)
    (heq : ∀ ch, e' (s.withChannel ch) = e (s.withChannel ch)) : Writes e' s text := by
  rcases h with ⟨a, t, hok⟩ | ⟨htext, fault, t, herror⟩
  · exact Or.inl ⟨a, t, fun ch => (heq ch).trans (hok ch)⟩
  · exact Or.inr ⟨htext, fault, t, fun ch => (heq ch).trans (herror ch)⟩

theorem execute_of_quote {s : State} {q : Quote} (h : s.quote = some q) (box : Codebox)
    (c : Char) : execute box c s = readQuoted q c s := by
  unfold execute
  rw [h]

theorem execute_of_instruction {s : State} {c : Char} {instruction : Instruction}
    (h : s.quote = none) (hc : Instruction.ofChar? c = some instruction) (box : Codebox) :
    execute box c s = perform box instruction s := by
  unfold execute
  rw [h, hc]

theorem execute_of_invalid {s : State} {c : Char} (h : s.quote = none)
    (hc : Instruction.ofChar? c = none) (box : Codebox) :
    execute box c s = .error (.fatal (.invalidInstruction c)) s := by
  unfold execute
  rw [h, hc]

/-- What the character writes when it is executed. -/
def writtenBy (c : Char) (s : State) : String :=
  match s.quote, Instruction.ofChar? c with
  | none, some instruction => s.written instruction
  | _, _ => ""

theorem writes_execute (box : Codebox) (c : Char) (s : State)
    (h : s.quote = none → Instruction.ofChar? c ≠ some .readChar) :
    Writes (execute box c) s (s.writtenBy c) := by
  cases hquote : s.quote with
  | some q =>
    have htext : s.writtenBy c = "" := by simp only [writtenBy, hquote]
    rw [htext]
    exact (silent_readQuoted q c s).congr fun ch =>
      execute_of_quote (s := s.withChannel ch) hquote box c
  | none =>
    cases hc : Instruction.ofChar? c with
    | some instruction =>
      have htext : s.writtenBy c = s.written instruction := by simp only [writtenBy, hquote, hc]
      have hread : instruction ≠ .readChar := by
        intro heq
        exact h hquote (by rw [hc, heq])
      rw [htext]
      exact (writes_perform box s hread).congr fun ch =>
        execute_of_instruction (s := s.withChannel ch) hquote hc box
    | none =>
      refine Or.inr ⟨by simp only [writtenBy, hquote, hc], .invalidInstruction c, s, fun ch => ?_⟩
      exact execute_of_invalid (s := s.withChannel ch) hquote hc box

end State

/-- The value that stands for what was received. -/
def Received.value : Received → Value
  | .char c => .ofChar c
  | .endOfInput => .int (-1)

namespace State

theorem receive_eq (s : State) (ch : Channel) :
    receive (s.withChannel ch) = match ch.receive with
      | .ok received rest => .ok received.value (s.withChannel rest)
      | .error _ rest => .error .blocked (s.withChannel rest) := by
  unfold receive
  cases hreceive : ch.receive with
  | ok received rest => cases received <;> simp only [withChannel, hreceive, Received.value]
  | error e rest => simp only [withChannel, hreceive]

end State

namespace Program

def withChannel (ch : Channel) (p : Program) : Program :=
  { p with state := p.state.withChannel ch }

theorem onChannel_of_ok {ε α : Type} {op : EStateM ε Channel α} {p : Program} {a : α}
    {ch : Channel} (h : op p.state.channel = .ok a ch) :
    onChannel op p = .ok a (p.withChannel ch) := by
  rw [onChannel, h]
  rfl

theorem onChannel_of_error {ε α : Type} {op : EStateM ε Channel α} {p : Program} {e : ε}
    {ch : Channel} (h : op p.state.channel = .error e ch) :
    onChannel op p = .error e (p.withChannel ch) := by
  rw [onChannel, h]
  rfl

/-- The program is about to read a character. -/
def AtRead (p : Program) : Prop :=
  p.termination = none ∧ p.state.quote = none ∧
    Instruction.ofChar? (p.state.current p.codebox) = some .readChar

/-- What the next cycle writes. -/
def written (p : Program) : String :=
  match p.termination with
  | some _ => ""
  | none => p.state.writtenBy (p.state.current p.codebox)

theorem conclude_withChannel_ok (p : Program) (flow : Flow) (s : State) (ch ch' : Channel) :
    (p.withChannel ch).conclude (.ok flow (s.withChannel ch')) =
      ((p.conclude (.ok flow s)).1, (p.conclude (.ok flow s)).2.withChannel ch') := by
  cases flow <;> rfl

/-- A cycle that reads nothing is the same over every channel, to which it at most adds a text. -/
theorem advance_writing {p : Program} (h : ¬ p.AtRead) :
    ∃ (step : Step) (q : Program), step ≠ .blocked ∧
      ∀ ch, (p.withChannel ch).advance = (step, q.withChannel (ch.emit p.written)) := by
  cases htermination : p.termination with
  | some termination =>
    refine ⟨termination.step, p, ?_, fun ch => ?_⟩
    · cases termination <;> simp [Termination.step]
    · simp only [written, htermination, Channel.emit_empty]
      exact advance_of_ended htermination
  | none =>
    have hread : p.state.quote = none →
        Instruction.ofChar? (p.state.current p.codebox) ≠ some .readChar :=
      fun hquote hinstruction => h ⟨htermination, hquote, hinstruction⟩
    have hwritten : p.written = p.state.writtenBy (p.state.current p.codebox) := by
      simp only [written, htermination]
    rw [hwritten]
    have hadvance : ∀ ch, (p.withChannel ch).advance = (p.withChannel ch).conclude
        (State.execute p.codebox (p.state.current p.codebox) (p.state.withChannel ch)) :=
      fun ch => advance_of_running (p := p.withChannel ch) htermination
    rcases State.writes_execute p.codebox _ p.state hread with
      ⟨flow, t, hok⟩ | ⟨htext, fault, t, herror⟩
    · refine ⟨(p.conclude (.ok flow t)).1, (p.conclude (.ok flow t)).2, ?_, fun ch => ?_⟩
      · cases flow <;> simp [conclude]
      · rw [hadvance, hok, conclude_withChannel_ok]
    · refine ⟨.failed fault, (p.conclude (.error (.fatal fault) t)).2, ?_, fun ch => ?_⟩
      · simp
      · rw [hadvance, herror, htext, Channel.emit_empty]
        rfl

/-- The program after it has read something that stands for the value. -/
def afterRead (v : Value) (p : Program) : Program :=
  let active := { p.state.memory.active with values := v :: p.state.memory.active.values }
  let state := { p.state with memory := { p.state.memory with active := active } }
  { p with state := state.follow p.codebox .next, steps := p.steps + 1 }

/-- What becomes of a cycle that reads is up to the channel. -/
theorem advance_reading {p : Program} (h : p.AtRead) (ch : Channel) :
    (p.withChannel ch).advance = match ch.receive with
      | .ok received rest => (.progressed, (p.afterRead received.value).withChannel rest)
      | .error _ rest => (.blocked, p.withChannel rest) := by
  obtain ⟨htermination, hquote, hinstruction⟩ := h
  have hattempt : (p.withChannel ch).attempt =
      State.perform p.codebox .readChar (p.state.withChannel ch) :=
    State.execute_of_instruction (s := p.state.withChannel ch) hquote hinstruction p.codebox
  rw [advance_of_running (p := p.withChannel ch) htermination, hattempt]
  have hreceive := p.state.receive_eq ch
  cases hch : ch.receive with
  | ok received rest =>
    rw [hch] at hreceive
    rw [State.perform, bind_of_ok hreceive]
    rfl
  | error e rest =>
    rw [hch] at hreceive
    rw [State.perform, bind_of_error hreceive]
    rfl

end Program

namespace Channel

theorem receive_eq_error_iff (ch rest : Channel) (e : InputExhausted) :
    ch.receive = .error e rest ↔ ch.pending = [] ∧ ch.closed = false ∧ rest = ch := by
  obtain ⟨pending, closed, output⟩ := ch
  cases pending with
  | nil => cases closed <;> cases e <;> simp [receive, eq_comm]
  | cons c cs => simp [receive]

theorem closed_of_receive {ch rest : Channel} {received : Received}
    (h : ch.receive = .ok received rest) : rest.closed = ch.closed := by
  unfold receive at h
  split at h
  · cases h
    rfl
  · split at h <;> cases h
    rfl

/-- Puts a text before the output that was not read yet. -/
def prepend (text : String) (ch : Channel) : Channel := { ch with output := text ++ ch.output }

theorem prepend_emit (text more : String) (ch : Channel) :
    (ch.emit more).prepend text = (ch.prepend text).emit more := by
  simp only [prepend, emit, String.append_assoc]

theorem receive_prepend (text : String) (ch : Channel) :
    (ch.prepend text).receive = match ch.receive with
      | .ok received rest => .ok received (rest.prepend text)
      | .error e rest => .error e (rest.prepend text) := by
  obtain ⟨pending, closed, output⟩ := ch
  cases pending with
  | nil => cases closed <;> rfl
  | cons c cs => rfl

end Channel

namespace Program

def mapChannel (f : Channel → Channel) (p : Program) : Program :=
  p.withChannel (f p.state.channel)

/-- A change of the channel that neither a writer nor the reader at hand can notice carries
over to the next state. -/
theorem advance_mapChannel {f : Channel → Channel} (p : Program)
    (hemit : ∀ text ch, f (ch.emit text) = (f ch).emit text)
    (hreceive : p.AtRead → (f p.state.channel).receive = match p.state.channel.receive with
      | .ok received rest => .ok received (f rest)
      | .error e rest => .error e (f rest)) :
    (p.mapChannel f).advance = (p.advance.1, p.advance.2.mapChannel f) := by
  by_cases h : p.AtRead
  · have hadvance : p.advance = _ := advance_reading h p.state.channel
    rw [mapChannel, advance_reading h, hadvance, hreceive h]
    cases p.state.channel.receive <;> rfl
  · obtain ⟨step, q, -, hwrite⟩ := advance_writing h
    have hadvance : p.advance = _ := hwrite p.state.channel
    rw [mapChannel, hwrite, hadvance, ← hemit]
    rfl

theorem closed_advance (p : Program) :
    p.advance.2.state.channel.closed = p.state.channel.closed := by
  by_cases h : p.AtRead
  · have hadvance : p.advance = _ := advance_reading h p.state.channel
    rw [hadvance]
    cases hreceive : p.state.channel.receive with
    | ok received rest => exact Channel.closed_of_receive hreceive
    | error e rest =>
      obtain ⟨-, -, rfl⟩ := (Channel.receive_eq_error_iff _ _ _).mp hreceive
      rfl
  · obtain ⟨step, q, -, hwrite⟩ := advance_writing h
    have hadvance : p.advance = _ := hwrite p.state.channel
    rw [hadvance]
    rfl

/-- Only a program that reads waits, and only while there is nothing to read and more may
come. -/
theorem advance_blocked_iff (p : Program) :
    p.advance.1 = .blocked ↔
      p.AtRead ∧ p.state.channel.pending = [] ∧ p.state.channel.closed = false := by
  by_cases h : p.AtRead
  · have hadvance : p.advance = _ := advance_reading h p.state.channel
    rw [hadvance]
    cases hreceive : p.state.channel.receive with
    | ok received rest =>
      simp only [reduceCtorEq, h, true_and, false_iff]
      intro hempty
      rw [(Channel.receive_eq_error_iff _ _ .inputExhausted).mpr ⟨hempty.1, hempty.2, rfl⟩]
        at hreceive
      cases hreceive
    | error e rest =>
      obtain ⟨hpending, hclosed, -⟩ := (Channel.receive_eq_error_iff _ _ _).mp hreceive
      simp only [h, hpending, hclosed, and_self]
  · obtain ⟨step, q, hstep, hwrite⟩ := advance_writing h
    have hadvance : p.advance = _ := hwrite p.state.channel
    simp only [hadvance, hstep, h, false_and]

def prepend (text : String) (p : Program) : Program := p.mapChannel (Channel.prepend text)

/-- Output that nobody has read makes no difference to what a program does. -/
theorem advance_prepend (text : String) (p : Program) :
    (p.prepend text).advance = (p.advance.1, p.advance.2.prepend text) :=
  p.advance_mapChannel (fun more ch => ch.prepend_emit text more)
    fun _ => p.state.channel.receive_prepend text

end Program

end Fish
