import Fish.Proofs.Calls

/-!
Frames. Part of a state can be such that an operation neither looks at it nor changes it: in another
frame the operation does the same. It may still fail here for a lack that the frame would make up
for. Operations that are framed one by one are framed one after the other, and instructions are made
of few operations; so whatever changes the stacks and the generator only, and is framed for the
operations on these, is so for whole cycles of a program.
-/

namespace Fish

section Operations

variable {ε σ α β : Type} {frame : σ → σ} {lacks : ε → Prop}

/-- In the framed state the operation does what it does in this one, unless it fails here for a
lack. -/
def FramedAt (frame : σ → σ) (lacks : ε → Prop) (op : EStateM ε σ α) (s : σ) : Prop :=
  match op s with
  | .ok a t => op (frame s) = .ok a (frame t)
  | .error e t => lacks e ∨ op (frame s) = .error e (frame t)

def Framed (frame : σ → σ) (lacks : ε → Prop) (op : EStateM ε σ α) : Prop :=
  ∀ s, FramedAt frame lacks op s

theorem FramedAt.ok {op : EStateM ε σ α} {s t : σ} {a : α} (h : FramedAt frame lacks op s)
    (hop : op s = .ok a t) : op (frame s) = .ok a (frame t) := by
  rw [FramedAt, hop] at h
  exact h

theorem FramedAt.error {op : EStateM ε σ α} {s t : σ} {e : ε} (h : FramedAt frame lacks op s)
    (hop : op s = .error e t) : lacks e ∨ op (frame s) = .error e (frame t) := by
  rw [FramedAt, hop] at h
  exact h

theorem FramedAt.congr {op op' : EStateM ε σ α} {s : σ} (h : FramedAt frame lacks op s)
    (hs : op' s = op s) (hframe : op' (frame s) = op (frame s)) :
    FramedAt frame lacks op' s := by
  rw [FramedAt, hs, hframe]
  exact h

theorem framed_pure (a : α) : Framed frame lacks (pure a : EStateM ε σ α) := fun _ => rfl

theorem framed_throw (e : ε) : Framed frame lacks (throw e : EStateM ε σ α) := fun _ => .inr rfl

theorem framed_modify {f : σ → σ} (h : ∀ s, f (frame s) = frame (f s)) :
    Framed frame lacks (modify f : EStateM ε σ PUnit) :=
  fun s => congrArg (EStateM.Result.ok PUnit.unit) (h s)

theorem FramedAt.bind {op : EStateM ε σ α} {next : α → EStateM ε σ β} {s : σ}
    (h : FramedAt frame lacks op s) (hnext : ∀ a, Framed frame lacks (next a)) :
    FramedAt frame lacks (op >>= next) s := by
  cases hop : op s with
  | ok a t =>
    rw [FramedAt, bind_of_ok hop, bind_of_ok (h.ok hop)]
    exact hnext a t
  | error e t =>
    rw [FramedAt, bind_of_error hop]
    exact (h.error hop).imp_right fun hframed => bind_of_error hframed next

theorem Framed.bind {op : EStateM ε σ α} {next : α → EStateM ε σ β}
    (h : Framed frame lacks op) (hnext : ∀ a, Framed frame lacks (next a)) :
    Framed frame lacks (op >>= next) :=
  fun s => (h s).bind hnext

end Operations

/-- The interrupt is a fault of that kind. -/
def Interrupt.IsFault (kind : Fault → Prop) (i : Interrupt) : Prop :=
  ∃ fault, i = .fatal fault ∧ kind fault

/-- The instruction changes the pointer itself. -/
def Instruction.Moves : Instruction → Prop
  | .turn _ => True
  | .turnRandomly => True
  | .reflect _ => True
  | .jump => True
  | _ => False

namespace State

variable {memory : Stacks → Stacks} {random : Random → Random} {lacks : Fault → Prop} {α : Type}

/-- The state in a frame of its stacks and of its generator. -/
def reframe (memory : Stacks → Stacks) (random : Random → Random) (s : State) : State :=
  { s with memory := memory s.memory, random := random s.random }

theorem framedAt_onStacks {op : StacksOp α} {s : State}
    (h : FramedAt memory lacks op s.memory) :
    FramedAt (reframe memory random) (Interrupt.IsFault lacks) (onStacks op) s := by
  cases hop : op s.memory with
  | ok a after => simp only [FramedAt, onStacks, reframe, hop, h.ok hop]
  | error fault after =>
    simp only [FramedAt, onStacks, reframe, hop]
    exact (h.error hop).imp (fun hlacks => ⟨fault, rfl, hlacks⟩) fun hframed => by rw [hframed]

theorem framed_onStacks {op : StacksOp α} (h : Framed memory lacks op) :
    Framed (reframe memory random) (Interrupt.IsFault lacks) (onStacks op) :=
  fun s => framedAt_onStacks (h s.memory)

theorem framed_receive :
    Framed (reframe memory random) (Interrupt.IsFault lacks) receive := by
  intro s
  cases hreceive : s.channel.receive with
  | ok received ch => cases received <;> simp only [FramedAt, receive, reframe, hreceive]
  | error e ch => simp only [FramedAt, receive, reframe, hreceive, or_true]

theorem framed_movePointer (f : Pointer → Pointer) :
    Framed (reframe memory random) (Interrupt.IsFault lacks) (movePointer f) :=
  framed_modify fun _ => rfl

theorem framed_quote (quote : Option Quote) :
    Framed (reframe memory random) (Interrupt.IsFault lacks)
      (modify fun s => { s with quote := quote } : Effect PUnit) :=
  framed_modify fun _ => rfl

theorem framed_write (text : String) :
    Framed (reframe memory random) (Interrupt.IsFault lacks) (write text) :=
  framed_modify fun _ => rfl

/-- What instructions are made of is framed, as far as they have nothing to do with the pointer. -/
structure EffectsFramed (frame : State → State) (lacks : Interrupt → Prop) : Prop where
  pop : Framed frame lacks (onStack Stack.pop)
  push : ∀ v, Framed frame lacks (onStack (Stack.push v))
  takePlace : Framed frame lacks (onStack Stack.takePlace)
  takeChar : Framed frame lacks (onStack Stack.takeChar)
  receive : Framed frame lacks receive
  write : ∀ text, Framed frame lacks (write text)
  quote : ∀ q, Framed frame lacks (modify fun s => { s with quote := some q } : Effect PUnit)

/-- The instructions on stacks, and those that move the pointer, are left to be framed one by
one. -/
theorem EffectsFramed.framedAt_perform {frame : State → State} {lacks : Interrupt → Prop}
    (h : EffectsFramed frame lacks) (box : Codebox) {instruction : Instruction} {s : State}
    (hstacks : ∀ i, instruction = .stack i → FramedAt frame lacks (onStacks i.perform) s)
    (hmoves : instruction.Moves → FramedAt frame lacks (perform box instruction) s) :
    FramedAt frame lacks (perform box instruction) s := by
  cases instruction with
  | stack i => exact (hstacks i rfl).bind fun _ => framed_pure _
  | turn | turnRandomly | reflect | jump => exact hmoves trivial
  | skip => exact framed_pure _ s
  | skipIfZero => exact h.pop.bind (fun _ => framed_pure _) s
  | quote q => exact (h.quote q).bind (fun _ => framed_pure _) s
  | writeNumber =>
    refine h.pop.bind (fun v => ?_) s
    exact (h.write _).bind fun _ => framed_pure _
  | writeChar =>
    refine h.takeChar.bind (fun c => ?_) s
    exact (h.write _).bind fun _ => framed_pure _
  | readChar =>
    refine h.receive.bind (fun v => ?_) s
    exact (h.push _).bind fun _ => framed_pure _
  | fetch =>
    refine h.takePlace.bind (fun place => ?_) s
    exact (h.push _).bind fun _ => framed_pure _
  | halt => exact framed_pure _ s
  | blank => exact framed_pure _ s

/-- What instructions ask of the stacks when they have other business, too, is framed. -/
structure OperandsFramed (memory : Stacks → Stacks) (lacks : Fault → Prop) : Prop where
  pop : Framed memory lacks (Stacks.onActive Stack.pop)
  push : ∀ v, Framed memory lacks (Stacks.onActive (Stack.push v))
  takePlace : Framed memory lacks (Stacks.onActive Stack.takePlace)
  takeChar : Framed memory lacks (Stacks.onActive Stack.takeChar)

namespace OperandsFramed

theorem effects (h : OperandsFramed memory lacks) :
    EffectsFramed (reframe memory random) (Interrupt.IsFault lacks) where
  pop := framed_onStacks h.pop
  push v := framed_onStacks (h.push v)
  takePlace := framed_onStacks h.takePlace
  takeChar := framed_onStacks h.takeChar
  receive := framed_receive
  write text := framed_write text
  quote q := framed_quote (some q)

/-- The instructions on stacks, and the one that draws, are left to be framed one by one. -/
theorem framedAt_perform (h : OperandsFramed memory lacks) (box : Codebox)
    {instruction : Instruction} {s : State}
    (hstacks : ∀ i, instruction = .stack i → FramedAt memory lacks i.perform s.memory)
    (hrandom : instruction = .turnRandomly →
      FramedAt (reframe memory random) (Interrupt.IsFault lacks) turnRandomly s) :
    FramedAt (reframe memory random) (Interrupt.IsFault lacks) (perform box instruction) s := by
  refine h.effects.framedAt_perform box (fun i hi => framedAt_onStacks (hstacks i hi)) ?_
  intro hmoves
  cases instruction with
  | turn d => exact (framed_movePointer _).bind (fun _ => framed_pure _) s
  | turnRandomly => exact (hrandom rfl).bind fun _ => framed_pure _
  | reflect m => exact (framed_movePointer _).bind (fun _ => framed_pure _) s
  | jump =>
    refine (framed_onStacks h.takePlace).bind (fun place => ?_) s
    exact (framed_movePointer _).bind fun _ => framed_pure _
  | _ => exact hmoves.elim

theorem framed_readQuoted (h : OperandsFramed memory lacks) (q : Quote) (c : Char) :
    Framed (reframe memory random) (Interrupt.IsFault lacks) (readQuoted q c) := by
  intro s
  by_cases hc : c = q.char
  · simp only [FramedAt, readQuoted, if_pos hc, reframe]
  · have hpush : Framed (reframe memory random) (Interrupt.IsFault lacks)
        (do onStack (Stack.push (.ofChar c)); return .next : Effect Flow) :=
      (framed_onStacks (h.push _)).bind fun _ => framed_pure _
    exact (hpush s).congr (by rw [readQuoted, if_neg hc]) (by rw [readQuoted, if_neg hc])

theorem framedAt_execute (h : OperandsFramed memory lacks) (box : Codebox) {c : Char} {s : State}
    (hstacks : ∀ i, s.quote = none → Instruction.ofChar? c = some (.stack i) →
      FramedAt memory lacks i.perform s.memory)
    (hrandom : s.quote = none → Instruction.ofChar? c = some .turnRandomly →
      FramedAt (reframe memory random) (Interrupt.IsFault lacks) turnRandomly s) :
    FramedAt (reframe memory random) (Interrupt.IsFault lacks) (execute box c) s := by
  cases hquote : s.quote with
  | some q =>
    exact (h.framed_readQuoted q c s).congr (execute_of_quote hquote box c)
      (execute_of_quote (s := s.reframe memory random) hquote box c)
  | none =>
    cases hc : Instruction.ofChar? c with
    | some instruction =>
      have hperform : FramedAt (reframe memory random) (Interrupt.IsFault lacks)
          (perform box instruction) s := by
        apply h.framedAt_perform box
        · intro i hi
          exact hstacks i hquote (hi ▸ hc)
        · intro hi
          exact hrandom hquote (hi ▸ hc)
      exact hperform.congr (execute_of_instruction hquote hc box)
        (execute_of_instruction (s := s.reframe memory random) hquote hc box)
    | none =>
      exact (framed_throw (.fatal (.invalidInstruction c)) s).congr
        (execute_of_invalid hquote hc box)
        (execute_of_invalid (s := s.reframe memory random) hquote hc box)

end OperandsFramed

end State

namespace Program

variable (memory : Stacks → Stacks) (random : Random → Random) (lacks : Fault → Prop)
  {p : Program}

/-- The program in a frame of its stacks and of its generator. -/
def reframe (memory : Stacks → Stacks) (random : Random → Random) (p : Program) : Program :=
  { p with state := p.state.reframe memory random }

/-- A cycle whose instruction is framed, and that does not fail for a lack, is the same in the
frame. -/
theorem advance_reframe
    (h : p.termination = none → FramedAt (State.reframe memory random) (Interrupt.IsFault lacks)
      (State.execute p.codebox (p.state.current p.codebox)) p.state)
    (hlacks : ∀ fault, p.advance.1 = .failed fault → ¬ lacks fault) :
    (p.reframe memory random).advance = (p.advance.1, p.advance.2.reframe memory random) := by
  cases htermination : p.termination with
  | some termination =>
    rw [advance_of_ended htermination,
      advance_of_ended (p := p.reframe memory random) htermination]
  | none =>
    have hframed := h htermination
    rw [advance_of_running htermination] at hlacks ⊢
    rw [advance_of_running (p := p.reframe memory random) htermination]
    cases hattempt : p.attempt with
    | ok flow s =>
      have hreframed : (p.reframe memory random).attempt = .ok flow (s.reframe memory random) :=
        hframed.ok hattempt
      rw [hreframed]
      cases flow <;> rfl
    | error i s =>
      have hreframed : (p.reframe memory random).attempt = .error i (s.reframe memory random) := by
        -- A lack would be the answer to this advance.
        refine (hframed.error hattempt).resolve_left fun hi => ?_
        obtain ⟨fault, rfl, hfault⟩ := hi
        rw [hattempt] at hlacks
        exact hlacks fault rfl hfault
      rw [hreframed]
      cases i <;> rfl

end Program

end Fish
