import Fish.Program
import Fish.Proofs.Operations

/-!
Failing and waiting are atomic. Each operation on stacks looks at its operands before it
takes them, and each instruction does what can fail before anything else; an instruction
that is not done leaves the whole state as it was. A program that waits is then the same
program, and one that fails differs only by its count of steps and by having ended.
-/

namespace Fish

namespace Stack

theorem atomic_pop : Atomic pop := by
  intro s e t h
  unfold pop at h
  split at h <;> cases h
  rfl

theorem atomic_pop2 : Atomic pop2 := by
  intro s e t h
  unfold pop2 at h
  split at h <;> cases h
  rfl

theorem atomic_peek2 : Atomic peek2 := by
  intro s e t h
  unfold peek2 at h
  split at h <;> cases h
  rfl

theorem looking_peek2 : Looking peek2 := by
  intro s a t h
  unfold peek2 at h
  split at h <;> cases h
  rfl

theorem atomic_duplicate : Atomic duplicate := by
  intro s e t h
  unfold duplicate at h
  split at h <;> cases h
  rfl

theorem atomic_swap2 : Atomic swap2 := by
  intro s e t h
  unfold swap2 at h
  split at h <;> cases h
  rfl

theorem atomic_swap3 : Atomic swap3 := by
  intro s e t h
  unfold swap3 at h
  split at h <;> cases h
  rfl

theorem atomic_toggleRegister : Atomic toggleRegister := by
  intro s e t h
  unfold toggleRegister at h
  split at h <;> cases h
  rfl

theorem atomic_peek (depth : Nat) : Atomic (peek depth) := by
  intro s e t h
  unfold peek at h
  split at h <;> cases h
  rfl

/-- A value that can be looked at has its place below the top within the stack. -/
theorem peek_ok {depth : Nat} {s t : Stack} {v : Value} (h : peek depth s = .ok v t) :
    depth < s.size ∧ t = s := by
  unfold peek at h
  split at h <;> cases h
  rename_i hvalue
  exact ⟨(List.getElem?_eq_some_iff.mp hvalue).1, rfl⟩

theorem looking_peek (depth : Nat) : Looking (peek depth) :=
  fun _ _ _ h => (peek_ok h).2

theorem total_push (v : Value) : Total (push v) :=
  fun s => ⟨(), { s with values := v :: s.values }, rfl⟩

theorem total_pushSize : Total pushSize :=
  fun s => total_push (.ofNat s.size) s

theorem total_reverse : Total reverse :=
  fun s => ⟨(), { s with values := s.values.reverse }, rfl⟩

theorem total_shiftRight : Total shiftRight := by
  intro s
  unfold shiftRight
  split <;> exact ⟨_, _, rfl⟩

theorem total_shiftLeft : Total shiftLeft := by
  intro s
  unfold shiftLeft
  split <;> exact ⟨_, _, rfl⟩

theorem atomic_discard : Atomic discard :=
  atomic_pop.bind_total fun _ => total_pure ()

/-- The operands are looked at before the result is asked for, and taken only then. -/
theorem atomic_combine (f : Value → Value → Except Fault Value) : Atomic (combine f) := by
  refine atomic_peek2.bind_looking looking_peek2 fun operands => ?_
  dsimp only
  split
  · exact atomic_throw _
  · exact atomic_pop2.bind_total fun _ => total_push _

theorem atomic_takePlace : Atomic takePlace := by
  refine atomic_peek2.bind_looking looking_peek2 fun operands => ?_
  dsimp only
  split
  · exact atomic_throw _
  · exact atomic_throw _
  · exact atomic_pop2.bind_total fun _ => total_pure _

theorem atomic_takeChar : Atomic takeChar := by
  refine (atomic_peek 0).bind_looking (looking_peek 0) fun v => ?_
  split
  · exact atomic_throw _
  · exact atomic_pop.bind_total fun _ => total_pure _

theorem atomic_takeCount : Atomic takeCount := by
  refine (atomic_peek 0).bind_looking (looking_peek 0) fun v => ?_
  split
  · exact atomic_throw _
  · refine (atomic_peek _).bind_looking (looking_peek _) fun _ => ?_
    exact atomic_pop.bind_total fun _ => total_pure _

theorem size_of_pop {s t : Stack} {v : Value} (h : pop s = .ok v t) : t.size + 1 = s.size := by
  unfold pop at h
  split at h <;> cases h
  rename_i hvalues
  simp only [size, hvalues, List.length_cons]

/-- A count that was taken is one of values that are there. -/
theorem le_size_of_takeCount {s t : Stack} {count : UInt64} (h : takeCount s = .ok count t) :
    count.toNat ≤ t.size := by
  obtain ⟨v, s₁, hpeek, h⟩ := ok_of_bind_ok h
  cases hcount : v.toCount? with
  | none =>
    rw [hcount] at h
    cases h
  | some n =>
    rw [hcount] at h
    obtain ⟨_, s₂, hbelow, h⟩ := ok_of_bind_ok h
    obtain ⟨_, s₃, hpop, h⟩ := ok_of_bind_ok h
    cases h
    obtain ⟨hlt, rfl⟩ := peek_ok hbelow
    have hsize := size_of_pop hpop
    omega

theorem split_of_le {n : Nat} {s : Stack} (h : n ≤ s.size) :
    Stack.split n s = .ok ⟨s.values.take n, none⟩ { s with values := s.values.drop n } := by
  rw [Stack.split, if_pos h]

end Stack

namespace Stacks

theorem onActive_atomic {α : Type} {op : StackOp α} (h : Atomic op) : Atomic (onActive op) := by
  intro s e t herror
  unfold onActive at herror
  split at herror
  · cases herror
  · rename_i hop
    cases herror
    rw [h _ _ _ hop]

theorem onActive_total {α : Type} {op : StackOp α} (h : Total op) : Total (onActive op) := by
  intro s
  obtain ⟨a, active, hop⟩ := h s.active
  exact ⟨a, { s with active := active }, by simp only [onActive, hop]⟩

theorem onActive_ok {α : Type} {op : StackOp α} {s t : Stacks} {a : α}
    (h : onActive op s = .ok a t) : op s.active = .ok a t.active := by
  unfold onActive at h
  split at h
  · rename_i hop
    cases h
    exact hop
  · cases h

theorem atomic_closeStack : Atomic closeStack := by
  intro s e t h
  unfold closeStack at h
  split at h
  · split at h <;> cases h
    rfl
  · cases h
    rfl

/-- The count is taken only if there are as many values below it, so that opening a stack
with them cannot fail afterwards. -/
theorem atomic_openCounted : Atomic openCounted := by
  refine (onActive_atomic Stack.atomic_takeCount).bind_succeeds fun s count t h => ?_
  have hle := Stack.le_size_of_takeCount (onActive_ok h)
  exact ⟨(), _, by simp only [openStack, Stack.split_of_le hle]; rfl⟩

end Stacks

theorem StackInstruction.atomic_perform (instruction : StackInstruction) :
    Atomic instruction.perform := by
  cases instruction with
  | push digit => exact (Stacks.onActive_total (Stack.total_push _)).atomic
  | combine op => exact Stacks.onActive_atomic (Stack.atomic_combine _)
  | duplicate => exact Stacks.onActive_atomic Stack.atomic_duplicate
  | discard => exact Stacks.onActive_atomic Stack.atomic_discard
  | swap2 => exact Stacks.onActive_atomic Stack.atomic_swap2
  | swap3 => exact Stacks.onActive_atomic Stack.atomic_swap3
  | shiftRight => exact (Stacks.onActive_total Stack.total_shiftRight).atomic
  | shiftLeft => exact (Stacks.onActive_total Stack.total_shiftLeft).atomic
  | reverse => exact (Stacks.onActive_total Stack.total_reverse).atomic
  | size => exact (Stacks.onActive_total Stack.total_pushSize).atomic
  | toggleRegister => exact Stacks.onActive_atomic Stack.atomic_toggleRegister
  | openStack => exact Stacks.atomic_openCounted
  | closeStack => exact Stacks.atomic_closeStack

namespace State

theorem onStacks_atomic {α : Type} {op : StacksOp α} (h : Atomic op) : Atomic (onStacks op) := by
  intro s i t herror
  unfold onStacks at herror
  split at herror
  · cases herror
  · rename_i hop
    cases herror
    rw [h _ _ _ hop]

theorem onStacks_total {α : Type} {op : StacksOp α} (h : Total op) : Total (onStacks op) := by
  intro s
  obtain ⟨a, memory, hop⟩ := h s.memory
  exact ⟨a, { s with memory := memory }, by simp only [onStacks, hop]⟩

theorem onStack_atomic {α : Type} {op : StackOp α} (h : Atomic op) : Atomic (onStack op) :=
  onStacks_atomic (Stacks.onActive_atomic h)

theorem onStack_total {α : Type} {op : StackOp α} (h : Total op) : Total (onStack op) :=
  onStacks_total (Stacks.onActive_total h)

theorem atomic_receive : Atomic receive := by
  intro s i t h
  unfold receive at h
  split at h
  · cases h
  · cases h
  · rename_i hreceive
    cases h
    unfold Channel.receive at hreceive
    split at hreceive
    · cases hreceive
    · split at hreceive <;> cases hreceive
      rfl

theorem total_movePointer (f : Pointer → Pointer) : Total (movePointer f) := total_modify _

theorem total_write (text : String) : Total (write text) := total_modify _

theorem atomic_perform (box : Codebox) (instruction : Instruction) :
    Atomic (perform box instruction) := by
  cases instruction with
  | stack instruction =>
    exact (onStacks_atomic instruction.atomic_perform).bind_total fun _ => total_pure _
  | turn d => exact ((total_movePointer _).bind fun _ => total_pure _).atomic
  | turnRandomly => exact ((total_modify _).bind fun _ => total_pure _).atomic
  | reflect m => exact ((total_movePointer _).bind fun _ => total_pure _).atomic
  | skip => exact (total_pure _).atomic
  | skipIfZero => exact (onStack_atomic Stack.atomic_pop).bind_total fun _ => total_pure _
  | jump =>
    refine (onStack_atomic Stack.atomic_takePlace).bind_total fun place => ?_
    exact (total_movePointer _).bind fun _ => total_pure _
  | quote q => exact ((total_modify _).bind fun _ => total_pure _).atomic
  | writeNumber =>
    refine (onStack_atomic Stack.atomic_pop).bind_total fun v => ?_
    exact (total_write _).bind fun _ => total_pure _
  | writeChar =>
    refine (onStack_atomic Stack.atomic_takeChar).bind_total fun c => ?_
    exact (total_write _).bind fun _ => total_pure _
  | readChar =>
    refine atomic_receive.bind_total fun v => ?_
    exact (onStack_total (Stack.total_push _)).bind fun _ => total_pure _
  | fetch =>
    refine (onStack_atomic Stack.atomic_takePlace).bind_total fun place => ?_
    exact (onStack_total (Stack.total_push _)).bind fun _ => total_pure _
  | halt => exact (total_pure _).atomic
  | blank => exact (total_pure _).atomic

theorem atomic_execute (box : Codebox) (c : Char) : Atomic (execute box c) := by
  intro s i t h
  unfold execute at h
  split at h
  · unfold readQuoted at h
    split at h
    · cases h
    · refine Total.atomic ?_ s i t h
      exact (onStack_total (Stack.total_push _)).bind fun _ => total_pure _
  · split at h
    · exact atomic_perform box _ s i t h
    · cases h
      rfl

end State

namespace Program

/-- The instruction that comes next, done in the state of the program. -/
def attempt (p : Program) : EStateM.Result Interrupt State Flow :=
  State.execute p.codebox (p.state.current p.codebox) p.state

/-- What a program makes of an attempt: the step, and the program after it. -/
def conclude (p : Program) : EStateM.Result Interrupt State Flow → Step × Program
  | .ok .halt s =>
    (.halted, { p with state := s, steps := p.steps + 1, termination := some .halted })
  | .ok flow s => (.progressed, { p with state := s.follow p.codebox flow, steps := p.steps + 1 })
  | .error .blocked s => (.blocked, { p with state := s })
  | .error (.fatal fault) s =>
    (.failed fault,
      { p with state := s, steps := p.steps + 1, termination := some (.failed fault) })

theorem advance_of_running {p : Program} (h : p.termination = none) :
    p.advance = p.conclude p.attempt := by
  unfold advance
  split
  · rename_i hended
    rw [h] at hended
    cases hended
  · unfold attempt conclude
    rfl

theorem advance_of_ended {p : Program} {termination : Termination}
    (h : p.termination = some termination) : p.advance = (termination.step, p) := by
  simp only [advance, h]

/-- All that advancing can come to: the step, and the program after it. -/
inductive Cycle (p : Program) : Step → Program → Prop
  | ended {termination : Termination} {step : Step} (h : p.termination = some termination)
      (hstep : termination.step = step) : Cycle p step p
  | waiting (h : p.termination = none) (hattempt : p.attempt = .error .blocked p.state) :
      Cycle p .blocked p
  | failing {fault : Fault} (h : p.termination = none)
      (hattempt : p.attempt = .error (.fatal fault) p.state) :
      Cycle p (.failed fault)
        { p with steps := p.steps + 1, termination := some (.failed fault) }
  | halting {s : State} (h : p.termination = none) (hattempt : p.attempt = .ok .halt s) :
      Cycle p .halted
        { p with state := s, steps := p.steps + 1, termination := some .halted }
  | going {flow : Flow} {s : State} (h : p.termination = none)
      (hattempt : p.attempt = .ok flow s) (hflow : flow ≠ .halt) :
      Cycle p .progressed { p with state := s.follow p.codebox flow, steps := p.steps + 1 }

theorem attempt_error {p : Program} {i : Interrupt} {s : State} (h : p.attempt = .error i s) :
    s = p.state :=
  State.atomic_execute p.codebox _ p.state i s h

theorem cycle_advance (p : Program) : Cycle p p.advance.1 p.advance.2 := by
  cases h : p.termination with
  | some termination =>
    rw [advance_of_ended h]
    exact .ended h rfl
  | none =>
    rw [advance_of_running h]
    cases hattempt : p.attempt with
    | error i s =>
      have hs : s = p.state := attempt_error hattempt
      subst hs
      cases i with
      | blocked => exact .waiting h hattempt
      | fatal fault => exact .failing h hattempt
    | ok flow s =>
      cases flow with
      | halt => exact .halting h hattempt
      | next => exact .going h hattempt (by decide)
      | skip => exact .going h hattempt (by decide)
      | jumped => exact .going h hattempt (by decide)

theorem cycle_of_advance {p q : Program} {step : Step} (h : p.advance = (step, q)) :
    Cycle p step q := by
  have hcycle := p.cycle_advance
  rw [h] at hcycle
  exact hcycle

theorem eq_of_advance_blocked {p q : Program} (h : p.advance = (.blocked, q)) : q = p := by
  cases cycle_of_advance h with
  | @ended termination _ _ hstep => cases termination <;> cases hstep
  | waiting _ _ => rfl

theorem eq_of_advance_failed {p q : Program} {fault : Fault} (hrunning : p.termination = none)
    (h : p.advance = (.failed fault, q)) :
    q = { p with steps := p.steps + 1, termination := some (.failed fault) } := by
  cases cycle_of_advance h with
  | ended hended _ =>
    rw [hrunning] at hended
    cases hended
  | failing _ _ => rfl

end Program

/-- An instruction that is interrupted changes nothing. A program that waits is what it was,
and one that meets a fault has only counted the step and taken note of the fault. -/
theorem interrupted_unchanged :
    (∀ (box : Codebox) (c : Char) (s t : State) (i : Interrupt),
      State.execute box c s = .error i t → t = s) ∧
    (∀ p q : Program, p.advance = (.blocked, q) → q = p) ∧
    (∀ (p q : Program) (fault : Fault), p.termination = none →
      p.advance = (.failed fault, q) →
      q = { p with steps := p.steps + 1, termination := some (.failed fault) }) := by
  refine ⟨?_, ?_, ?_⟩
  · intro box c s t i h
    exact State.atomic_execute box c s i t h
  · intro p q h
    exact Program.eq_of_advance_blocked h
  · intro p q fault hrunning h
    exact Program.eq_of_advance_failed hrunning h

/-- A count of three above a single value, which is looked at before the opening fails, and
a program that has nothing to read. -/
theorem interrupted_unchanged_openStack :
    let p := (Program.load "43[" [] 0).advance.2.advance.2
    let q := Program.load "i;" [.int 7] 0
    (p.advance.1 = .failed (.stackUnderflow 4 2) ∧ p.advance.2.state = p.state ∧
      p.state.memory.active.toList = [.int 4, .int 3]) ∧
    (q.advance.1 = .blocked ∧ q.advance.2 = q) := by
  intro p q
  obtain ⟨-, hblocked, hfailed⟩ := interrupted_unchanged
  have hp : p.advance.1 = .failed (.stackUnderflow 4 2) := by decide
  have hq : q.advance.1 = .blocked := by decide
  refine ⟨⟨hp, ?_, by decide⟩, hq, hblocked q q.advance.2 (Prod.ext hq rfl)⟩
  rw [hfailed p p.advance.2 _ (by decide) (Prod.ext hp rfl)]

end Fish
