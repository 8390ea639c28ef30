import Fish.Program
import Fish.Proofs.Operations

/-!
What instructions keep. Apart from what they do to the stack of stacks, instructions change a
state in a few ways only: they work on the active stack, turn the pointer or let it jump, draw
from the generator, use the channel, or meet a quotation mark. What all of these keep, every
instruction keeps that works on nothing else.
-/

namespace Fish.State

/-- Each way in which an instruction changes a state, apart from the stack of stacks, keeps `P`. -/
structure Kept (box : Codebox) (P : State → Prop) : Prop where
  active : ∀ s active, P s → P { s with memory := { s.memory with active := active } }
  turn : ∀ s d, P s → P { s with pointer := s.pointer.turn d }
  jump : ∀ s x y, P s → P { s with pointer := s.pointer.jump box x y }
  random : ∀ s random, P s → P { s with random := random }
  channel : ∀ s channel, P s → P { s with channel := channel }
  quote : ∀ s quote, P s → P { s with quote := quote }

namespace Kept

variable {box : Codebox} {P : State → Prop}

theorem keeps_onStack {α : Type} (h : Kept box P) (op : StackOp α) : Keeps P (onStack op) := by
  intro s a t hok hs
  unfold onStack onStacks Stacks.onActive at hok
  split at hok
  · rename_i hop
    split at hop <;> cases hop
    cases hok
    exact h.active s _ hs
  · cases hok

theorem keeps_turn (h : Kept box P) (d : Pointer → Direction) :
    Keeps P (movePointer fun p => p.turn (d p)) :=
  keeps_modify fun s hs => h.turn s (d s.pointer) hs

theorem keeps_jump (h : Kept box P) (x y : Int) : Keeps P (movePointer (.jump box x y)) :=
  keeps_modify fun s hs => h.jump s x y hs

theorem keeps_turnRandomly (h : Kept box P) : Keeps P turnRandomly :=
  keeps_modify fun s hs => h.random _ _ (h.turn s _ hs)

theorem keeps_write (h : Kept box P) (text : String) : Keeps P (write text) :=
  keeps_modify fun s hs => h.channel s _ hs

theorem keeps_receive (h : Kept box P) : Keeps P receive := by
  intro s v t hok hs
  unfold receive at hok
  split at hok <;> cases hok
  · exact h.channel s _ hs
  · exact h.channel s _ hs

theorem keeps_quote (h : Kept box P) (quote : Option Quote) :
    Keeps P (modify fun s => { s with quote := quote } : Effect PUnit) :=
  keeps_modify fun s hs => h.quote s quote hs

theorem keeps_perform (h : Kept box P) {instruction : Instruction}
    (hstacks : ∀ i, instruction = .stack i → Keeps P (onStacks i.perform)) :
    Keeps P (perform box instruction) := by
  cases instruction with
  | stack instruction => exact (hstacks instruction rfl).bind fun _ => keeps_pure _
  | turn d => exact (h.keeps_turn fun _ => d).bind fun _ => keeps_pure _
  | turnRandomly => exact h.keeps_turnRandomly.bind fun _ => keeps_pure _
  | reflect m => exact (h.keeps_turn fun p => p.direction.reflect m).bind fun _ => keeps_pure _
  | skip => exact keeps_pure _
  | skipIfZero => exact (h.keeps_onStack _).bind fun _ => keeps_pure _
  | jump =>
    refine (h.keeps_onStack _).bind fun place => ?_
    exact (h.keeps_jump _ _).bind fun _ => keeps_pure _
  | quote q => exact (h.keeps_quote (some q)).bind fun _ => keeps_pure _
  | writeNumber =>
    refine (h.keeps_onStack _).bind fun v => ?_
    exact (h.keeps_write _).bind fun _ => keeps_pure _
  | writeChar =>
    refine (h.keeps_onStack _).bind fun c => ?_
    exact (h.keeps_write _).bind fun _ => keeps_pure _
  | readChar =>
    refine h.keeps_receive.bind fun v => ?_
    exact (h.keeps_onStack _).bind fun _ => keeps_pure _
  | fetch =>
    refine (h.keeps_onStack _).bind fun place => ?_
    exact (h.keeps_onStack _).bind fun _ => keeps_pure _
  | halt => exact keeps_pure _
  | blank => exact keeps_pure _

theorem keeps_readQuoted (h : Kept box P) (q : Quote) (c : Char) : Keeps P (readQuoted q c) := by
  intro s flow t hok hs
  unfold readQuoted at hok
  split at hok
  · cases hok
    exact h.quote s none hs
  · exact ((h.keeps_onStack _).bind fun _ => keeps_pure _) s flow t hok hs

theorem keeps_execute (h : Kept box P)
    (hstacks : ∀ i : StackInstruction, Keeps P (onStacks i.perform)) (c : Char) :
    Keeps P (execute box c) := by
  intro s flow t hok hs
  unfold execute at hok
  split at hok
  · exact h.keeps_readQuoted _ _ s flow t hok hs
  · split at hok
    · exact h.keeps_perform (fun i _ => hstacks i) s flow t hok hs
    · cases hok

end Kept

end Fish.State
