import Fish.Channel
import Fish.Instruction
import Fish.Pointer
import Fish.Random
import Fish.Stacks

/-!
The state of a running program, and what each instruction does to it. Between quotation
marks characters are pushed as they are; elsewhere they are instructions. An instruction
changes the pointer only by turning it or by a jump, and otherwise tells how to move on. One
that cannot be done leaves the state as it was.
-/

namespace Fish

/-- What an instruction on stacks does. -/
def StackInstruction.perform : StackInstruction → StacksOp Unit
  | .push digit => Stacks.onActive (Stack.push (.ofNat digit))
  | .combine op => Stacks.onActive (Stack.combine op.apply)
  | .duplicate => Stacks.onActive Stack.duplicate
  | .discard => Stacks.onActive Stack.discard
  | .swap2 => Stacks.onActive Stack.swap2
  | .swap3 => Stacks.onActive Stack.swap3
  | .shiftRight => Stacks.onActive Stack.shiftRight
  | .shiftLeft => Stacks.onActive Stack.shiftLeft
  | .reverse => Stacks.onActive Stack.reverse
  | .size => Stacks.onActive Stack.pushSize
  | .toggleRegister => Stacks.onActive Stack.toggleRegister
  | .openStack => Stacks.openCounted
  | .closeStack => Stacks.closeStack

/-- How the pointer goes on after an instruction. -/
inductive Flow
  | next
  | skip
  | jumped
  | halt
  deriving DecidableEq, Repr

/-- Why an instruction was not done: it waits for input, or it is at fault. -/
inductive Interrupt
  | blocked
  | fatal (fault : Fault)
  deriving DecidableEq

/-- What a cell counts as when it is fetched: zero where none was written. -/
def Codebox.fetch (box : Codebox) (x y : Int) : Value :=
  match box.storedAt? x y with
  | some c => .ofChar c
  | none => .int 0

structure State where
  pointer : Pointer := {}
  memory : Stacks := {}
  channel : Channel := {}
  /-- The mark that opened the text being pushed, if one is. -/
  quote : Option Quote := none
  random : Random
  deriving DecidableEq

/-- An effect on the state of a program, which may be interrupted. -/
abbrev Effect := EStateM Interrupt State

namespace State

/-- The state before the first instruction, with values listed bottom first. -/
def initial (values : List Value) (random : Random) : State :=
  { memory := { active := .ofList values }, random := random }

/-- An operation on the stack of stacks, as an effect. -/
def onStacks {α : Type} (op : StacksOp α) : Effect α := fun s =>
  match op s.memory with
  | .ok a memory => .ok a { s with memory := memory }
  | .error e memory => .error (.fatal e) { s with memory := memory }

/-- An operation on the active stack, as an effect. -/
def onStack {α : Type} (op : StackOp α) : Effect α := onStacks (Stacks.onActive op)

def movePointer (f : Pointer → Pointer) : Effect Unit :=
  modify fun s => { s with pointer := f s.pointer }

/-- Turns to a direction that the generator draws. -/
def turnRandomly : Effect Unit :=
  modify fun s =>
    let (i, random) := s.random.quarter
    { s with pointer := s.pointer.turn (.ofIndex i), random := random }

def write (text : String) : Effect Unit :=
  modify fun s => { s with channel := s.channel.emit text }

/-- The next character of input; at the end of input, minus one. -/
def receive : Effect Value := fun s =>
  match s.channel.receive with
  | .ok (.char c) channel => .ok (.ofChar c) { s with channel := channel }
  | .ok .endOfInput channel => .ok (.int (-1)) { s with channel := channel }
  | .error _ channel => .error .blocked { s with channel := channel }

/-- Does an instruction. What can fail comes first, so that nothing has changed when it
does. -/
def perform (box : Codebox) : Instruction → Effect Flow
  | .stack instruction => do
    onStacks instruction.perform
    return .next
  | .turn d => do
    movePointer (.turn d)
    return .next
  | .turnRandomly => do
    turnRandomly
    return .next
  | .reflect m => do
    movePointer (.reflect m)
    return .next
  | .skip => return .skip
  | .skipIfZero => do
    let v ← onStack Stack.pop
    return if v.isZero then .skip else .next
  | .jump => do
    let (x, y) ← onStack Stack.takePlace
    movePointer (.jump box x.toInt y.toInt)
    return .jumped
  | .quote q => do
    modify fun s => { s with quote := some q }
    return .next
  | .writeNumber => do
    let v ← onStack Stack.pop
    write v.text
    return .next
  | .writeChar => do
    let c ← onStack Stack.takeChar
    write (String.singleton c)
    return .next
  | .readChar => do
    let v ← receive
    onStack (Stack.push v)
    return .next
  | .fetch => do
    let (x, y) ← onStack Stack.takePlace
    onStack (Stack.push (box.fetch x.toInt y.toInt))
    return .next
  | .halt => return .halt
  | .blank => return .next

/-- Between quotation marks: pushes the character, unless it is the mark that ends this. -/
def readQuoted (q : Quote) (c : Char) : Effect Flow := fun s =>
  if c = q.char then .ok .next { s with quote := none }
  else (do onStack (Stack.push (.ofChar c)); return .next : Effect Flow) s

/-- Does what the character `c` asks for. -/
def execute (box : Codebox) (c : Char) : Effect Flow := fun s =>
  match s.quote with
  | some q => readQuoted q c s
  | none =>
    match Instruction.ofChar? c with
    | some instruction => perform box instruction s
    | none => .error (.fatal (.invalidInstruction c)) s

/-- Moves the pointer as the flow asks. -/
def follow (box : Codebox) (flow : Flow) (s : State) : State :=
  match flow with
  | .next => { s with pointer := s.pointer.moveOn box }
  | .skip => { s with pointer := (s.pointer.moveOn box).moveOn box }
  | .jumped => s
  | .halt => s

/-- The character under the pointer. -/
def current (box : Codebox) (s : State) : Char := box.charAt s.pointer.x s.pointer.y

end State

end Fish
