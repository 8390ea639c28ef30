import Mathlib.Algebra.Group.Int.Defs
import Mathlib.Algebra.Group.Nat.Defs
import Fish.Proofs.Calls

/-!
The machine with its ranges checked. Sizes and indices are words of 64 bits, coordinates signed
ones; a stack is a row of values that are found by their index, bottom first, and so is the row
of stacks, of which the last is active. A sum, a difference, a quotient, an index or a cut that
is out of range ends the operation with a stop of its own. Whatever cannot be out of range is
taken from the machine itself.
-/

namespace Fish.Checked

variable {α β ε σ : Type}

/-- Why an operation stops: something is out of range, or the operation fails as it should. -/
inductive Stop (ε : Type)
  | outOfRange
  | raised (e : ε)

/-- An operation of the machine in which nothing can be out of range. -/
def lift (op : EStateM ε σ α) : EStateM (Stop ε) σ α := fun s =>
  match op s with
  | .ok a t => .ok a t
  | .error e t => .error (.raised e) t

def inRange : Option α → EStateM (Stop ε) σ α
  | some a => pure a
  | none => throw .outOfRange

section Words

/-- The sum of two sizes. -/
def sum? (m n : Nat) : Option Nat := if m + n < UInt64.size then some (m + n) else none

/-- The difference of two sizes. -/
def difference? (m n : Nat) : Option Nat := if n ≤ m then some (m - n) else none

/-- A row cut in two before the index `i`. -/
def cut? (i : Nat) (row : List α) : Option (List α × List α) :=
  if i ≤ row.length then some (row.take i, row.drop i) else none

/-- A row whose last `k` places go first. -/
def rotateRight? (k : Nat) (row : List α) : Option (List α) :=
  (difference? row.length k).map fun i => row.drop i ++ row.take i

/-- The sum of two signed words. -/
def add? (m n : Int64) : Option Int64 :=
  if -2 ^ 63 ≤ m.toInt + n.toInt ∧ m.toInt + n.toInt < 2 ^ 63 then some (m + n) else none

/-- A signed word can be divided by another: this one is not zero, and the quotient is a word,
which that of the least word and minus one is not. -/
def Divisible (m n : Int64) : Prop := n ≠ 0 ∧ ¬(m = Int64.minValue ∧ n = -1)

instance (m n : Int64) : Decidable (Divisible m n) := inferInstanceAs (Decidable (_ ∧ _))

def div? (m n : Int64) : Option Int64 := if Divisible m n then some (m / n) else none

/-- What the division toward zero leaves. -/
def rem? (m n : Int64) : Option Int64 := if Divisible m n then some (m % n) else none

/-- The remainder that is never negative. -/
def remEuclid? (m n : Int64) : Option Int64 :=
  if Divisible m n then some (.ofInt (m.toInt % n.toInt)) else none

/-- A signed word as the result of an operation on values. -/
def computed : Option Int64 → Except (Stop Fault) Value
  | some n => .ok (.int n)
  | none => .error .outOfRange

end Words

/-- The quotient of whole numbers is taken only where the division leaves nothing. -/
def quotient (a b : Value) : Except (Stop Fault) Value :=
  if b.isZero then .error (.raised .divisionByZero)
  else match a, b with
    | .int m, .int n =>
      if rem? m n = some 0 then computed (div? m n) else .ok (.float (a.toFloat / b.toFloat))
    | _, _ => .ok (.float (a.toFloat / b.toFloat))

/-- What the division of whole numbers leaves is moved to the sign of the divisor by a sum. -/
def remainder (a b : Value) : Except (Stop Fault) Value :=
  if b.isZero then .error (.raised .divisionByZero)
  else match a, b with
    | .int m, .int n =>
      match rem? m n with
      | some r =>
        if r ≠ 0 ∧ decide (r < 0) ≠ decide (n < 0) then computed (add? r n) else .ok (.int r)
      | none => .ok (.int 0)
    | _, _ =>
      .ok (.float (Value.flooredFloat (Binary64.remainderFloat a.toFloat b.toFloat) b.toFloat))

def apply : Operator → Value → Value → Except (Stop Fault) Value
  | .div, y, x => quotient y x
  | .rem, y, x => remainder y x
  | op, y, x => (op.apply y x).mapError .raised

/-- An operation on a stack. -/
abbrev StackOp := EStateM (Stop Fault) Stack

namespace Stack

/-- Fails if there are fewer values than needed. -/
def require (needed : Nat) : StackOp Unit := fun s =>
  if s.size < needed then lift (Stack.underflow needed) s else .ok () s

/-- Puts a row of values, bottom first, in the place of those of the stack. -/
def replace (row : List Value) : StackOp Unit := fun s =>
  .ok () { s with values := row.reverse }

/-- The value `depth` places below the top. -/
def peek (depth : UInt64) : StackOp Value := do
  require (← inRange (sum? depth.toNat 1))
  let s ← get
  let last ← inRange (difference? s.size 1)
  let i ← inRange (difference? last depth.toNat)
  inRange s.toList[i]?

def peek2 : StackOp (Value × Value) := do
  require 2
  let below ← peek 1
  let top ← peek 0
  return (below, top)

def duplicate : StackOp Unit := do
  let top ← peek 0
  lift (Stack.push top)

def swap2 : StackOp Unit := do
  require 2
  let s ← get
  let i ← inRange (difference? s.size 1)
  let j ← inRange (difference? s.size 2)
  let top ← inRange s.toList[i]?
  let below ← inRange s.toList[j]?
  replace ((s.toList.set i below).set j top)

def swap3 : StackOp Unit := do
  require 3
  let s ← get
  let (kept, upper) ← inRange ((difference? s.size 3).bind (cut? · s.toList))
  let rotated ← inRange (rotateRight? 1 upper)
  replace (kept ++ rotated)

/-- Splits off the `n` topmost values. -/
def split (n : Nat) : StackOp Stack := do
  require n
  let s ← get
  let (kept, upper) ← inRange ((difference? s.size n).bind (cut? · s.toList))
  replace kept
  return .ofList upper

def combine (f : Value → Value → Except (Stop Fault) Value) : StackOp Unit := do
  let (below, top) ← peek2
  match f below top with
  | .error e => throw e
  | .ok result =>
    let _ ← lift Stack.pop2
    lift (Stack.push result)

def takePlace : StackOp (Int64 × Int64) := do
  let (below, top) ← peek2
  match below.coordinate, top.coordinate with
  | .error e, _ => throw (.raised e)
  | .ok _, .error e => throw (.raised e)
  | .ok x, .ok y =>
    let _ ← lift Stack.pop2
    return (x, y)

def takeChar : StackOp Char := do
  let v ← peek 0
  match v.toChar? with
  | none => throw (.raised (.invalidCharacter v))
  | some c =>
    let _ ← lift Stack.pop
    return c

def takeCount : StackOp UInt64 := do
  let v ← peek 0
  match v.toCount? with
  | none => throw (.raised (.invalidCount v))
  | some count =>
    let _ ← peek count
    let _ ← lift Stack.pop
    return count

end Stack

/-- An operation on the row of stacks. -/
abbrev StacksOp := EStateM (Stop Fault) (List Stack)

namespace Stacks

/-- An operation on a stack, done on the active one, which is the last of the row. -/
def onActive (op : StackOp α) : StacksOp α := fun levels =>
  match difference? levels.length 1 with
  | none => .error .outOfRange levels
  | some last =>
    match levels[last]? with
    | none => .error .outOfRange levels
    | some active =>
      match op active with
      | .ok a active => .ok a (levels.set last active)
      | .error e active => .error e (levels.set last active)

def openStack (n : Nat) : StacksOp Unit := do
  let opened ← onActive (Stack.split n)
  modify (· ++ [opened])

def closeStack : StacksOp Unit := fun levels =>
  if levels.length < 2 then .error (.raised .noEnclosingStack) levels
  else match levels.getLast? with
    | some closed => onActive (lift (Stack.absorb closed)) levels.dropLast
    | none => .ok () levels

def openCounted : StacksOp Unit := do
  let count ← onActive Stack.takeCount
  openStack count.toNat

def perform : StackInstruction → StacksOp Unit
  | .push digit => onActive (lift (Stack.push (.ofNat digit)))
  | .combine op => onActive (Stack.combine (apply op))
  | .duplicate => onActive Stack.duplicate
  | .discard => onActive (lift Stack.discard)
  | .swap2 => onActive Stack.swap2
  | .swap3 => onActive Stack.swap3
  | .shiftRight => onActive (lift Stack.shiftRight)
  | .shiftLeft => onActive (lift Stack.shiftLeft)
  | .reverse => onActive (lift Stack.reverse)
  | .size => onActive (lift Stack.pushSize)
  | .toggleRegister => onActive (lift Stack.toggleRegister)
  | .openStack => openCounted
  | .closeStack => closeStack

end Stacks

namespace Pointer

/-- A coordinate walked around an axis with `extent` cells. -/
def wrap? (extent : Nat) (place : Int64) : Option Nat :=
  (remEuclid? place (.ofNat extent)).map fun r => r.toUInt64.toNat

def jump? (box : Codebox) (x y : Int64) (p : Pointer) : Option Pointer := do
  let x ← wrap? box.width x
  let y ← wrap? box.height y
  return { p with x := x, y := y }

def moveOn? (box : Codebox) (p : Pointer) : Option Pointer := do
  let x ← add? (.ofNat p.x) (.ofInt p.direction.dx)
  let y ← add? (.ofNat p.y) (.ofInt p.direction.dy)
  jump? box x y p

end Pointer

structure State where
  pointer : Pointer
  /-- The stacks, the bottom one first. Nothing says that there is one. -/
  levels : List Stack
  channel : Channel
  quote : Option Quote
  random : Random

abbrev Effect := EStateM (Stop Interrupt) State

namespace State

def onStacks (op : StacksOp α) : Effect α := fun s =>
  match op s.levels with
  | .ok a levels => .ok a { s with levels := levels }
  | .error .outOfRange levels => .error .outOfRange { s with levels := levels }
  | .error (.raised e) levels => .error (.raised (.fatal e)) { s with levels := levels }

def onStack (op : StackOp α) : Effect α := onStacks (Stacks.onActive op)

def movePointer (f : Pointer → Option Pointer) : Effect Unit := do
  let s ← get
  let p ← inRange (f s.pointer)
  set { s with pointer := p }

/-- The directions that a random turn chooses from. -/
def directions : List Direction := [.up, .down, .left, .right]

def turnRandomly : Effect Unit := do
  let s ← get
  let d ← inRange directions[s.random.quarter.1.val]?
  set { s with pointer := s.pointer.turn d, random := s.random.quarter.2 }

def write (text : String) : Effect Unit :=
  modify fun s => { s with channel := s.channel.emit text }

def receive : Effect Value := fun s =>
  match s.channel.receive with
  | .ok (.char c) channel => .ok (.ofChar c) { s with channel := channel }
  | .ok .endOfInput channel => .ok (.int (-1)) { s with channel := channel }
  | .error _ channel => .error (.raised .blocked) { s with channel := channel }

def perform (box : Codebox) : Instruction → Effect Flow
  | .stack instruction => do
    onStacks (Stacks.perform instruction)
    return .next
  | .turn d => do
    movePointer fun p => some (p.turn d)
    return .next
  | .turnRandomly => do
    turnRandomly
    return .next
  | .reflect m => do
    movePointer fun p => some (p.reflect m)
    return .next
  | .skip => return .skip
  | .skipIfZero => do
    let v ← onStack (lift Stack.pop)
    return if v.isZero then .skip else .next
  | .jump => do
    let (x, y) ← onStack Stack.takePlace
    movePointer (Pointer.jump? box x y)
    return .jumped
  | .quote q => do
    modify fun s => { s with quote := some q }
    return .next
  | .writeNumber => do
    let v ← onStack (lift Stack.pop)
    write v.text
    return .next
  | .writeChar => do
    let c ← onStack Stack.takeChar
    write (String.singleton c)
    return .next
  | .readChar => do
    let v ← receive
    onStack (lift (Stack.push v))
    return .next
  | .fetch => do
    let (x, y) ← onStack Stack.takePlace
    onStack (lift (Stack.push (box.fetch x.toInt y.toInt)))
    return .next
  | .halt => return .halt
  | .blank => return .next

def readQuoted (q : Quote) (c : Char) : Effect Flow := fun s =>
  if c = q.char then .ok .next { s with quote := none }
  else (do onStack (lift (Stack.push (.ofChar c))); return .next : Effect Flow) s

def execute (box : Codebox) (c : Char) : Effect Flow := fun s =>
  match s.quote with
  | some q => readQuoted q c s
  | none =>
    match Instruction.ofChar? c with
    | some instruction => perform box instruction s
    | none => .error (.raised (.fatal (.invalidInstruction c))) s

def follow (box : Codebox) (flow : Flow) (s : State) : Option State :=
  match flow with
  | .next => (Pointer.moveOn? box s.pointer).map fun p => { s with pointer := p }
  | .skip =>
    ((Pointer.moveOn? box s.pointer).bind (Pointer.moveOn? box)).map fun p =>
      { s with pointer := p }
  | .jumped => some s
  | .halt => some s

end State

structure Program where
  codebox : Codebox
  state : State
  termination : Option Termination
  steps : Nat

namespace Program

def load (source : String) (values : List Value) (seed : UInt64) : Program where
  codebox := .ofSource source
  state :=
    { pointer := {}, levels := [.ofList values], channel := {}, quote := none,
      random := .ofSeed seed }
  termination := none
  steps := 0

/-- The instruction under the pointer, done in the state of the program. -/
def attempt (p : Program) : EStateM.Result (Stop Interrupt) State Flow :=
  State.execute p.codebox (p.codebox.charAt p.state.pointer.x p.state.pointer.y) p.state

/-- What a program makes of an attempt, if neither that nor moving on is out of range. -/
def conclude (p : Program) : EStateM.Result (Stop Interrupt) State Flow → Option (Step × Program)
  | .ok .halt s =>
    some (.halted, { p with state := s, steps := p.steps + 1, termination := some .halted })
  | .ok flow s =>
    (s.follow p.codebox flow).map fun t =>
      (.progressed, { p with state := t, steps := p.steps + 1 })
  | .error .outOfRange _ => none
  | .error (.raised .blocked) s => some (.blocked, { p with state := s })
  | .error (.raised (.fatal fault)) s =>
    some (.failed fault,
      { p with state := s, steps := p.steps + 1, termination := some (.failed fault) })

/-- Does the instruction under the pointer and moves on; `none` if something is out of range. -/
def advance (p : Program) : Option (Step × Program) :=
  match p.termination with
  | some termination => some (termination.step, p)
  | none => p.conclude p.attempt

/-- Does what a call asks for. Those to the channel alone are answered as by the machine. -/
def respond (call : Call) (p : Program) : Option (Answer × Program) :=
  match call with
  | .advance => p.advance.map fun (step, q) => (.step step, q)
  | call => (p.state.channel.respond? call).map fun (answer, ch) =>
    (answer, { p with state := { p.state with channel := ch } })

def replay : List Call → Program → Option (List Answer × Program)
  | [], p => some ([], p)
  | call :: calls, p => do
    let (answer, q) ← p.respond call
    let (answers, r) ← q.replay calls
    return (answer :: answers, r)

end Program

end Fish.Checked
