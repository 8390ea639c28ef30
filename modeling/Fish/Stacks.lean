import Fish.Stack

/-!
The stack of stacks. There is always an active stack, on which all other operations work,
and beneath it lie those that were suspended when it was opened.
-/

namespace Fish

structure Stacks where
  active : Stack := {}
  /-- The suspended stacks, the one opened last first. -/
  suspended : List Stack := []
  deriving DecidableEq, Inhabited

/-- An operation on the stack of stacks. -/
abbrev StacksOp := EStateM Fault Stacks

namespace Stacks

def depth (s : Stacks) : Nat := s.suspended.length + 1

/-- An operation on a stack, done on the active one. -/
def onActive {α : Type} (op : StackOp α) : StacksOp α := fun s =>
  match op s.active with
  | .ok a active => .ok a { s with active := active }
  | .error e active => .error e { s with active := active }

/-- Opens a stack with the `n` topmost values of the active one, which is suspended. -/
def openStack (n : Nat) : StacksOp Unit := fun s =>
  match Stack.split n s.active with
  | .ok opened rest => .ok () ⟨opened, rest :: s.suspended⟩
  | .error e active => .error e { s with active := active }

/-- Closes the active stack; its values go on top of the stack beneath, which is active
again. -/
def closeStack : StacksOp Unit := fun s =>
  match s.suspended with
  | below :: rest =>
    match Stack.absorb s.active below with
    | .ok () active => .ok () ⟨active, rest⟩
    | .error e _ => .error e s
  | [] => .error .noEnclosingStack s

/-- Opens a stack with as many values as the top value says, which is taken. -/
def openCounted : StacksOp Unit := do
  let count ← onActive Stack.takeCount
  openStack count.toNat

end Stacks

end Fish
