import Fish.Fault

/-!
A stack with its register. Values are kept top first. An operation that needs more values
than there are fails and leaves the stack as it was.
-/

namespace Fish

structure Stack where
  values : List Value := []
  register : Option Value := none
  deriving DecidableEq, Inhabited

/-- An operation on a stack. A failing operation has a stack to show, too. -/
abbrev StackOp := EStateM Fault Stack

namespace Stack

/-- A stack from its values, bottom first, with an empty register. -/
def ofList (values : List Value) : Stack := ⟨values.reverse, none⟩

/-- The values, bottom first. -/
def toList (s : Stack) : List Value := s.values.reverse

def size (s : Stack) : Nat := s.values.length

def top? (s : Stack) : Option Value := s.values.head?

/-- The failure of an operation that needs `needed` values. -/
def underflow {α : Type} (needed : Nat) : StackOp α := fun s =>
  .error (.stackUnderflow needed s.size) s

def push (v : Value) : StackOp Unit := fun s =>
  .ok () { s with values := v :: s.values }

def pop : StackOp Value := fun s =>
  match s.values with
  | top :: rest => .ok top { s with values := rest }
  | [] => underflow 1 s

def discard : StackOp Unit := do
  let _ ← pop

/-- Pushes the number of values. -/
def pushSize : StackOp Unit := fun s => push (.ofNat s.size) s

/-- Takes two values, the lower one first. -/
def pop2 : StackOp (Value × Value) := fun s =>
  match s.values with
  | top :: below :: rest => .ok (below, top) { s with values := rest }
  | _ => underflow 2 s

/-- The value `depth` places below the top. -/
def peek (depth : Nat) : StackOp Value := fun s =>
  match s.values[depth]? with
  | some v => .ok v s
  | none => underflow (depth + 1) s

/-- A look at a depth that is given as a word. The number of values it needs, which is one more,
has to be a word as well; where it is none the program crashes. -/
def peek? (depth : UInt64) : Option (StackOp Value) :=
  if depth.toNat + 1 < UInt64.size then some (peek depth.toNat) else none

/-- The two topmost values, the lower one first. -/
def peek2 : StackOp (Value × Value) := fun s =>
  match s.values with
  | top :: below :: _ => .ok (below, top) s
  | _ => underflow 2 s

def duplicate : StackOp Unit := fun s =>
  match s.values with
  | top :: rest => .ok () { s with values := top :: top :: rest }
  | [] => underflow 1 s

/-- Exchanges the two topmost values. -/
def swap2 : StackOp Unit := fun s =>
  match s.values with
  | top :: below :: rest => .ok () { s with values := below :: top :: rest }
  | _ => underflow 2 s

/-- Moves the top value two places down. -/
def swap3 : StackOp Unit := fun s =>
  match s.values with
  | c :: b :: a :: rest => .ok () { s with values := b :: a :: c :: rest }
  | _ => underflow 3 s

/-- Moves the top value to the bottom. -/
def shiftRight : StackOp Unit := fun s =>
  match s.values with
  | top :: rest => .ok () { s with values := rest ++ [top] }
  | [] => .ok () s

/-- Moves the bottom value to the top. -/
def shiftLeft : StackOp Unit := fun s =>
  match s.values.getLast? with
  | some bottom => .ok () { s with values := bottom :: s.values.dropLast }
  | none => .ok () s

def reverse : StackOp Unit := fun s =>
  .ok () { s with values := s.values.reverse }

/-- Parks the top value in an empty register, or takes a parked value back. -/
def toggleRegister : StackOp Unit := fun s =>
  match s.register, s.values with
  | some v, values => .ok () ⟨v :: values, none⟩
  | none, top :: rest => .ok () ⟨rest, some top⟩
  | none, [] => underflow 1 s

/-- Splits off the `n` topmost values as a stack of their own, with an empty register. -/
def split (n : Nat) : StackOp Stack := fun s =>
  if n ≤ s.size then .ok ⟨s.values.take n, none⟩ { s with values := s.values.drop n }
  else underflow n s

/-- Puts the values of another stack on top. What its register holds is lost. -/
def absorb (other : Stack) : StackOp Unit := fun s =>
  .ok () { s with values := other.values ++ s.values }

/-- Replaces the two topmost values by a result of both. They stay where they are if there
is none. -/
def combine (f : Value → Value → Except Fault Value) : StackOp Unit := do
  let (below, top) ← peek2
  match f below top with
  | .error e => throw e
  | .ok result =>
    let _ ← pop2
    push result

/-- Takes the two topmost values as a column, the lower one, and a row. Both are looked at
before they are taken, so that they stay where they are if one is unfit. -/
def takePlace : StackOp (Int64 × Int64) := do
  let (below, top) ← peek2
  match below.coordinate, top.coordinate with
  | .error e, _ => throw e
  | .ok _, .error e => throw e
  | .ok x, .ok y =>
    let _ ← pop2
    return (x, y)

/-- Takes the top value as a character, if it is one. -/
def takeChar : StackOp Char := do
  let v ← peek 0
  match v.toChar? with
  | none => throw (.invalidCharacter v)
  | some c =>
    let _ ← pop
    return c

/-- Takes the top value as a count of values that lie beneath it, if it is one. A count is never the
greatest word, so that to look for as many values cannot crash. -/
def takeCount : StackOp UInt64 := do
  let v ← peek 0
  match v.toCount? with
  | none => throw (.invalidCount v)
  | some count =>
    let _ ← peek count.toNat
    let _ ← pop
    return count

end Stack

end Fish
