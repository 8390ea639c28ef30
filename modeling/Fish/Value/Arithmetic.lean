import Fish.Value

/-!
Arithmetic and order of values. Whole numbers give a whole number whenever the exact result
is one and fits in 64 bits, and else the operation is done on doubles. Two whole numbers
compare exactly, and all other pairs as doubles.
-/

namespace Fish.Value

/-- The whole number `n` if it fits in 64 bits, else `x`. -/
def exactOr (n : Int) (x : Float) : Value :=
  if -0x8000000000000000 ≤ n ∧ n < 0x8000000000000000 then .int (Int64.ofInt n) else .float x

def add (a b : Value) : Value :=
  match a, b with
  | .int m, .int n => exactOr (m.toInt + n.toInt) (a.toFloat + b.toFloat)
  | _, _ => .float (a.toFloat + b.toFloat)

def sub (a b : Value) : Value :=
  match a, b with
  | .int m, .int n => exactOr (m.toInt - n.toInt) (a.toFloat - b.toFloat)
  | _, _ => .float (a.toFloat - b.toFloat)

def mul (a b : Value) : Value :=
  match a, b with
  | .int m, .int n => exactOr (m.toInt * n.toInt) (a.toFloat * b.toFloat)
  | _, _ => .float (a.toFloat * b.toFloat)

/-- The quotient; `none` under a zero divisor. -/
def div? (a b : Value) : Option Value :=
  if b.isZero then none
  else some <| match a, b with
    | .int m, .int n =>
      if m.toInt % n.toInt = 0 then exactOr (m.toInt / n.toInt) (a.toFloat / b.toFloat)
      else .float (a.toFloat / b.toFloat)
    | _, _ => .float (a.toFloat / b.toFloat)

/-- A remainder of the division toward zero, moved to the sign of the divisor. -/
def flooredInt (r n : Int64) : Int64 :=
  if r ≠ 0 ∧ decide (r < 0) ≠ decide (n < 0) then r + n else r

/-- A remainder of the division toward zero, moved to the sign of the divisor. -/
def flooredFloat (r y : Float) : Float :=
  if r != 0.0 ∧ decide (r < 0.0) ≠ decide (y < 0.0) then r + y else r

/-- The remainder of the division that rounds down; `none` under a zero divisor. -/
def rem? (a b : Value) : Option Value :=
  if b.isZero then none
  else some <| match a, b with
    | .int m, .int n => .int (flooredInt (m % n) n)
    | _, _ => .float (flooredFloat (Binary64.remainderFloat a.toFloat b.toFloat) b.toFloat)

/-- The order of two doubles; `none` if one of them is NaN. -/
def compareFloat? (x y : Float) : Option Ordering :=
  if x < y then some .lt
  else if y < x then some .gt
  else if x == y then some .eq
  else none

def compare? (a b : Value) : Option Ordering :=
  match a, b with
  | .int m, .int n => some (compare m.toInt n.toInt)
  | _, _ => compareFloat? a.toFloat b.toFloat

/-- Equal as numbers, whatever the kinds. -/
def numEq (a b : Value) : Bool := a.compare? b == some .eq

def numLt (a b : Value) : Bool := a.compare? b == some .lt

def numLe (a b : Value) : Bool := a.numLt b || a.numEq b

end Fish.Value
