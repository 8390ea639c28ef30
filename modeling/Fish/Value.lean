import Fish.Decimal.Shortest

/-!
Values: what a stack holds. Whole numbers of 64 bits and doubles share every stack, and a
character is stored as its code point.
-/

namespace Fish

inductive Value
  | int (n : Int64)
  | float (x : Float)
  deriving DecidableEq

namespace Value

instance : Inhabited Value := ⟨.int 0⟩

def ofNat (n : Nat) : Value := .int (Int64.ofNat n)

def ofBool (b : Bool) : Value := .int (if b then 1 else 0)

def ofChar (c : Char) : Value := ofNat c.toNat

/-- The value as a double; a whole number is rounded to the nearest. -/
def toFloat : Value → Float
  | .int n => Float.ofInt n.toInt
  | .float x => x

/-- Both zeros among the doubles count. -/
def isZero : Value → Bool
  | .int n => n == 0
  | .float x => x == 0.0

/-- The whole number of 64 bits that is nearest. -/
def clamp (n : Int) : Int64 :=
  Int64.ofInt (max (-0x8000000000000000) (min n 0x7fffffffffffffff))

/-- The integer part, cut off toward zero and kept within 64 bits; `none` for the
infinities and NaN. -/
def toInt64? : Value → Option Int64
  | .int n => some n
  | .float x => (Binary64.ofFloat? x).map fun b => clamp b.truncate

/-- The integer part as a count of values, which is never negative. -/
def toCount? (v : Value) : Option UInt64 :=
  v.toInt64?.bind fun n => if 0 ≤ n.toInt then some (UInt64.ofNat n.toInt.toNat) else none

/-- The character whose code point is the integer part. -/
def toChar? (v : Value) : Option Char :=
  v.toInt64?.bind fun n =>
    if 0 ≤ n.toInt ∧ n.toInt.toNat.isValidChar then some (Char.ofNat n.toInt.toNat) else none

/-- The text of a value: decimal digits, and no point where there is no fraction. -/
def text : Value → String
  | .int n => toString n.toInt
  | .float x => Decimal.floatText x

end Value

end Fish
