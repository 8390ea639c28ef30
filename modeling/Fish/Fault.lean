import Fish.Value
import Fish.Text.Quoted

/-!
What can go wrong, by cause. A fault ends the program that meets it; the other causes leave
it as it was. The wording of each is in its `message`.
-/

namespace Fish

/-- A cause that ends a program. -/
inductive Fault
  | stackUnderflow (needed found : Nat)
  | divisionByZero
  | invalidInstruction (c : Char)
  | invalidCharacter (v : Value)
  | invalidCoordinate (v : Value)
  | invalidCount (v : Value)
  | noEnclosingStack
  deriving DecidableEq

def Fault.message : Fault → String
  | .stackUnderflow needed found =>
    "stack underflow: needed " ++ toString needed ++ " value(s), found " ++ toString found
  | .divisionByZero => "division by zero"
  | .invalidInstruction c => "invalid instruction " ++ Text.quotedChar c
  | .invalidCharacter v => "value " ++ v.text ++ " is not a valid character"
  | .invalidCoordinate v => "value " ++ v.text ++ " is not a valid grid coordinate"
  | .invalidCount v => "value " ++ v.text ++ " is not a valid stack count"
  | .noEnclosingStack => "no stack to close"

/-- There is no input to read yet, and more may come. -/
inductive InputExhausted
  | inputExhausted
  deriving DecidableEq

def InputExhausted.message (_ : InputExhausted) : String := "input exhausted"

/-- Nothing was written since the output was last read. -/
inductive NoOutput
  | noOutput
  deriving DecidableEq

def NoOutput.message (_ : NoOutput) : String := "no output available"

/-- Why a piece of input is refused. -/
inductive InputRefusal
  | notOneChar (text : String)
  | closed
  deriving DecidableEq

def InputRefusal.message : InputRefusal → String
  | .notOneChar text =>
    "input must be exactly one character, got " ++ toString text.length ++
      " (" ++ Text.quotedString text ++ ")"
  | .closed => "input is closed"

/-- The integer part of a value, as a coordinate. -/
def Value.coordinate (v : Value) : Except Fault Int64 :=
  match v.toInt64? with
  | some n => .ok n
  | none => .error (.invalidCoordinate v)

end Fish
