import Fish.Direction
import Fish.Text.Blank
import Fish.Value.Arithmetic
import Fish.Fault

/-!
Instructions, and the characters that stand for them. Every blank character, and the null
character, stands for doing nothing.
-/

namespace Fish

/-- The marks around a text that is pushed character by character. -/
inductive Quote
  | single
  | double
  deriving DecidableEq, Repr

def Quote.char : Quote → Char
  | single => '\''
  | double => '"'

/-- The instructions that replace two values by one. -/
inductive Operator
  | add
  | sub
  | mul
  | div
  | rem
  | equal
  | greater
  | less
  deriving DecidableEq, Repr

/-- The result for the lower value `y` and the upper value `x`. -/
def Operator.apply : Operator → Value → Value → Except Fault Value
  | add, y, x => .ok (y.add x)
  | sub, y, x => .ok (y.sub x)
  | mul, y, x => .ok (y.mul x)
  | div, y, x => match y.div? x with
    | some v => .ok v
    | none => .error .divisionByZero
  | rem, y, x => match y.rem? x with
    | some v => .ok v
    | none => .error .divisionByZero
  | equal, y, x => .ok (.ofBool (y.numEq x))
  | greater, y, x => .ok (.ofBool (x.numLt y))
  | less, y, x => .ok (.ofBool (y.numLt x))

/-- The instructions that work on nothing but the stacks. -/
inductive StackInstruction
  | push (digit : Fin 16)
  | combine (op : Operator)
  | duplicate
  | discard
  | swap2
  | swap3
  | shiftRight
  | shiftLeft
  | reverse
  | size
  | toggleRegister
  | openStack
  | closeStack
  deriving DecidableEq, Repr

inductive Instruction
  | stack (instruction : StackInstruction)
  | turn (d : Direction)
  | turnRandomly
  | reflect (m : Mirror)
  | skip
  | skipIfZero
  | jump
  | quote (q : Quote)
  | writeNumber
  | writeChar
  | readChar
  | fetch
  | halt
  | blank
  deriving DecidableEq, Repr

/-- The instruction on stacks of a character that is no digit. -/
def StackInstruction.ofSymbol? : Char → Option StackInstruction
  | '+' => some (.combine .add)
  | '-' => some (.combine .sub)
  | '*' => some (.combine .mul)
  | ',' => some (.combine .div)
  | '%' => some (.combine .rem)
  | '=' => some (.combine .equal)
  | ')' => some (.combine .greater)
  | '(' => some (.combine .less)
  | ':' => some .duplicate
  | '~' => some .discard
  | '$' => some .swap2
  | '@' => some .swap3
  | '}' => some .shiftRight
  | '{' => some .shiftLeft
  | 'r' => some .reverse
  | 'l' => some .size
  | '&' => some .toggleRegister
  | '[' => some .openStack
  | ']' => some .closeStack
  | _ => none

/-- The instruction of a character that is not one on stacks, nor a mirror nor blank. -/
def Instruction.ofSymbol? : Char → Option Instruction
  | '>' => some (.turn .right)
  | '<' => some (.turn .left)
  | '^' => some (.turn .up)
  | 'v' => some (.turn .down)
  | 'x' => some .turnRandomly
  | '!' => some .skip
  | '?' => some .skipIfZero
  | '.' => some .jump
  | '"' => some (.quote .double)
  | '\'' => some (.quote .single)
  | 'n' => some .writeNumber
  | 'o' => some .writeChar
  | 'i' => some .readChar
  | 'g' => some .fetch
  | ';' => some .halt
  | _ => none

/-- The value of a hexadecimal digit, written in lower case. -/
def digit? : Char → Option (Fin 16)
  | '0' => some 0
  | '1' => some 1
  | '2' => some 2
  | '3' => some 3
  | '4' => some 4
  | '5' => some 5
  | '6' => some 6
  | '7' => some 7
  | '8' => some 8
  | '9' => some 9
  | 'a' => some 10
  | 'b' => some 11
  | 'c' => some 12
  | 'd' => some 13
  | 'e' => some 14
  | 'f' => some 15
  | _ => none

/-- The instruction that a character stands for, if it stands for any. -/
def Instruction.ofChar? (c : Char) : Option Instruction :=
  (digit? c).map (fun digit => .stack (.push digit))
    <|> (StackInstruction.ofSymbol? c).map .stack
    <|> (Mirror.ofChar? c).map .reflect
    <|> ofSymbol? c
    <|> if Text.isBlank c || c == '\x00' then some .blank else none

end Fish
