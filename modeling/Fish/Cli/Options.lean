import Fish.Decimal.Numeral
import Fish.Log

/-!
The options of the command line. An option with a value is given as `--name=value` or as two
arguments, and the value of all but one must then not look like an option. Only the initial
stack may be given several times. After `--` everything is the name of a file, and there
must be at least one.
-/

namespace Fish.Cli

inductive OptionName
  | stack
  | seed
  | stepLimit
  | stepsPerBatch
  | delay
  | input
  | stdin
  | trace
  | help
  deriving DecidableEq, Repr

def OptionName.ofText? : String → Option OptionName
  | "--stack" => some .stack
  | "--seed" => some .seed
  | "--step-limit" => some .stepLimit
  | "--steps-per-batch" => some .stepsPerBatch
  | "--delay-ms" => some .delay
  | "--input" => some .input
  | "--stdin" => some .stdin
  | "--trace" => some .trace
  | "--help" => some .help
  | _ => none

def OptionName.takesValue : OptionName → Bool
  | stdin => false
  | trace => false
  | help => false
  | _ => true

/-- Why the parser does not go on to a run: help was asked for, or the command line is wrong.
In what words it says so is the parser's own affair. -/
inductive Refusal
  | help
  | unknownOption (text : String)
  | repeated (text : String)
  | missingValue (text : String)
  | unexpectedValue (text : String)
  | invalidValue (text value : String)
  | emptyFile
  | noFile
  deriving DecidableEq

structure Options where
  files : List String := []
  /-- The initial stack, bottom first. -/
  stack : List Value := []
  seed? : Option UInt64 := none
  stepLimit? : Option Nat := none
  stepsPerBatch? : Option Nat := none
  delay? : Option Nat := none
  input? : Option String := none
  stdin : Bool := false
  trace : Bool := false

/-- The cycles of a batch. -/
def Options.stepsPerBatch (o : Options) : Nat := o.stepsPerBatch?.getD 1024

/-- The pause between batches, in milliseconds. -/
def Options.delay (o : Options) : Nat := o.delay?.getD 0

/-- What is logged: what `given?` lets pass, and without it warnings, or everything where that
is asked for. -/
def Options.filter (o : Options) (given? : Option Filter) : Filter :=
  given?.getD fun e => o.trace || e.isWarning

/-- A value of the initial stack: a whole number if it is one that fits in 64 bits, and else
a decimal. -/
def value? (text : String) : Option Value :=
  match (Decimal.int? text).filter fun n => -0x8000000000000000 ≤ n && n < 0x8000000000000000 with
  | some n => some (.int (Int64.ofInt n))
  | none => (Decimal.float? text).map .float

/-- The pieces between commas; there is always one. -/
def splitCommas (cs : List Char) : List (List Char) :=
  cs.foldr (fun c pieces =>
    if c = ',' then [] :: pieces
    else match pieces with
      | piece :: rest => (c :: piece) :: rest
      | [] => [[c]]) [[]]

/-- The values of a list with commas, if each of them is one. -/
def values? (text : String) : Option (List Value) :=
  (splitCommas text.toList).mapM fun piece => value? (String.ofList piece)

/-- Puts a value where none was given before. -/
def setOnce {α : Type} (text value : String) (before parsed : Option α) :
    Except Refusal (Option α) :=
  if before.isSome then .error (.repeated text)
  else if parsed.isNone then .error (.invalidValue text value)
  else .ok parsed

/-- Takes in an option with its value. -/
def Options.set (o : Options) (name : OptionName) (text value : String) :
    Except Refusal Options :=
  match name with
  | .stack =>
    match values? value with
    | some values => .ok { o with stack := o.stack ++ values }
    | none => .error (.invalidValue text value)
  | .seed =>
    (setOnce text value o.seed? ((Decimal.word? value).map UInt64.ofNat)).map
      fun seed => { o with seed? := seed }
  | .stepLimit =>
    (setOnce text value o.stepLimit? (Decimal.word? value)).map
      fun limit => { o with stepLimit? := limit }
  | .stepsPerBatch =>
    (setOnce text value o.stepsPerBatch? (Decimal.word? value)).map
      fun steps => { o with stepsPerBatch? := steps }
  | .delay =>
    (setOnce text value o.delay? (Decimal.word? value)).map
      fun delay => { o with delay? := delay }
  | .input =>
    (setOnce text value o.input? (some value)).map fun input => { o with input? := input }
  | .stdin => .error (.unexpectedValue text)
  | .trace => .error (.unexpectedValue text)
  | .help => .error (.unexpectedValue text)

/-- Takes in an option without a value. -/
def Options.raise (o : Options) (name : OptionName) (text : String) :
    Except Refusal Options :=
  match name with
  | .stdin => if o.stdin then .error (.repeated text) else .ok { o with stdin := true }
  | .trace => if o.trace then .error (.repeated text) else .ok { o with trace := true }
  | .help => .error .help
  | _ => .error (.missingValue text)

def Options.addFile (o : Options) (path : String) : Except Refusal Options :=
  if path.isEmpty then .error .emptyFile else .ok { o with files := o.files ++ [path] }

/-- What an argument looks like. A lone hyphen is an ordinary word, and `-h` stands for help
whatever follows it. -/
inductive Shape
  | word
  | separator
  | option (text : String) (value? : Option String)
  deriving DecidableEq

def shapeOf (arg : String) : Shape :=
  match arg.toList with
  | ['-', '-'] => .separator
  | '-' :: '-' :: cs =>
    let name := String.ofList ('-' :: '-' :: cs.takeWhile (· ≠ '='))
    match cs.dropWhile (· ≠ '=') with
    | _ :: value => .option name (some (String.ofList value))
    | [] => .option name none
  | '-' :: 'h' :: _ => .option "--help" none
  | '-' :: _ :: _ => .option arg none
  | _ => .word

/-- Whether an argument may stand as the value of an option before it. -/
def OptionName.accepts (name : OptionName) (arg : String) : Bool :=
  name = .stack || shapeOf arg = .word

def Options.addFiles (o : Options) (paths : List String) : Except Refusal Options :=
  paths.foldlM Options.addFile o

/-- Takes in the arguments that are left. -/
def Options.addArgs : List String → Options → Except Refusal Options
  | [], o => .ok o
  | arg :: rest, o =>
    match shapeOf arg with
    | .word => do Options.addArgs rest (← o.addFile arg)
    | .separator => o.addFiles rest
    | .option text value? =>
      match OptionName.ofText? text, value? with
      | none, _ => .error (.unknownOption text)
      | some name, some value => do Options.addArgs rest (← o.set name text value)
      | some name, none =>
        if name.takesValue then
          match rest with
          | value :: rest =>
            if name.accepts value then do Options.addArgs rest (← o.set name text value)
            else .error (.missingValue text)
          | [] => .error (.missingValue text)
        else do Options.addArgs rest (← o.raise name text)

/-- The options that a command line gives. -/
def Options.ofArgs (args : List String) : Except Refusal Options := do
  let o ← Options.addArgs args {}
  if o.files.isEmpty then throw .noFile
  return o

end Fish.Cli
