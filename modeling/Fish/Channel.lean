import Fish.Fault

/-!
The channel between a program and the outside: characters that wait to be read, and text
that was written and not yet taken away. Once the input is closed nothing can be added, and
a reader that has consumed everything learns that the end was reached.
-/

namespace Fish

structure Channel where
  pending : List Char := []
  closed : Bool := false
  output : String := ""
  deriving DecidableEq, Inhabited

/-- What a reader gets. -/
inductive Received
  | char (c : Char)
  | endOfInput
  deriving DecidableEq, Repr

namespace Channel

/-- Queues a text of exactly one character. -/
def give (text : String) : EStateM InputRefusal Channel Unit := fun ch =>
  if ch.closed then .error .closed ch
  else match text.toList with
    | [c] => .ok () { ch with pending := ch.pending ++ [c] }
    | _ => .error (.notOneChar text) ch

/-- Queues a text of any length, all of it or nothing. -/
def feed (text : String) : EStateM InputRefusal Channel Unit := fun ch =>
  if ch.closed ∧ text.toList ≠ [] then .error .closed ch
  else .ok () { ch with pending := ch.pending ++ text.toList }

/-- Queues characters one by one, up to the first that is refused. -/
def giveEach : List Char → EStateM InputRefusal Channel Unit
  | [] => pure ()
  | c :: cs => do
    give (String.singleton c)
    giveEach cs

theorem giveEach_of_open (cs : List Char) (ch : Channel) (isOpen : ch.closed = false) :
    giveEach cs ch = .ok () { ch with pending := ch.pending ++ cs } := by
  induction cs generalizing ch with
  | nil => simp [giveEach, pure, EStateM.pure]
  | cons c cs ih =>
    have given : give (String.singleton c) ch =
        .ok () { ch with pending := ch.pending ++ [c] } := by simp [give, isOpen]
    have rest := ih { ch with pending := ch.pending ++ [c] } isOpen
    simp only [giveEach, bind, EStateM.bind, given, rest, List.append_assoc,
      List.singleton_append]

/-- A text can be queued at once or character by character. -/
theorem feed_eq_giveEach (text : String) : feed text = giveEach text.toList := by
  funext ch
  cases isOpen : ch.closed with
  | false => simp [feed, isOpen, giveEach_of_open]
  | true =>
    cases h : text.toList with
    | nil => simp [feed, h, giveEach, pure, EStateM.pure]
    | cons c cs => simp [feed, isOpen, h, giveEach, bind, EStateM.bind, give]

def close (ch : Channel) : Channel := { ch with closed := true }

def receive : EStateM InputExhausted Channel Received := fun ch =>
  match ch.pending with
  | c :: rest => .ok (.char c) { ch with pending := rest }
  | [] => if ch.closed then .ok .endOfInput ch else .error .inputExhausted ch

def emit (text : String) (ch : Channel) : Channel :=
  { ch with output := ch.output ++ text }

/-- Takes all that was written since the last time. -/
def read : EStateM NoOutput Channel String := fun ch =>
  if ch.output.isEmpty then .error .noOutput ch
  else .ok ch.output { ch with output := "" }

end Channel

end Fish
