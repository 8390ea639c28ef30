import Fish.Proofs.Framing
import Fish.Proofs.Nesting
import Fish.Proofs.Symbols

/-!
Values that lie beneath all others. As long as a program does not run out of values, and does not
turn, shift or measure its lowest stack as a whole, it makes no difference what lies beneath the
values it uses: with more values there it does the same, and they stay where they are. The values
beneath are a frame of the stacks, in which every operation that reaches for single values is
framed.
-/

namespace Fish

/-- The fault is that there are too few values. -/
def Fault.Lacks (e : Fault) : Prop := ∃ needed found, e = .stackUnderflow needed found

namespace Stack

/-- The stack with other values beneath its own, listed top first like these. -/
def raised (ground : List Value) (s : Stack) : Stack := { s with values := s.values ++ ground }

variable {ground : List Value}

theorem framedAt_of_underflow {α : Type} {op : StackOp α} {s : Stack} {needed : Nat}
    (h : op s = underflow needed s) : FramedAt (raised ground) Fault.Lacks op s := by
  rw [FramedAt, h]
  exact .inl ⟨needed, s.size, rfl⟩

theorem framed_push (v : Value) : Framed (raised ground) Fault.Lacks (push v) := fun _ => rfl

theorem framed_pop : Framed (raised ground) Fault.Lacks pop := by
  intro s
  obtain ⟨values, register⟩ := s
  cases values with
  | nil => exact framedAt_of_underflow rfl
  | cons top rest => rfl

theorem framed_pop2 : Framed (raised ground) Fault.Lacks pop2 := by
  intro s
  obtain ⟨values, register⟩ := s
  match values with
  | [] | [_] => exact framedAt_of_underflow rfl
  | _ :: _ :: _ => rfl

theorem framed_peek2 : Framed (raised ground) Fault.Lacks peek2 := by
  intro s
  obtain ⟨values, register⟩ := s
  match values with
  | [] | [_] => exact framedAt_of_underflow rfl
  | _ :: _ :: _ => rfl

theorem framed_duplicate : Framed (raised ground) Fault.Lacks duplicate := by
  intro s
  obtain ⟨values, register⟩ := s
  cases values with
  | nil => exact framedAt_of_underflow rfl
  | cons top rest => rfl

theorem framed_swap2 : Framed (raised ground) Fault.Lacks swap2 := by
  intro s
  obtain ⟨values, register⟩ := s
  match values with
  | [] | [_] => exact framedAt_of_underflow rfl
  | _ :: _ :: _ => rfl

theorem framed_swap3 : Framed (raised ground) Fault.Lacks swap3 := by
  intro s
  obtain ⟨values, register⟩ := s
  match values with
  | [] | [_] | [_, _] => exact framedAt_of_underflow rfl
  | _ :: _ :: _ :: _ => rfl

theorem framed_toggleRegister : Framed (raised ground) Fault.Lacks toggleRegister := by
  intro s
  obtain ⟨values, register⟩ := s
  cases register with
  | some v => rfl
  | none =>
    cases values with
    | nil => exact framedAt_of_underflow rfl
    | cons top rest => rfl

theorem framed_peek (depth : Nat) : Framed (raised ground) Fault.Lacks (peek depth) := by
  intro s
  -- The depth is measured from the top, so that a value found here is found above others, too.
  cases hvalue : s.values[depth]? with
  | none => exact framedAt_of_underflow (by rw [peek, hvalue])
  | some v =>
    obtain ⟨hlt, -⟩ := List.getElem?_eq_some_iff.mp hvalue
    have hraised : (s.raised ground).values[depth]? = some v :=
      (List.getElem?_append_left hlt).trans hvalue
    simp only [FramedAt, peek, hvalue, hraised]

theorem framed_split (n : Nat) : Framed (raised ground) Fault.Lacks (Stack.split n) := by
  intro s
  by_cases hle : n ≤ s.size
  · have hraised : n ≤ (s.raised ground).size :=
      Nat.le_trans hle (by simp [size, raised])
    rw [FramedAt, split_of_le hle, split_of_le hraised]
    simp only [raised, List.take_append_of_le_length hle, List.drop_append_of_le_length hle]
  · exact framedAt_of_underflow (by rw [Stack.split, if_neg hle])

theorem framed_discard : Framed (raised ground) Fault.Lacks discard :=
  framed_pop.bind fun _ => framed_pure ()

theorem framed_combine (f : Value → Value → Except Fault Value) :
    Framed (raised ground) Fault.Lacks (combine f) := by
  refine framed_peek2.bind fun operands => ?_
  dsimp only
  split
  · exact framed_throw _
  · exact framed_pop2.bind fun _ => framed_push _

theorem framed_takePlace : Framed (raised ground) Fault.Lacks takePlace := by
  refine framed_peek2.bind fun operands => ?_
  dsimp only
  split
  · exact framed_throw _
  · exact framed_throw _
  · exact framed_pop2.bind fun _ => framed_pure _

theorem framed_takeChar : Framed (raised ground) Fault.Lacks takeChar := by
  refine (framed_peek 0).bind fun v => ?_
  split
  · exact framed_throw _
  · exact framed_pop.bind fun _ => framed_pure _

theorem framed_takeCount : Framed (raised ground) Fault.Lacks takeCount := by
  refine (framed_peek 0).bind fun v => ?_
  split
  · exact framed_throw _
  · refine (framed_peek _).bind fun _ => ?_
    exact framed_pop.bind fun _ => framed_pure _

end Stack

namespace Stacks

/-- The stacks, listed top first, with other values beneath those of the lowest one. -/
def raiseLowest (ground : List Value) : List Stack → List Stack
  | [] => []
  | [lowest] => [lowest.raised ground]
  | s :: below :: rest => s :: raiseLowest ground (below :: rest)

def raised (ground : List Value) (s : Stacks) : Stacks :=
  match s.suspended with
  | [] => { s with active := s.active.raised ground }
  | below :: rest => { s with suspended := raiseLowest ground (below :: rest) }

variable {ground : List Value} {α : Type}

/-- On the lowest stack the operation has to be framed itself; above it every one is. -/
theorem framedAt_onActive (op : StackOp α) {s : Stacks}
    (h : s.suspended = [] → FramedAt (Stack.raised ground) Fault.Lacks op s.active) :
    FramedAt (raised ground) Fault.Lacks (onActive op) s := by
  obtain ⟨active, suspended⟩ := s
  cases suspended with
  | nil =>
    have hactive := h rfl
    cases hop : op active with
    | ok a t => simp only [FramedAt, onActive, raised, hop, hactive.ok hop]
    | error e t =>
      simp only [FramedAt, onActive, raised, hop]
      exact (hactive.error hop).imp_right fun hframed => by rw [hframed]
  | cons below rest =>
    cases hop : op active with
    | ok a t => simp only [FramedAt, onActive, raised, hop]
    | error e t => simp only [FramedAt, onActive, raised, hop, or_true]

theorem framed_onActive {op : StackOp α} (h : Framed (Stack.raised ground) Fault.Lacks op) :
    Framed (raised ground) Fault.Lacks (onActive op) :=
  fun s => framedAt_onActive op fun _ => h s.active

theorem framed_openStack (n : Nat) : Framed (raised ground) Fault.Lacks (openStack n) := by
  intro s
  obtain ⟨active, suspended⟩ := s
  have hsplit : FramedAt (Stack.raised ground) _ _ active := Stack.framed_split n active
  cases hop : Stack.split n active with
  | ok opened rest =>
    cases suspended with
    | nil => simp only [FramedAt, openStack, raised, hop, hsplit.ok hop, raiseLowest]
    | cons below others => simp only [FramedAt, openStack, raised, hop, raiseLowest]
  | error e t =>
    cases suspended with
    | nil =>
      simp only [FramedAt, openStack, raised, hop]
      exact (hsplit.error hop).imp_right fun hframed => by rw [hframed]
    | cons below others => simp only [FramedAt, openStack, raised, hop, or_true]

theorem framed_openCounted : Framed (raised ground) Fault.Lacks openCounted :=
  (framed_onActive Stack.framed_takeCount).bind fun count => framed_openStack count.toNat

theorem framed_closeStack : Framed (raised ground) Fault.Lacks closeStack := by
  intro s
  obtain ⟨active, suspended⟩ := s
  match suspended with
  | [] => exact .inr rfl
  | [lowest] =>
    simp only [FramedAt, closeStack, raised, raiseLowest, Stack.absorb, Stack.raised,
      List.append_assoc]
  | _ :: _ :: _ => rfl

/-- The stacks are the same but for what lies beneath the lowest one. -/
theorem toList_raised (ground : List Value) (s : Stacks) :
    ∃ lowest above, s.toList = lowest :: above ∧
      (s.raised ground).toList = lowest.raised ground :: above := by
  have hlowest : ∀ first rest, ∃ lowest above, (first :: rest).reverse = lowest :: above ∧
      (raiseLowest ground (first :: rest)).reverse = lowest.raised ground :: above := by
    intro first rest
    induction rest generalizing first with
    | nil => exact ⟨first, [], rfl, rfl⟩
    | cons second rest ih =>
      obtain ⟨lowest, above, hrest, hraised⟩ := ih second
      refine ⟨lowest, above ++ [first], ?_, ?_⟩
      · rw [List.reverse_cons, hrest, List.cons_append]
      · rw [raiseLowest, List.reverse_cons, hraised, List.cons_append]
  obtain ⟨active, suspended⟩ := s
  have hraised : (raised ground ⟨active, suspended⟩).toList =
      (raiseLowest ground (active :: suspended)).reverse := by
    cases suspended <;> rfl
  rw [hraised]
  exact hlowest active suspended

end Stacks

namespace StackInstruction

/-- The instruction turns, shifts or measures the active stack as a whole. -/
def isWhole : StackInstruction → Bool
  | .shiftRight | .shiftLeft | .reverse | .size => true
  | _ => false

theorem mem_of_isWhole {c : Char} {instruction : StackInstruction}
    (hc : Instruction.ofChar? c = some (.stack instruction)) (h : instruction.isWhole = true) :
    c ∈ ['l', 'r', '{', '}'] := by
  rcases Instruction.symbol?_of_ofChar? hc with hsymbol | ⟨hblank, -⟩
  · obtain rfl := Option.some.inj hsymbol
    cases instruction <;> first | decide | cases h
  · cases hblank

variable {ground : List Value}

theorem framedAt_perform {instruction : StackInstruction} {s : Stacks}
    (h : instruction.isWhole = true → s.suspended ≠ []) :
    FramedAt (Stacks.raised ground) Fault.Lacks instruction.perform s := by
  cases instruction with
  | push digit => exact Stacks.framed_onActive (Stack.framed_push _) s
  | combine op => exact Stacks.framed_onActive (Stack.framed_combine _) s
  | duplicate => exact Stacks.framed_onActive Stack.framed_duplicate s
  | discard => exact Stacks.framed_onActive Stack.framed_discard s
  | swap2 => exact Stacks.framed_onActive Stack.framed_swap2 s
  | swap3 => exact Stacks.framed_onActive Stack.framed_swap3 s
  | toggleRegister => exact Stacks.framed_onActive Stack.framed_toggleRegister s
  | openStack => exact Stacks.framed_openCounted s
  | closeStack => exact Stacks.framed_closeStack s
  | shiftRight =>
    exact Stacks.framedAt_onActive Stack.shiftRight fun hlowest => absurd hlowest (h rfl)
  | shiftLeft =>
    exact Stacks.framedAt_onActive Stack.shiftLeft fun hlowest => absurd hlowest (h rfl)
  | reverse =>
    exact Stacks.framedAt_onActive Stack.reverse fun hlowest => absurd hlowest (h rfl)
  | size =>
    exact Stacks.framedAt_onActive Stack.pushSize fun hlowest => absurd hlowest (h rfl)

end StackInstruction

namespace State

/-- The state with other values beneath those of the lowest stack. -/
def raised (ground : List Value) (s : State) : State := { s with memory := s.memory.raised ground }

variable {ground : List Value}

theorem operandsFramed_raised (ground : List Value) :
    OperandsFramed (Stacks.raised ground) Fault.Lacks where
  pop := Stacks.framed_onActive Stack.framed_pop
  push v := Stacks.framed_onActive (Stack.framed_push v)
  takePlace := Stacks.framed_onActive Stack.framed_takePlace
  takeChar := Stacks.framed_onActive Stack.framed_takeChar

/-- A random turn has no business with the stacks. -/
theorem framed_turnRandomly :
    Framed (reframe (Stacks.raised ground) id) (Interrupt.IsFault Fault.Lacks) turnRandomly := by
  refine framed_modify fun s => ?_
  have hrandom : (s.reframe (Stacks.raised ground) id).random = s.random := rfl
  rw [hrandom]
  generalize s.random.quarter = draw
  rfl

/-- Whatever is executed is framed, unless it is dispatched to turn, shift or measure the lowest
stack. -/
theorem framedAt_execute (box : Codebox) {c : Char} {s : State}
    (h : s.quote = none → c ∈ ['l', 'r', '{', '}'] → s.memory.suspended ≠ []) :
    FramedAt (reframe (Stacks.raised ground) id) (Interrupt.IsFault Fault.Lacks)
      (execute box c) s := by
  apply (operandsFramed_raised ground).framedAt_execute box
  · intro i hquote hi
    exact i.framedAt_perform fun hwhole =>
      h hquote (StackInstruction.mem_of_isWhole hi hwhole)
  · intro _ _
    exact framed_turnRandomly s

end State

namespace Program

/-- The program with other values beneath those of its lowest stack. -/
def raised (ground : List Value) (p : Program) : Program :=
  { p with state := p.state.raised ground }

/-- The next cycle is for an instruction that turns, shifts or measures the lowest stack. -/
def ReachesBottom (p : Program) : Prop :=
  p.termination = none ∧ p.state.quote = none ∧ p.state.memory.depth = 1 ∧
    p.state.current p.codebox ∈ ['l', 'r', '{', '}']

instance (p : Program) : Decidable p.ReachesBottom := inferInstanceAs (Decidable (_ ∧ _))

variable {ground : List Value} {p : Program}

/-- A cycle that does not lack values, nor reaches for the bottom, is the same above other
values. -/
theorem advance_raised (hbottom : ¬ p.ReachesBottom)
    (hlacks : ∀ needed found, p.advance.1 ≠ .failed (.stackUnderflow needed found)) :
    (p.raised ground).advance = (p.advance.1, p.advance.2.raised ground) := by
  apply advance_reframe (Stacks.raised ground) id Fault.Lacks
  · intro htermination
    refine State.framedAt_execute p.codebox fun hquote hc hlowest => ?_
    exact hbottom ⟨htermination, hquote, congrArg (·.length + 1) hlowest, hc⟩
  · intro fault hstep hfault
    obtain ⟨needed, found, rfl⟩ := hfault
    exact hlacks needed found hstep

theorem offChannel_raised (ground : List Value) : OffChannel (raised ground) :=
  ⟨fun _ => rfl, fun _ _ => rfl⟩

/-- None of the calls lacks values or reaches for the bottom. -/
def StaysAbove (calls : List Call) (p : Program) : Prop :=
  (∀ needed found, .failed (.stackUnderflow needed found) ∉ stepsOf (p.replay calls).1) ∧
    ∀ q ∈ advanced calls p, ¬ q.ReachesBottom

/-- Calls that stay above the bottom are answered alike above other values, and lead to the same
program above them. -/
theorem replay_raised {calls : List Call} (h : StaysAbove calls p) :
    (p.raised ground).replay calls = ((p.replay calls).1, (p.replay calls).2.raised ground) := by
  obtain ⟨hlacks, hbottom⟩ := h
  refine ((offChannel_raised ground).replay fun q hq => ?_).1
  refine advance_raised (hbottom q hq) fun needed found hstep => hlacks needed found ?_
  rw [stepsOf_replay, ← hstep]
  exact List.mem_map_of_mem hq

theorem staysAbove_of_append {calls later : List Call} (h : StaysAbove (calls ++ later) p) :
    StaysAbove calls p := by
  obtain ⟨hlacks, hbottom⟩ := h
  rw [replay_append, stepsOf, List.filterMap_append] at hlacks
  rw [advanced_append] at hbottom
  exact ⟨fun needed found hmem => hlacks needed found (List.mem_append_left _ hmem),
    fun q hq => hbottom q (List.mem_append_left _ hq)⟩

theorem load_append (source : String) (lower upper : List Value) (seed : UInt64) :
    load source (lower ++ upper) seed = (load source upper seed).raised lower.reverse := by
  have hstack : Stack.ofList (lower ++ upper) = (Stack.ofList upper).raised lower.reverse := by
    rw [Stack.ofList, List.reverse_append]
    rfl
  rw [load, State.initial, hstack]
  rfl

end Program

open Program in
/-- A run depends only on the values that it uses: with others beneath them every call is answered
alike, and the others lie beneath as they were. -/
theorem lower_values_irrelevant (source : String) (lower upper : List Value) (seed : UInt64)
    (calls : List Call)
    (hlacks : ∀ needed found, .failed (.stackUnderflow needed found) ∉
      stepsOf ((load source upper seed).replay calls).1)
    (hbottom : ∀ q ∈ advanced calls (load source upper seed), ¬ q.ReachesBottom) :
    ((load source (lower ++ upper) seed).replay calls).1 =
      ((load source upper seed).replay calls).1 ∧
    ∀ before, before <+: calls →
      let q := ((load source upper seed).replay before).2
      ∃ (lowest lowest' : Stack) (above : List Stack) (memory : Stacks),
        q.state.memory.toList = lowest :: above ∧ memory.toList = lowest' :: above ∧
        lowest'.toList = lower ++ lowest.toList ∧ lowest'.register = lowest.register ∧
        ((load source (lower ++ upper) seed).replay before).2 =
          { q with state := { q.state with memory := memory } } := by
  have hstays : StaysAbove calls (load source upper seed) := ⟨hlacks, hbottom⟩
  rw [load_append]
  constructor
  · rw [replay_raised hstays]
  · intro before hbefore q
    obtain ⟨later, rfl⟩ := hbefore
    obtain ⟨lowest, above, hlowest, hraised⟩ := q.state.memory.toList_raised lower.reverse
    refine ⟨lowest, lowest.raised lower.reverse, above, q.state.memory.raised lower.reverse,
      hlowest, hraised, ?_, rfl, ?_⟩
    · simp only [Stack.toList, Stack.raised, List.reverse_append, List.reverse_reverse]
    · rw [replay_raised (staysAbove_of_append hstays)]
      rfl

open Program in
/-- A stack is opened, turned and closed above the lowest one, and a value is lost with its
register. -/
theorem lower_values_irrelevant_brackets :
    let upper : List Value := [.int 5, .int 6, .int 7]
    let calls : List Call := .replicate 6 .advance ++ [.read]
    (∀ needed found, .failed (.stackUnderflow needed found) ∉
      stepsOf ((load "2[r&]n" upper 0).replay calls).1) ∧
    (∀ q ∈ advanced calls (load "2[r&]n" upper 0), ¬ q.ReachesBottom) ∧
    ((load "2[r&]n" ([.int 9, .int 8] ++ upper) 0).replay calls).1 =
      .replicate 6 (.step .progressed) ++ [.text "7"] ∧
    ((load "2[r&]n" ([.int 9, .int 8] ++ upper) 0).replay calls).2.state.memory.toList.map
      Stack.toList = [[.int 9, .int 8, .int 5]] := by
  intro upper calls
  have hanswers : ((load "2[r&]n" upper 0).replay calls).1 =
      .replicate 6 (.step .progressed) ++ [.text "7"] := by decide
  have hlacks : ∀ needed found, .failed (.stackUnderflow needed found) ∉
      stepsOf ((load "2[r&]n" upper 0).replay calls).1 := by
    rw [hanswers]
    intro needed found
    simp [stepsOf, Answer.step?, List.filterMap]
  have hbottom : ∀ q ∈ advanced calls (load "2[r&]n" upper 0), ¬ q.ReachesBottom := by decide
  obtain ⟨hsame, hstates⟩ :=
    lower_values_irrelevant "2[r&]n" [.int 9, .int 8] upper 0 calls hlacks hbottom
  refine ⟨hlacks, hbottom, hsame.trans hanswers, ?_⟩
  obtain ⟨lowest, lowest', above, memory, hlowest, hmemory, hvalues, -, hend⟩ :=
    hstates calls (List.prefix_refl calls)
  have hfirst : ((load "2[r&]n" upper 0).replay calls).2.state.memory.toList =
      [.ofList [.int 5]] := by decide
  obtain ⟨rfl, rfl⟩ := List.cons.inj (hfirst.symm.trans hlowest)
  rw [hend, hmemory, List.map_singleton, hvalues]
  rfl

end Fish
