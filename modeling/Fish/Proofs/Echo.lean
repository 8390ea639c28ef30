import Fish.Proofs.Heeding
import Fish.Proofs.QuotedText

/-!
The echo program copies its input. It reads a character, compares a copy of it with zero, and as it
is not below, skips the halt and writes it; then the row begins anew. Only the value that stands for
the end of input is below zero, and there the program halts. Each round takes six advances, and one
that waits does not count.
-/

namespace Fish

open State

/-- No character is below zero. -/
theorem Value.numLt_zero_ofChar (c : Char) : (ofChar c).numLt (.int 0) = false := by
  have hcompare : (ofChar c).compare? (.int 0) = some (compare (c.toNat : Int) 0) := by
    rw [← toInt_code]
    rfl
  have hnonneg : compare (c.toNat : Int) 0 ≠ .lt := by
    rw [Ne, Int.compare_eq_lt]
    omega
  rw [numLt, hcompare]
  simpa using hnonneg

/-- The input is read onto the stack. -/
theorem State.Passes.readChar {box : Codebox} {s : State} (h : s.quote = none) {received : Received}
    {rest : Channel} (hreceive : s.channel.receive = .ok received rest) :
    Passes box ['i'] s
      { s with memory := s.memory.pile [received.value], channel := rest } := by
  have hread : Instruction.ofChar? 'i' = some .readChar := by decide
  refine .one fun i => ?_
  have htake : receive (s.inColumn i) =
      .ok received.value { s.inColumn i with channel := rest } := by
    have hall := receive_eq (s.inColumn i) s.channel
    rw [hreceive] at hall
    exact hall
  rw [execute_of_instruction (s := s.inColumn i) h hread, perform, bind_of_ok htake]
  rfl

/-- The row of the echo program. -/
def echoRow : List Char := ['i', ':', '0', '(', '?', ';', 'o']

namespace Program

/-- A state with these values on its only stack, listed top first. -/
def holding (random : Random) (channel : Channel) (values : List Value) : State :=
  { memory := Stacks.pile values {}, channel := channel, random := random }

/-- The echo program at the beginning of a round. -/
def echoing (random : Random) (steps : Nat) (channel : Channel) : Program :=
  inRow echoRow 0 steps (holding random channel [])

theorem load_echo (seed : UInt64) : load "i:0(?;o" [] seed = echoing (.ofSeed seed) 0 {} := by
  have hnewline : '\n' ∉ echoRow := by decide
  exact load_row hnewline (by decide) [] seed

variable {random : Random} {steps : Nat} {channel rest : Channel}

/-- What was read is compared with zero. -/
theorem replay_test {received : Received} (hreceive : channel.receive = .ok received rest) :
    (echoing random steps channel).replay (.replicate 4 .advance) =
      (.replicate 4 (.step .progressed),
        inRow echoRow 4 (steps + 4)
          (holding random rest [.ofBool (received.value.numLt (.int 0)), received.value])) := by
  let v := received.value
  let start : State := holding random channel []
  let values (values : List Value) : State := holding random rest values
  let box : Codebox := .ofRows [echoRow]
  have hread : Passes box ['i'] start (values [v]) := .readChar rfl hreceive
  have hcopy : Passes box [StackInstruction.duplicate.symbol] (values [v]) (values [v, v]) :=
    .stack rfl rfl
  have hzero : Passes box [(StackInstruction.push 0).symbol] (values [v, v])
      (values [.int 0, v, v]) := .stack rfl rfl
  have hless : Passes box [(StackInstruction.combine .less).symbol] (values [.int 0, v, v])
      (values [.ofBool (v.numLt (.int 0)), v]) :=
    .stack rfl (StackInstruction.perform_combine_of_some rfl (Stacks.pile [v] {}))
  have htest := ((hread.append hcopy).append hzero).append hless
  exact replay_inRow htest rfl (List.cons_ne_nil '?' [';', 'o']) steps

/-- The conditional skip leads over the halt if there is a zero on top, and else to it. -/
theorem advance_skip (v top : Value) :
    (inRow echoRow 4 steps (holding random channel [top, v])).advance =
      (.progressed,
        inRow echoRow (if top.isZero then 6 else 5) (steps + 1) (holding random channel [v])) := by
  have hread : Instruction.ofChar? '?' = some .skipIfZero := by decide
  have hpop : execute (.ofRows [echoRow]) '?' ((holding random channel [top, v]).inColumn 4) =
      .ok (if top.isZero then .skip else .next) ((holding random channel [v]).inColumn 4) := by
    rw [execute_of_instruction rfl hread]
    rfl
  cases hzero : top.isZero with
  | true =>
    rw [hzero] at hpop
    exact advance_inRow rfl hpop (by decide) rfl
  | false =>
    rw [hzero] at hpop
    exact advance_inRow rfl hpop (by decide) rfl

/-- Five advances lead to the halt if what was read is below zero, and else to the write. -/
theorem replay_decide {received : Received} (hreceive : channel.receive = .ok received rest) :
    (echoing random steps channel).replay (.replicate 5 .advance) =
      (.replicate 5 (.step .progressed),
        inRow echoRow (if received.value.numLt (.int 0) then 5 else 6) (steps + 5)
          (holding random rest [received.value])) := by
  have hzero : ∀ b : Bool, (if (Value.ofBool b).isZero then 6 else 5) = if b then 5 else 6 := by
    decide
  have htest : (echoing random steps channel).replay (.replicate 4 .advance) = _ :=
    replay_test hreceive
  have hall := replay_trans htest (replay_one (advance_skip _ _))
  rw [hzero] at hall
  exact hall

/-- A round that reads a character writes it, and another round begins. -/
theorem replay_round {c : Char} (hreceive : channel.receive = .ok (.char c) rest) :
    (echoing random steps channel).replay (.replicate 6 .advance) =
      (.replicate 6 (.step .progressed),
        echoing random (steps + 6) (rest.emit (String.singleton c))) := by
  have hvalue : (Received.char c).value.numLt (.int 0) = false := Value.numLt_zero_ofChar c
  have hwrite : Passes (.ofRows [echoRow]) ['o'] (holding random rest [.ofChar c])
      (holding random (rest.emit (String.singleton c)) []) := .writeChar rfl rfl
  have hwrap : ({ x := 6 } : Pointer).moveOn (.ofRows [echoRow]) = { x := 0 } := by decide
  have hround : (inRow echoRow 6 (steps + 5) (holding random rest [.ofChar c])).advance =
      (.progressed, echoing random (steps + 6) (rest.emit (String.singleton c))) :=
    advance_inRow rfl (hwrite.execute_eq 6) (by decide) (by simp only [follow, inColumn, hwrap])
  have hdecide : (echoing random steps channel).replay (.replicate 5 .advance) = _ :=
    replay_decide hreceive
  rw [hvalue, if_neg Bool.false_ne_true] at hdecide
  exact replay_trans hdecide (replay_one hround)

/-- The echo program at the end of the input: it has halted, and the value that stands for the end
is left. -/
def echoed (random : Random) (steps : Nat) (output : String) : Program :=
  (inRow echoRow 5 steps
    (holding random { closed := true, output := output } [.int (-1)])).ended .halted

/-- A round that reads the end of the input halts. -/
theorem replay_last_round (output : String) :
    (echoing random steps { closed := true, output := output }).replay (.replicate 6 .advance) =
      (.replicate 5 (.step .progressed) ++ [.step .halted], echoed random (steps + 5) output) := by
  let channel : Channel := { closed := true, output := output }
  have hvalue : Received.endOfInput.value.numLt (.int 0) = true := by decide
  have hreceive : channel.receive = .ok .endOfInput channel := rfl
  have hdecide : (echoing random steps channel).replay (.replicate 5 .advance) = _ :=
    replay_decide hreceive
  rw [hvalue, if_pos rfl] at hdecide
  exact replay_trans hdecide (replay_one (advance_inRow_halt rfl rfl))

/-- As many rounds as there are characters write them all. -/
theorem replay_rounds (text pending : List Char) (closed : Bool) (output : String) :
    (echoing random steps ⟨text ++ pending, closed, output⟩).replay
        (.replicate (6 * text.length) .advance) =
      (.replicate (6 * text.length) (.step .progressed),
        echoing random (steps + 6 * text.length)
          ⟨pending, closed, output ++ String.ofList text⟩) := by
  induction text generalizing steps output with
  | nil =>
    rw [String.ofList_nil, String.append_empty]
    rfl
  | cons c text ih =>
    have hreceive : Channel.receive ⟨c :: text ++ pending, closed, output⟩ =
        .ok (.char c) ⟨text ++ pending, closed, output⟩ := rfl
    have hlength : 6 * (c :: text).length = 6 + 6 * text.length := by
      rw [List.length_cons]
      omega
    rw [hlength, ← Nat.add_assoc, String.ofList_cons, ← String.append_assoc,
      ← List.replicate_append_replicate (a := Answer.step .progressed)]
    exact replay_trans (replay_round hreceive) (ih (output ++ String.singleton c))

/-- The whole text is echoed, and then the program halts. -/
theorem replay_echo (text : List Char) (output : String) :
    (echoing random steps ⟨text, true, output⟩).replay
        (.replicate (6 * (text.length + 1)) .advance) =
      (.replicate (6 * text.length + 5) (.step .progressed) ++ [.step .halted],
        echoed random (steps + 6 * text.length + 5) (output ++ String.ofList text)) := by
  have hrounds : (echoing random steps ⟨text ++ [], true, output⟩).replay
      (.replicate (6 * text.length) .advance) = _ := replay_rounds text [] true output
  rw [List.append_nil] at hrounds
  rw [← List.replicate_append_replicate, List.append_assoc]
  exact replay_trans hrounds (replay_last_round _)

/-- With its input open and nothing in it, a round waits. -/
theorem advance_echoing_waits (random : Random) (steps : Nat) (output : String) :
    (echoing random steps ⟨[], false, output⟩).advance.1 = .blocked := rfl

/-- Given a text whenever it waits and closed behind it, the echo program writes the text, and then
it halts. -/
theorem works_echo (text : List Char) (steps : Nat) (output : String) :
    let p := echoing random steps ⟨[], false, output⟩
    p.Works (p.heeding (7 * (text.length + 1)) text) (inputCalls text true)
      (.replicate (6 * text.length + 5) .progressed ++ [.halted])
      (echoed random (steps + 6 * text.length + 5) (output ++ String.ofList text)) := by
  induction text generalizing steps output with
  | nil =>
    intro p
    let work : List Step := .replicate 5 .progressed ++ [.halted]
    have hlast : (p.respond (nextInput [])).2.replay (.replicate 6 .advance) =
        (work.map .step, echoed random (steps + 5) output) := replay_last_round output
    have hblocked : .blocked ∉ work := by decide
    have hall := Works.heeding (advance_echoing_waits random steps output) hlast hblocked
      (.heeding_zero [] _)
    rw [String.ofList_nil, String.append_empty]
    exact hall
  | cons c text ih =>
    intro p
    let work : List Step := .replicate 6 .progressed
    have hreceive : Channel.receive ⟨[c], false, output⟩ = .ok (.char c) ⟨[], false, output⟩ := rfl
    have hgive : (p.respond (nextInput (c :: text))).2 =
        echoing random steps ⟨[c], false, output⟩ := congrArg Prod.snd (respond_give rfl c)
    have hround : (p.respond (nextInput (c :: text))).2.replay (.replicate 6 .advance) =
        (work.map .step,
          echoing random (steps + 6) ⟨[], false, output ++ String.singleton c⟩) := by
      rw [hgive]
      exact replay_round hreceive
    have hblocked : .blocked ∉ work := by decide
    have hall := Works.heeding (advance_echoing_waits random steps output) hround hblocked
      (ih (steps + 6) (output ++ String.singleton c))
    rw [String.ofList_cons, ← String.append_assoc, List.length_cons]
    have hadvances : 6 + 7 * (text.length + 1) + 1 = 7 * (text.length + 1 + 1) := by omega
    have hwork : 6 + (6 * text.length + 5) = 6 * (text.length + 1) + 5 := by omega
    have hsteps : steps + 6 + 6 * text.length + 5 = steps + 6 * (text.length + 1) + 5 := by omega
    rw [hadvances, ← List.append_assoc, List.replicate_append_replicate, hwork, hsteps] at hall
    exact hall

example : (load "i:0(?;o" [] 3).heeding 14 ['a'] =
    [.advance, .give "a"] ++ .replicate 7 .advance ++ [.close] ++ .replicate 6 .advance := by
  decide

end Program

open Program in
/-- The echo program copies every text, given up front or a character at a time, in six advances for
each character and six more for the end. -/
theorem echo_copies (text : String) (seed : UInt64) :
    let p := load "i:0(?;o" [] seed
    let n := 6 * (text.length + 1)
    let work : List Step := .replicate (n - 1) .progressed ++ [.halted]
    let last : Program := { p with
      state := { p.state with
        pointer := { x := 5 }
        memory := { active := .ofList [.int (-1)] }
        channel := { pending := [], closed := true, output := text } }
      steps := n
      termination := some .halted }
    let given := (p.replay [.feed text, .close]).2
    let calls := p.heeding (7 * (text.length + 1)) text.toList
    ((p.replay (inputCalls text.toList true)).2 = given ∧
      given.replay (.replicate n .advance) = (work.map .step, last)) ∧
    (calls.filter (· ≠ .advance) = inputCalls text.toList true ∧
      workOf (p.replay calls).1 = work ∧ (p.replay calls).2 = last) ∧
    last.state.current last.codebox = ';' ∧
    (last.respond .read).1 = if text = "" then .noOutput else .text text := by
  intro p n work last given calls
  have hload : p = echoing (.ofSeed seed) 0 {} := load_echo seed
  have hlength : text.toList.length = text.length := String.length_toList
  have hn : 6 * text.toList.length + 5 = n - 1 := by omega
  have hlast : echoed (.ofSeed seed) (0 + 6 * text.toList.length + 5)
      ("" ++ String.ofList text.toList) = last := by
    rw [String.empty_append, String.ofList_toList, hlength, Nat.zero_add]
    rfl
  have hgiven : given = echoing (.ofSeed seed) 0 ⟨text.toList, true, ""⟩ := by
    have hfeed : p.feed text = .ok () (p.enqueue text.toList) := by
      rw [feed_eq, if_neg fun h => Bool.false_ne_true h.1]
    have hreplay : given = (p.enqueue text.toList).close := by
      simp only [given, replay_cons, respond, hfeed]
      rfl
    rw [hreplay, hload]
    rfl
  refine ⟨⟨?_, ?_⟩, ?_, rfl, ?_⟩
  · rw [hgiven, replay_inputCalls rfl, hload]
    rfl
  · have hreplay : (echoing (.ofSeed seed) 0 ⟨text.toList, true, ""⟩).replay _ = _ :=
      replay_echo text.toList ""
    rw [hlast, hn, hlength] at hreplay
    rw [hgiven, hreplay, List.map_append, List.map_replicate]
    rfl
  · have hworks : (echoing (.ofSeed seed) 0 {}).Works _ _ _ _ := works_echo text.toList 0 ""
    rw [hlast, hn, hlength, ← hload] at hworks
    exact ⟨hworks.inputs_eq, hworks.work_eq, hworks.replay_eq⟩
  · have houtput : last.output = text := rfl
    simp only [respond_read, houtput, String.isEmpty_iff]

end Fish
