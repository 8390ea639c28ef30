import Fish.Proofs.Expressions

/-!
Text survives the way through the stack. Between quotation marks every character is pushed, whatever
it stands for elsewhere. The stack holds the text with its last character on top, so that it has to
be reversed before it is written, and every code point is a character again.
-/

namespace Fish

theorem Value.toInt_code (c : Char) : (Int64.ofNat c.toNat).toInt = c.toNat := by
  have hlt : c.toNat < 2 ^ 32 := c.val.toNat_lt
  exact Int64.toInt_ofNat_of_lt (by omega)

/-- The code point of a character is one, and stands for it. -/
theorem Value.toChar?_ofChar (c : Char) : (ofChar c).toChar? = some c := by
  have hword : (ofChar c).toInt64? = some (Int64.ofNat c.toNat) := rfl
  rw [toChar?, hword, Option.bind_some, toInt_code, Int.toNat_natCast,
    if_pos ⟨Int.natCast_nonneg _, c.valid⟩, Char.ofNat_toNat]

namespace State

variable {box : Codebox} {s : State} {q : Quote}

theorem Passes.openQuote (h : s.quote = none) (q : Quote) :
    Passes box [q.char] s { s with quote := some q } := by
  have hread : Instruction.ofChar? q.char = some (.quote q) := by cases q <;> decide
  refine .one fun i => ?_
  rw [execute_of_instruction (s := s.inColumn i) h hread]
  rfl

theorem Passes.closeQuote (h : s.quote = some q) :
    Passes box [q.char] s { s with quote := none } := by
  refine .one fun i => ?_
  rw [execute_of_quote (s := s.inColumn i) h, readQuoted, if_pos rfl]
  rfl

/-- Between quotation marks all characters but the mark itself are pushed. -/
theorem Passes.quoted (h : s.quote = some q) {text : List Char} (htext : q.char ∉ text) :
    Passes box text s { s with memory := s.memory.pile (text.map .ofChar).reverse } := by
  induction text generalizing s with
  | nil => exact .nil s
  | cons c text ih =>
    rw [List.mem_cons, not_or] at htext
    have hpush : Passes box [c] s { s with memory := s.memory.pile [.ofChar c] } := by
      refine .one fun i => ?_
      rw [execute_of_quote (s := s.inColumn i) h, readQuoted, if_neg (Ne.symm htext.1)]
      rfl
    have hrest := ih (s := { s with memory := s.memory.pile [.ofChar c] }) h htext.2
    rw [Stacks.pile_pile, ← List.reverse_singleton, ← List.reverse_append] at hrest
    exact hpush.append hrest

/-- A text in quotation marks is pushed, and nothing else happens. -/
theorem Passes.quotation (h : s.quote = none) {text : List Char} (htext : q.char ∉ text) :
    Passes box ([q.char] ++ text ++ [q.char]) s
      { s with memory := s.memory.pile (text.map .ofChar).reverse } := by
  let opened : State := { s with quote := some q }
  let pushed : State := { opened with memory := s.memory.pile (text.map .ofChar).reverse }
  have hopen : Passes box [q.char] s opened := .openQuote h q
  have hpush : Passes box text opened pushed := .quoted rfl htext
  have hclose : Passes box [q.char] pushed { pushed with quote := none } := .closeQuote rfl
  have hall := (hopen.append hpush).append hclose
  rw [← h] at hall
  exact hall

/-- A character on top of the stack is written. -/
theorem Passes.writeChar (h : s.quote = none) {c : Char} {memory : Stacks}
    (hmemory : s.memory = memory.pile [.ofChar c]) :
    Passes box ['o'] s
      { s with memory := memory, channel := s.channel.emit (String.singleton c) } := by
  have hread : Instruction.ofChar? 'o' = some .writeChar := by decide
  refine .one fun i => ?_
  have htake : onStack Stack.takeChar (s.inColumn i) =
      .ok c { s.inColumn i with memory := memory } := by
    rw [onStack_eq, Stack.takeChar_eq]
    simp only [inColumn, hmemory, Stacks.pile, Stack.top?, List.cons_append, List.head?_cons,
      Value.toChar?_ofChar, List.tail_cons, List.nil_append]
  rw [execute_of_instruction (s := s.inColumn i) h hread, perform, bind_of_ok htake]
  rfl

/-- As many characters are written as there are of a text on top of the stack. -/
theorem Passes.writeText (h : s.quote = none) {text : List Char} {memory : Stacks}
    (hmemory : s.memory = memory.pile (text.map .ofChar)) :
    Passes box (.replicate text.length 'o') s
      { s with memory := memory, channel := s.channel.emit (String.ofList text) } := by
  induction text generalizing s with
  | nil =>
    have hsame : memory = s.memory := hmemory.symm
    rw [hsame, String.ofList_nil, Channel.emit_empty]
    exact .nil s
  | cons c text ih =>
    rw [List.map_cons, ← List.singleton_append, ← Stacks.pile_pile] at hmemory
    have hfirst : Passes box ['o'] s _ := .writeChar h hmemory
    have hemit : (s.channel.emit (String.singleton c)).emit (String.ofList text) =
        s.channel.emit (String.ofList (c :: text)) := by
      rw [Channel.emit, Channel.emit, Channel.emit, String.append_assoc, String.ofList_cons]
    rw [List.length_cons, List.replicate_succ, ← List.singleton_append, ← hemit]
    exact hfirst.append (ih h rfl)

end State

/-- A text in quotation marks, and what it takes to write it. -/
def quotedRow (q : Quote) (text : List Char) : List Char :=
  [q.char] ++ text ++ [q.char] ++ ['r'] ++ .replicate text.length 'o' ++ [';']

namespace Program

open State

variable {q : Quote} {text : List Char}

theorem load_quotedRow (hmark : q.char ∉ text) (hnewline : '\n' ∉ text) (seed : UInt64) :
    load (String.ofList (quotedRow q text)) [] seed =
      inRow (quotedRow q text) 0 0 (.initial [] (.ofSeed seed)) := by
  refine load_row ?_ ?_ [] seed
  · have hquote : '\n' ≠ q.char := by cases q <;> decide
    simp [quotedRow, hnewline, hquote]
  · rw [quotedRow, List.getLast?_concat]
    decide

/-- On an empty stack the quotation leaves the text, its first character at the bottom. -/
theorem passes_quotation {box : Codebox} (hmark : q.char ∉ text) (random : Random) :
    Passes box ([q.char] ++ text ++ [q.char]) (.initial [] random)
      { initial [] random with memory := { active := .ofList (text.map .ofChar) } } := by
  have hpush : Passes box ([q.char] ++ text ++ [q.char]) (.initial [] random) _ :=
    .quotation rfl hmark
  have hpile : (initial [] random).memory.pile (text.map .ofChar).reverse =
      { active := .ofList (text.map .ofChar) } := by
    refine (Stacks.pile_ofList [] _).trans ?_
    rw [List.nil_append, List.reverse_reverse]
  rw [hpile] at hpush
  exact hpush

/-- The text is turned over before it is written, for its last character is on top. -/
theorem passes_quotedRow {box : Codebox} (hmark : q.char ∉ text) (random : Random) :
    Passes box ([q.char] ++ text ++ [q.char] ++ ['r'] ++ .replicate text.length 'o')
      (.initial [] random)
      { initial [] random with channel := { output := String.ofList text } } := by
  let start : State := .initial [] random
  let pushed : State := { start with memory := { active := .ofList (text.map .ofChar) } }
  let turned : State := { start with memory := { active := .ofList (text.map .ofChar).reverse } }
  have hpush : Passes box ([q.char] ++ text ++ [q.char]) start pushed :=
    passes_quotation hmark random
  have hreverse : Passes box [StackInstruction.reverse.symbol] pushed turned := .stack rfl rfl
  have hwrite : Passes box (.replicate text.length 'o') turned
      { start with channel := start.channel.emit (String.ofList text) } :=
    .writeText rfl (Stacks.pile_ofList [] (text.map Value.ofChar)).symm
  have hemit : start.channel.emit (String.ofList text) = { output := String.ofList text } :=
    congrArg (Channel.mk [] false) String.empty_append
  rw [hemit] at hwrite
  exact (hpush.append hreverse).append hwrite

end Program

open Program in
/-- Text survives the way through the stack: quoted, reversed and written, it is the output when the
program halts. -/
theorem quoted_text_survives (q : Quote) (text : List Char) (seed : UInt64)
    (hmark : q.char ∉ text) (hnewline : '\n' ∉ text) :
    let p := load (String.ofList (quotedRow q text)) [] seed
    p.replay (.replicate (text.length + 2) .advance) =
      (.replicate (text.length + 2) (.step .progressed),
        { p with
          state := { p.state with
            pointer := { x := text.length + 2 }
            memory := { active := .ofList (text.map .ofChar) }
            quote := none }
          steps := text.length + 2 }) ∧
    p.replay (.replicate (2 * text.length + 4) .advance) =
      (.replicate (2 * text.length + 3) (.step .progressed) ++ [.step .halted],
        { p with
          state := { p.state with
            pointer := { x := 2 * text.length + 3 }
            memory := { active := .ofList [] }
            channel := { output := String.ofList text }
            quote := none }
          steps := 2 * text.length + 4
          termination := some .halted }) := by
  intro p
  have hload : p = inRow (quotedRow q text) 0 0 (.initial [] (.ofSeed seed)) :=
    load_quotedRow hmark hnewline seed
  rw [hload]
  constructor
  · have hlength : ([q.char] ++ text ++ [q.char]).length = text.length + 2 := by
      simp only [List.length_append, List.length_singleton]
      omega
    have hrow : (quotedRow q text).drop 0 = [q.char] ++ text ++ [q.char] ++
        (['r'] ++ .replicate text.length 'o' ++ [';']) := by
      simp only [quotedRow, List.drop_zero, List.append_assoc]
    have hreplay := replay_inRow (passes_quotation hmark (.ofSeed seed)) hrow (by simp) 0
    rw [hlength, Nat.zero_add] at hreplay
    exact hreplay
  · have hlength : ([q.char] ++ text ++ [q.char] ++ ['r'] ++
        List.replicate text.length 'o').length = 2 * text.length + 3 := by
      simp only [List.length_append, List.length_singleton, List.length_replicate]
      omega
    have hreplay := replay_inRow_halt (passes_quotedRow hmark (.ofSeed seed)) rfl rfl
    rw [hlength] at hreplay
    exact hreplay

open Program in
/-- A text that has instructions in it, the other mark, a carriage return, and characters on either
side of the surrogates. -/
theorem quoted_text_survives_instructions :
    let text := [';', '\'', 'o', '\r', '\x00', '\ud7ff', '\ue000', '😀']
    let p := load (String.ofList (quotedRow .double text)) [] 7
    (Quote.double.char ∉ text ∧ '\n' ∉ text) ∧
    (p.replay (.replicate 10 .advance)).2.state.memory.active.toList = text.map .ofChar ∧
    (p.replay (.replicate 20 .advance)).1 =
      .replicate 19 (.step .progressed) ++ [.step .halted] ∧
    (p.replay (.replicate 20 .advance)).2.state.channel.output = String.ofList text := by
  intro text p
  have hmark : Quote.double.char ∉ text := by decide
  have hnewline : '\n' ∉ text := by decide
  obtain ⟨hquoted, hwritten⟩ := quoted_text_survives .double text 7 hmark hnewline
  have hquotation : p.replay (.replicate 10 .advance) = _ := hquoted
  have hrun : p.replay (.replicate 20 .advance) = _ := hwritten
  rw [hquotation, hrun]
  exact ⟨⟨hmark, hnewline⟩, List.reverse_reverse _, rfl, rfl⟩

end Fish
