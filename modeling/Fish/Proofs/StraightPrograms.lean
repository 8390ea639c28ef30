import Fish.Proofs.Stretches

/-!
Straight programs: a single row of instructions on stacks, and a halt behind them. The pointer
walks along the row, so that such a program does its instructions one after the other. It halts
when all are done, and it stops at the first one that fails.
-/

namespace Fish

namespace StackInstruction

/-- Does the instructions one after the other, as long as none fails. -/
def performAll : List StackInstruction → StacksOp Unit
  | [] => pure ()
  | instruction :: rest => do
    instruction.perform
    performAll rest

theorem performAll_append_of_ok {before after : List StackInstruction} {s t : Stacks}
    (h : performAll before s = .ok () t) :
    performAll (before ++ after) s = performAll after t := by
  induction before generalizing s with
  | nil =>
    cases h
    rfl
  | cons instruction before ih =>
    obtain ⟨⟨⟩, u, hfirst, hrest⟩ := ok_of_bind_ok h
    exact (bind_of_ok hfirst _).trans (ih hrest)

theorem performAll_append_of_error {before after : List StackInstruction} {s t : Stacks} {e : Fault}
    (h : performAll before s = .error e t) : performAll (before ++ after) s = .error e t := by
  induction before generalizing s with
  | nil => cases h
  | cons instruction before ih =>
    rw [performAll] at h
    cases hfirst : instruction.perform s with
    | ok _ u =>
      rw [bind_of_ok hfirst] at h
      exact (bind_of_ok hfirst _).trans (ih h)
    | error e' u =>
      rw [bind_of_error hfirst] at h
      exact (bind_of_error hfirst _).trans h

/-- Doing the instructions in order stops before the one numbered `k`, with these stacks: it
fails, or there is none any more and the halt comes. -/
inductive StopsAt (row : List StackInstruction) (s : Stacks) : Nat → Termination → Stacks → Prop
  | halted {t : Stacks} (h : performAll row s = .ok () t) : StopsAt row s row.length .halted t
  | failed {k : Nat} {instruction : StackInstruction} {e : Fault} {t u : Stacks}
      (hbefore : performAll (row.take k) s = .ok () t) (hat : row[k]? = some instruction)
      (h : instruction.perform t = .error e u) : StopsAt row s k (.failed e) u

variable {row : List StackInstruction} {s t : Stacks} {k : Nat} {termination : Termination}

theorem StopsAt.cons {instruction : StackInstruction} (hfirst : instruction.perform s = .ok () t)
    {u : Stacks} (h : StopsAt row t k termination u) :
    StopsAt (instruction :: row) s (k + 1) termination u := by
  cases h with
  | halted hrow => exact .halted ((bind_of_ok hfirst _).trans hrow)
  | failed hbefore hat herror => exact .failed ((bind_of_ok hfirst _).trans hbefore) hat herror

theorem exists_stopsAt_of_error {e : Fault} (h : performAll row s = .error e t) :
    ∃ k, k < row.length ∧ StopsAt row s k (.failed e) t := by
  induction row generalizing s with
  | nil => cases h
  | cons instruction row ih =>
    rw [performAll] at h
    cases hfirst : instruction.perform s with
    | ok _ u =>
      rw [bind_of_ok hfirst] at h
      obtain ⟨k, hk, hstops⟩ := ih h
      exact ⟨k + 1, Nat.succ_lt_succ hk, hstops.cons hfirst⟩
    | error e' u =>
      rw [bind_of_error hfirst] at h
      cases h
      exact ⟨0, Nat.zero_lt_succ _, .failed rfl rfl hfirst⟩

theorem exists_stopsAt (row : List StackInstruction) (s : Stacks) :
    ∃ k termination t, StopsAt row s k termination t := by
  cases h : performAll row s with
  | ok _ t => exact ⟨row.length, .halted, t, .halted h⟩
  | error e t =>
    obtain ⟨k, -, hstops⟩ := exists_stopsAt_of_error h
    exact ⟨k, .failed e, t, hstops⟩

theorem StopsAt.le_length (h : StopsAt row s k termination t) : k ≤ row.length := by
  cases h with
  | halted _ => exact Nat.le_refl _
  | failed _ hat _ =>
    obtain ⟨hlt, -⟩ := List.getElem?_eq_some_iff.mp hat
    exact Nat.le_of_lt hlt

/-- Up to there no instruction fails. -/
theorem StopsAt.performAll_take (h : StopsAt row s k termination t) {n : Nat} (hn : n ≤ k) :
    ∃ u, performAll (row.take n) s = .ok () u := by
  have hall : ∃ u, performAll (row.take k) s = .ok () u := by
    cases h with
    | halted hrow =>
      rw [List.take_length]
      exact ⟨_, hrow⟩
    | failed hbefore _ _ => exact ⟨_, hbefore⟩
  obtain ⟨u, hk⟩ := hall
  obtain ⟨rest, hrest⟩ := List.take_prefix_take_left (l := row) hn
  rw [← hrest] at hk
  cases hfirst : performAll (row.take n) s with
  | ok _ v => exact ⟨v, rfl⟩
  | error e v =>
    rw [performAll_append_of_error hfirst] at hk
    cases hk

end StackInstruction

open StackInstruction

/-- Instructions that succeed are passed. -/
theorem State.Passes.performAll {box : Codebox} {row : List StackInstruction} {s : State}
    {memory : Stacks} (hquote : s.quote = none) (h : performAll row s.memory = .ok () memory) :
    Passes box (row.map symbol) s { s with memory := memory } := by
  induction row generalizing s with
  | nil =>
    cases h
    exact .nil s
  | cons instruction row ih =>
    obtain ⟨⟨⟩, between, hfirst, hrest⟩ := ok_of_bind_ok h
    exact (Passes.stack hquote hfirst).append (ih (s := { s with memory := between }) hquote hrest)

/-- The instructions in one row, and a halt behind them. -/
def straightRow (row : List StackInstruction) : List Char := row.map symbol ++ [';']

theorem newline_notMem_straightRow (row : List StackInstruction) : '\n' ∉ straightRow row := by
  intro hnewline
  rcases List.mem_append.mp hnewline with hsymbol | hhalt
  · obtain ⟨instruction, -, hnewline⟩ := List.mem_map.mp hsymbol
    -- A newline is blank, and no symbol is.
    have hblank : Instruction.ofChar? '\n' = some .blank := by decide
    have hread := ofChar?_symbol instruction
    rw [hnewline, hblank] at hread
    cases hread
  · exact absurd hhalt (by decide)

namespace Program

/-- A straight program in the column `i` of its row. All instructions before it are done. -/
def straight (row : List StackInstruction) (random : Random) (i : Nat) (memory : Stacks) :
    Program where
  codebox := .ofRows [straightRow row]
  state := { pointer := { x := i }, memory := memory, random := random }
  steps := i

theorem load_straight (row : List StackInstruction) (values : List Value) (seed : UInt64) :
    load (String.ofList (straightRow row)) values seed =
      straight row (.ofSeed seed) 0 { active := .ofList values } := by
  have hreturn : (straightRow row).getLast? ≠ some '\r' := by
    rw [straightRow, List.getLast?_concat]
    decide
  exact load_row (newline_notMem_straightRow row) hreturn values seed

variable {row : List StackInstruction} {random : Random} {i : Nat} {memory t : Stacks}

theorem straight_eq_inRow :
    straight row random i memory =
      inRow (straightRow row) i i { memory := memory, random := random } := rfl

theorem getElem?_straightRow {instruction : StackInstruction} (hat : row[i]? = some instruction) :
    (straightRow row)[i]? = some instruction.symbol := by
  obtain ⟨hlt, -⟩ := List.getElem?_eq_some_iff.mp hat
  rw [straightRow, List.getElem?_append_left (List.length_map symbol ▸ hlt), List.getElem?_map, hat]
  rfl

theorem getElem?_straightRow_length (row : List StackInstruction) :
    (straightRow row)[row.length]? = some ';' := by
  rw [straightRow, ← List.length_map symbol, List.getElem?_concat_length]

theorem advance_straight_of_error {instruction : StackInstruction}
    (hat : row[i]? = some instruction) {e : Fault} (h : instruction.perform memory = .error e t) :
    (straight row random i memory).advance =
      (.failed e, (straight row random i t).ended (.failed e)) := by
  have hstacks : State.onStacks instruction.perform (straight row random i memory).state =
      .error (.fatal e) (straight row random i t).state := by
    simp only [State.onStacks, straight, h]
  have hattempt : (straight row random i memory).attempt =
      .error (.fatal e) (straight row random i t).state := by
    rw [straight_eq_inRow, attempt_inRow (getElem?_straightRow hat),
      State.execute_of_instruction rfl (ofChar?_symbol instruction)]
    exact bind_of_error hstacks _
  rw [advance_of_running rfl, hattempt]
  rfl

theorem advance_straight_halt :
    (straight row random row.length memory).advance =
      (.halted, (straight row random row.length memory).ended .halted) := by
  rw [straight_eq_inRow]
  exact advance_inRow_halt (getElem?_straightRow_length row) rfl

/-- As long as the instructions succeed, each advance does one of them. -/
theorem replay_straight_of_ok {n : Nat} (hn : n ≤ row.length)
    (h : performAll (row.take n) memory = .ok () t) :
    (straight row random 0 memory).replay (.replicate n .advance) =
      (.replicate n (.step .progressed), straight row random n t) := by
  let s : State := { memory := memory, random := random }
  have hpasses : State.Passes (.ofRows [straightRow row]) ((row.take n).map symbol) s
      { s with memory := t } := .performAll rfl h
  have hrow : (straightRow row).drop 0 =
      (row.take n).map symbol ++ ((row.drop n).map symbol ++ [';']) := by
    rw [List.drop_zero, ← List.append_assoc, ← List.map_append, List.take_append_drop, straightRow]
  have hlength : ((row.take n).map symbol).length = n := by
    rw [List.length_map, List.length_take_of_le hn]
  have hreplay := replay_inRow hpasses hrow (by simp) 0
  rw [hlength, Nat.zero_add] at hreplay
  exact hreplay

/-- What an advance answers that ends the program, and all that come after it. -/
theorem replay_of_ends {p q : Program} (termination : Termination)
    (h : p.advance = (termination.step, q)) (hq : q.termination = some termination) (n : Nat) :
    p.replay (.replicate (n + 1) .advance) = (.replicate (n + 1) (.step termination.step), q) := by
  rw [List.replicate_succ, replay_cons, respond, h, replay_ended hq, List.replicate_succ]

/-- Once they have stopped, the answer is always the same. -/
theorem replay_straight_of_stopsAt {k : Nat} {termination : Termination}
    (h : StopsAt row memory k termination t) (n : Nat) :
    (straight row random 0 memory).replay (.replicate (k + (n + 1)) .advance) =
      (.replicate k (.step .progressed) ++ .replicate (n + 1) (.step termination.step),
        (straight row random k t).ended termination) := by
  cases h with
  | halted hrow =>
    rw [← List.take_length (l := row)] at hrow
    exact replay_trans (replay_straight_of_ok (Nat.le_refl _) hrow)
      (replay_of_ends .halted advance_straight_halt rfl n)
  | failed hbefore hat herror =>
    obtain ⟨hlt, -⟩ := List.getElem?_eq_some_iff.mp hat
    exact replay_trans (replay_straight_of_ok (Nat.le_of_lt hlt) hbefore)
      (replay_of_ends (.failed _) (advance_straight_of_error hat herror) rfl n)

end Program

end Fish
