import Fish.Proofs.Rows
import Fish.Proofs.Symbols

/-!
Stretches of a row. In a program of a single row the pointer passes the characters from left to
right, and where none of them leads it astray, what a stretch of them does is found by executing one
after the other. Stretches can be put together: the second begins in the state that the first has
led to.
-/

namespace Fish

namespace State

/-- Executing the characters leads from one state to the other. In no column do they touch the
pointer. -/
inductive Passes (box : Codebox) : List Char → State → State → Prop
  | nil (s : State) : Passes box [] s s
  | cons {c : Char} {cs : List Char} {s t u : State}
      (hfirst : ∀ i, execute box c (s.inColumn i) = .ok .next (t.inColumn i))
      (hrest : Passes box cs t u) : Passes box (c :: cs) s u

variable {box : Codebox} {s t u : State}

theorem Passes.append {cs cs' : List Char} (h : Passes box cs s t) (h' : Passes box cs' t u) :
    Passes box (cs ++ cs') s u := by
  induction h with
  | nil => exact h'
  | cons hfirst _ ih => exact .cons hfirst (ih h')

theorem Passes.one {c : Char}
    (h : ∀ i, execute box c (s.inColumn i) = .ok .next (t.inColumn i)) : Passes box [c] s t :=
  .cons h (.nil t)

theorem Passes.execute_eq {c : Char} (h : Passes box [c] s t) (i : Nat) :
    execute box c (s.inColumn i) = .ok .next (t.inColumn i) := by
  cases h with
  | cons hfirst hrest =>
    cases hrest
    exact hfirst i

/-- An instruction on stacks. -/
theorem Passes.stack (hquote : s.quote = none) {instruction : StackInstruction} {memory : Stacks}
    (h : instruction.perform s.memory = .ok () memory) :
    Passes box [instruction.symbol] s { s with memory := memory } := by
  refine .one fun i => ?_
  have hstacks : onStacks instruction.perform (s.inColumn i) =
      .ok () { s.inColumn i with memory := memory } := by
    simp only [onStacks, inColumn, h]
  rw [execute_of_instruction (s := s.inColumn i) hquote instruction.ofChar?_symbol]
  exact bind_of_ok hstacks _

end State

namespace Program

open State

variable {row : List Char} {i steps : Nat} {s t : State}

/-- A stretch is passed in as many advances as it has characters. -/
theorem replay_inRow {stretch after : List Char} (h : Passes (.ofRows [row]) stretch s t)
    (hrow : row.drop i = stretch ++ after) (hafter : after ≠ []) (steps : Nat) :
    (inRow row i steps s).replay (.replicate stretch.length .advance) =
      (.replicate stretch.length (.step .progressed),
        inRow row (i + stretch.length) (steps + stretch.length) t) := by
  induction h generalizing i steps with
  | nil => rfl
  | @cons c cs s t u hfirst _ ih =>
    have hat : row[i]? = some c := by
      rw [← List.head?_drop, hrow]
      rfl
    have hrest : row.drop (i + 1) = cs ++ after := by
      rw [← List.tail_drop, hrow]
      rfl
    have hnext : i + 1 < row.length := by
      have hlength := congrArg List.length hrow
      have hpos := List.length_pos_iff.mpr hafter
      rw [List.length_drop, List.length_append, List.length_cons] at hlength
      omega
    rw [List.length_cons, List.replicate_succ, replay_cons, respond,
      advance_inRow hat (hfirst i) (by decide) (follow_next_inRow hnext), ih hrest,
      List.replicate_succ, Nat.add_right_comm, Nat.add_right_comm steps]
    rfl

/-- A stretch with the halt behind it, from the beginning of the row. -/
theorem replay_inRow_halt {stretch : List Char} (h : Passes (.ofRows [row]) stretch s t)
    (hrow : row = stretch ++ [';']) (hquote : t.quote = none) :
    (inRow row 0 0 s).replay (.replicate (stretch.length + 1) .advance) =
      (.replicate stretch.length (.step .progressed) ++ [.step .halted],
        (inRow row stretch.length stretch.length t).ended .halted) := by
  have hat : row[stretch.length]? = some ';' := by rw [hrow, List.getElem?_concat_length]
  have hstretch := replay_inRow h (List.drop_zero.trans hrow) (List.cons_ne_nil ';' []) 0
  rw [Nat.zero_add] at hstretch
  exact replay_trans hstretch (replay_one (advance_inRow_halt hat hquote))

end Program

end Fish
