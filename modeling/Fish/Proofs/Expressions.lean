import Fish.Proofs.StraightPrograms

/-!
Expressions of hexadecimal digits and operators, written in postfix order: the left operand, the
right operand, and the operator behind both. The straight program of an expression puts its value
on top of whatever was on the stack, or stops with a division by zero. At no time does it touch the
values beneath.
-/

namespace Fish

open StackInstruction

inductive Expression
  | digit (d : Fin 16)
  | node (op : Operator) (left right : Expression)

/-- The value of an operation for its left and its right operand; `none` for a division by zero. -/
def Operator.value? : Operator → Value → Value → Option Value
  | add, a, b => some (a.add b)
  | sub, a, b => some (a.sub b)
  | mul, a, b => some (a.mul b)
  | div, a, b => a.div? b
  | rem, a, b => a.rem? b
  | equal, a, b => some (.ofBool (a.numEq b))
  | greater, a, b => some (.ofBool (b.numLt a))
  | less, a, b => some (.ofBool (a.numLt b))

theorem Operator.apply_of_some {op : Operator} {a b v : Value} (h : op.value? a b = some v) :
    op.apply a b = .ok v := by
  cases op with
  | div =>
    have hquotient : a.div? b = some v := h
    rw [apply, hquotient]
  | rem =>
    have hremainder : a.rem? b = some v := h
    rw [apply, hremainder]
  | _ =>
    cases h
    rfl

theorem Operator.apply_of_none {op : Operator} {a b : Value} (h : op.value? a b = none) :
    op.apply a b = .error .divisionByZero := by
  cases op with
  | div =>
    have hquotient : a.div? b = none := h
    rw [apply, hquotient]
  | rem =>
    have hremainder : a.rem? b = none := h
    rw [apply, hremainder]
  | _ => cases h

theorem Stack.combine_of_ok {f : Value → Value → Except Fault Value} {a b v : Value}
    (h : f a b = .ok v) (values : List Value) (register : Option Value) :
    combine f ⟨b :: a :: values, register⟩ = .ok () ⟨v :: values, register⟩ := by
  have hpeek : peek2 ⟨b :: a :: values, register⟩ = .ok (a, b) ⟨b :: a :: values, register⟩ := rfl
  rw [combine, bind_of_ok hpeek]
  simp only [h]
  rfl

theorem Stack.combine_of_error {f : Value → Value → Except Fault Value} {a b : Value} {e : Fault}
    (h : f a b = .error e) (values : List Value) (register : Option Value) :
    combine f ⟨b :: a :: values, register⟩ = .error e ⟨b :: a :: values, register⟩ := by
  have hpeek : peek2 ⟨b :: a :: values, register⟩ = .ok (a, b) ⟨b :: a :: values, register⟩ := rfl
  rw [combine, bind_of_ok hpeek]
  simp only [h]
  rfl

/-- The stacks with other values on top of the active one, listed top first. -/
def Stacks.pile (above : List Value) (s : Stacks) : Stacks :=
  { s with active := { s.active with values := above ++ s.active.values } }

theorem Stacks.pile_pile (above values : List Value) (s : Stacks) :
    (s.pile values).pile above = s.pile (above ++ values) := by
  simp only [pile, List.append_assoc]

theorem Stacks.pile_ofList (values above : List Value) :
    pile above { active := .ofList values } = { active := .ofList (values ++ above.reverse) } := by
  simp only [pile, Stack.ofList, List.reverse_append, List.reverse_reverse]

namespace StackInstruction

theorem performAll_singleton (instruction : StackInstruction) (s : Stacks) :
    performAll [instruction] s = instruction.perform s := by
  rw [performAll]
  cases h : instruction.perform s with
  | ok _ t => exact bind_of_ok h _
  | error e t => exact bind_of_error h _

theorem perform_combine_of_some {op : Operator} {a b v : Value} (h : op.value? a b = some v)
    (s : Stacks) : (combine op).perform (s.pile [b, a]) = .ok () (s.pile [v]) := by
  simp only [perform, Stacks.onActive, Stacks.pile, List.cons_append, List.nil_append,
    Stack.combine_of_ok (Operator.apply_of_some h)]

theorem perform_combine_of_none {op : Operator} {a b : Value} (h : op.value? a b = none)
    (s : Stacks) :
    (combine op).perform (s.pile [b, a]) = .error .divisionByZero (s.pile [b, a]) := by
  simp only [perform, Stacks.onActive, Stacks.pile, List.cons_append, List.nil_append,
    Stack.combine_of_error (Operator.apply_of_none h)]

/-- Two operands, and the operator behind them. -/
theorem performAll_operands {row row' : List StackInstruction} {a b : Value} {s : Stacks}
    (hleft : performAll row s = .ok () (s.pile [a]))
    (hright : performAll row' (s.pile [a]) = .ok () ((s.pile [a]).pile [b])) (op : Operator) :
    performAll (row ++ row' ++ [.combine op]) s = (combine op).perform (s.pile [b, a]) := by
  have hoperands : performAll (row ++ row') s = .ok () (s.pile [b, a]) := by
    rw [performAll_append_of_ok hleft, hright, Stacks.pile_pile]
    rfl
  rw [performAll_append_of_ok hoperands, performAll_singleton]

/-- Doing the instructions only puts values on top, and nothing but a division by zero stops it. -/
def Piles (row : List StackInstruction) : Prop :=
  ∀ s, ∃ above, performAll row s = .ok () (s.pile above) ∨
    performAll row s = .error .divisionByZero (s.pile above)

/-- The same, wherever it is broken off. -/
def PilesThroughout (row : List StackInstruction) : Prop :=
  ∀ before, before <+: row → Piles before

theorem Piles.append {row row' : List StackInstruction} (h : Piles row) (h' : Piles row') :
    Piles (row ++ row') := by
  intro s
  obtain ⟨values, hok | herror⟩ := h s
  · obtain ⟨above, hsecond⟩ := h' (s.pile values)
    rw [Stacks.pile_pile, ← performAll_append_of_ok hok] at hsecond
    exact ⟨above ++ values, hsecond⟩
  · exact ⟨values, .inr (performAll_append_of_error herror)⟩

theorem PilesThroughout.append {row row' : List StackInstruction} (h : PilesThroughout row)
    (h' : PilesThroughout row') : PilesThroughout (row ++ row') := by
  intro before hbefore
  rcases List.prefix_or_prefix_of_prefix hbefore (List.prefix_append row row') with
    hfirst | ⟨rest, rfl⟩
  · exact h before hfirst
  · have hrest : rest <+: row' := (List.prefix_append_right_inj row).mp hbefore
    exact (h row (List.prefix_refl row)).append (h' rest hrest)

theorem pilesThroughout_nil : PilesThroughout [] := by
  intro before hbefore s
  rw [List.prefix_nil.mp hbefore]
  exact ⟨[], .inl rfl⟩

-- An operator alone does not only put values on top: it takes those that its operands have put
-- there. So it is the whole row that must be known.
theorem PilesThroughout.concat {row : List StackInstruction} {instruction : StackInstruction}
    (h : PilesThroughout row) (hwhole : Piles (row ++ [instruction])) :
    PilesThroughout (row ++ [instruction]) := by
  intro before hbefore
  rcases List.prefix_concat_iff.mp hbefore with rfl | hfirst
  · exact hwhole
  · exact h before hfirst

theorem PilesThroughout.eq_pile_of_ok {row : List StackInstruction} (h : PilesThroughout row)
    {n : Nat} {s t : Stacks} (hok : performAll (row.take n) s = .ok () t) :
    ∃ above, t = s.pile above := by
  obtain ⟨above, hpile | hpile⟩ := h _ (List.take_prefix n row) s
  · rw [hpile] at hok
    cases hok
    exact ⟨above, rfl⟩
  · rw [hpile] at hok
    cases hok

theorem PilesThroughout.eq_pile_of_stopsAt {row : List StackInstruction} (h : PilesThroughout row)
    {k : Nat} {termination : Termination} {s t : Stacks} (hstops : StopsAt row s k termination t) :
    (∃ above, t = s.pile above) ∧
      ∀ fault, termination = .failed fault → fault = .divisionByZero := by
  cases hstops with
  | halted hrow =>
    rw [← List.take_length (l := row)] at hrow
    exact ⟨h.eq_pile_of_ok hrow, nofun⟩
  | @failed _ instruction e u _ hbefore hat herror =>
    have htake : performAll (row.take (k + 1)) s = .error e t := by
      rw [List.take_add_one, hat, performAll_append_of_ok hbefore]
      exact (performAll_singleton instruction u).trans herror
    obtain ⟨above, hpile | hpile⟩ := h _ (List.take_prefix (k + 1) row) s
    · rw [hpile] at htake
      cases htake
    · rw [hpile] at htake
      cases htake
      exact ⟨⟨above, rfl⟩, fun fault hfault => by cases hfault; rfl⟩

end StackInstruction

namespace Program

variable {row : List StackInstruction} {random : Random} {memory : Stacks}

/-- At every moment of a straight program whose instructions only put values on top. -/
theorem piled_of_replay (h : PilesThroughout row) (n : Nat) :
    (∃ above, ((straight row random 0 memory).replay (.replicate n .advance)).2.state.memory =
      memory.pile above) ∧
    ∀ fault, .step (.failed fault) ∈
      ((straight row random 0 memory).replay (.replicate n .advance)).1 →
        fault = .divisionByZero := by
  obtain ⟨k, termination, t, hstops⟩ := exists_stopsAt row memory
  by_cases hn : n ≤ k
  · obtain ⟨u, hok⟩ := hstops.performAll_take hn
    rw [replay_straight_of_ok (Nat.le_trans hn hstops.le_length) hok]
    refine ⟨h.eq_pile_of_ok hok, fun fault hfault => ?_⟩
    cases List.eq_of_mem_replicate hfault
  · obtain ⟨m, rfl⟩ : ∃ m, n = k + (m + 1) := ⟨n - k - 1, by omega⟩
    obtain ⟨hpile, hdivision⟩ := h.eq_pile_of_stopsAt hstops
    rw [replay_straight_of_stopsAt hstops]
    refine ⟨hpile, fun fault hfault => hdivision fault ?_⟩
    rcases List.mem_append.mp hfault with hearly | hlate
    · cases List.eq_of_mem_replicate hearly
    · have hstep := List.eq_of_mem_replicate hlate
      cases termination with
      | halted => cases hstep
      | failed e =>
        cases hstep
        rfl

end Program

namespace Expression

/-- The instructions of an expression, in postfix order. -/
def instructions : Expression → List StackInstruction
  | digit d => [.push d]
  | node op left right => left.instructions ++ right.instructions ++ [.combine op]

/-- A program of a single row: the expression in postfix order, and a halt. -/
def source (e : Expression) : String := String.ofList (straightRow e.instructions)

/-- The number of nodes, the leaves included. -/
def size : Expression → Nat
  | digit _ => 1
  | node _ left right => left.size + right.size + 1

/-- The value of an expression; `none` if there is a division by zero in it. -/
def eval : Expression → Option Value
  | digit d => some (.ofNat d)
  | node op left right => do
    let a ← left.eval
    let b ← right.eval
    op.value? a b

theorem length_instructions (e : Expression) : e.instructions.length = e.size := by
  induction e with
  | digit d => rfl
  | node op left right ihleft ihright =>
    rw [instructions, size, List.length_append, List.length_append, ihleft, ihright]
    rfl

/-- The instructions of an expression leave its value on top. -/
theorem performAll_of_eval {e : Expression} {v : Value} (h : e.eval = some v) (s : Stacks) :
    performAll e.instructions s = .ok () (s.pile [v]) := by
  induction e generalizing v s with
  | digit d =>
    cases h
    rfl
  | node op left right ihleft ihright =>
    obtain ⟨a, hleft, hrest⟩ := Option.bind_eq_some_iff.mp h
    obtain ⟨b, hright, hvalue⟩ := Option.bind_eq_some_iff.mp hrest
    -- The right operand is worked out on top of the value of the left one.
    rw [instructions, performAll_operands (ihleft hleft s) (ihright hright _),
      perform_combine_of_some hvalue]

theorem performAll_of_eval_eq_none {e : Expression} (h : e.eval = none) (s : Stacks) :
    ∃ above, performAll e.instructions s = .error .divisionByZero (s.pile above) := by
  induction e generalizing s with
  | digit d => cases h
  | node op left right ihleft ihright =>
    cases hleft : left.eval with
    | none =>
      obtain ⟨above, herror⟩ := ihleft hleft s
      exact ⟨above, performAll_append_of_error (performAll_append_of_error herror)⟩
    | some a =>
      have hfirst := performAll_of_eval hleft s
      cases hright : right.eval with
      | none =>
        obtain ⟨above, herror⟩ := ihright hright (s.pile [a])
        refine ⟨above ++ [a], performAll_append_of_error ?_⟩
        rw [performAll_append_of_ok hfirst, herror, Stacks.pile_pile]
      | some b =>
        have hvalue : op.value? a b = none := by
          simpa only [eval, hleft, hright, Option.bind_eq_bind, Option.bind_some] using h
        refine ⟨[b, a], ?_⟩
        rw [instructions, performAll_operands hfirst (performAll_of_eval hright _),
          perform_combine_of_none hvalue]

theorem piles_instructions (e : Expression) : Piles e.instructions := by
  intro s
  cases h : e.eval with
  | some v => exact ⟨[v], .inl (performAll_of_eval h s)⟩
  | none =>
    obtain ⟨above, herror⟩ := performAll_of_eval_eq_none h s
    exact ⟨above, .inr herror⟩

theorem pilesThroughout_instructions (e : Expression) : PilesThroughout e.instructions := by
  induction e with
  | digit d => exact pilesThroughout_nil.concat (digit d).piles_instructions
  | node op left right ihleft ihright =>
    exact (ihleft.append ihright).concat (node op left right).piles_instructions

end Expression

open Expression in
/-- Straight programs compute the expressions they spell, on top of whatever values they were loaded
with. The only fault there is is a division by zero. -/
theorem expression_computed (e : Expression) (values : List Value) (seed : UInt64) :
    let p := Program.load e.source values seed
    (∀ v, e.eval = some v →
      p.replay (.replicate (e.size + 1) .advance) =
        (.replicate e.size (.step .progressed) ++ [.step .halted],
          { p with
            state := { p.state with
              pointer := { x := e.size }
              memory := { active := .ofList (values ++ [v]) } }
            steps := e.size + 1
            termination := some .halted })) ∧
    (e.eval = none → ∃ k, k < e.size ∧ ∀ n, k < n →
      (p.replay (.replicate n .advance)).1 =
        .replicate k (.step .progressed) ++
          .replicate (n - k) (.step (.failed .divisionByZero)) ∧
      (p.replay (.replicate n .advance)).2.termination = some (.failed .divisionByZero)) ∧
    ∀ n,
      (∃ above, (p.replay (.replicate n .advance)).2.state.memory =
        { active := .ofList (values ++ above) }) ∧
      ∀ fault, .step (.failed fault) ∈ (p.replay (.replicate n .advance)).1 →
        fault = .divisionByZero := by
  intro p
  have hload : p = Program.straight e.instructions (.ofSeed seed) 0 { active := .ofList values } :=
    Program.load_straight e.instructions values seed
  rw [hload]
  refine ⟨fun v hv => ?_, fun hnone => ?_, fun n => ?_⟩
  · have hhalts := StopsAt.halted (performAll_of_eval hv { active := .ofList values })
    rw [Stacks.pile_ofList] at hhalts
    rw [← e.length_instructions]
    exact Program.replay_straight_of_stopsAt hhalts 0
  · obtain ⟨above, herror⟩ := performAll_of_eval_eq_none hnone { active := .ofList values }
    obtain ⟨k, hk, hstops⟩ := exists_stopsAt_of_error herror
    refine ⟨k, e.length_instructions ▸ hk, fun n hn => ?_⟩
    obtain ⟨m, rfl⟩ : ∃ m, n = k + (m + 1) := ⟨n - k - 1, by omega⟩
    rw [Program.replay_straight_of_stopsAt hstops, Nat.add_sub_cancel_left]
    exact ⟨rfl, rfl⟩
  · obtain ⟨⟨above, hmemory⟩, hdivision⟩ := Program.piled_of_replay e.pilesThroughout_instructions n
    rw [Stacks.pile_ofList] at hmemory
    exact ⟨⟨above.reverse, hmemory⟩, hdivision⟩

open Expression in
/-- A product is put on top of another value, and a quotient has none. -/
theorem expression_computed_pair :
    let product : Expression := .node .mul (.node .sub (.digit 10) (.digit 2)) (.digit 7)
    let quotient : Expression := .node .div (.digit 5) (.node .sub (.digit 3) (.digit 3))
    product.source = "a2-7*;" ∧ product.eval = some (.int 56) ∧
    ((Program.load "a2-7*;" [.int 9] 0).replay (.replicate 6 .advance)).1 =
      .replicate 5 (.step .progressed) ++ [.step .halted] ∧
    ((Program.load "a2-7*;" [.int 9] 0).replay (.replicate 6 .advance)).2.state.memory =
      { active := .ofList [.int 9, .int 56] } ∧
    quotient.source = "533-,;" ∧ quotient.eval = none ∧
    ((Program.load "533-,;" [.int 9] 0).replay (.replicate 5 .advance)).2.termination =
      some (.failed .divisionByZero) := by
  intro product quotient
  have hproduct : product.source = "a2-7*;" := by decide
  have hquotient : quotient.source = "533-,;" := by decide
  have hvalue : product.eval = some (.int 56) := by decide
  have hnone : quotient.eval = none := by decide
  obtain ⟨hhalts, -, -⟩ := expression_computed product [.int 9] 0
  obtain ⟨-, hfails, -⟩ := expression_computed quotient [.int 9] 0
  have hrun := hhalts (.int 56) hvalue
  obtain ⟨k, hk, hends⟩ := hfails hnone
  rw [hproduct] at hrun
  rw [hquotient] at hends
  refine ⟨hproduct, hvalue, congrArg Prod.fst hrun, ?_, hquotient, hnone, (hends 5 hk).2⟩
  exact congrArg (fun run => run.2.state.memory) hrun

end Fish
