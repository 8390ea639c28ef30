import Fish.Proofs.CheckedAgreement
import Fish.Proofs.IntegerParts

/-!
How operations fail. Each looks at its operands first, so that too few of them are found out before
anything is asked of them. What comes after the operands are fit cannot fail any more, and so an
effect fails as its first operation does.
-/

namespace Fish

namespace Stack

/-- The fault of a stack that has fewer values than are needed. -/
def lack (needed : Nat) (s : Stack) : Option Fault :=
  if s.size < needed then some (.stackUnderflow needed s.size) else none

theorem failure?_pop (s : Stack) : failure? pop s = s.lack 1 := by
  obtain ⟨_ | ⟨top, rest⟩, register⟩ := s <;> rfl

theorem failure?_duplicate (s : Stack) : failure? duplicate s = s.lack 1 := by
  obtain ⟨_ | ⟨top, rest⟩, register⟩ := s <;> rfl

theorem failure?_swap2 (s : Stack) : failure? swap2 s = s.lack 2 := by
  obtain ⟨_ | ⟨top, _ | ⟨below, rest⟩⟩, register⟩ := s <;> rfl

theorem failure?_swap3 (s : Stack) : failure? swap3 s = s.lack 3 := by
  obtain ⟨_ | ⟨a, _ | ⟨b, _ | ⟨c, rest⟩⟩⟩, register⟩ := s <;> rfl

theorem failure?_toggleRegister (s : Stack) :
    failure? toggleRegister s = s.lack (if s.register = none then 1 else 0) := by
  obtain ⟨_ | ⟨top, rest⟩, _ | v⟩ := s <;> rfl

theorem peek2_of_lack {s : Stack} (h : s.size < 2) : peek2 s = underflow 2 s := by
  obtain ⟨_ | ⟨top, _ | ⟨below, rest⟩⟩, register⟩ := s
  · rfl
  · rfl
  · exact absurd h (Nat.not_lt_of_le (Nat.le_add_left 2 rest.length))

theorem peek_zero_of_lack {s : Stack} (h : s.size < 1) : peek 0 s = underflow 1 s := by
  obtain ⟨_ | ⟨top, rest⟩, register⟩ := s
  · rfl
  · exact absurd h (Nat.not_lt_of_le (Nat.le_add_left 1 rest.length))

theorem peek_of_lt {depth : Nat} {s : Stack} (h : depth < s.size) :
    peek depth s = .ok s.values[depth] s := by
  rw [peek, List.getElem?_eq_getElem h]

theorem peek_of_le {depth : Nat} {s : Stack} (h : s.size ≤ depth) :
    peek depth s = .error (.stackUnderflow (depth + 1) s.size) s := by
  rw [peek, List.getElem?_eq_none h]
  rfl

/-- Where the operands are looked at, too few of them are found out first. -/
theorem failure?_of_lack_two {α : Type} {s : Stack} (h : s.size < 2)
    (next : Value × Value → StackOp α) :
    failure? (peek2 >>= next) s = some (.stackUnderflow 2 s.size) :=
  failure?_bind_of_error (peek2_of_lack h) next

theorem failure?_of_lack_one {α : Type} {s : Stack} (h : s.size < 1) (next : Value → StackOp α) :
    failure? (peek 0 >>= next) s = some (.stackUnderflow 1 s.size) :=
  failure?_bind_of_error (peek_zero_of_lack h) next

section Values

variable {s : Stack} {x y v : Value} {rest : List Value}

theorem failure?_combine_iff (hvalues : s.values = y :: x :: rest)
    (f : Value → Value → Except Fault Value) (e : Fault) :
    failure? (combine f) s = some e ↔ f x y = .error e := by
  obtain ⟨values, register⟩ := s
  subst hvalues
  have hpeek : peek2 ⟨y :: x :: rest, register⟩ = .ok (x, y) ⟨y :: x :: rest, register⟩ := rfl
  rw [combine, failure?_bind_of_ok hpeek]
  dsimp only
  cases f x y with
  | ok v => exact iff_of_false (Option.some_ne_none e).symm (fun h => by cases h)
  | error e' => rw [failure?_throw, Option.some.injEq, Except.error.injEq]

theorem failure?_takePlace_iff (hvalues : s.values = y :: x :: rest) (e : Fault) :
    failure? takePlace s = some e ↔
      x.isFinite = false ∧ e = .invalidCoordinate x ∨
        x.isFinite = true ∧ y.isFinite = false ∧ e = .invalidCoordinate y := by
  obtain ⟨values, register⟩ := s
  subst hvalues
  have hpeek : peek2 ⟨y :: x :: rest, register⟩ = .ok (x, y) ⟨y :: x :: rest, register⟩ := rfl
  rw [takePlace, failure?_bind_of_ok hpeek]
  dsimp only
  rcases x.coordinate_eq with ⟨hx, hcolumn⟩ | ⟨hx, column, hcolumn⟩
  · rw [hcolumn]
    dsimp only
    rw [failure?_throw, Option.some.injEq, @eq_comm _ _ e]
    simp [hx]
  · rcases y.coordinate_eq with ⟨hy, hrow⟩ | ⟨hy, row, hrow⟩
    · rw [hcolumn, hrow]
      dsimp only
      rw [failure?_throw, Option.some.injEq, @eq_comm _ _ e]
      simp [hx, hy]
    · have htaken : failure? (do let _ ← pop2; return (column, row) : StackOp (Int64 × Int64))
          ⟨y :: x :: rest, register⟩ = none := rfl
      rw [hcolumn, hrow]
      dsimp only
      rw [htaken]
      simp [hx, hy]

theorem failure?_takeChar_iff (hvalues : s.values = v :: rest) (e : Fault) :
    failure? takeChar s = some e ↔ v.toChar? = none ∧ e = .invalidCharacter v := by
  have htop : s.top? = some v := by rw [top?, hvalues, List.head?_cons]
  rw [failure?, takeChar_eq, htop]
  dsimp only
  cases v.toChar? with
  | none => simp [eq_comm]
  | some c => simp

theorem failure?_peek (depth : Nat) (s : Stack) : failure? (peek depth) s = s.lack (depth + 1) := by
  by_cases hlt : depth < s.size
  · rw [failure?_of_ok (peek_of_lt hlt), lack, if_neg (by omega)]
  · rw [failure?_of_error (peek_of_le (Nat.le_of_not_lt hlt)), lack, if_pos (by omega)]

theorem failure?_takeCount (hvalues : s.values = v :: rest) :
    failure? takeCount s = match v.toCount? with
      | some count => s.lack (count.toNat + 1)
      | none => some (.invalidCount v) := by
  obtain ⟨values, register⟩ := s
  subst hvalues
  have hpeek : peek 0 ⟨v :: rest, register⟩ = .ok v ⟨v :: rest, register⟩ := rfl
  rw [takeCount, failure?_bind_of_ok hpeek]
  cases hcount : v.toCount? with
  | none => rfl
  | some count =>
    dsimp only
    rw [← failure?_peek]
    cases hbelow : peek count.toNat ⟨v :: rest, register⟩ with
    | ok w t =>
      obtain rfl := looking_peek _ _ _ _ hbelow
      rw [failure?_of_ok hbelow, failure?_bind_of_ok hbelow]
      rfl
    | error e t => rw [failure?_of_error hbelow, failure?_bind_of_error hbelow]

end Values

end Stack

namespace Stacks

theorem failure?_onActive {α : Type} (op : StackOp α) (s : Stacks) :
    failure? (onActive op) s = failure? op s.active := by
  unfold failure? onActive
  cases op s.active <;> rfl

/-- Once the count is taken, opening a stack cannot fail. -/
theorem failure?_openCounted (s : Stacks) :
    failure? openCounted s = failure? Stack.takeCount s.active := by
  rw [openCounted, ← failure?_onActive]
  cases hcount : onActive Stack.takeCount s with
  | ok count t =>
    have hle := Stack.le_size_of_takeCount (onActive_ok hcount)
    rw [failure?_bind_of_ok hcount, failure?_of_ok hcount, failure?, openStack,
      Stack.split_of_le hle]
  | error e t => rw [failure?_bind_of_error hcount, failure?_of_error hcount]

theorem failure?_closeStack (s : Stacks) :
    failure? closeStack s = if s.depth = 1 then some .noEnclosingStack else none := by
  obtain ⟨active, _ | ⟨below, rest⟩⟩ := s <;> rfl

end Stacks

namespace State

theorem failure?_onStacks {α : Type} (op : StacksOp α) (s : State) :
    failure? (onStacks op) s = (failure? op s.memory).map .fatal := by
  unfold failure? onStacks
  cases op s.memory <;> rfl

theorem failure?_onStack {α : Type} (op : StackOp α) (s : State) :
    failure? (onStack op) s = (failure? op s.memory.active).map .fatal := by
  rw [onStack, failure?_onStacks, Stacks.failure?_onActive]

theorem failure?_receive (s : State) :
    failure? receive s =
      if s.channel.pending = [] ∧ s.channel.closed = false then some .blocked else none := by
  obtain ⟨pointer, memory, ⟨_ | ⟨c, pending⟩, closed, output⟩, quote, random⟩ := s
  · cases closed <;> rfl
  · rfl

end State

theorem Value.div?_eq_none_iff (a b : Value) : a.div? b = none ↔ b.isZero = true := by
  unfold div?
  split
  · rename_i h
    exact iff_of_true rfl h
  · rename_i h
    exact iff_of_false (Option.some_ne_none _) h

theorem Value.rem?_eq_none_iff (a b : Value) : a.rem? b = none ↔ b.isZero = true := by
  unfold rem?
  split
  · rename_i h
    exact iff_of_true rfl h
  · rename_i h
    exact iff_of_false (Option.some_ne_none _) h

/-- Only the divisions can be without a result. -/
theorem Operator.apply_error_iff (op : Operator) (below top : Value) (e : Fault) :
    op.apply below top = .error e ↔
      (op = .div ∨ op = .rem) ∧ top.isZero = true ∧ e = .divisionByZero := by
  cases op with
  | div =>
    rw [apply, ← Value.div?_eq_none_iff below top]
    cases below.div? top <;> simp [eq_comm]
  | rem =>
    rw [apply, ← Value.rem?_eq_none_iff below top]
    cases below.rem? top <;> simp [eq_comm]
  | _ => simp [apply]

end Fish
