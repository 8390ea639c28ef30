import Mathlib.Data.List.Rotate
import Mathlib.Logic.Equiv.Basic
import Fish.Proofs.Failures

/-!
Rearrangements of a stack. The shifts turn the values around, bottom first, as a list is rotated;
the reversal turns a shift in one sense into one in the other, and the exchange of three values is a
shift of these alone. Each of them only moves values from index to index, and leaves the register
alone; what the register takes, it gives back.
-/

namespace Fish.Stack

variable {s t : Stack} {k : Nat}

/-- Does an operation so many times. -/
def repeated (op : StackOp Unit) : Nat → StackOp Unit
  | 0 => pure ()
  | k + 1 => do
    op
    repeated op k

/-- The stack with other values, listed bottom first, and the same register. -/
def withList (row : List Value) (s : Stack) : Stack := { s with values := row.reverse }

@[simp] theorem toList_withList (row : List Value) (s : Stack) : (s.withList row).toList = row :=
  List.reverse_reverse row

@[simp] theorem register_withList (row : List Value) (s : Stack) :
    (s.withList row).register = s.register := rfl

@[simp] theorem withList_withList (row row' : List Value) (s : Stack) :
    (s.withList row).withList row' = s.withList row' := rfl

@[simp] theorem withList_toList (s : Stack) : s.withList s.toList = s := by
  rw [withList, toList, List.reverse_reverse]

theorem length_toList (s : Stack) : s.toList.length = s.size := List.length_reverse

theorem size_withList (row : List Value) (s : Stack) : (s.withList row).size = row.length :=
  List.length_reverse

/-- The value at each index is at the place of that index afterwards, and the register is as it
was. -/
structure Moves (place : Nat → Nat) (s t : Stack) : Prop where
  register_eq : t.register = s.register
  size_eq : t.size = s.size
  value_eq : ∀ i, i < s.size → t.toList[place i]? = s.toList[i]?

section Shifts

theorem shiftLeft_eq (s : Stack) : shiftLeft s = .ok () (s.withList (s.toList.rotate 1)) := by
  obtain ⟨values, register⟩ := s
  rcases List.eq_nil_or_concat' values with rfl | ⟨upper, bottom, rfl⟩
  · rfl
  · have hrow : (⟨upper ++ [bottom], register⟩ : Stack).toList = bottom :: upper.reverse :=
      List.reverse_concat
    rw [shiftLeft, hrow, List.rotate_cons_succ, List.rotate_zero, withList]
    simp only [List.getLast?_concat, List.dropLast_concat, List.reverse_append,
      List.reverse_reverse, List.reverse_singleton, List.singleton_append]

theorem shiftRight_eq (s : Stack) :
    shiftRight s = .ok () (s.withList (s.toList.rotate (s.size - 1))) := by
  obtain ⟨_ | ⟨top, rest⟩, register⟩ := s
  · rfl
  · have hrow : (⟨top :: rest, register⟩ : Stack).toList = rest.reverse ++ [top] :=
      List.reverse_cons
    have hsize : (⟨top :: rest, register⟩ : Stack).size - 1 = rest.reverse.length :=
      List.length_reverse.symm
    rw [shiftRight, hrow, hsize, List.rotate_append_length_eq, withList, List.reverse_append,
      List.reverse_reverse]
    rfl

theorem reverse_eq (s : Stack) : reverse s = .ok () (s.withList s.toList.reverse) := by
  rw [reverse, withList, toList, List.reverse_reverse]

theorem repeated_shiftLeft (k : Nat) (s : Stack) :
    repeated shiftLeft k s = .ok () (s.withList (s.toList.rotate k)) := by
  induction k generalizing s with
  | zero => rw [List.rotate_zero, withList_toList]; rfl
  | succ k ih =>
    rw [repeated, bind_of_ok (shiftLeft_eq s), ih, withList_withList, toList_withList,
      List.rotate_rotate, Nat.add_comm]

theorem rotate_back (row : List Value) : row.rotate (1 + (row.length - 1)) = row := by
  cases row with
  | nil => rfl
  | cons v row =>
    rw [List.length_cons, Nat.add_sub_cancel, Nat.add_comm]
    exact List.rotate_length (v :: row)

theorem shiftLeft_shiftRight (s : Stack) :
    (do shiftLeft; shiftRight : StackOp Unit) s = .ok () s := by
  rw [bind_of_ok (shiftLeft_eq s), shiftRight_eq, withList_withList, toList_withList,
    size_withList, List.length_rotate, List.rotate_rotate, rotate_back, withList_toList]

theorem shiftRight_shiftLeft (s : Stack) :
    (do shiftRight; shiftLeft : StackOp Unit) s = .ok () s := by
  rw [bind_of_ok (shiftRight_eq s), shiftLeft_eq, withList_withList, toList_withList,
    List.rotate_rotate, Nat.add_comm, ← length_toList, rotate_back, withList_toList]

/-- Seen from the other end, a shift goes the other way. -/
theorem shiftRight_eq_reversed (s : Stack) :
    shiftRight s = (do reverse; shiftLeft; reverse : StackOp Unit) s := by
  rw [bind_of_ok (reverse_eq s), bind_of_ok (shiftLeft_eq _), reverse_eq, withList_withList,
    withList_withList, toList_withList, toList_withList]
  obtain ⟨_ | ⟨top, rest⟩, register⟩ := s
  · rfl
  · rw [shiftRight, withList, toList, List.reverse_reverse, List.reverse_reverse,
      List.rotate_cons_succ, List.rotate_zero]

theorem reverse_reverse (s : Stack) : (do reverse; reverse : StackOp Unit) s = .ok () s := by
  rw [bind_of_ok (reverse_eq s), reverse_eq, withList_withList, toList_withList,
    List.reverse_reverse, withList_toList]

/-- A rotation takes the value at the index `i` down by so many places, around the bottom. -/
theorem moves_rotate (k : Nat) (s : Stack) :
    Moves (fun i => (((i : Int) - k) % s.size).toNat) s (s.withList (s.toList.rotate k)) where
  register_eq := register_withList _ s
  size_eq := by rw [size_withList, List.length_rotate, length_toList]
  value_eq i hi := by
    have hpos : (0 : Int) < s.size := by omega
    have hnonneg := Int.emod_nonneg ((i : Int) - k) (Int.ne_of_gt hpos)
    have hlt := Int.emod_lt_of_pos ((i : Int) - k) hpos
    have hback : ((((i : Int) - k) % s.size).toNat + k) % s.size = i := by
      apply Int.natCast_inj.mp
      rw [Int.natCast_emod, Int.natCast_add, Int.toNat_of_nonneg hnonneg, Int.emod_add_emod,
        Int.sub_add_cancel]
      exact Int.emod_eq_of_lt (Int.natCast_nonneg i) (by omega)
    rw [toList_withList, List.getElem?_rotate (by rw [length_toList]; omega), length_toList, hback]

theorem moves_reverse (s : Stack) :
    Moves (fun i => s.size - 1 - i) s (s.withList s.toList.reverse) where
  register_eq := register_withList _ s
  size_eq := by rw [size_withList, List.length_reverse, length_toList]
  value_eq i hi := by
    have hlength := length_toList s
    rw [toList_withList, List.getElem?_reverse (by omega)]
    congr 1
    omega

end Shifts

section Exchanges

/-- An operation that fails only for the lack of values succeeds where there are enough. -/
theorem exists_ok_iff_of_lack {op : StackOp Unit} {needed : Nat}
    (h : failure? op s = s.lack needed) : (∃ t, op s = .ok () t) ↔ needed ≤ s.size := by
  constructor
  · rintro ⟨t, hok⟩
    rw [failure?_of_ok hok, lack] at h
    by_contra hlt
    rw [if_pos (Nat.lt_of_not_le hlt)] at h
    cases h
  · intro hle
    cases hop : op s with
    | ok _ t => exact ⟨t, rfl⟩
    | error e t =>
      rw [failure?_of_error hop, lack, if_neg (Nat.not_lt.mpr hle)] at h
      cases h

theorem swap2_swap2 (h : swap2 s = .ok () t) : swap2 t = .ok () s := by
  obtain ⟨_ | ⟨top, _ | ⟨below, rest⟩⟩, register⟩ := s
  · cases h
  · cases h
  · cases h
    rfl

/-- The exchange of two values moves these alone. -/
theorem moves_swap2 (h : swap2 s = .ok () t) :
    Moves (Equiv.swap (s.size - 1) (s.size - 2)) s t := by
  obtain ⟨_ | ⟨top, _ | ⟨below, rest⟩⟩, register⟩ := s
  · cases h
  · cases h
  · cases h
    refine ⟨rfl, rfl, fun i hi => ?_⟩
    have hs : (⟨top :: below :: rest, register⟩ : Stack).toList = rest.reverse ++ [below, top] := by
      simp [toList]
    have ht : (⟨below :: top :: rest, register⟩ : Stack).toList = rest.reverse ++ [top, below] := by
      simp [toList]
    have hrest : rest.reverse.length = rest.length := List.length_reverse
    have hupper : (⟨top :: below :: rest, register⟩ : Stack).size - 1 = rest.length + 1 := rfl
    have hlower : (⟨top :: below :: rest, register⟩ : Stack).size - 2 = rest.length := rfl
    have hi' : i < rest.length + 2 := hi
    rw [hs, ht, hupper, hlower]
    rcases Nat.lt_or_ge i rest.length with hbeneath | hge
    · rw [Equiv.swap_apply_of_ne_of_ne (by omega) (by omega),
        List.getElem?_append_left (by omega), List.getElem?_append_left (by omega)]
    · obtain rfl | rfl : i = rest.length ∨ i = rest.length + 1 := by omega
      · rw [Equiv.swap_apply_right, List.getElem?_append_right (by omega),
          List.getElem?_append_right (by omega), hrest, Nat.add_sub_cancel_left, Nat.sub_self]
        rfl
      · rw [Equiv.swap_apply_left, List.getElem?_append_right (by omega),
          List.getElem?_append_right (by omega), hrest, Nat.add_sub_cancel_left, Nat.sub_self]
        rfl

theorem swap3_swap3 (h : swap3 s = .ok () t) : (do swap3; swap3 : StackOp Unit) t = .ok () s := by
  obtain ⟨_ | ⟨c, _ | ⟨b, _ | ⟨a, rest⟩⟩⟩, register⟩ := s
  · cases h
  · cases h
  · cases h
  · cases h
    rfl

/-- The exchange of three values changes nothing only where they are the same. -/
theorem swap3_eq_self_iff (h : swap3 s = .ok () t) : t = s ↔ ∃ v, s.values.take 3 = [v, v, v] := by
  obtain ⟨_ | ⟨c, _ | ⟨b, _ | ⟨a, rest⟩⟩⟩, register⟩ := s
  · cases h
  · cases h
  · cases h
  · cases h
    simp only [mk.injEq, List.cons.injEq, and_true, List.take_succ_cons, List.take_zero]
    constructor
    · rintro ⟨hb, ha, -⟩
      exact ⟨c, rfl, hb, ha.trans hb⟩
    · rintro ⟨v, rfl, rfl, rfl⟩
      exact ⟨rfl, rfl, rfl⟩

/-- The exchange of three values is a shift of these alone. -/
theorem swap3_eq_shifted (h : swap3 s = .ok () t) :
    ∃ u, shiftRight (ofList (s.toList.drop (s.size - 3))) = .ok () u ∧
      t = s.withList (s.toList.take (s.size - 3) ++ u.toList) := by
  obtain ⟨_ | ⟨c, _ | ⟨b, _ | ⟨a, rest⟩⟩⟩, register⟩ := s
  · cases h
  · cases h
  · cases h
  · cases h
    have hrow : (⟨c :: b :: a :: rest, register⟩ : Stack).toList = rest.reverse ++ [a, b, c] := by
      simp [toList]
    have hsize : (⟨c :: b :: a :: rest, register⟩ : Stack).size - 3 = rest.reverse.length :=
      List.length_reverse.symm
    refine ⟨.ofList [c, a, b], ?_, ?_⟩
    · rw [hrow, hsize, List.drop_left]
      rfl
    · rw [hrow, hsize, List.take_left, withList, List.reverse_append, List.reverse_reverse]
      rfl

theorem toggleRegister_toggleRegister (h : toggleRegister s = .ok () t) :
    toggleRegister t = .ok () s := by
  obtain ⟨_ | ⟨top, rest⟩, _ | v⟩ := s
  · cases h
  all_goals
    cases h
    rfl

end Exchanges

/-- Where the rearrangements of a stack move its values, and what undoes each of them. What the
register takes it gives back, and what it gives it takes back. -/
theorem rearrangements (s : Stack) :
    (∀ k : Nat, ∃ t, repeated shiftLeft k s = .ok () t ∧
      Moves (fun i => (((i : Int) - k) % s.size).toNat) s t) ∧
    repeated shiftLeft s.size s = .ok () s ∧
    (do shiftLeft; shiftRight : StackOp Unit) s = .ok () s ∧
    (do shiftRight; shiftLeft : StackOp Unit) s = .ok () s ∧
    shiftRight s = (do reverse; shiftLeft; reverse : StackOp Unit) s ∧
    (∃ t, reverse s = .ok () t ∧ Moves (fun i => s.size - 1 - i) s t ∧ reverse t = .ok () s) ∧
    ((∃ t, swap2 s = .ok () t) ↔ 2 ≤ s.size) ∧
    (∀ t, swap2 s = .ok () t →
      swap2 t = .ok () s ∧ Moves (Equiv.swap (s.size - 1) (s.size - 2)) s t) ∧
    ((∃ t, swap3 s = .ok () t) ↔ 3 ≤ s.size) ∧
    (∀ t, swap3 s = .ok () t →
      (do swap3; swap3 : StackOp Unit) t = .ok () s ∧
      (t = s ↔ ∃ v, s.values.take 3 = [v, v, v]) ∧
      ∃ u, shiftRight (ofList (s.toList.drop (s.size - 3))) = .ok () u ∧
        t = s.withList (s.toList.take (s.size - 3) ++ u.toList)) ∧
    ((∃ t, toggleRegister s = .ok () t) ↔ (if s.register = none then 1 else 0) ≤ s.size) ∧
    ∀ t, toggleRegister s = .ok () t → toggleRegister t = .ok () s := by
  have hlap : repeated shiftLeft s.size s = .ok () s := by
    rw [repeated_shiftLeft, ← length_toList, List.rotate_length, withList_toList]
  have hreverse : reverse (s.withList s.toList.reverse) = .ok () s := by
    rw [← bind_of_ok (reverse_eq s) fun _ => reverse]
    exact reverse_reverse s
  refine ⟨fun k => ⟨_, repeated_shiftLeft k s, moves_rotate k s⟩, hlap, shiftLeft_shiftRight s,
    shiftRight_shiftLeft s, shiftRight_eq_reversed s,
    ⟨_, reverse_eq s, moves_reverse s, hreverse⟩, exists_ok_iff_of_lack (failure?_swap2 s),
    fun t h => ⟨swap2_swap2 h, moves_swap2 h⟩, exists_ok_iff_of_lack (failure?_swap3 s), fun t h => ?_,
    exists_ok_iff_of_lack (failure?_toggleRegister s), fun t => toggleRegister_toggleRegister⟩
  exact ⟨swap3_swap3 h, swap3_eq_self_iff h, swap3_eq_shifted h⟩

/-- Five shifts of three values, exchanges with some beneath, and an occupied register. -/
theorem rearrangements_four :
    let three : Stack := ⟨[.int 3, .int 2, .int 1], none⟩
    let four : Stack := ⟨[.int 4, .int 3, .int 2, .int 1], some (.int 9)⟩
    (∃ t, repeated shiftLeft 5 three = .ok () t ∧ t.toList[1]? = some (.int 1)) ∧
    (∃ t, swap2 four = .ok () t ∧ t.toList[3]? = some (.int 3)) ∧
    swap3 four = .ok () ⟨[.int 3, .int 2, .int 4, .int 1], some (.int 9)⟩ ∧
    (do swap3; swap3 : StackOp Unit) ⟨[.int 3, .int 2, .int 4, .int 1], some (.int 9)⟩ =
      .ok () four ∧
    toggleRegister ⟨[.int 9, .int 4, .int 3, .int 2, .int 1], none⟩ = .ok () four := by
  intro three four
  obtain ⟨t, hshift, hmoves⟩ := (rearrangements three).1 5
  have hplace : (((0 : Nat) - (5 : Nat) : Int) % three.size).toNat = 1 := by decide
  have hindex := hmoves.value_eq 0 (by decide)
  rw [hplace] at hindex
  have hswap : swap3 four = .ok () ⟨[.int 3, .int 2, .int 4, .int 1], some (.int 9)⟩ := rfl
  obtain ⟨-, -, -, -, -, -, -, htwo, -, hthree, -, hregister⟩ := rearrangements four
  have hexchanged := (htwo _ rfl).2.value_eq 2 (by decide)
  exact ⟨⟨t, hshift, hindex⟩, ⟨_, rfl, hexchanged⟩, hswap, (hthree _ hswap).1, hregister _ rfl⟩

end Fish.Stack
