import Fish.Proofs.LightPaths

/-!
The pointer walks around a torus. From a cell of the codebox, so many steps add so many times the
direction to the place, and each axis is walked around. So the pointer is back exactly when it has
gone whole laps, and it goes the same way back when it is turned about. A jump may aim anywhere:
what counts of its target are the remainders along both axes.
-/

namespace Fish

namespace Codebox

theorem wrapX_wrapX_add (box : Codebox) (x d : Int) :
    box.wrapX (box.wrapX x + d) = box.wrapX (x + d) := by
  rw [wrapX, cast_wrapX, Int.emod_add_emod]
  rfl

theorem wrapY_wrapY_add (box : Codebox) (y d : Int) :
    box.wrapY (box.wrapY y + d) = box.wrapY (y + d) := by
  rw [wrapY, cast_wrapY, Int.emod_add_emod]
  rfl

/-- Along an axis, what leads from a cell to the same cell are the multiples of the extent. -/
theorem emod_eq_place_iff {extent place : Nat} (h : place < extent) (d : Int) :
    (place + d) % extent = place ↔ (extent : Int) ∣ d := by
  have hplace : (place + 0 : Int) % extent = place := by
    rw [Int.add_zero, Int.emod_eq_of_lt (by omega) (by omega)]
  calc (place + d) % extent = place
    _ ↔ (place + d) % extent = (place + 0 : Int) % extent := by rw [hplace]
    _ ↔ d % extent = 0 % extent := Int.emod_add_cancel_left
    _ ↔ (extent : Int) ∣ d := by rw [Int.zero_emod, Int.dvd_iff_emod_eq_zero]

theorem wrapX_eq_iff {box : Codebox} {x : Nat} (h : x < box.width) (d : Int) :
    box.wrapX (x + d) = x ↔ (box.width : Int) ∣ d := by
  rw [← Int.ofNat_inj, cast_wrapX, emod_eq_place_iff h]

theorem wrapY_eq_iff {box : Codebox} {y : Nat} (h : y < box.height) (d : Int) :
    box.wrapY (y + d) = y ↔ (box.height : Int) ∣ d := by
  rw [← Int.ofNat_inj, cast_wrapY, emod_eq_place_iff h]

end Codebox

/-- The number of cells on the way around in a direction. -/
def Direction.lap (box : Codebox) : Direction → Nat
  | up => box.height
  | down => box.height
  | left => box.width
  | right => box.width

namespace Pointer

variable {box : Codebox} {p q : Pointer}

/-- A jump changes the place only. -/
theorem jump_eq_iff (h : q.direction = p.direction) (x y : Int) :
    p.jump box x y = q ↔ box.wrapX x = q.x ∧ box.wrapY y = q.y := by
  obtain ⟨qx, qy, d⟩ := q
  obtain rfl : d = p.direction := h
  simp only [jump, mk.injEq, and_true]

theorem jump_of_inside (h : p.Inside box) : p.jump box p.x p.y = p := by
  have hx := (Codebox.wrapX_eq_iff h.1 0).mpr (Int.dvd_zero _)
  have hy := (Codebox.wrapY_eq_iff h.2 0).mpr (Int.dvd_zero _)
  rw [Int.add_zero] at hx hy
  exact (jump_eq_iff rfl _ _).mpr ⟨hx, hy⟩

/-- Two jumps lead to the same cell where the remainders of their targets are the same. -/
theorem jump_eq_jump_iff (x y x' y' : Int) :
    p.jump box x' y' = p.jump box x y ↔
      x' % box.width = x % box.width ∧ y' % box.height = y % box.height := by
  have hdirection : (p.jump box x y).direction = p.direction := rfl
  rw [jump_eq_iff hdirection, ← Int.ofNat_inj, ← Int.ofNat_inj]
  simp only [jump, Codebox.cast_wrapX, Codebox.cast_wrapY]

/-- A step from where a jump has led is a jump that aims one cell further. -/
theorem moveOn_jump (box : Codebox) (x y : Int) (p : Pointer) :
    (p.jump box x y).moveOn box = p.jump box (x + p.direction.dx) (y + p.direction.dy) := by
  have hinside := inside_jump box x y p
  rw [moveOn_of_inside box _ hinside.1 hinside.2]
  simp only [jump, Codebox.wrapX_wrapX_add, Codebox.wrapY_wrapY_add]

theorem iterate_moveOn (h : p.Inside box) (n : Nat) :
    (moveOn box)^[n] p = p.jump box (p.x + n * p.direction.dx) (p.y + n * p.direction.dy) := by
  induction n with
  | zero =>
    simp only [Function.iterate_zero_apply, Int.natCast_zero, Int.zero_mul, Int.add_zero,
      jump_of_inside h]
  | succ n ih =>
    rw [Function.iterate_succ_apply', ih, moveOn_jump]
    simp only [Int.natCast_succ, Int.add_mul, Int.one_mul, Int.add_assoc]

theorem iterate_moveOn_eq_iff (h : p.Inside box) (n : Nat) :
    (moveOn box)^[n] p = p ↔ p.direction.lap box ∣ n := by
  have hplace : (moveOn box)^[n] p = p ↔
      (box.width : Int) ∣ n * p.direction.dx ∧ (box.height : Int) ∣ n * p.direction.dy := by
    rw [iterate_moveOn h, jump_eq_iff rfl, Codebox.wrapX_eq_iff h.1, Codebox.wrapY_eq_iff h.2]
  -- Along one of the axes the pointer does not move at all.
  rw [hplace]
  cases p.direction <;>
    simp [Direction.dx, Direction.dy, Direction.lap, Int.natCast_dvd_natCast]

/-- Turned about, the pointer goes the same way back. -/
theorem iterate_moveOn_turnBack (h : p.Inside box) (n : Nat) :
    (moveOn box)^[n] ((moveOn box)^[n] p).turnBack = p.turnBack := by
  have hinside : ((moveOn box)^[n] p).turnBack.Inside box := by
    rw [iterate_moveOn h]
    exact inside_jump box _ _ p
  rw [iterate_moveOn hinside, iterate_moveOn h]
  simp only [turnBack, turn, jump, Direction.dx_opposite, Direction.dy_opposite, Int.mul_neg,
    Codebox.wrapX_back h.1, Codebox.wrapY_back h.2]

end Pointer

open Pointer in
/-- The pointer walks around a torus: where it comes to, by steps or by a jump, is a matter of
remainders. -/
theorem walks_torus (box : Codebox) (p : Pointer) :
    (p.Inside box → ∀ n : Nat,
      let q := (moveOn box)^[n] p
      (q.direction = p.direction ∧
        (q.x : Int) = (p.x + n * p.direction.dx) % box.width ∧
        (q.y : Int) = (p.y + n * p.direction.dy) % box.height) ∧
      (q = p ↔ p.direction.lap box ∣ n) ∧
      (0 < n → n < p.direction.lap box → (q.x, q.y) ≠ (p.x, p.y)) ∧
      (moveOn box)^[n] q.turnBack = p.turnBack) ∧
    ∀ x y : Int64,
      let q := p.jump box x.toInt y.toInt
      (q.direction = p.direction ∧ q.x < box.width ∧ q.y < box.height) ∧
      ((q.x : Int) = x.toInt % box.width ∧ (q.y : Int) = y.toInt % box.height) ∧
      ∀ x' y' : Int64, p.jump box x'.toInt y'.toInt = q ↔
        x'.toInt % box.width = x.toInt % box.width ∧
          y'.toInt % box.height = y.toInt % box.height := by
  refine ⟨fun h n => ?_, fun x y => ?_⟩
  · intro q
    have hq : q = p.jump box (p.x + n * p.direction.dx) (p.y + n * p.direction.dy) :=
      iterate_moveOn h n
    have hback := iterate_moveOn_eq_iff h n
    refine ⟨⟨?_, ?_, ?_⟩, hback, ?_, iterate_moveOn_turnBack h n⟩
    · rw [hq]
      rfl
    · rw [hq]
      exact box.cast_wrapX _
    · rw [hq]
      exact box.cast_wrapY _
    · intro hpos hlt hsame
      obtain ⟨hx, hy⟩ := Prod.ext_iff.mp hsame
      have heq : q = p := by
        rw [hq] at hx hy ⊢
        exact (jump_eq_iff rfl _ _).mpr ⟨hx, hy⟩
      exact Nat.not_dvd_of_pos_of_lt hpos hlt (hback.mp heq)
  · intro q
    refine ⟨⟨rfl, box.wrapX_lt _, box.wrapY_lt _⟩, ⟨box.cast_wrapX _, box.cast_wrapY _⟩, ?_⟩
    intro x' y'
    exact jump_eq_jump_iff _ _ _ _

open Pointer in
/-- Seven steps to the left in a row of three cells lead over the edge three times, and six are two
laps. The least and the greatest of all targets lie inside, too. -/
theorem walks_torus_leftward :
    let box := Codebox.ofSource "abc\nde"
    let p : Pointer := ⟨0, 1, .left⟩
    p.Inside box ∧ p.direction.lap box = 3 ∧
    ((((moveOn box)^[7] p).x : Int) = 2 ∧ (moveOn box)^[7] p ≠ p ∧ (moveOn box)^[6] p = p ∧
      (moveOn box)^[7] ((moveOn box)^[7] p).turnBack = ⟨0, 1, .right⟩) ∧
    ((p.jump box Int64.minValue.toInt Int64.maxValue.toInt).x : Int) = 1 ∧
    p.jump box (-2) 1 = p.jump box Int64.minValue.toInt Int64.maxValue.toInt := by
  intro box p
  have hinside : p.Inside box := ⟨by decide, by decide⟩
  have hlap : p.direction.lap box = 3 := by decide
  obtain ⟨hwalk, hjump⟩ := walks_torus box p
  obtain ⟨⟨-, hx, -⟩, hseven, -, hundo⟩ := hwalk hinside 7
  obtain ⟨-, hsix, -, -⟩ := hwalk hinside 6
  obtain ⟨-, ⟨hleast, -⟩, hsame⟩ := hjump Int64.minValue Int64.maxValue
  rw [hlap] at hseven hsix
  refine ⟨hinside, hlap, ⟨?_, ?_, hsix.mpr (by decide), hundo⟩, ?_, ?_⟩
  · exact hx.trans (by decide)
  · exact fun heq => absurd (hseven.mp heq) (by decide)
  · exact hleast.trans (by decide)
  · exact (hsame (-2) 1).mpr (by decide)

end Fish
