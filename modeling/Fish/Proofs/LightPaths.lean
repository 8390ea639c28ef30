import Fish.Proofs.Bounds
import Fish.Proofs.Symbols
import Mathlib.Data.Fintype.Prod
import Mathlib.Dynamics.PeriodicPts.Lemmas

/-!
Paths of light. Over a codebox of mirrors and blanks only the pointer goes on, and it is turned by
the mirrors on its way. Such a path can be traced back: a mirror undoes what it has done, and
turning about undoes a step. So no two pointers are led to the same one, and as there are only so
many on the cells of a codebox, a path comes back to where it began.
-/

namespace Fish

namespace Direction

theorem reflect_reflect (m : Mirror) (d : Direction) : (d.reflect m).reflect m = d := by
  cases m <;> cases d <;> rfl

theorem opposite_opposite (d : Direction) : d.opposite.opposite = d := by cases d <;> rfl

theorem dx_opposite (d : Direction) : d.opposite.dx = -d.dx := by cases d <;> rfl

theorem dy_opposite (d : Direction) : d.opposite.dy = -d.dy := by cases d <;> rfl

theorem ofIndex_surjective : Function.Surjective ofIndex := by
  intro d
  cases d with
  | up => exact ⟨0, rfl⟩
  | down => exact ⟨1, rfl⟩
  | left => exact ⟨2, rfl⟩
  | right => exact ⟨3, rfl⟩

end Direction

namespace Instruction

/-- What a character does to light: a mirror reflects it, and anything else lets it pass. -/
def ofLight (c : Char) : Instruction := ((Mirror.ofChar? c).map reflect).getD blank

theorem ofChar?_of_isBlank {c : Char} (h : Text.isBlank c = true) :
    ofChar? c = some (ofLight c) := by
  have hall : symbols.all fun c => !Text.isBlank c := by decide
  have hnot : c ∉ symbols := by
    intro hmem
    have hblank := List.all_eq_true.mp hall c hmem
    rw [h] at hblank
    cases hblank
  have hmirror : Mirror.ofChar? c = none := by
    cases hm : Mirror.ofChar? c with
    | none => rfl
    | some m =>
      have hsymbol : (reflect m).symbol? = some c := congrArg some (Mirror.symbol_of_ofChar? hm)
      exact absurd (mem_symbols hsymbol) hnot
  rw [ofLight, hmirror]
  cases hc : ofChar? c with
  | none =>
    cases h.symm.trans ((ofChar?_eq_none_iff c).mp hc).2.1
  | some instruction =>
    rcases symbol?_of_ofChar? hc with hsymbol | ⟨rfl, -⟩
    · exact absurd (mem_symbols hsymbol) hnot
    · rfl

/-- Mirrors, blanks and the null character do nothing but to reflect. -/
theorem ofChar?_of_light {c : Char}
    (h : c ∈ ['/', '\\', '|', '_', '#', '\x00'] ∨ Text.isBlank c = true) :
    ofChar? c = some (ofLight c) := by
  rcases h with hlisted | hblank
  · have hall : ['/', '\\', '|', '_', '#', '\x00'].all fun c => ofChar? c = some (ofLight c) := by
      decide
    exact of_decide_eq_true (List.all_eq_true.mp hall c hlisted)
  · exact ofChar?_of_isBlank hblank

end Instruction

namespace Codebox

/-- No cell does anything but to reflect. -/
def Light (box : Codebox) : Prop :=
  ∀ x y, Instruction.ofChar? (box.charAt x y) = some (.ofLight (box.charAt x y))

theorem mem_of_mem_dropReturn {row : List Char} {c : Char} (h : c ∈ dropReturn row) : c ∈ row := by
  unfold dropReturn at h
  split at h
  · exact (List.dropLast_sublist row).subset h
  · exact h

theorem mem_of_mem_line {source line : List Char} {c : Char} (hline : line ∈ lines source)
    (hc : c ∈ line) : c ∈ source := by
  induction source generalizing line with
  | nil =>
    obtain rfl := List.mem_singleton.mp hline
    exact hc
  | cons d source ih =>
    by_cases hnewline : d = '\n'
    · rw [hnewline, lines_newline, List.mem_cons] at hline
      rcases hline with rfl | hrest
      · exact absurd hc List.not_mem_nil
      · exact List.mem_cons_of_mem d (ih hrest hc)
    · cases hrows : lines source with
      | nil =>
        have hlength := length_lines source
        rw [hrows] at hlength
        cases hlength
      | cons row rest =>
        rw [lines_cons hnewline hrows, List.mem_cons] at hline
        rcases hline with rfl | hrest
        · rcases List.mem_cons.mp hc with rfl | hrow
          · exact List.mem_cons_self
          · exact List.mem_cons_of_mem d (ih (hrows ▸ List.mem_cons_self) hrow)
        · exact List.mem_cons_of_mem d (ih (hrows ▸ List.mem_cons_of_mem row hrest) hc)

/-- A cell that was written holds a character of the source. -/
theorem mem_of_stored? {source : String} {x y : Nat} {c : Char}
    (h : (ofSource source).stored? x y = some c) : c ∈ source.toList := by
  obtain ⟨cells, hcells, hc⟩ := Option.bind_eq_some_iff.mp h
  have hmem : cells ∈ (rowsOf source).map List.toArray :=
    List.mem_of_getElem? (by simpa [ofSource, ofRows] using hcells)
  obtain ⟨row, hrow, rfl⟩ := List.mem_map.mp hmem
  obtain ⟨line, hline, rfl⟩ := List.mem_map.mp (mem_of_mem_dropTrailing hrow)
  have hline' : c ∈ dropReturn line := List.mem_of_getElem? (by simpa using hc)
  exact mem_of_mem_line hline (mem_of_mem_dropReturn hline')

theorem light_ofSource {source : String}
    (h : ∀ c ∈ source.toList, c ∈ ['/', '\\', '|', '_', '#', '\x00'] ∨ Text.isBlank c = true) :
    (ofSource source).Light := by
  intro x y
  unfold charAt
  cases hstored : (ofSource source).stored? x y with
  | none => rfl
  | some c => exact Instruction.ofChar?_of_light (h c (mem_of_stored? hstored))

/-- Forward and backward along an axis leads to the same place. -/
theorem emod_back {extent place : Nat} (h : place < extent) (d : Int) :
    (((place + d) % extent + -d) % extent).toNat = place := by
  rw [Int.emod_add_emod, Int.add_neg_cancel_right, Int.emod_eq_of_lt (by omega) (by omega),
    Int.toNat_natCast]

theorem wrapX_back {box : Codebox} {x : Nat} (h : x < box.width) (d : Int) :
    box.wrapX (box.wrapX (x + d) + -d) = x := by
  rw [wrapX, cast_wrapX, emod_back h]

theorem wrapY_back {box : Codebox} {y : Nat} (h : y < box.height) (d : Int) :
    box.wrapY (box.wrapY (y + d) + -d) = y := by
  rw [wrapY, cast_wrapY, emod_back h]

end Codebox

namespace Pointer

variable {box : Codebox} {p : Pointer}

def turnBack (p : Pointer) : Pointer := p.turn p.direction.opposite

/-- Turned by the character, if it is a mirror. -/
def deflect (c : Char) (p : Pointer) : Pointer :=
  match Mirror.ofChar? c with
  | some m => p.reflect m
  | none => p

/-- A mirror, or a blank, and a step. -/
def travel (box : Codebox) (p : Pointer) : Pointer :=
  (p.deflect (box.charAt p.x p.y)).moveOn box

/-- A step backward, and a mirror, or a blank. -/
def retrace (box : Codebox) (p : Pointer) : Pointer :=
  let q := (p.turnBack.moveOn box).turnBack
  q.deflect (box.charAt q.x q.y)

theorem deflect_deflect (c : Char) (p : Pointer) : (p.deflect c).deflect c = p := by
  unfold deflect
  split
  · simp only [reflect, turn, Direction.reflect_reflect]
  · rfl

@[simp] theorem deflect_x (c : Char) (p : Pointer) : (p.deflect c).x = p.x := by
  unfold deflect
  split <;> rfl

@[simp] theorem deflect_y (c : Char) (p : Pointer) : (p.deflect c).y = p.y := by
  unfold deflect
  split <;> rfl

theorem inside_deflect (c : Char) (h : p.Inside box) : (p.deflect c).Inside box := by
  rwa [Inside, deflect_x, deflect_y]

/-- Turning about undoes a step. -/
theorem moveOn_turnBack (h : p.Inside box) :
    ((p.moveOn box).turnBack.moveOn box).turnBack = p := by
  obtain ⟨hx, hy⟩ := h
  have hback := inside_moveOn box p
  rw [moveOn_of_inside box (p.moveOn box).turnBack hback.1 hback.2, moveOn_of_inside box p hx hy]
  simp only [turnBack, turn, jump, Direction.dx_opposite, Direction.dy_opposite,
    Direction.opposite_opposite, Codebox.wrapX_back hx, Codebox.wrapY_back hy]

/-- A path of light can be traced back. -/
theorem retrace_travel (h : p.Inside box) : (p.travel box).retrace box = p := by
  rw [retrace, travel, moveOn_turnBack (inside_deflect _ h), deflect_x, deflect_y, deflect_deflect]

/-- A path of light on the cells of the codebox. -/
def travelOn (box : Codebox) (p : { p : Pointer // p.Inside box }) :
    { p : Pointer // p.Inside box } :=
  ⟨p.val.travel box, inside_moveOn box _⟩

theorem travelOn_injective (box : Codebox) : Function.Injective (travelOn box) := by
  intro p q h
  apply Subtype.ext
  calc p.val
    _ = (p.val.travel box).retrace box := (retrace_travel p.property).symm
    _ = (q.val.travel box).retrace box := congrArg (fun r => r.val.retrace box) h
    _ = q.val := retrace_travel q.property

/-- A pointer on a cell, by its column, its row and the number of its direction. -/
def ofNumbers (box : Codebox) (n : Fin box.width × Fin box.height × Fin 4) :
    { p : Pointer // p.Inside box } :=
  ⟨⟨n.1, n.2.1, .ofIndex n.2.2⟩, n.1.isLt, n.2.1.isLt⟩

theorem ofNumbers_surjective (box : Codebox) : Function.Surjective (ofNumbers box) := by
  rintro ⟨⟨x, y, d⟩, hx, hy⟩
  obtain ⟨i, rfl⟩ := Direction.ofIndex_surjective d
  exact ⟨(⟨x, hx⟩, ⟨y, hy⟩, i), rfl⟩

/-- The light comes back after no more steps than there are pointers. -/
theorem exists_period (h : p.Inside box) :
    ∃ n, 1 ≤ n ∧ n ≤ 4 * box.width * box.height ∧ (travel box)^[n] p = p := by
  have : Fintype { p : Pointer // p.Inside box } := .ofSurjective _ (ofNumbers_surjective box)
  -- A path that can be traced back does not run into a cycle from outside.
  have hperiodic := (travelOn_injective box).mem_periodicPts ⟨p, h⟩
  have hcard := Fintype.card_le_of_surjective _ (ofNumbers_surjective box)
  have hvalue : Function.Semiconj Subtype.val (travelOn box) (travel box) := fun _ => rfl
  refine ⟨Function.minimalPeriod (travelOn box) ⟨p, h⟩,
    Function.minimalPeriod_pos_of_mem_periodicPts hperiodic, ?_, ?_⟩
  · calc Function.minimalPeriod (travelOn box) ⟨p, h⟩
      _ ≤ Fintype.card { p : Pointer // p.Inside box } := Function.minimalPeriod_le_card
      _ ≤ Fintype.card (Fin box.width × Fin box.height × Fin 4) := hcard
      _ = 4 * box.width * box.height := by
        rw [Fintype.card_prod, Fintype.card_prod, Fintype.card_fin, Fintype.card_fin,
          Fintype.card_fin, ← Nat.mul_assoc, Nat.mul_comm, ← Nat.mul_assoc]
  · exact ((hvalue.iterate_right _).eq _).symm.trans
      (congrArg Subtype.val (Function.isPeriodicPt_minimalPeriod _ _))

end Pointer

theorem State.perform_ofLight (box : Codebox) (c : Char) (s : State) :
    perform box (.ofLight c) s = .ok .next { s with pointer := s.pointer.deflect c } := by
  unfold Instruction.ofLight Pointer.deflect
  cases Mirror.ofChar? c <;> rfl

namespace Program

/-- The program runs over this codebox, and what it meets is no part of a text. -/
structure Shining (box : Codebox) (p : Program) : Prop where
  codebox : p.codebox = box
  running : p.termination = none
  unquoted : p.state.quote = none

variable {box : Codebox} {p : Program}

/-- Over mirrors and blanks a cycle sends the pointer on, and that is all. -/
theorem advance_of_light (hlight : box.Light) (h : p.Shining box) :
    p.advance = (.progressed, { p with
      state := { p.state with pointer := p.state.pointer.travel box }, steps := p.steps + 1 }) := by
  obtain ⟨rfl, hrunning, hquote⟩ := h
  have hcell : Instruction.ofChar? (p.state.current p.codebox) =
      some (.ofLight (p.state.current p.codebox)) := hlight _ _
  have hattempt : p.attempt = .ok .next { p.state with
      pointer := p.state.pointer.deflect (p.state.current p.codebox) } :=
    (State.execute_of_instruction hquote hcell p.codebox).trans (State.perform_ofLight _ _ _)
  rw [advance_of_running hrunning, hattempt]
  rfl

theorem shining_advance (hlight : box.Light) (p : Program) (h : p.Shining box) :
    p.advance.2.Shining box := by
  rw [advance_of_light hlight h]
  exact ⟨h.codebox, h.running, h.unquoted⟩

theorem shining_withChannel (p : Program) (ch : Channel) (h : p.Shining box) :
    (p.withChannel ch).Shining box := ⟨h.codebox, h.running, h.unquoted⟩

/-- In the course of the calls the pointer has gone on along its path once for each advance. -/
theorem pointer_replay (hlight : box.Light) (h : p.Shining box) (calls : List Call) :
    (p.replay calls).2.state.pointer =
      (Pointer.travel box)^[calls.count .advance] p.state.pointer := by
  induction calls generalizing p with
  | nil => rfl
  | cons call calls ih =>
    have hnext := respond_keeps (shining_advance hlight) shining_withChannel h call
    rw [replay_cons, ih hnext]
    by_cases hcall : call = .advance
    · subst hcall
      rw [List.count_cons_self, Function.iterate_succ_apply, respond, advance_of_light hlight h]
    · obtain ⟨answer, ch, -, hrespond⟩ := respond_of_ne hcall p
      rw [List.count_cons_of_ne hcall, hrespond]
      rfl

end Program

open Program in
/-- Paths of light are periodic: among mirrors and blanks alone, the pointer is back where it was
after no more advances than there are pointers on the cells. -/
theorem light_paths_periodic (source : String) (values : List Value) (seed : UInt64)
    (hlight : ∀ c ∈ source.toList,
      c ∈ ['/', '\\', '|', '_', '#', '\x00'] ∨ Text.isBlank c = true) :
    let p := load source values seed
    (∀ calls, let q := (p.replay calls).2
      ∃ pointer, q.advance = (.progressed,
        { q with state := { q.state with pointer := pointer }, steps := q.steps + 1 })) ∧
    ∃ n, 1 ≤ n ∧ n ≤ 4 * p.codebox.width * p.codebox.height ∧
      (∀ calls : List Call, calls.count .advance = n →
        (p.replay calls).2.state.pointer = ⟨0, 0, .right⟩) ∧
      ∀ calls later : List Call, later.count .advance = calls.count .advance + n →
        (p.replay later).2.state.pointer = (p.replay calls).2.state.pointer := by
  intro p
  have hbox := Codebox.light_ofSource hlight
  have hp : p.Shining (.ofSource source) := ⟨rfl, rfl, rfl⟩
  have hinside : Pointer.Inside (.ofSource source) ⟨0, 0, .right⟩ :=
    ⟨Codebox.width_pos _, Codebox.height_pos _⟩
  obtain ⟨n, hpos, hle, hperiod⟩ := Pointer.exists_period hinside
  refine ⟨fun calls => ⟨_, advance_of_light hbox ?_⟩, n, hpos, hle, ?_, ?_⟩
  · exact replay_keeps (shining_advance hbox) shining_withChannel hp calls
  · intro calls hcount
    rw [pointer_replay hbox hp, hcount]
    exact hperiod
  · intro calls later hcount
    rw [pointer_replay hbox hp, pointer_replay hbox hp, hcount, Function.iterate_add_apply]
    exact congrArg _ hperiod

open Program in
/-- The path leaves the upper left corner at the top and comes back to it from the left, eight
advances after it has begun. -/
theorem light_paths_periodic_corner :
    (∀ c ∈ " \\\n\\/".toList,
      c ∈ ['/', '\\', '|', '_', '#', '\x00'] ∨ Text.isBlank c = true) ∧
    let p := load " \\\n\\/" [.int 3] 5
    ((p.replay (.replicate 4 .advance)).2.state.pointer = ⟨0, 0, .up⟩ ∧
      (p.replay (.replicate 8 .advance)).2.state.pointer = ⟨0, 0, .right⟩) ∧
    ∃ n, 1 ≤ n ∧ n ≤ 4 * 2 * 2 ∧
      (p.replay (.replicate (4 + n) .advance)).2.state.pointer = ⟨0, 0, .up⟩ := by
  have hlight : ∀ c ∈ " \\\n\\/".toList,
      c ∈ ['/', '\\', '|', '_', '#', '\x00'] ∨ Text.isBlank c = true := by
    intro c hc
    have hall : " \\\n\\/".toList.all fun c =>
        c ∈ ['/', '\\', '|', '_', '#', '\x00'] ∨ Text.isBlank c = true := by decide
    exact of_decide_eq_true (List.all_eq_true.mp hall c hc)
  have hfour : ((load " \\\n\\/" [.int 3] 5).replay (.replicate 4 .advance)).2.state.pointer =
      ⟨0, 0, .up⟩ := by decide
  have hback : ((load " \\\n\\/" [.int 3] 5).replay (.replicate 8 .advance)).2.state.pointer =
      ⟨0, 0, .right⟩ := by decide
  obtain ⟨-, n, hpos, hle, -, hagain⟩ := light_paths_periodic " \\\n\\/" [.int 3] 5 hlight
  refine ⟨hlight, ⟨hfour, hback⟩, n, hpos, hle, ?_⟩
  exact (hagain (.replicate 4 .advance) _ (by simp)).trans hfour

end Fish
