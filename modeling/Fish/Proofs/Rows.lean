import Fish.Proofs.Loading
import Fish.Proofs.ChannelUse

/-!
Programs of a single row. The pointer goes along the row from left to right, as long as no
instruction sends it elsewhere, and a cycle depends on the character of its column alone.
-/

namespace Fish

namespace Codebox

theorem ofSource_row {row : List Char} (hnewline : '\n' ∉ row)
    (hreturn : row.getLast? ≠ some '\r') : ofSource (String.ofList row) = ofRows [row] := by
  have hrows := rowsOf_intercalate (List.cons_ne_nil row [])
    (List.forall_mem_singleton.mpr hnewline) (List.forall_mem_singleton.mpr hreturn) (.inl rfl)
  rw [List.intercalate_singleton] at hrows
  rw [ofSource, hrows]

theorem charAt_row (row : List Char) (x : Nat) :
    (ofRows [row]).charAt x 0 = row[x]?.getD ' ' := by
  simp only [charAt, stored?, ofRows, List.map_singleton, List.getElem?_toArray,
    List.getElem?_cons_zero, Option.bind_some]

theorem moveOn_row {row : List Char} {x : Nat} (h : x + 1 < row.length) :
    ({ x := x } : Pointer).moveOn (ofRows [row]) = { x := x + 1 } := by
  have hwidth : (ofRows [row]).width = row.length := Nat.max_eq_right (by omega)
  have hheight : (ofRows [row]).height = 1 := rfl
  rw [Pointer.moveOn_of_inside _ _ (hwidth ▸ Nat.lt_of_succ_lt h) (hheight ▸ Nat.zero_lt_one)]
  have hx : (ofRows [row]).wrapX ((x : Int) + 1) = x + 1 := by
    rw [wrapX, hwidth, Int.emod_eq_of_lt (by omega) (by omega)]
    rfl
  have hy : (ofRows [row]).wrapY ((0 : Nat) + 0) = 0 := by
    rw [wrapY, hheight]
    rfl
  simp only [Pointer.jump, Direction.dx, Direction.dy, hx, hy]

end Codebox

/-- The state with the pointer in a column of the first row, facing right. -/
def State.inColumn (i : Nat) (s : State) : State := { s with pointer := { x := i } }

namespace Program

open State

/-- A program of a single row, running in a column of it. -/
def inRow (row : List Char) (i steps : Nat) (s : State) : Program where
  codebox := .ofRows [row]
  state := s.inColumn i
  steps := steps

theorem load_row {row : List Char} (hnewline : '\n' ∉ row) (hreturn : row.getLast? ≠ some '\r')
    (values : List Value) (seed : UInt64) :
    load (String.ofList row) values seed = inRow row 0 0 (.initial values (.ofSeed seed)) := by
  rw [load, Codebox.ofSource_row hnewline hreturn]
  rfl

variable {row : List Char} {i steps : Nat} {s t : State}

theorem attempt_inRow {c : Char} (hat : row[i]? = some c) :
    (inRow row i steps s).attempt = execute (.ofRows [row]) c (s.inColumn i) := by
  have hcurrent : (s.inColumn i).current (.ofRows [row]) = c := by
    rw [State.current, inColumn, Codebox.charAt_row, hat]
    rfl
  exact congrArg (fun c => execute (.ofRows [row]) c (s.inColumn i)) hcurrent

/-- A cycle that does not end the program leads to the column where the pointer goes. -/
theorem advance_inRow {c : Char} {flow : Flow} {u : State} {j : Nat} (hat : row[i]? = some c)
    (h : execute (.ofRows [row]) c (s.inColumn i) = .ok flow u) (hflow : flow ≠ .halt)
    (hfollow : u.follow (.ofRows [row]) flow = t.inColumn j) :
    (inRow row i steps s).advance = (.progressed, inRow row j (steps + 1) t) := by
  rw [advance_of_running rfl, attempt_inRow hat, h, inRow, inRow, ← hfollow]
  cases flow with
  | halt => exact absurd rfl hflow
  | _ => rfl

theorem follow_next_inRow (hnext : i + 1 < row.length) :
    (t.inColumn i).follow (.ofRows [row]) .next = t.inColumn (i + 1) := by
  simp only [State.follow, inColumn, Codebox.moveOn_row hnext]

/-- The program after an instruction that has ended it. -/
def ended (termination : Termination) (p : Program) : Program :=
  { p with steps := p.steps + 1, termination := some termination }

/-- The halt at the end. -/
theorem advance_inRow_halt (hat : row[i]? = some ';') (hquote : s.quote = none) :
    (inRow row i steps s).advance = (.halted, (inRow row i steps s).ended .halted) := by
  have hhalt : Instruction.ofChar? ';' = some .halt := by decide
  rw [advance_of_running rfl, attempt_inRow hat,
    execute_of_instruction (s := s.inColumn i) hquote hhalt]
  rfl

end Program

end Fish
