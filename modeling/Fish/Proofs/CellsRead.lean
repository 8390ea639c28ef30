import Fish.Proofs.Calls

/-!
Cells that matter. A codebox takes part in a run by its extent, by the cell under the pointer
whenever a cycle is tried, and by the cells that are fetched. Two codeboxes of one extent that
agree on these cannot be told apart by the run, whatever stands in the cells that it passes over.
-/

namespace Fish

section Extent

variable {box box' : Codebox}

/-- The codeboxes have as many columns, and as many rows. -/
structure Codebox.SameExtent (box box' : Codebox) : Prop where
  width : box.width = box'.width
  height : box.height = box'.height

theorem Pointer.jump_of_sameExtent (h : box.SameExtent box') (x y : Int) (p : Pointer) :
    p.jump box x y = p.jump box' x y := by
  simp only [jump, Codebox.wrapX, Codebox.wrapY, h.width, h.height]

theorem Pointer.moveOn_of_sameExtent (h : box.SameExtent box') (p : Pointer) :
    p.moveOn box = p.moveOn box' := by
  rw [moveOn, moveOn, jump_of_sameExtent h, h.width, h.height]

theorem State.follow_of_sameExtent (h : box.SameExtent box') (flow : Flow) (s : State) :
    s.follow box flow = s.follow box' flow := by
  cases flow <;> simp only [follow, Pointer.moveOn_of_sameExtent h]

end Extent

namespace State

/-- The place that is taken from the top of the stack, if the values there are fit for one. -/
def place? (s : State) : Option (Int64 × Int64) :=
  match Stack.takePlace s.memory.active with
  | .ok place _ => some place
  | .error _ _ => none

theorem place?_of_takePlace {s t : State} {place : Int64 × Int64}
    (h : onStack Stack.takePlace s = .ok place t) : s.place? = some place := by
  rw [onStack_eq] at h
  unfold place?
  cases htake : Stack.takePlace s.memory.active with
  | ok place' active =>
    rw [htake] at h
    cases h
    rfl
  | error fault active =>
    rw [htake] at h
    cases h

variable {box box' : Codebox}

theorem perform_jump_of_sameExtent (h : box.SameExtent box') (s : State) :
    perform box .jump s = perform box' .jump s := by
  have hmove : ∀ x y, movePointer (.jump box x y) = movePointer (.jump box' x y) := by
    intro x y
    exact congrArg movePointer (funext (Pointer.jump_of_sameExtent h x y))
  simp only [perform, hmove]

theorem perform_fetch_of_agree {s : State}
    (h : ∀ x y, s.place? = some (x, y) →
      box.storedAt? x.toInt y.toInt = box'.storedAt? x.toInt y.toInt) :
    perform box .fetch s = perform box' .fetch s := by
  rw [perform, perform]
  cases htake : onStack Stack.takePlace s with
  | error i t => rw [bind_of_error htake, bind_of_error htake]
  | ok place t =>
    have hagree := h place.1 place.2 (place?_of_takePlace htake)
    rw [bind_of_ok htake, bind_of_ok htake]
    simp only [Codebox.fetch, hagree]

/-- Apart from the extent of the codebox, only the instruction that fetches depends on it. -/
theorem perform_of_agree (hextent : box.SameExtent box') {instruction : Instruction} {s : State}
    (hfetch : instruction = .fetch → ∀ x y, s.place? = some (x, y) →
      box.storedAt? x.toInt y.toInt = box'.storedAt? x.toInt y.toInt) :
    perform box instruction s = perform box' instruction s := by
  cases instruction with
  | jump => exact perform_jump_of_sameExtent hextent s
  | fetch => exact perform_fetch_of_agree (hfetch rfl)
  | _ => rfl

theorem execute_of_agree (hextent : box.SameExtent box') {c : Char} {s : State}
    (hfetch : s.quote = none → Instruction.ofChar? c = some .fetch →
      ∀ x y, s.place? = some (x, y) →
        box.storedAt? x.toInt y.toInt = box'.storedAt? x.toInt y.toInt) :
    execute box c s = execute box' c s := by
  cases hquote : s.quote with
  | some q => rw [execute_of_quote hquote, execute_of_quote hquote]
  | none =>
    cases hc : Instruction.ofChar? c with
    | none => rw [execute_of_invalid hquote hc, execute_of_invalid hquote hc]
    | some instruction =>
      rw [execute_of_instruction hquote hc, execute_of_instruction hquote hc]
      exact perform_of_agree hextent fun hi => hfetch hquote (hi ▸ hc)

end State

namespace Program

/-- The program over another codebox. -/
def onCodebox (box : Codebox) (p : Program) : Program := { p with codebox := box }

/-- The place that the next cycle fetches from, if it does. -/
def fetched? (p : Program) : Option (Int64 × Int64) :=
  if p.instruction? = some .fetch then p.state.place? else none

/-- Whatever the next cycle reads of the codebox, it would read of the other one as well: the cell
under the pointer, a space where there is none, and the cell that is fetched, or that it is
missing. -/
def ReadsAlike (box : Codebox) (p : Program) : Prop :=
  p.termination = none →
    p.state.current box = p.state.current p.codebox ∧
    ∀ x y, p.fetched? = some (x, y) →
      box.storedAt? x.toInt y.toInt = p.codebox.storedAt? x.toInt y.toInt

variable {box : Codebox} {p : Program}

theorem load_onCodebox (source source' : String) (values : List Value) (seed : UInt64) :
    (load source values seed).onCodebox (.ofSource source') = load source' values seed := rfl

theorem offChannel_onCodebox (box : Codebox) : OffChannel (onCodebox box) :=
  ⟨fun _ => rfl, fun _ _ => rfl⟩

theorem conclude_onCodebox (hextent : box.SameExtent p.codebox)
    (result : EStateM.Result Interrupt State Flow) :
    (p.onCodebox box).conclude result =
      ((p.conclude result).1, (p.conclude result).2.onCodebox box) := by
  cases result with
  | error i s => cases i <;> rfl
  | ok flow s =>
    have hfollow := State.follow_of_sameExtent hextent flow s
    cases flow with
    | halt => rfl
    | _ => simp only [conclude, onCodebox, hfollow]

theorem advance_onCodebox (hextent : box.SameExtent p.codebox) (h : p.ReadsAlike box) :
    (p.onCodebox box).advance = (p.advance.1, p.advance.2.onCodebox box) := by
  cases htermination : p.termination with
  | some termination =>
    rw [advance_of_ended htermination, advance_of_ended (p := p.onCodebox box) htermination]
  | none =>
    obtain ⟨hcurrent, hfetched⟩ := h htermination
    have hattempt : (p.onCodebox box).attempt = p.attempt := by
      have hcell : (p.onCodebox box).attempt =
          State.execute box (p.state.current p.codebox) p.state := by
        rw [← hcurrent]
        rfl
      rw [hcell]
      refine State.execute_of_agree hextent fun hquote hc x y hplace => hfetched x y ?_
      have hinstruction : p.instruction? = some .fetch := by
        rw [instruction?, if_pos ⟨htermination, hquote⟩, hc]
      rw [fetched?, if_pos hinstruction, hplace]
    rw [advance_of_running htermination, advance_of_running (p := p.onCodebox box) htermination,
      hattempt, conclude_onCodebox hextent]

theorem codebox_advance (p : Program) : p.advance.2.codebox = p.codebox := by
  have hcycle := p.cycle_advance
  generalize p.advance.2 = q at hcycle
  generalize p.advance.1 = step at hcycle
  cases hcycle <;> rfl

theorem codebox_of_mem_advanced {calls : List Call} :
    ∀ q ∈ advanced calls p, q.codebox = p.codebox :=
  advanced_keeps (P := fun q => q.codebox = p.codebox)
    (fun q hq => q.codebox_advance.trans hq) (fun _ _ hq => hq) rfl

/-- A history that reads alike goes over the other codebox as it does over this one. -/
theorem replay_onCodebox {calls : List Call} (hextent : box.SameExtent p.codebox)
    (h : ∀ q ∈ advanced calls p, q.ReadsAlike box) :
    (p.onCodebox box).replay calls = ((p.replay calls).1, (p.replay calls).2.onCodebox box) := by
  refine ((offChannel_onCodebox box).replay fun q hq => advance_onCodebox ?_ (h q hq)).1
  rw [codebox_of_mem_advanced q hq]
  exact hextent

/-- The cells that the next cycle reads: the one under the pointer, and the one that is fetched,
which has no negative coordinates. -/
def cells (p : Program) : List (Nat × Nat) :=
  if p.termination = none then
    (p.state.pointer.x, p.state.pointer.y) ::
      (p.fetched?.toList.filter fun place => 0 ≤ place.1.toInt ∧ 0 ≤ place.2.toInt).map
        fun place => (place.1.toInt.toNat, place.2.toInt.toNat)
  else []

/-- The cells that the cycles among the calls read, in order. -/
def cellsRead (calls : List Call) (p : Program) : List (Nat × Nat) :=
  (advanced calls p).flatMap cells

theorem readsAlike_of_cells
    (h : ∀ cell ∈ p.cells, box.stored? cell.1 cell.2 = p.codebox.stored? cell.1 cell.2) :
    p.ReadsAlike box := by
  intro htermination
  rw [cells, if_pos htermination] at h
  constructor
  · have hcell := h _ List.mem_cons_self
    simp only [State.current, Codebox.charAt, hcell]
  · intro x y hfetched
    by_cases hsign : 0 ≤ x.toInt ∧ 0 ≤ y.toInt
    · have hcell : box.stored? x.toInt.toNat y.toInt.toNat =
          p.codebox.stored? x.toInt.toNat y.toInt.toNat := by
        refine h (x.toInt.toNat, y.toInt.toNat) (List.mem_cons_of_mem _ (List.mem_map.mpr ?_))
        refine ⟨(x, y), List.mem_filter.mpr ⟨?_, decide_eq_true hsign⟩, rfl⟩
        rw [hfetched]
        exact List.mem_singleton_self _
      rw [Codebox.storedAt?, Codebox.storedAt?, if_pos hsign, if_pos hsign, hcell]
    · rw [Codebox.storedAt?, Codebox.storedAt?, if_neg hsign, if_neg hsign]

end Program

open Program in
/-- Only the cells that a run reads matter: those that the pointer passes over, or jumps over, may
hold anything. -/
theorem only_cells_read_matter (p : Program) (box : Codebox) (calls : List Call)
    (hwidth : box.width = p.codebox.width) (hheight : box.height = p.codebox.height)
    (hcells : (∀ q ∈ advanced calls p, q.ReadsAlike box) ∨
      ∀ cell ∈ cellsRead calls p, box.stored? cell.1 cell.2 = p.codebox.stored? cell.1 cell.2) :
    ((p.onCodebox box).replay calls).1 = (p.replay calls).1 ∧
    ∀ before, before <+: calls →
      ((p.onCodebox box).replay before).2 = (p.replay before).2.onCodebox box := by
  have hreads : ∀ q ∈ advanced calls p, q.ReadsAlike box := by
    rcases hcells with hreads | hstored
    · exact hreads
    · intro q hq
      refine readsAlike_of_cells fun cell hcell => ?_
      rw [codebox_of_mem_advanced q hq]
      exact hstored cell (List.mem_flatMap.mpr ⟨q, hq, hcell⟩)
  have hextent : box.SameExtent p.codebox := ⟨hwidth, hheight⟩
  refine ⟨by rw [replay_onCodebox hextent hreads], fun before hbefore => ?_⟩
  obtain ⟨later, rfl⟩ := hbefore
  rw [replay_onCodebox hextent fun q hq => hreads q ?_]
  rw [advanced_append]
  exact List.mem_append_left _ hq

open Program in
/-- The cell that is skipped would turn the pointer at random in one codebox, and end the program in
the other. -/
theorem only_cells_read_matter_skipped :
    let p := load "!x00gn;" [] 0
    let box := Codebox.ofSource "!;00gn;"
    let calls : List Call := .replicate 6 .advance ++ [.read]
    (box.width = p.codebox.width ∧ box.height = p.codebox.height) ∧
    (∀ cell ∈ cellsRead calls p, box.stored? cell.1 cell.2 = p.codebox.stored? cell.1 cell.2) ∧
    ((load "!;00gn;" [] 0).replay calls).1 =
      .replicate 5 (.step .progressed) ++ [.step .halted, .text "33"] := by
  intro p box calls
  have hwidth : box.width = p.codebox.width := by decide
  have hheight : box.height = p.codebox.height := by decide
  have hcells : ∀ cell ∈ cellsRead calls p,
      box.stored? cell.1 cell.2 = p.codebox.stored? cell.1 cell.2 := by decide
  obtain ⟨hsame, -⟩ := only_cells_read_matter p box calls hwidth hheight (.inr hcells)
  rw [load_onCodebox] at hsame
  refine ⟨⟨hwidth, hheight⟩, hcells, ?_⟩
  rw [hsame]
  decide

end Fish
