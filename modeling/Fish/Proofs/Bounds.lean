import Fish.Proofs.CheckedAgreement

/-!
Nothing is out of range. The pointer stays within the codebox, whose columns and rows are no more
than the characters of the source, so that all coordinates that come up are signed words. A
program that was loaded can then be called in any way whatever: the machine that checks its
ranges never stops on account of them, and gives the same answers.
-/

namespace Fish

namespace Codebox

theorem lines_newline (source : List Char) : lines ('\n' :: source) = [] :: lines source := rfl

theorem lines_cons {c : Char} (h : c ≠ '\n') {source row : List Char} {rest : List (List Char)}
    (hrows : lines source = row :: rest) : lines (c :: source) = (c :: row) :: rest := by
  unfold lines at hrows ⊢
  rw [List.foldr_cons, if_neg h, hrows]

/-- Each character is one of a line or begins another line. -/
theorem length_lines (source : List Char) :
    (lines source).length + (lines source).flatten.length = source.length + 1 := by
  induction source with
  | nil => rfl
  | cons c source ih =>
    by_cases hnewline : c = '\n'
    · rw [hnewline, lines_newline, List.length_cons, List.flatten_cons, List.nil_append,
        List.length_cons]
      omega
    · cases hrows : lines source with
      | nil =>
        rw [hrows] at ih
        cases ih
      | cons row rest =>
        rw [hrows] at ih
        rw [lines_cons hnewline hrows]
        simp only [List.length_cons, List.flatten_cons, List.length_append] at ih ⊢
        omega

theorem length_dropReturn_le (line : List Char) : (dropReturn line).length ≤ line.length := by
  unfold dropReturn
  split
  · rw [List.length_dropLast]
    exact Nat.sub_le _ 1
  · exact Nat.le_refl _

theorem length_line_le {source line : List Char} (h : line ∈ lines source) :
    line.length + (lines source).length ≤ source.length + 1 := by
  have hline := (List.sublist_flatten_of_mem h).length_le
  have hlines := length_lines source
  omega

theorem mem_of_mem_dropTrailing {rows : List (List Char)} {row : List Char}
    (h : row ∈ dropTrailing rows) : row ∈ rows := by
  unfold dropTrailing at h
  split at h
  · exact (List.dropLast_sublist rows).subset h
  · exact h

theorem length_row_le {source : String} {row : List Char} (h : row ∈ rowsOf source) :
    row.length ≤ source.length := by
  obtain ⟨line, hline, rfl⟩ := List.mem_map.mp (mem_of_mem_dropTrailing h)
  have hpos := List.length_pos_of_mem hline
  have hle := length_line_le hline
  have hdrop := length_dropReturn_le line
  rw [String.length_toList] at hle
  omega

/-- An empty last line is left out, and any other has a character to itself. -/
theorem length_rowsOf_le (source : String) : (rowsOf source).length ≤ max 1 source.length := by
  have hlines := length_lines source.toList
  rw [String.length_toList] at hlines
  unfold rowsOf dropTrailing
  split
  · rw [List.length_dropLast, List.length_map]
    omega
  · rename_i hlast
    rw [List.length_map, List.getLast?_map] at hlast
    rw [List.length_map]
    cases hline : (lines source.toList).getLast? with
    | none =>
      rw [List.getLast?_eq_none_iff.mp hline]
      exact Nat.zero_le _
    | some line =>
      by_cases hempty : line = []
      · rw [hline, hempty] at hlast
        have hone : ¬ 1 < (lines source.toList).length := fun h => hlast ⟨h, rfl⟩
        omega
      · have hle := length_line_le (List.mem_of_getLast? hline)
        have hpos := List.length_pos_iff.mpr hempty
        rw [String.length_toList] at hle
        omega

theorem width_le (source : String) : (ofSource source).width ≤ max 1 source.length := by
  refine List.foldlRecOn (motive := (· ≤ max 1 source.length)) _ max (Nat.le_max_left 1 _)
    fun width hwidth n hn => ?_
  obtain ⟨row, hrow, rfl⟩ := List.mem_map.mp hn
  exact Nat.max_le.mpr ⟨hwidth, Nat.le_trans (length_row_le hrow) (Nat.le_max_right 1 _)⟩

theorem height_le (source : String) : (ofSource source).height ≤ max 1 source.length :=
  Nat.max_le.mpr ⟨Nat.le_max_left 1 _, length_rowsOf_le source⟩

theorem countable_ofSource {source : String} (h : source.length < 2 ^ 63) :
    (ofSource source).Countable := by
  have hwidth := width_le source
  have hheight := height_le source
  exact ⟨by omega, by omega⟩

/-- The column is the remainder of the coordinate. -/
theorem cast_wrapX (box : Codebox) (x : Int) : (box.wrapX x : Int) = x % box.width :=
  Int.toNat_of_nonneg (Int.emod_nonneg x (Int.ofNat_ne_zero.mpr (Nat.ne_of_gt box.width_pos)))

theorem cast_wrapY (box : Codebox) (y : Int) : (box.wrapY y : Int) = y % box.height :=
  Int.toNat_of_nonneg (Int.emod_nonneg y (Int.ofNat_ne_zero.mpr (Nat.ne_of_gt box.height_pos)))

end Codebox

namespace Pointer

/-- The pointer is on a cell of the codebox. -/
def Inside (box : Codebox) (p : Pointer) : Prop := p.x < box.width ∧ p.y < box.height

theorem inside_jump (box : Codebox) (x y : Int) (p : Pointer) : (p.jump box x y).Inside box :=
  ⟨box.wrapX_lt x, box.wrapY_lt y⟩

theorem inside_moveOn (box : Codebox) (p : Pointer) : (p.moveOn box).Inside box :=
  inside_jump box _ _ p

end Pointer

namespace State

/-- The pointer is on a cell of the codebox. -/
def Inside (box : Codebox) (s : State) : Prop := s.pointer.Inside box

variable {box : Codebox}

theorem kept_inside : Kept box (Inside box) where
  active _ _ h := h
  turn _ _ h := h
  jump s x y _ := s.pointer.inside_jump box x y
  random _ _ h := h
  channel _ _ h := h
  quote _ _ h := h

theorem inside_onStacks {α : Type} (op : StacksOp α) : Keeps (Inside box) (onStacks op) := by
  intro s a t h hs
  unfold onStacks at h
  split at h <;> cases h
  exact hs

theorem inside_execute (c : Char) : Keeps (Inside box) (execute box c) :=
  kept_inside.keeps_execute (fun i => inside_onStacks i.perform) c

theorem inside_follow (flow : Flow) {s : State} (hs : s.Inside box) :
    (s.follow box flow).Inside box := by
  cases flow with
  | next => exact Pointer.inside_moveOn box _
  | skip => exact Pointer.inside_moveOn box _
  | jumped => exact hs
  | halt => exact hs

end State

namespace Program

/-- The codebox is this one, and the pointer is on a cell of it. -/
def Within (box : Codebox) (p : Program) : Prop := p.codebox = box ∧ p.state.Inside box

variable {box : Codebox}

theorem within_advance (p : Program) (h : p.Within box) : p.advance.2.Within box := by
  obtain ⟨rfl, hinside⟩ := h
  have hcycle := p.cycle_advance
  generalize p.advance.2 = q at hcycle ⊢
  generalize p.advance.1 = step at hcycle
  cases hcycle with
  | ended hended hstep => exact ⟨rfl, hinside⟩
  | waiting hrunning hattempt => exact ⟨rfl, hinside⟩
  | failing hrunning hattempt => exact ⟨rfl, hinside⟩
  | halting hrunning hattempt => exact ⟨rfl, State.inside_execute _ _ _ _ hattempt hinside⟩
  | going hrunning hattempt hflow =>
    exact ⟨rfl, State.inside_follow _ (State.inside_execute _ _ _ _ hattempt hinside)⟩

theorem within_withChannel (p : Program) (ch : Channel) (h : p.Within box) :
    (p.withChannel ch).Within box := h

theorem within_respond {p : Program} (h : p.Within box) (call : Call) :
    (p.respond call).2.Within box := respond_keeps within_advance within_withChannel h call

theorem within_replay {p : Program} (h : p.Within box) (calls : List Call) :
    (p.replay calls).2.Within box := replay_keeps within_advance within_withChannel h calls

end Program

namespace Checked

theorem State.follow_eq {box : Codebox} (hbox : box.Countable) (flow : Flow)
    {s : Fish.State} (hs : s.Inside box) :
    (ofState s).follow box flow = some (ofState (s.follow box flow)) := by
  have hmove : Pointer.moveOn? box s.pointer = some (s.pointer.moveOn box) :=
    Pointer.moveOn?_eq hbox hs.1 hs.2
  have hinside := Fish.Pointer.inside_moveOn box s.pointer
  have hagain := Pointer.moveOn?_eq hbox hinside.1 hinside.2
  have hpointer : (ofState s).pointer = s.pointer := rfl
  cases flow with
  | next =>
    rw [follow, hpointer, hmove]
    rfl
  | skip =>
    rw [follow, hpointer, hmove, Option.bind_some, hagain]
    rfl
  | jumped => rfl
  | halt => rfl

namespace Program

def ofProgram (p : Fish.Program) : Program where
  codebox := p.codebox
  state := .ofState p.state
  termination := p.termination
  steps := p.steps

variable {box : Codebox}

theorem conclude_eq (hbox : box.Countable) {p : Fish.Program} (h : p.Within box) :
    (ofProgram p).conclude (carry State.ofState p.attempt) =
      some ((p.conclude p.attempt).1, ofProgram (p.conclude p.attempt).2) := by
  obtain ⟨rfl, hinside⟩ := h
  cases hattempt : p.attempt with
  | error i s => cases i <;> rfl
  | ok flow s =>
    have hs := State.inside_execute _ _ _ _ hattempt hinside
    have hfollow : (State.ofState s).follow (ofProgram p).codebox flow =
        some (State.ofState (s.follow p.codebox flow)) := State.follow_eq hbox flow hs
    cases flow with
    | halt => rfl
    | _ =>
      simp only [carry, conclude, hfollow]
      rfl

theorem advance_eq (hbox : box.Countable) {p : Fish.Program} (h : p.Within box) :
    (ofProgram p).advance = some (p.advance.1, ofProgram p.advance.2) := by
  have hsame : (ofProgram p).termination = p.termination := rfl
  have hcodebox : p.codebox.Countable := h.1 ▸ hbox
  have hattempt : (ofProgram p).attempt = carry State.ofState p.attempt :=
    State.agrees_execute hcodebox _ p.state
  unfold advance
  rw [hsame, hattempt]
  cases htermination : p.termination with
  | some termination => rw [Fish.Program.advance_of_ended htermination]
  | none =>
    rw [Fish.Program.advance_of_running htermination]
    exact conclude_eq hbox h

theorem respond_eq (hbox : box.Countable) {p : Fish.Program} (h : p.Within box) (call : Call) :
    (ofProgram p).respond call = some ((p.respond call).1, ofProgram (p.respond call).2) := by
  by_cases hadvance : call = .advance
  · subst hadvance
    rw [respond, advance_eq hbox h]
    rfl
  · obtain ⟨answer, ch, hchannel, hrespond⟩ := Fish.Program.respond_of_ne hadvance p
    have hrest : (ofProgram p).respond call =
        (p.state.channel.respond? call).map fun r => (r.1, ofProgram (p.withChannel r.2)) := by
      cases call with
      | advance => exact absurd rfl hadvance
      | _ => rfl
    rw [hrest, hchannel, hrespond]
    rfl

theorem replay_eq (hbox : box.Countable) {p : Fish.Program} (h : p.Within box)
    (calls : List Call) :
    (ofProgram p).replay calls = some ((p.replay calls).1, ofProgram (p.replay calls).2) := by
  induction calls generalizing p with
  | nil => rfl
  | cons call calls ih =>
    have hrest := ih (Fish.Program.within_respond h call)
    rw [replay, respond_eq hbox h, Fish.Program.replay_cons]
    dsimp only [bind, Option.bind]
    rw [hrest]
    rfl

end Program

end Checked

/-- Nothing is out of range, whatever is loaded and however it is called: the machine that checks
its ranges goes along with the program. -/
theorem nothing_out_of_range (source : String) (values : List Value) (seed : UInt64)
    (calls : List Call) (hlength : source.length < 2 ^ 63) :
    let answers := ((Program.load source values seed).replay calls).1
    let p := ((Program.load source values seed).replay calls).2
    (p.state.pointer.x < p.codebox.width ∧ p.state.pointer.y < p.codebox.height) ∧
    (1 ≤ p.codebox.width ∧ 1 ≤ p.codebox.height) ∧
    ∃ q : Checked.Program,
      (Checked.Program.load source values seed).replay calls = some (answers, q) ∧
      q = .ofProgram p ∧ 1 ≤ q.state.levels.length ∧
      q.advance = some (p.advance.1, .ofProgram p.advance.2) := by
  intro answers p
  have hbox := Codebox.countable_ofSource hlength
  have hloaded : (Program.load source values seed).Within (.ofSource source) :=
    ⟨rfl, Codebox.width_pos _, Codebox.height_pos _⟩
  have hp := Program.within_replay hloaded calls
  have hinside : p.state.Inside p.codebox := hp.1 ▸ hp.2
  have hstacks : 1 ≤ p.state.memory.toList.length := by
    rw [Stacks.toList, List.length_reverse]
    exact Nat.le_add_left 1 _
  refine ⟨hinside, ⟨p.codebox.width_pos, p.codebox.height_pos⟩, .ofProgram p, ?_, rfl, hstacks, ?_⟩
  · exact Checked.Program.replay_eq hbox hloaded calls
  · exact Checked.Program.advance_eq hbox hp

/-- The pointer leaves the codebox on the left, and ten is divided by two on the way back. -/
theorem nothing_out_of_range_leftward :
    "<,2a".length < 2 ^ 63 ∧
    ∃ q : Checked.Program,
      (Checked.Program.load "<,2a" [.int 7] 0).replay (.replicate 4 .advance) =
        some (.replicate 4 (.step .progressed), q) ∧
      q.state.pointer = ⟨0, 0, .left⟩ ∧ q.state.levels = [.ofList [.int 7, .int 5]] ∧
      ∃ r, q.advance = some (.progressed, r) := by
  have hlength : "<,2a".length < 2 ^ 63 := by decide
  obtain ⟨-, -, q, hreplay, hq, -, hadvance⟩ :=
    nothing_out_of_range "<,2a" [.int 7] 0 (.replicate 4 .advance) hlength
  have hanswers : ((Program.load "<,2a" [.int 7] 0).replay (.replicate 4 .advance)).1 =
      .replicate 4 (.step .progressed) := by decide
  have hpointer : ((Program.load "<,2a" [.int 7] 0).replay (.replicate 4 .advance)).2.state.pointer =
      ⟨0, 0, .left⟩ := by decide
  have hmemory : ((Program.load "<,2a" [.int 7] 0).replay (.replicate 4 .advance)).2.state.memory =
      ⟨.ofList [.int 7, .int 5], []⟩ := by decide
  have hstep : ((Program.load "<,2a" [.int 7] 0).replay (.replicate 4 .advance)).2.advance.1 =
      .progressed := by decide
  rw [hanswers] at hreplay
  rw [hstep] at hadvance
  refine ⟨hlength, q, hreplay, ?_, ?_, _, hadvance⟩
  · rw [hq]
    exact hpointer
  · rw [hq]
    exact congrArg Stacks.toList hmemory

end Fish
