import Fish.Proofs.CellsRead
import Fish.Proofs.Footprints
import Fish.Proofs.Framing

/-!
Codeboxes upside down. The top row stays where it is, and the others change places with one another,
the lowest with the second one. Then up and down are exchanged, and so are the arrows and the
mirrors that tell one from the other. A pointer that is flipped along with the codebox meets flipped
instructions and goes on from flipped cell to flipped cell; nothing but its row and its direction
shows that anything has changed, unless a program looks at cells by their characters or by their
places, or draws.
-/

namespace Fish

namespace Direction

/-- Up and down are exchanged. -/
def flipped : Direction → Direction
  | up => down
  | down => up
  | left => left
  | right => right

theorem dx_flipped (d : Direction) : d.flipped.dx = d.dx := by cases d <;> rfl

theorem dy_flipped (d : Direction) : d.flipped.dy = -d.dy := by cases d <;> rfl

end Direction

def Mirror.flipped : Mirror → Mirror
  | slash => backslash
  | backslash => slash
  | vertical => vertical
  | horizontal => horizontal
  | both => both

/-- A flipped mirror reflects what is flipped as the mirror reflects what is not. -/
theorem Direction.reflect_flipped (m : Mirror) (d : Direction) :
    d.flipped.reflect m.flipped = (d.reflect m).flipped := by
  cases m <;> cases d <;> rfl

/-- The character that takes the place of another one when a codebox is flipped. -/
def flipChar : Char → Char
  | '^' => 'v'
  | 'v' => '^'
  | '/' => '\\'
  | '\\' => '/'
  | c => c

namespace Instruction

def flipped : Instruction → Instruction
  | turn d => turn d.flipped
  | reflect m => reflect m.flipped
  | instruction => instruction

theorem flipChar_of_not_mem {c : Char} (h : c ∉ symbols) : flipChar c = c := by
  unfold flipChar
  split
  · exact absurd (by decide) h
  · exact absurd (by decide) h
  · exact absurd (by decide) h
  · exact absurd (by decide) h
  · rfl

/-- The flipped character stands for the flipped instruction. -/
theorem ofChar?_flipChar (c : Char) : ofChar? (flipChar c) = (ofChar? c).map flipped := by
  by_cases hmem : c ∈ symbols
  · have hall : symbols.all fun c => ofChar? (flipChar c) = (ofChar? c).map flipped := by decide
    exact of_decide_eq_true (List.all_eq_true.mp hall c hmem)
  · rw [flipChar_of_not_mem hmem]
    cases hc : ofChar? c with
    | none => rfl
    | some instruction =>
      rcases symbol?_of_ofChar? hc with hsymbol | ⟨rfl, -⟩
      · exact absurd (mem_symbols hsymbol) hmem
      · rfl

end Instruction

namespace Codebox

/-- The row that takes the place of another one. -/
def flipY (box : Codebox) (y : Nat) : Nat := (box.height - y) % box.height

theorem flipY_lt (box : Codebox) (y : Nat) : box.flipY y < box.height :=
  Nat.mod_lt _ box.height_pos

theorem flipY_zero (box : Codebox) : box.flipY 0 = 0 := Nat.mod_self box.height

theorem flipY_flipY {box : Codebox} {y : Nat} (h : y < box.height) :
    box.flipY (box.flipY y) = y := by
  rcases Nat.eq_zero_or_pos y with rfl | hpos
  · rw [flipY_zero, flipY_zero]
  · have hlow : box.flipY y = box.height - y := Nat.mod_eq_of_lt (by omega)
    rw [flipY, hlow, Nat.sub_sub_self (Nat.le_of_lt h), Nat.mod_eq_of_lt h]

theorem cast_flipY {box : Codebox} {y : Nat} (h : y < box.height) :
    (box.flipY y : Int) = (box.height - y) % box.height := by
  rw [flipY, Int.natCast_emod, Int.ofNat_sub (Nat.le_of_lt h)]

/-- A step along the rows leads to the flipped row when it is taken the other way. -/
theorem wrapY_flipY {box : Codebox} {y : Nat} (h : y < box.height) (d : Int) :
    box.wrapY (box.flipY y + -d) = box.flipY (box.wrapY (y + d)) := by
  apply Int.ofNat_inj.mp
  calc (box.wrapY (box.flipY y + -d) : Int)
    _ = ((box.height - y) % box.height + -d) % box.height := by rw [cast_wrapY, cast_flipY h]
    _ = (box.height - y + -d) % box.height := Int.emod_add_emod _ _ _
    _ = (box.height - (y + d)) % box.height := by congr 1; omega
    _ = (box.height - (y + d) % box.height) % box.height := (Int.sub_emod_emod _ _ _).symm
    _ = box.flipY (box.wrapY (y + d)) := by rw [cast_flipY (box.wrapY_lt _), cast_wrapY]

/-- The codebox is the other one, upside down. -/
structure FlipOf (box' box : Codebox) : Prop where
  width : box'.width = box.width
  height : box'.height = box.height
  charAt : ∀ x, x < box.width → ∀ y, y < box.height →
    box'.charAt x y = flipChar (box.charAt x (box.flipY y))

theorem FlipOf.sameExtent {box' box : Codebox} (h : box'.FlipOf box) : box'.SameExtent box :=
  ⟨h.width, h.height⟩

end Codebox

namespace Pointer

variable {box box' : Codebox} {p : Pointer}

/-- The pointer on the flipped cell. -/
def flipped (box : Codebox) (p : Pointer) : Pointer :=
  { x := p.x, y := box.flipY p.y, direction := p.direction.flipped }

theorem inside_flipped (h : p.Inside box) : (p.flipped box).Inside box := ⟨h.1, box.flipY_lt _⟩

theorem moveOn_flipped (h : p.Inside box) :
    (p.flipped box).moveOn box = (p.moveOn box).flipped box := by
  have hflipped := inside_flipped h
  rw [moveOn_of_inside box p h.1 h.2, moveOn_of_inside box _ hflipped.1 hflipped.2]
  simp only [flipped, jump, Direction.dx_flipped, Direction.dy_flipped, Codebox.wrapY_flipY h.2]

end Pointer

section Images

variable {ε σ α : Type}

/-- What an operation has come to, with the image of the state that it has led to. -/
def imaged (image : σ → σ) : EStateM.Result ε σ α → EStateM.Result ε σ α
  | .ok a t => .ok a (image t)
  | .error e t => .error e (image t)

theorem FramedAt.imaged {frame : σ → σ} {op : EStateM ε σ α} {s : σ}
    (h : FramedAt frame (fun _ => False) op s) : op (frame s) = imaged frame (op s) := by
  cases hop : op s with
  | ok a t => exact h.ok hop
  | error e t => exact (h.error hop).resolve_left id

end Images

namespace State

/-- The state with its pointer on the flipped cell, and with some generator. -/
def flipped (box : Codebox) (random : Random) (s : State) : State :=
  { s with pointer := s.pointer.flipped box, random := random }

variable {box box' : Codebox} {random : Random} {s : State}

theorem framed_flipped_onStacks {α : Type} (op : StacksOp α) :
    Framed (flipped box random) (fun _ => False) (onStacks op) := by
  intro s
  cases hop : op s.memory with
  | ok a memory => simp only [FramedAt, onStacks, flipped, hop]
  | error fault memory => simp only [FramedAt, onStacks, flipped, hop, or_true]

theorem framed_flipped_receive : Framed (flipped box random) (fun _ => False) receive := by
  intro s
  cases hreceive : s.channel.receive with
  | ok received ch => cases received <;> simp only [FramedAt, receive, flipped, hreceive]
  | error e ch => simp only [FramedAt, receive, flipped, hreceive, or_true]

/-- Where the pointer stands and what is drawn does not show in the rest of the state. -/
theorem effectsFramed_flipped : EffectsFramed (flipped box random) fun _ => False where
  pop := framed_flipped_onStacks _
  push _ := framed_flipped_onStacks _
  takePlace := framed_flipped_onStacks _
  takeChar := framed_flipped_onStacks _
  receive := framed_flipped_receive
  write _ := framed_modify fun _ => rfl
  quote _ := framed_modify fun _ => rfl

/-- The flipped instruction does with the flipped pointer what the instruction does. -/
theorem perform_flipped {instruction : Instruction} (hjump : instruction ≠ .jump)
    (hfetch : instruction ≠ .fetch) (hrandom : instruction ≠ .turnRandomly) (s : State) :
    perform box' instruction.flipped (s.flipped box random) =
      imaged (flipped box random) (perform box instruction s) := by
  -- Turns and mirrors are flipped themselves; nothing else looks at the pointer.
  have hstays : ¬instruction.Moves → perform box instruction (s.flipped box random) =
      imaged (flipped box random) (perform box instruction s) := fun hmoves =>
    (effectsFramed_flipped.framedAt_perform box (fun i _ => framed_flipped_onStacks _ s)
      fun h => absurd h hmoves).imaged
  cases instruction with
  | jump => exact absurd rfl hjump
  | fetch => exact absurd rfl hfetch
  | turnRandomly => exact absurd rfl hrandom
  | turn d => rfl
  | reflect m =>
    have hpointer : (s.pointer.flipped box).reflect m.flipped =
        (s.pointer.reflect m).flipped box := by
      simp only [Pointer.flipped, Pointer.reflect, Pointer.turn, Direction.reflect_flipped]
    exact congrArg (fun pointer => EStateM.Result.ok Flow.next
      { s with pointer := pointer, random := random }) hpointer
  | _ => exact hstays id

theorem execute_flipped {c : Char} (hc : c ∉ ['"', '\'', '.', 'g', 'x']) (hquote : s.quote = none) :
    execute box' (flipChar c) (s.flipped box random) =
      imaged (flipped box random) (execute box c s) := by
  have hflip := Instruction.ofChar?_flipChar c
  have hquote' : (s.flipped box random).quote = none := hquote
  cases hchar : Instruction.ofChar? c with
  | none =>
    rw [hchar] at hflip
    -- The fault names the character, which is then none of those that are exchanged.
    have hsame := Instruction.flipChar_of_not_mem ((Instruction.ofChar?_eq_none_iff c).mp hchar).1
    rw [execute_of_invalid hquote hchar, execute_of_invalid hquote' hflip, hsame]
    rfl
  | some instruction =>
    rw [hchar] at hflip
    rw [execute_of_instruction hquote hchar, execute_of_instruction hquote' hflip]
    have hother : ∀ i c', Instruction.symbol? i = some c' → c' ∈ ['"', '\'', '.', 'g', 'x'] →
        instruction ≠ i := by
      rintro i c' hsymbol hmem rfl
      rcases Instruction.symbol?_of_ofChar? hchar with hsymbol' | ⟨rfl, -⟩
      · exact hc (Option.some.inj (hsymbol'.symm.trans hsymbol) ▸ hmem)
      · cases hsymbol
    exact perform_flipped (hother .jump '.' rfl (by decide)) (hother .fetch 'g' rfl (by decide))
      (hother .turnRandomly 'x' rfl (by decide)) s

theorem follow_flipped (hextent : box'.SameExtent box) (h : s.Inside box) (flow : Flow) :
    (s.flipped box random).follow box' flow = (s.follow box flow).flipped box random := by
  rw [follow_of_sameExtent hextent]
  have hmove := Pointer.moveOn_flipped h
  have hagain := Pointer.moveOn_flipped (Pointer.inside_moveOn box s.pointer)
  cases flow with
  | next => simp only [follow, flipped, hmove]
  | skip => simp only [follow, flipped, hmove, hagain]
  | jumped => rfl
  | halt => rfl

theorem current_flipped (hflip : box'.FlipOf box) (h : s.Inside box) :
    (s.flipped box random).current box' = flipChar (s.current box) := by
  obtain ⟨hx, hy⟩ := h
  rw [current, flipped, Pointer.flipped, hflip.charAt _ hx _ (box.flipY_lt _),
    Codebox.flipY_flipY hy, current]

theorem quote_follow (box : Codebox) (flow : Flow) (s : State) :
    (s.follow box flow).quote = s.quote := by
  cases flow <;> rfl

end State

/-- No cell begins a text, names a place or draws. -/
def Codebox.Plain (box : Codebox) : Prop :=
  ∀ x, x < box.width → ∀ y, y < box.height → box.charAt x y ∉ ['"', '\'', '.', 'g', 'x']

namespace Program

/-- The program over a codebox that is this one upside down. -/
def flipped (box' : Codebox) (random : Random) (p : Program) : Program :=
  { p with codebox := box', state := p.state.flipped p.codebox random }

/-- The program is on a cell of this codebox, and what it meets is no part of a text. -/
structure Upright (box : Codebox) (p : Program) : Prop where
  within : p.Within box
  unquoted : p.state.quote = none

variable {box box' : Codebox} {random : Random} {p : Program}

theorem current_of_plain (hplain : box.Plain) (h : p.Upright box) :
    p.state.current p.codebox ∉ ['"', '\'', '.', 'g', 'x'] := by
  obtain ⟨⟨rfl, hinside⟩, -⟩ := h
  exact hplain _ hinside.1 _ hinside.2

theorem upright_advance (hplain : box.Plain) (p : Program) (h : p.Upright box) :
    p.advance.2.Upright box := by
  refine ⟨within_advance p h.within, ?_⟩
  have hsymbol : p.state.current p.codebox ∉ Part.quote.symbols := fun hmem =>
    current_of_plain hplain h (List.mem_append_left ['.', 'g', 'x'] hmem)
  have hquote := h.unquoted
  have hcycle := p.cycle_advance
  generalize p.advance.2 = q at hcycle ⊢
  generalize p.advance.1 = step at hcycle
  cases hcycle with
  | ended | waiting | failing => exact hquote
  | halting hrunning hattempt =>
    exact Eq.trans (State.same_of_execute hattempt hsymbol) hquote
  | going hrunning hattempt hflow =>
    exact (State.quote_follow _ _ _).trans
      (Eq.trans (State.same_of_execute hattempt hsymbol) hquote)

theorem upright_withChannel (p : Program) (ch : Channel) (h : p.Upright box) :
    (p.withChannel ch).Upright box := ⟨h.within, h.unquoted⟩

theorem conclude_flipped (hflip : box'.FlipOf p.codebox)
    {result : EStateM.Result Interrupt State Flow}
    (h : ∀ flow s, result = .ok flow s → s.Inside p.codebox) :
    (p.flipped box' random).conclude (imaged (State.flipped p.codebox random) result) =
      ((p.conclude result).1, (p.conclude result).2.flipped box' random) := by
  cases result with
  | error i s => cases i <;> rfl
  | ok flow s =>
    have hfollow : (s.flipped p.codebox random).follow box' flow =
        (s.follow p.codebox flow).flipped p.codebox random :=
      State.follow_flipped hflip.sameExtent (h flow s rfl) flow
    cases flow with
    | halt => rfl
    | _ => simp only [imaged, conclude, flipped, hfollow]

/-- A cycle upside down is the flipped cycle. -/
theorem advance_flipped (hflip : box'.FlipOf box) (hplain : box.Plain) (h : p.Upright box) :
    (p.flipped box' random).advance = (p.advance.1, p.advance.2.flipped box' random) := by
  have hcell := current_of_plain hplain h
  obtain ⟨⟨rfl, hinside⟩, hquote⟩ := h
  cases htermination : p.termination with
  | some termination =>
    rw [advance_of_ended htermination, advance_of_ended (p := p.flipped box' random) htermination]
  | none =>
    have hattempt : (p.flipped box' random).attempt =
        imaged (State.flipped p.codebox random) p.attempt := by
      have hcurrent : (p.state.flipped p.codebox random).current box' =
          flipChar (p.state.current p.codebox) := State.current_flipped hflip hinside
      rw [attempt, attempt, ← State.execute_flipped hcell hquote, ← hcurrent]
      rfl
    rw [advance_of_running htermination,
      advance_of_running (p := p.flipped box' random) htermination, hattempt]
    exact conclude_flipped hflip fun flow s hok =>
      State.inside_execute _ _ _ _ hok hinside

theorem offChannel_flipped (box' : Codebox) (random : Random) :
    OffChannel (flipped box' random) :=
  ⟨fun _ => rfl, fun _ _ => rfl⟩

theorem replay_flipped (hflip : box'.FlipOf box) (hplain : box.Plain) (h : p.Upright box)
    (random : Random) (calls : List Call) :
    (p.flipped box' random).replay calls =
      ((p.replay calls).1, (p.replay calls).2.flipped box' random) := by
  have hmet : ∀ q ∈ advanced calls p, q.Upright box :=
    advanced_keeps (upright_advance hplain) upright_withChannel h
  exact ((offChannel_flipped box' random).replay fun q hq =>
    advance_flipped hflip hplain (hmet q hq)).1

end Program

/-- A codebox upside down runs alike, if it has no quotation marks, jumps, fetches or random turns:
the states are the same but for the pointer, which is flipped. -/
theorem upside_down_runs_alike (box box' : Codebox) (values : List Value) (seed seed' : UInt64)
    (calls : List Call) (hwidth : box'.width = box.width) (hheight : box'.height = box.height)
    (hflip : ∀ x, x < box.width → ∀ y, y < box.height →
      box'.charAt x y = flipChar (box.charAt x ((box.height - y) % box.height)))
    (hplain : ∀ x, x < box.width → ∀ y, y < box.height →
      box.charAt x y ∉ ['"', '\'', '.', 'g', 'x']) :
    let p : Program := { codebox := box, state := .initial values (.ofSeed seed) }
    let p' : Program := { codebox := box', state := .initial values (.ofSeed seed') }
    let q := (p.replay calls).2
    (p'.replay calls).1 = (p.replay calls).1 ∧
    (p'.replay calls).2 = { q with
      codebox := box'
      state := { q.state with
        pointer := {
          x := q.state.pointer.x
          y := (box.height - q.state.pointer.y) % box.height
          direction := q.state.pointer.direction.flipped }
        random := .ofSeed seed' } } := by
  intro p p' q
  have hp : p.Upright box := ⟨⟨rfl, box.width_pos, box.height_pos⟩, rfl⟩
  have hpointer : Pointer.flipped box {} = {} := by
    rw [Pointer.flipped, box.flipY_zero]
    rfl
  have hstart : p.flipped box' (.ofSeed seed') = p' := by
    simp only [p, p', Program.flipped, State.flipped, State.initial, hpointer]
  have hreplay := Program.replay_flipped ⟨hwidth, hheight, hflip⟩ hplain hp (.ofSeed seed') calls
  rw [hstart] at hreplay
  have hcodebox : q.codebox = box := (Program.within_replay hp.within calls).1
  constructor
  · rw [hreplay]
  · rw [hreplay, Program.flipped, State.flipped, hcodebox]
    rfl

open Program in
/-- A letter is read in the second row of one codebox, and five is added to its number. Upside down
the way there leads out of the codebox at the top, along its lowest row, and out of it below. -/
theorem upside_down_runs_alike_below :
    let box := Codebox.ofSource "\\    ;\n>i5+n^\n|_#"
    let box' := Codebox.ofSource "/    ;\n|_#\n>i5+nv"
    let calls : List Call :=
      .replicate 3 .advance ++ [.give "A"] ++ .replicate 6 .advance ++ [.read]
    let p' : Program := { codebox := box', state := .initial [.int 7] (.ofSeed 1) }
    ((box'.width = box.width ∧ box'.height = box.height) ∧
      (∀ x, x < box.width → ∀ y, y < box.height →
        box'.charAt x y = flipChar (box.charAt x ((box.height - y) % box.height))) ∧
      ∀ x, x < box.width → ∀ y, y < box.height →
        box.charAt x y ∉ ['"', '\'', '.', 'g', 'x']) ∧
    (p'.replay calls).1 = [.step .progressed, .step .progressed, .step .blocked, .accepted] ++
      .replicate 5 (.step .progressed) ++ [.step .halted, .text "70"] ∧
    (p'.replay calls).2.state.pointer = ⟨5, 0, .down⟩ := by
  intro box box' calls p'
  have hwidth : box'.width = box.width := by decide
  have hheight : box'.height = box.height := by decide
  have hflip : ∀ x, x < box.width → ∀ y, y < box.height →
      box'.charAt x y = flipChar (box.charAt x ((box.height - y) % box.height)) := by decide
  have hplain : ∀ x, x < box.width → ∀ y, y < box.height →
      box.charAt x y ∉ ['"', '\'', '.', 'g', 'x'] := by decide
  obtain ⟨hanswers, hstate⟩ :=
    upside_down_runs_alike box box' [.int 7] 0 1 calls hwidth hheight hflip hplain
  refine ⟨⟨⟨hwidth, hheight⟩, hflip, hplain⟩, ?_, ?_⟩
  · rw [hanswers]
    decide
  · rw [hstate]
    decide

end Fish
