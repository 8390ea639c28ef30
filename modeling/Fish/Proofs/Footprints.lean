import Fish.Proofs.Bounds
import Fish.Proofs.Conservation
import Fish.Proofs.Emission

/-!
Footprints. Apart from the active stack, on which nearly every instruction works, each part of a
state is touched by few of them. An effect touches some parts and leaves the others as they are;
two effects, one after the other, touch no more than both. So the footprint of an instruction is
read off what it is made of, and the characters that can touch a part are read off the table.
-/

namespace Fish

/-- The parts of a state, apart from its active stack. -/
inductive Part
  | place
  | direction
  | suspended
  | pending
  | closed
  | output
  | quote
  | random
  deriving DecidableEq

namespace Part

/-- The part is in the second state what it is in the first. -/
def Same (part : Part) (s t : State) : Prop :=
  match part with
  | place => (t.pointer.x, t.pointer.y) = (s.pointer.x, s.pointer.y)
  | direction => t.pointer.direction = s.pointer.direction
  | suspended => t.memory.suspended = s.memory.suspended
  | pending => t.channel.pending = s.channel.pending
  | closed => t.channel.closed = s.channel.closed
  | output => t.channel.output = s.channel.output
  | quote => t.quote = s.quote
  | random => t.random = s.random

theorem same_refl (part : Part) (s : State) : part.Same s s := by
  cases part <;> rfl

theorem Same.trans {part : Part} {s t u : State} (h : part.Same s t) (h' : part.Same t u) :
    part.Same s u := by
  cases part <;> exact Eq.trans h' h

/-- The characters whose instructions can touch the part. -/
def symbols : Part → List Char
  | place => ['.']
  | direction => ['>', '<', '^', 'v', 'x', '/', '\\', '|', '_', '#']
  | suspended => ['[', ']']
  | pending => ['i']
  | closed => []
  | output => ['n', 'o']
  | quote => ['"', '\'']
  | random => ['x']

end Part

theorem Channel.pending_of_receive {ch rest : Channel} {received : Received}
    (h : ch.receive = .ok received rest) :
    rest.pending = ch.pending ∨ ∃ taken, ch.pending = taken :: rest.pending := by
  unfold receive at h
  split at h
  · rename_i taken pending hpending
    cases h
    exact .inr ⟨taken, hpending⟩
  · split at h <;> cases h
    exact .inl rfl

/-- What is received comes from the channel. -/
theorem State.receive_ok {s t : State} {v : Value} (h : receive s = .ok v t) :
    ∃ received, s.channel.receive = .ok received t.channel ∧ t = s.withChannel t.channel := by
  unfold receive at h
  split at h <;> cases h
  · rename_i c channel hreceive
    exact ⟨_, hreceive, rfl⟩
  · rename_i channel hreceive
    exact ⟨_, hreceive, rfl⟩

section Effects

open State

variable {α β : Type} {parts parts' : List Part}

/-- Where the effect succeeds, all parts but these are as they were. -/
def Touches (parts : List Part) (e : Effect α) : Prop :=
  ∀ s a t, e s = .ok a t → ∀ part, part ∉ parts → part.Same s t

theorem touches_pure (a : α) : Touches [] (pure a : Effect α) := by
  intro s b t hok part _
  cases hok
  exact part.same_refl s

theorem Touches.bind {e : Effect α} {next : α → Effect β} (h : Touches parts e)
    (hnext : ∀ a, Touches parts' (next a)) : Touches (parts ++ parts') (e >>= next) := by
  intro s b u hok part hpart
  rw [List.mem_append, not_or] at hpart
  obtain ⟨a, t, hfirst, hrest⟩ := ok_of_bind_ok hok
  exact (h s a t hfirst part hpart.1).trans (hnext a t b u hrest part hpart.2)

theorem touches_modify {f : State → State} (h : ∀ s part, part ∉ parts → part.Same s (f s)) :
    Touches parts (modify f : Effect PUnit) := by
  intro s a t hok
  cases hok
  exact h s

theorem touches_onStacks (op : StacksOp α) : Touches [.suspended] (onStacks op) := by
  intro s a t hok part hpart
  unfold onStacks at hok
  split at hok <;> cases hok
  cases part with
  | suspended => exact absurd (List.mem_singleton_self _) hpart
  | _ => rfl

theorem touches_onStack (op : StackOp α) : Touches [] (onStack op) := by
  intro s a t hok part _
  by_cases hpart : part = .suspended
  · subst hpart
    exact Stacks.suspended_onActive (memory_of_onStacks hok)
  · exact touches_onStacks _ s a t hok part (mt List.mem_singleton.mp hpart)

theorem touches_turn (d : Pointer → Direction) :
    Touches [.direction] (movePointer fun p => p.turn (d p)) :=
  touches_modify fun s part hpart => by
    cases part with
    | direction => exact absurd (List.mem_singleton_self _) hpart
    | _ => rfl

theorem touches_jump (box : Codebox) (x y : Int) : Touches [.place] (movePointer (.jump box x y)) :=
  touches_modify fun s part hpart => by
    cases part with
    | place => exact absurd (List.mem_singleton_self _) hpart
    | _ => rfl

theorem touches_turnRandomly : Touches [.direction, .random] turnRandomly :=
  touches_modify fun s part hpart => by
    cases part with
    | direction => exact absurd List.mem_cons_self hpart
    | random => exact absurd (List.mem_cons_of_mem _ (List.mem_singleton_self _)) hpart
    | _ => rfl

theorem touches_write (text : String) : Touches [.output] (write text) :=
  touches_modify fun s part hpart => by
    cases part with
    | output => exact absurd (List.mem_singleton_self _) hpart
    | _ => rfl

theorem touches_quote (quote : Option Quote) :
    Touches [.quote] (modify fun s => { s with quote := quote } : Effect PUnit) :=
  touches_modify fun s part hpart => by
    cases part with
    | quote => exact absurd (List.mem_singleton_self _) hpart
    | _ => rfl

theorem touches_receive : Touches [.pending] receive := by
  intro s v t hok part hpart
  obtain ⟨received, hreceive, ht⟩ := receive_ok hok
  rw [ht]
  cases part with
  | pending => exact absurd (List.mem_singleton_self _) hpart
  | closed => exact Channel.closed_of_receive hreceive
  | output => exact Channel.output_of_receive hreceive
  | _ => rfl

end Effects

/-- The parts that an instruction can touch. -/
def Instruction.touched : Instruction → List Part
  | .stack .openStack => [.suspended]
  | .stack .closeStack => [.suspended]
  | .turn _ => [.direction]
  | .turnRandomly => [.direction, .random]
  | .reflect _ => [.direction]
  | .jump => [.place]
  | .quote _ => [.quote]
  | .writeNumber => [.output]
  | .writeChar => [.output]
  | .readChar => [.pending]
  | _ => []

/-- How the pointer goes on after an instruction that is done in the state. -/
def Instruction.flow (s : State) : Instruction → Flow
  | .skip => .skip
  | .skipIfZero => if (s.memory.active.top?.map Value.isZero).getD false then .skip else .next
  | .jump => .jumped
  | .halt => .halt
  | _ => .next

namespace Instruction

theorem flow_eq_skip_iff (s : State) (instruction : Instruction) :
    instruction.flow s = .skip ↔ instruction = .skip ∨
      instruction = .skipIfZero ∧ ∃ v, s.memory.active.top? = some v ∧ v.isZero = true := by
  cases instruction with
  | skipIfZero => cases htop : s.memory.active.top? <;> simp [flow, htop]
  | _ => simp [flow]

theorem flow_eq_jumped_iff (s : State) (instruction : Instruction) :
    instruction.flow s = .jumped ↔ instruction = .jump := by
  cases instruction with
  | skipIfZero => simp [flow, apply_ite (· = Flow.jumped)]
  | _ => simp [flow]

theorem flow_eq_halt_iff (s : State) (instruction : Instruction) :
    instruction.flow s = .halt ↔ instruction = .halt := by
  cases instruction with
  | skipIfZero => simp [flow, apply_ite (· = Flow.halt)]
  | _ => simp [flow]

/-- An instruction that is not blank is written as one character only. -/
theorem ofChar?_eq_some_iff {c c' : Char} {instruction : Instruction}
    (hc' : ofChar? c' = some instruction) (hsymbol : instruction.symbol? = some c') :
    ofChar? c = some instruction ↔ c = c' := by
  constructor
  · intro hc
    rcases symbol?_of_ofChar? hc with hsymbol' | ⟨rfl, -⟩
    · exact Option.some.inj (hsymbol'.symm.trans hsymbol)
    · cases hsymbol
  · rintro rfl
    exact hc'

end Instruction

theorem Instruction.mem_symbols_of_touched {c : Char} {instruction : Instruction}
    (hc : ofChar? c = some instruction) : ∀ part ∈ instruction.touched, c ∈ part.symbols := by
  rcases symbol?_of_ofChar? hc with hsymbol | ⟨rfl, -⟩
  · cases instruction with
    | stack instruction =>
      cases instruction with
      | openStack =>
        cases hsymbol
        decide
      | closeStack =>
        cases hsymbol
        decide
      | _ => exact fun _ h => absurd h List.not_mem_nil
    | turn d => cases d <;> cases hsymbol <;> decide
    | reflect m => cases m <;> cases hsymbol <;> decide
    | quote q => cases q <;> cases hsymbol <;> decide
    | blank => cases hsymbol
    | _ =>
      cases hsymbol
      decide
  · exact fun _ h => absurd h List.not_mem_nil

theorem Stacks.depth_of_suspended_eq {s t : Stacks} (h : t.suspended = s.suspended) :
    t.depth = s.depth := by
  rw [depth, depth, h]

namespace State

theorem touches_perform (box : Codebox) (instruction : Instruction) :
    Touches instruction.touched (perform box instruction) := by
  cases instruction with
  | stack instruction =>
    cases instruction with
    | push digit => exact (touches_onStack (Stack.push (.ofNat digit))).bind fun _ => touches_pure _
    | reverse => exact (touches_onStack Stack.reverse).bind fun _ => touches_pure _
    | size => exact (touches_onStack Stack.pushSize).bind fun _ => touches_pure _
    | openStack => exact (touches_onStacks _).bind fun _ => touches_pure _
    | closeStack => exact (touches_onStacks _).bind fun _ => touches_pure _
    | _ => exact (touches_onStack _).bind fun _ => touches_pure _
  | turn d => exact (touches_turn fun _ => d).bind fun _ => touches_pure _
  | turnRandomly => exact touches_turnRandomly.bind fun _ => touches_pure _
  | reflect m => exact (touches_turn fun p => p.direction.reflect m).bind fun _ => touches_pure _
  | skip => exact touches_pure _
  | skipIfZero => exact (touches_onStack _).bind fun _ => touches_pure _
  | jump =>
    refine (touches_onStack _).bind fun place => ?_
    exact (touches_jump box _ _).bind fun _ => touches_pure _
  | quote q => exact (touches_quote (some q)).bind fun _ => touches_pure _
  | writeNumber =>
    refine (touches_onStack _).bind fun v => ?_
    exact (touches_write _).bind fun _ => touches_pure _
  | writeChar =>
    refine (touches_onStack _).bind fun c => ?_
    exact (touches_write _).bind fun _ => touches_pure _
  | readChar =>
    refine touches_receive.bind fun v => ?_
    exact (touches_onStack _).bind fun _ => touches_pure _
  | fetch =>
    refine (touches_onStack _).bind fun place => ?_
    exact (touches_onStack _).bind fun _ => touches_pure _
  | halt => exact touches_pure _
  | blank => exact touches_pure _

/-- The effect can only succeed with this result. -/
def Returns {α : Type} (a : α) (e : Effect α) : Prop := ∀ s b t, e s = .ok b t → b = a

theorem returns_pure {α : Type} (a : α) : Returns a (pure a) := by
  intro s b t hok
  cases hok
  rfl

theorem Returns.bind {α β : Type} {b : β} (e : Effect α) {next : α → Effect β}
    (hnext : ∀ a, Returns b (next a)) : Returns b (e >>= next) := by
  intro s c u hok
  obtain ⟨a, t, -, hrest⟩ := ok_of_bind_ok hok
  exact hnext a t c u hrest

theorem flow_of_skipIfZero {box : Codebox} {s t : State} {flow : Flow}
    (h : perform box .skipIfZero s = .ok flow t) : flow = Instruction.flow s .skipIfZero := by
  obtain ⟨v, u, hpop, hreturn⟩ := ok_of_bind_ok h
  have hstack := Stacks.onActive_ok (memory_of_onStacks hpop)
  have htop : s.memory.active.top? = some v := by
    rw [Stack.eq_of_pop hstack]
    rfl
  cases hreturn
  rw [Instruction.flow, htop]
  rfl

theorem flow_of_perform {box : Codebox} {instruction : Instruction} {s t : State} {flow : Flow}
    (h : perform box instruction s = .ok flow t) : flow = instruction.flow s := by
  cases instruction with
  | skipIfZero => exact flow_of_skipIfZero h
  | skip | halt | blank => exact returns_pure _ s flow t h
  | stack | turn | turnRandomly | reflect | quote =>
    exact Returns.bind _ (fun _ => returns_pure _) s flow t h
  | jump | writeNumber | writeChar | readChar | fetch =>
    exact Returns.bind _ (fun _ => Returns.bind _ fun _ => returns_pure _) s flow t h

section Executed

variable {box : Codebox} {c : Char} {s t : State} {flow : Flow}

theorem instruction_of_execute (hquote : s.quote = none) (h : execute box c s = .ok flow t) :
    ∃ instruction, Instruction.ofChar? c = some instruction ∧
      perform box instruction s = .ok flow t := by
  cases hc : Instruction.ofChar? c with
  | some instruction =>
    rw [execute_of_instruction hquote hc] at h
    exact ⟨instruction, rfl, h⟩
  | none =>
    rw [execute_of_invalid hquote hc] at h
    cases h

/-- Between quotation marks only the mark that ends this does anything but to be pushed. -/
theorem eq_of_quoted {q : Quote} (hquote : s.quote = some q) (h : execute box c s = .ok flow t) :
    flow = .next ∧ t = if c = q.char then { s with quote := none } else { s with memory :=
      { s.memory with active :=
        { s.memory.active with values := .ofChar c :: s.memory.active.values } } } := by
  rw [execute_of_quote hquote, readQuoted] at h
  split at h <;> cases h
  · rename_i hc
    exact ⟨rfl, (if_pos hc).symm⟩
  · rename_i hc
    exact ⟨rfl, (if_neg hc).symm⟩

/-- Between quotation marks only the quotation is touched. -/
theorem same_of_quoted {q : Quote} (hquote : s.quote = some q) (h : execute box c s = .ok flow t)
    {part : Part} (hpart : part ≠ .quote) : part.Same s t := by
  obtain ⟨-, rfl⟩ := eq_of_quoted hquote h
  cases part with
  | quote => exact absurd rfl hpart
  | _ => split <;> rfl

/-- What a character cannot touch is as it was. -/
theorem same_of_execute (h : execute box c s = .ok flow t) {part : Part}
    (hpart : c ∉ part.symbols) : part.Same s t := by
  cases hquote : s.quote with
  | none =>
    obtain ⟨instruction, hc, hperform⟩ := instruction_of_execute hquote h
    exact touches_perform box instruction s flow t hperform part fun htouched =>
      hpart (Instruction.mem_symbols_of_touched hc part htouched)
  | some q =>
    by_cases hkind : part = .quote
    · subst hkind
      have hc : c ≠ q.char := by
        rintro rfl
        exact hpart (by cases q <;> decide)
      obtain ⟨-, rfl⟩ := eq_of_quoted hquote h
      rw [if_neg hc]
      rfl
    · exact same_of_quoted hquote h hkind

/-- A part that is not as it was has been touched by a character that can do so, which is then no
part of a text unless it is a quotation mark. -/
theorem touched_of_execute (h : execute box c s = .ok flow t) {part : Part}
    (hpart : ¬part.Same s t) : (part ≠ .quote → s.quote = none) ∧ c ∈ part.symbols := by
  constructor
  · intro hkind
    cases hquote : s.quote with
    | none => rfl
    | some q => exact absurd (same_of_quoted hquote h hkind) hpart
  · exact Decidable.byContradiction fun hc => hpart (same_of_execute h hc)

theorem output_of_execute (hread : Instruction.ofChar? c ≠ some .readChar)
    (h : execute box c s = .ok flow t) : ∃ text, t.channel.output = s.channel.output ++ text := by
  rcases writes_execute box c s fun _ => hread with ⟨a, u, hok⟩ | ⟨-, fault, u, herror⟩
  · cases h.symm.trans (hok s.channel)
    exact ⟨_, rfl⟩
  · cases h.symm.trans (herror s.channel)

theorem pending_of_readChar (h : perform box .readChar s = .ok flow t) :
    t.channel.pending = s.channel.pending ∨
      ∃ taken, s.channel.pending = taken :: t.channel.pending := by
  obtain ⟨v, u, hreceive, hrest⟩ := ok_of_bind_ok h
  have hkept : t.channel.pending = u.channel.pending :=
    (touches_onStack _).bind (fun _ => touches_pure _) u flow t hrest .pending List.not_mem_nil
  obtain ⟨received, hchannel, -⟩ := receive_ok hreceive
  rw [hkept]
  exact Channel.pending_of_receive hchannel

theorem inside_of_jump (h : perform box .jump s = .ok flow t) : t.pointer.Inside box := by
  obtain ⟨place, u, -, hrest⟩ := ok_of_bind_ok h
  obtain ⟨_, v, hmove, hreturn⟩ := ok_of_bind_ok hrest
  cases hmove
  cases hreturn
  exact Pointer.inside_jump box _ _ u.pointer

/-- A stack is opened or closed by a bracket alone. -/
theorem depth_of_execute (hquote : s.quote = none) (h : execute box c s = .ok flow t) :
    c = '[' ∧ t.memory.depth = s.memory.depth + 1 ∨ c = ']' ∧ t.memory.depth + 1 = s.memory.depth ∨
      c ∉ ['[', ']'] ∧ t.memory.depth = s.memory.depth := by
  by_cases hopen : c = '['
  · subst hopen
    exact .inl ⟨rfl, (Stacks.conserved_of_opened (openCounted_of_execute hquote h)).1⟩
  · by_cases hclose : c = ']'
    · subst hclose
      exact .inr (.inl ⟨rfl, (Stacks.conserved_of_closed (closeStack_of_instruction hquote h)).1⟩)
    · have hother : c ∉ ['[', ']'] := by simp [hopen, hclose]
      have hsuspended : Part.suspended.Same s t := same_of_execute h hother
      exact .inr (.inr ⟨hother, Stacks.depth_of_suspended_eq hsuspended⟩)

/-- Below the active stack, a stack keeps its place and what it holds, unless a bracket leads back
to it. -/
theorem getElem?_toList_of_execute (h : execute box c s = .ok flow t) {i : Nat}
    (hi : i < s.memory.suspended.length)
    (hreturn : ¬(s.quote = none ∧ c = ']' ∧ i + 1 = s.memory.suspended.length)) :
    t.memory.toList[i]? = s.memory.toList[i]? := by
  have hbefore : i + 1 + 1 ≤ s.memory.depth := Nat.succ_le_succ hi
  have hafter : i + 1 + 1 ≤ t.memory.depth := by
    cases hquote : s.quote with
    | some q =>
      have hsuspended : Part.suspended.Same s t := same_of_quoted hquote h (by decide)
      exact (Stacks.depth_of_suspended_eq hsuspended).symm ▸ hbefore
    | none =>
      rcases depth_of_execute hquote h with ⟨-, hdepth⟩ | ⟨hclose, hdepth⟩ | ⟨-, hdepth⟩
      · omega
      · have hlength : s.memory.depth = s.memory.suspended.length + 1 := rfl
        have hne : i + 1 ≠ s.memory.suspended.length := fun heq => hreturn ⟨hquote, hclose, heq⟩
        omega
      · omega
  have htake := Stacks.take_toList_of_change (change_execute h) hbefore hafter
  rw [← List.getElem?_take_of_lt (Nat.lt_succ_self i), htake,
    List.getElem?_take_of_lt (Nat.lt_succ_self i)]

/-- The pointer goes on in another way than to the next cell where an instruction says so. -/
theorem flow_eq_iff (h : execute box c s = .ok flow t) {flow' : Flow} (hflow : flow' ≠ .next) :
    flow = flow' ↔ s.quote = none ∧
      ∃ instruction, Instruction.ofChar? c = some instruction ∧ instruction.flow s = flow' := by
  cases hquote : s.quote with
  | some q =>
    rw [(eq_of_quoted hquote h).1]
    exact iff_of_false (Ne.symm hflow) fun hnone => by cases hnone.1
  | none =>
    obtain ⟨instruction, hc, hperform⟩ := instruction_of_execute hquote h
    rw [flow_of_perform hperform]
    simp [hc]

end Executed

end State

namespace State

/-- What executing a character has done to the state, part by part. -/
structure OwnPart (box : Codebox) (c : Char) (flow : Flow) (s t : State) : Prop where
  /-- Output is added to at its end, by what writes. -/
  output : t.channel.output = s.channel.output ∨ s.quote = none ∧ c ∈ ['n', 'o'] ∧
    ∃ text, t.channel.output = s.channel.output ++ text
  /-- Input is taken from the front, by what reads. -/
  pending : t.channel.pending = s.channel.pending ∨ s.quote = none ∧ c = 'i' ∧
    ∃ taken, s.channel.pending = taken :: t.channel.pending
  closed : t.channel.closed = s.channel.closed
  quote : t.quote ≠ s.quote → c ∈ ['"', '\'']
  random : t.random ≠ s.random → s.quote = none ∧ c = 'x'
  place : (t.pointer.x, t.pointer.y) ≠ (s.pointer.x, s.pointer.y) → s.quote = none ∧ c = '.'
  /-- A jump leads to a cell of the codebox. -/
  inside : s.quote = none → c = '.' → t.pointer.Inside box
  direction : t.pointer.direction ≠ s.pointer.direction →
    s.quote = none ∧ c ∈ ['>', '<', '^', 'v', 'x', '/', '\\', '|', '_', '#']
  depth : t.memory.depth ≠ s.memory.depth → s.quote = none ∧ c ∈ ['[', ']']
  /-- The stacks beneath the active one stay, but for the one that a closing bracket leads back
  to. -/
  beneath : ∀ i, i < s.memory.suspended.length →
    ¬(s.quote = none ∧ c = ']' ∧ i + 1 = s.memory.suspended.length) →
    t.memory.toList[i]? = s.memory.toList[i]?
  /-- Between quotation marks a text ends, or a value is pushed. -/
  quoted : ∀ q, s.quote = some q → flow = .next ∧
    t = if c = q.char then { s with quote := none } else { s with memory :=
      { s.memory with active :=
        { s.memory.active with values := .ofChar c :: s.memory.active.values } } }
  skip : flow = .skip ↔ s.quote = none ∧
    (c = '!' ∨ c = '?' ∧ ∃ v, s.memory.active.top? = some v ∧ v.isZero = true)
  jumped : flow = .jumped ↔ s.quote = none ∧ c = '.'
  halt : flow = .halt ↔ s.quote = none ∧ c = ';'

end State

open State in
/-- What is executed touches only its own part of the state: each part changes by the characters
that are for it, and by no others. -/
theorem own_part_only {box : Codebox} {c : Char} {s t : State} {flow : Flow}
    (h : execute box c s = .ok flow t) : OwnPart box c flow s t where
  output := by
    by_cases hsame : Part.output.Same s t
    · exact .inl hsame
    · obtain ⟨hquote, hc⟩ := touched_of_execute h hsame
      have hread : Instruction.ofChar? c ≠ some .readChar := fun hi => by
        obtain rfl : c = 'i' := (Instruction.ofChar?_eq_some_iff rfl rfl).mp hi
        exact absurd hc (by decide)
      exact .inr ⟨hquote (by decide), hc, output_of_execute hread h⟩
  pending := by
    by_cases hsame : Part.pending.Same s t
    · exact .inl hsame
    · obtain ⟨hquote, hc⟩ := touched_of_execute h hsame
      obtain rfl := List.mem_singleton.mp hc
      rw [execute_of_instruction (hquote (by decide)) rfl] at h
      exact .inr ⟨hquote (by decide), rfl, (pending_of_readChar h).resolve_left hsame⟩
  closed := by
    have hsame : Part.closed.Same s t := same_of_execute h List.not_mem_nil
    exact hsame
  quote hdiff := by
    have hpart : ¬Part.quote.Same s t := hdiff
    exact (touched_of_execute h hpart).2
  random hdiff := by
    have hpart : ¬Part.random.Same s t := hdiff
    obtain ⟨hquote, hc⟩ := touched_of_execute h hpart
    exact ⟨hquote (by decide), List.mem_singleton.mp hc⟩
  place hdiff := by
    have hpart : ¬Part.place.Same s t := hdiff
    obtain ⟨hquote, hc⟩ := touched_of_execute h hpart
    exact ⟨hquote (by decide), List.mem_singleton.mp hc⟩
  inside hquote hc := by
    subst hc
    rw [execute_of_instruction hquote rfl] at h
    exact inside_of_jump h
  direction hdiff := by
    have hpart : ¬Part.direction.Same s t := hdiff
    obtain ⟨hquote, hc⟩ := touched_of_execute h hpart
    exact ⟨hquote (by decide), hc⟩
  depth hdiff := by
    have hpart : ¬Part.suspended.Same s t := fun hsame =>
      hdiff (Stacks.depth_of_suspended_eq hsame)
    obtain ⟨hquote, hc⟩ := touched_of_execute h hpart
    exact ⟨hquote (by decide), hc⟩
  beneath i hi hreturn := getElem?_toList_of_execute h hi hreturn
  quoted q hquote := eq_of_quoted hquote h
  skip := by
    rw [flow_eq_iff h (by decide)]
    constructor
    · rintro ⟨hquote, instruction, hc, hskip⟩
      rcases (Instruction.flow_eq_skip_iff s instruction).mp hskip with rfl | ⟨rfl, hzero⟩
      · exact ⟨hquote, .inl ((Instruction.ofChar?_eq_some_iff rfl rfl).mp hc)⟩
      · exact ⟨hquote, .inr ⟨(Instruction.ofChar?_eq_some_iff rfl rfl).mp hc, hzero⟩⟩
    · rintro ⟨hquote, rfl | ⟨rfl, hzero⟩⟩
      · exact ⟨hquote, .skip, rfl, rfl⟩
      · exact ⟨hquote, .skipIfZero, rfl,
          (Instruction.flow_eq_skip_iff s .skipIfZero).mpr (.inr ⟨rfl, hzero⟩)⟩
  jumped := by
    rw [flow_eq_iff h (by decide)]
    simp only [Instruction.flow_eq_jumped_iff, exists_eq_right]
    rw [Instruction.ofChar?_eq_some_iff rfl rfl]
  halt := by
    rw [flow_eq_iff h (by decide)]
    simp only [Instruction.flow_eq_halt_iff, exists_eq_right]
    rw [Instruction.ofChar?_eq_some_iff rfl rfl]

open State in
/-- Coming back to the stack in the middle leaves the lowest one, and what is parked there. A jump
to the left of the codebox enters it from the right. -/
theorem own_part_only_return :
    let box := Codebox.ofSource "abc"
    let lowest : Stack := ⟨[.int 1], some (.int 7)⟩
    let s : State := { memory := ⟨.ofList [.int (-1), .int 0], [.ofList [.int 2], lowest]⟩,
                       random := .ofSeed 0 }
    (∃ t, execute box ']' s = .ok .next t ∧ t.memory.active.toList = [.int 2, .int (-1), .int 0] ∧
      t.memory.toList[0]? = some lowest ∧ t.channel.closed = s.channel.closed) ∧
    ∃ t, execute box '.' s = .ok .jumped t ∧ t.pointer.Inside box ∧
      (t.pointer.x, t.pointer.y) = (2, 0) := by
  intro box lowest s
  obtain ⟨t, hclose, hactive⟩ : ∃ t, execute box ']' s = .ok .next t ∧
      t.memory.active.toList = [.int 2, .int (-1), .int 0] := ⟨_, rfl, rfl⟩
  obtain ⟨u, hjump, hplace⟩ : ∃ u, execute box '.' s = .ok .jumped u ∧
      (u.pointer.x, u.pointer.y) = (2, 0) := ⟨_, rfl, rfl⟩
  have hclosed := own_part_only hclose
  have hjumped := own_part_only hjump
  refine ⟨⟨t, hclose, hactive, ?_, hclosed.closed⟩, u, hjump, ?_, hplace⟩
  · exact hclosed.beneath 0 (by decide) (by decide)
  · exact hjumped.inside rfl rfl

end Fish
