import Fish.Proofs.Failures
import Fish.Proofs.Symbols

/-!
When an instruction is refused. The stack may hold too few values, which is asked first; then
the values, the stack of stacks or the input may not be as the instruction wants them. Characters
out of the table are refused as such, and between quotation marks nothing is.
-/

namespace Fish

/-- How many values the instruction of a character needs on the active stack. A count needs as
many below it as it says. -/
def demand (c : Char) (s : Stack) : Nat :=
  match c with
  | ':' | '~' | '?' | 'n' | 'o' => 1
  | '+' | '-' | '*' | ',' | '%' | '=' | ')' | '(' | '$' | '.' | 'g' => 2
  | '@' => 3
  | '&' => if s.register = none then 1 else 0
  | '[' => ((s.top?.bind Value.count?).getD 0) + 1
  | _ => 0

/-- What stands against the instruction of a character where there are values enough. Of two
coordinates the lower one, which is the column, is looked at first. -/
inductive Objection (c : Char) (s : State) : Interrupt → Prop
  | divisor {top below : Value} {rest : List Value} (hc : c ∈ [',', '%'])
      (hvalues : s.memory.active.values = top :: below :: rest) (hzero : top.isZero = true) :
      Objection c s (.fatal .divisionByZero)
  | column {x y : Value} {rest : List Value} (hc : c ∈ ['.', 'g'])
      (hvalues : s.memory.active.values = y :: x :: rest) (hx : x.isFinite = false) :
      Objection c s (.fatal (.invalidCoordinate x))
  | row {x y : Value} {rest : List Value} (hc : c ∈ ['.', 'g'])
      (hvalues : s.memory.active.values = y :: x :: rest) (hx : x.isFinite = true)
      (hy : y.isFinite = false) : Objection c s (.fatal (.invalidCoordinate y))
  | character {v : Value} {rest : List Value} (hc : c ∈ ['o'])
      (hvalues : s.memory.active.values = v :: rest)
      (hv : v.isFinite = false ∨
        ∃ n, v.integerPart? = some n ∧ ¬(0 ≤ n ∧ n.toNat.isValidChar)) :
      Objection c s (.fatal (.invalidCharacter v))
  | count {v : Value} {rest : List Value} (hc : c ∈ ['['])
      (hvalues : s.memory.active.values = v :: rest)
      (hv : v.isFinite = false ∨ ∃ n, v.integerPart? = some n ∧ n < 0) :
      Objection c s (.fatal (.invalidCount v))
  | lowest (hc : c ∈ [']']) (hdepth : s.memory.depth = 1) :
      Objection c s (.fatal .noEnclosingStack)
  | input (hc : c ∈ ['i']) (hpending : s.channel.pending = [])
      (hopen : s.channel.closed = false) : Objection c s .blocked
  | unknown (hc : c ∉ Instruction.symbols) (hblank : Text.isBlank c = false) (hnul : c ≠ '\x00') :
      Objection c s (.fatal (.invalidInstruction c))

section Refusals

variable {c : Char} {s : State} {i : Interrupt}

/-- The instruction of a character is refused: there are too few values, or something else stands
against it. -/
def Refused (c : Char) (s : State) (i : Interrupt) : Prop :=
  s.memory.active.size < demand c s.memory.active ∧
      i = .fatal (.stackUnderflow (demand c s.memory.active) s.memory.active.size) ∨
    demand c s.memory.active ≤ s.memory.active.size ∧ Objection c s i

theorem refused_iff {failure : Option Interrupt} {n : Nat}
    (hdemand : demand c s.memory.active = n)
    (hlack : s.memory.active.size < n →
      failure = some (.fatal (.stackUnderflow n s.memory.active.size)))
    (henough : n ≤ s.memory.active.size → (failure = some i ↔ Objection c s i)) :
    failure = some i ↔ Refused c s i := by
  subst hdemand
  unfold Refused
  by_cases hsize : s.memory.active.size < demand c s.memory.active
  · rw [hlack hsize, Option.some.injEq, or_iff_left (fun h => Nat.not_le_of_lt hsize h.1),
      and_iff_right hsize]
    exact eq_comm
  · have hle := Nat.le_of_not_lt hsize
    rw [henough hle, or_iff_right (fun h => hsize h.1), and_iff_right hle]

section Values

variable {x y v : Value} {rest : List Value}

theorem objection_divisor_iff (hc : c ∈ [',', '%'])
    (hvalues : s.memory.active.values = y :: x :: rest) :
    Objection c s i ↔ y.isZero = true ∧ i = .fatal .divisionByZero := by
  have hsymbol : [',', '%'] ⊆ Instruction.symbols := by decide
  constructor
  · intro h
    cases h with
    | divisor _ hvalues' hzero =>
      cases hvalues.symm.trans hvalues'
      exact ⟨hzero, rfl⟩
    | unknown hc' => exact absurd (hsymbol hc) hc'
    | _ => grind
  · rintro ⟨hzero, rfl⟩
    exact .divisor hc hvalues hzero

theorem objection_place_iff (hc : c ∈ ['.', 'g'])
    (hvalues : s.memory.active.values = y :: x :: rest) :
    Objection c s i ↔
      x.isFinite = false ∧ i = .fatal (.invalidCoordinate x) ∨
        x.isFinite = true ∧ y.isFinite = false ∧ i = .fatal (.invalidCoordinate y) := by
  have hsymbol : ['.', 'g'] ⊆ Instruction.symbols := by decide
  constructor
  · intro h
    cases h with
    | column _ hvalues' hx =>
      cases hvalues.symm.trans hvalues'
      exact .inl ⟨hx, rfl⟩
    | row _ hvalues' hx hy =>
      cases hvalues.symm.trans hvalues'
      exact .inr ⟨hx, hy, rfl⟩
    | unknown hc' => exact absurd (hsymbol hc) hc'
    | _ => grind
  · rintro (⟨hx, rfl⟩ | ⟨hx, hy, rfl⟩)
    · exact .column hc hvalues hx
    · exact .row hc hvalues hx hy

theorem objection_character_iff (hvalues : s.memory.active.values = v :: rest) :
    Objection 'o' s i ↔ v.toChar? = none ∧ i = .fatal (.invalidCharacter v) := by
  rw [Value.toChar?_eq_none_iff]
  constructor
  · intro h
    cases h with
    | character _ hvalues' hv =>
      cases hvalues.symm.trans hvalues'
      exact ⟨hv, rfl⟩
    | unknown hc => exact absurd (by decide) hc
    | _ => grind
  · rintro ⟨hv, rfl⟩
    exact .character (by decide) hvalues hv

theorem objection_count_iff (hvalues : s.memory.active.values = v :: rest) :
    Objection '[' s i ↔ v.toCount? = none ∧ i = .fatal (.invalidCount v) := by
  rw [Value.toCount?_eq_none_iff]
  constructor
  · intro h
    cases h with
    | count _ hvalues' hv =>
      cases hvalues.symm.trans hvalues'
      exact ⟨hv, rfl⟩
    | unknown hc => exact absurd (by decide) hc
    | _ => grind
  · rintro ⟨hv, rfl⟩
    exact .count (by decide) hvalues hv

end Values

theorem objection_lowest_iff :
    Objection ']' s i ↔ s.memory.depth = 1 ∧ i = .fatal .noEnclosingStack := by
  constructor
  · intro h
    cases h with
    | lowest _ hdepth => exact ⟨hdepth, rfl⟩
    | unknown hc => exact absurd (by decide) hc
    | _ => grind
  · rintro ⟨hdepth, rfl⟩
    exact .lowest (by decide) hdepth

theorem objection_input_iff :
    Objection 'i' s i ↔
      (s.channel.pending = [] ∧ s.channel.closed = false) ∧ i = .blocked := by
  constructor
  · intro h
    cases h with
    | input _ hpending hopen => exact ⟨⟨hpending, hopen⟩, rfl⟩
    | unknown hc => exact absurd (by decide) hc
    | _ => grind
  · rintro ⟨⟨hpending, hopen⟩, rfl⟩
    exact .input (by decide) hpending hopen

/-- The characters whose instructions need values. -/
def demanding : List Char :=
  [':', '~', '?', 'n', 'o', '+', '-', '*', ',', '%', '=', ')', '(', '$', '.', 'g', '@', '&', '[']

theorem demand_eq_zero (hc : c ∉ demanding) (stack : Stack) : demand c stack = 0 := by
  unfold demand
  split <;> first | rfl | exact absurd (by decide) hc

/-- The characters of the table to which there can be an objection. -/
def contested : List Char := [',', '%', '.', 'g', 'o', '[', ']', 'i']

theorem contested_subset : contested ⊆ demanding ++ [']', 'i'] := by decide

theorem demanding_subset_symbols : demanding ++ [']', 'i'] ⊆ Instruction.symbols := by decide

theorem contested_or_unknown (h : Objection c s i) :
    c ∈ contested ∨ Instruction.ofChar? c = none ∧ i = .fatal (.invalidInstruction c) := by
  cases h with
  | unknown hsymbol hblank hnul =>
    exact .inr ⟨(Instruction.ofChar?_eq_none_iff c).mpr ⟨hsymbol, hblank, hnul⟩, rfl⟩
  | _ =>
    left
    unfold contested
    grind

/-- Nothing but a lack of values stands against most instructions. -/
theorem not_objection (hknown : Instruction.ofChar? c ≠ none) (hc : c ∉ contested) :
    ¬Objection c s i := by
  intro h
  rcases contested_or_unknown h with hc' | ⟨hunknown, -⟩
  · exact hc hc'
  · exact hknown hunknown

theorem refused_iff_of_lack {failure : Option Interrupt} {n : Nat}
    (hknown : Instruction.ofChar? c ≠ none) (hc : c ∉ contested)
    (hdemand : demand c s.memory.active = n)
    (hfailure : failure = (s.memory.active.lack n).map .fatal) :
    failure = some i ↔ Refused c s i := by
  refine refused_iff hdemand (fun hsize => ?_) fun hsize => ?_
  · rw [hfailure, Stack.lack, if_pos hsize]
    rfl
  · rw [hfailure, Stack.lack, if_neg (Nat.not_lt_of_le hsize)]
    exact iff_of_false (Option.some_ne_none i).symm (not_objection hknown hc)

theorem refused_iff_of_none {failure : Option Interrupt} (hknown : Instruction.ofChar? c ≠ none)
    (hc : c ∉ demanding ++ [']', 'i']) (hfailure : failure = none) :
    failure = some i ↔ Refused c s i := by
  have hdemand : c ∉ demanding := fun h => hc (List.mem_append_left _ h)
  refine refused_iff_of_lack hknown (fun h => hc (contested_subset h)) (demand_eq_zero hdemand _) ?_
  rw [hfailure, Stack.lack, if_neg (Nat.not_lt_zero _)]
  rfl

theorem exists_of_one_le {stack : Stack} (h : 1 ≤ stack.size) :
    ∃ v rest, stack.values = v :: rest := by
  obtain ⟨_ | ⟨v, rest⟩, register⟩ := stack
  · cases h
  · exact ⟨v, rest, rfl⟩

theorem exists_of_two_le {stack : Stack} (h : 2 ≤ stack.size) :
    ∃ top below rest, stack.values = top :: below :: rest := by
  obtain ⟨_ | ⟨top, _ | ⟨below, rest⟩⟩, register⟩ := stack
  · cases h
  · exact absurd h (Nat.not_succ_le_self 1)
  · exact ⟨top, below, rest, rfl⟩

/-- Of the operators only the divisions object, to a zero. -/
theorem refused_combine_iff (op : Operator)
    (hknown : Instruction.ofChar? c ≠ none) (hc : (StackInstruction.combine op).symbol = c) :
    (failure? (Stack.combine op.apply) s.memory.active).map Interrupt.fatal = some i ↔
      Refused c s i := by
  have hdemand : demand c s.memory.active = 2 := by
    subst hc
    cases op <;> rfl
  refine refused_iff hdemand (fun hsize => ?_) fun hsize => ?_
  · rw [Stack.combine, Stack.failure?_of_lack_two hsize]
    rfl
  · obtain ⟨top, below, rest, hvalues⟩ := exists_of_two_le hsize
    simp only [Option.map_eq_some_iff, Stack.failure?_combine_iff hvalues,
      Operator.apply_error_iff]
    by_cases hop : op = .div ∨ op = .rem
    · have hdivides : c ∈ [',', '%'] := by
        subst hc
        rcases hop with rfl | rfl <;> decide
      rw [objection_divisor_iff hdivides hvalues]
      constructor
      · rintro ⟨e, ⟨-, hzero, rfl⟩, rfl⟩
        exact ⟨hzero, rfl⟩
      · rintro ⟨hzero, rfl⟩
        exact ⟨_, ⟨hop, hzero, rfl⟩, rfl⟩
    · have hplain : c ∉ contested := by
        subst hc
        cases op <;> simp at hop <;> decide
      refine iff_of_false ?_ (not_objection hknown hplain)
      rintro ⟨e, ⟨hop', -⟩, -⟩
      exact hop hop'

theorem refused_place_iff (hc : c ∈ ['.', 'g']) :
    (failure? Stack.takePlace s.memory.active).map Interrupt.fatal = some i ↔ Refused c s i := by
  have hdemand : demand c s.memory.active = 2 := by
    rcases List.mem_cons.mp hc with rfl | hc
    · rfl
    · obtain rfl := List.mem_singleton.mp hc
      rfl
  refine refused_iff hdemand (fun hsize => ?_) fun hsize => ?_
  · rw [Stack.takePlace, Stack.failure?_of_lack_two hsize]
    rfl
  · obtain ⟨y, x, rest, hvalues⟩ := exists_of_two_le hsize
    simp only [Option.map_eq_some_iff, Stack.failure?_takePlace_iff hvalues,
      objection_place_iff hc hvalues]
    constructor
    · rintro ⟨e, ⟨hx, rfl⟩ | ⟨hx, hy, rfl⟩, rfl⟩
      · exact .inl ⟨hx, rfl⟩
      · exact .inr ⟨hx, hy, rfl⟩
    · rintro (⟨hx, rfl⟩ | ⟨hx, hy, rfl⟩)
      · exact ⟨_, .inl ⟨hx, rfl⟩, rfl⟩
      · exact ⟨_, .inr ⟨hx, hy, rfl⟩, rfl⟩

theorem refused_writeChar_iff :
    (failure? Stack.takeChar s.memory.active).map Interrupt.fatal = some i ↔ Refused 'o' s i := by
  refine refused_iff (n := 1) rfl (fun hsize => ?_) fun hsize => ?_
  · rw [Stack.takeChar, Stack.failure?_of_lack_one hsize]
    rfl
  · obtain ⟨v, rest, hvalues⟩ := exists_of_one_le hsize
    simp only [Option.map_eq_some_iff, Stack.failure?_takeChar_iff hvalues,
      objection_character_iff hvalues]
    constructor
    · rintro ⟨e, ⟨hv, rfl⟩, rfl⟩
      exact ⟨hv, rfl⟩
    · rintro ⟨hv, rfl⟩
      exact ⟨_, ⟨hv, rfl⟩, rfl⟩

theorem demand_openStack {stack : Stack} {v : Value} {rest : List Value}
    (hvalues : stack.values = v :: rest) :
    demand '[' stack = (v.toCount?.map UInt64.toNat).getD 0 + 1 := by
  have htop : stack.top? = some v := by rw [Stack.top?, hvalues, List.head?_cons]
  rw [← Value.count?_eq]
  change (stack.top?.bind Value.count?).getD 0 + 1 = v.count?.getD 0 + 1
  rw [htop, Option.bind_some]

/-- A count is looked at before the values below it are. -/
theorem refused_openStack_iff :
    (failure? Stack.takeCount s.memory.active).map Interrupt.fatal = some i ↔
      Refused '[' s i := by
  rcases hvalues : s.memory.active.values with _ | ⟨v, rest⟩
  · have hsize : s.memory.active.size < 1 := by rw [Stack.size, hvalues]; exact Nat.one_pos
    have hdemand : demand '[' s.memory.active = 1 := by
      change (s.memory.active.top?.bind Value.count?).getD 0 + 1 = 1
      rw [Stack.top?, hvalues]
      rfl
    refine refused_iff hdemand (fun _ => ?_) fun hle => absurd hsize (Nat.not_lt_of_le hle)
    rw [Stack.takeCount, Stack.failure?_of_lack_one hsize]
    rfl
  · have hsize : 1 ≤ s.memory.active.size := by
      rw [Stack.size, hvalues]
      exact Nat.le_add_left 1 rest.length
    have hfailure := Stack.failure?_takeCount hvalues
    have hobjection := objection_count_iff (s := s) (i := i) hvalues
    cases hcount : v.toCount? with
    | none =>
      have hdemand : demand '[' s.memory.active = 1 := by
        rw [demand_openStack hvalues, hcount]
        rfl
      rw [hcount] at hfailure hobjection
      refine refused_iff hdemand (fun hlt => absurd hsize (Nat.not_le_of_lt hlt)) fun _ => ?_
      rw [hfailure, hobjection, Option.map_some, Option.some.injEq, and_iff_right rfl]
      exact eq_comm
    | some count =>
      have hdemand : demand '[' s.memory.active = count.toNat + 1 := by
        rw [demand_openStack hvalues, hcount]
        rfl
      rw [hcount] at hobjection
      simp only [hcount] at hfailure
      refine refused_iff hdemand (fun hlt => ?_) fun hle => ?_
      · rw [hfailure, Stack.lack, if_pos hlt]
        rfl
      · rw [hfailure, Stack.lack, if_neg (Nat.not_lt_of_le hle), hobjection]
        exact iff_of_false (Option.some_ne_none i).symm fun h => by cases h.1

theorem refused_stack_iff {instruction : StackInstruction}
    (hknown : Instruction.ofChar? c ≠ none) (hc : instruction.symbol = c) :
    (failure? instruction.perform s.memory).map Interrupt.fatal = some i ↔ Refused c s i := by
  have hactive : ∀ {op : StackOp Unit} {result : Option Fault},
      failure? op s.memory.active = result →
        (failure? (Stacks.onActive op) s.memory).map Interrupt.fatal =
          result.map Interrupt.fatal := by
    intro op result h
    rw [Stacks.failure?_onActive, h]
  cases instruction with
  | push digit =>
    have hdigits : ∀ digit : Fin 16, Nat.digitChar digit ∉ demanding ++ [']', 'i'] := by decide
    exact refused_iff_of_none hknown (hc ▸ hdigits digit)
      (hactive ((Stack.total_push _).failure? _))
  | combine op =>
    rw [StackInstruction.perform, Stacks.failure?_onActive]
    exact refused_combine_iff op hknown hc
  | duplicate =>
    subst hc
    exact refused_iff_of_lack hknown (by decide) rfl (hactive (Stack.failure?_duplicate _))
  | discard =>
    subst hc
    refine refused_iff_of_lack hknown (by decide) rfl (hactive ?_)
    exact (failure?_bind_total _ (fun _ => total_pure _) _).trans (Stack.failure?_pop _)
  | swap2 =>
    subst hc
    exact refused_iff_of_lack hknown (by decide) rfl (hactive (Stack.failure?_swap2 _))
  | swap3 =>
    subst hc
    exact refused_iff_of_lack hknown (by decide) rfl (hactive (Stack.failure?_swap3 _))
  | toggleRegister =>
    subst hc
    exact refused_iff_of_lack hknown (by decide) rfl (hactive (Stack.failure?_toggleRegister _))
  | shiftRight =>
    subst hc
    exact refused_iff_of_none hknown (by decide) (hactive (Stack.total_shiftRight.failure? _))
  | shiftLeft =>
    subst hc
    exact refused_iff_of_none hknown (by decide) (hactive (Stack.total_shiftLeft.failure? _))
  | reverse =>
    subst hc
    exact refused_iff_of_none hknown (by decide) (hactive (Stack.total_reverse.failure? _))
  | size =>
    subst hc
    exact refused_iff_of_none hknown (by decide) (hactive (Stack.total_pushSize.failure? _))
  | openStack =>
    subst hc
    rw [StackInstruction.perform, Stacks.failure?_openCounted]
    exact refused_openStack_iff
  | closeStack =>
    subst hc
    rw [StackInstruction.perform, Stacks.failure?_closeStack]
    refine refused_iff (n := 0) rfl (fun h => absurd h (Nat.not_lt_zero _)) fun _ => ?_
    rw [StackInstruction.symbol, objection_lowest_iff, Option.map_if,
      Option.ite_none_right_eq_some, Option.some.injEq]
    exact and_congr_right fun _ => eq_comm

/-- What is no instruction is refused as such. -/
theorem refused_unknown_iff (hchar : Instruction.ofChar? c = none) :
    some (.fatal (.invalidInstruction c)) = some i ↔ Refused c s i := by
  obtain ⟨hsymbol, hblank, hnul⟩ := (Instruction.ofChar?_eq_none_iff c).mp hchar
  have hnone : c ∉ demanding ++ [']', 'i'] := fun h => hsymbol (demanding_subset_symbols h)
  have hdemand : demand c s.memory.active = 0 :=
    demand_eq_zero (fun h => hnone (List.mem_append_left _ h)) _
  refine refused_iff hdemand (fun h => absurd h (Nat.not_lt_zero _)) fun _ => ?_
  constructor
  · intro h
    obtain rfl := Option.some.inj h
    exact .unknown hsymbol hblank hnul
  · intro h
    rcases contested_or_unknown h with hc | ⟨-, rfl⟩
    · exact absurd (contested_subset hc) hnone
    · rfl

/-- An instruction fails just where it is refused. -/
theorem refused_perform_iff {instruction : Instruction} (box : Codebox)
    (hchar : Instruction.ofChar? c = some instruction) :
    failure? (State.perform box instruction) s = some i ↔ Refused c s i := by
  have hknown : Instruction.ofChar? c ≠ none := hchar ▸ Option.some_ne_none instruction
  rcases Instruction.symbol?_of_ofChar? hchar with hsymbol | ⟨rfl, -⟩
  · have hfirst : ∀ {α : Type} (op : StackOp α) {next : α → Effect Flow},
        (∀ a, Total (next a)) → failure? (State.onStack op >>= next) s =
          (failure? op s.memory.active).map .fatal := by
      intro α op next hnext
      rw [failure?_bind_total _ hnext, State.failure?_onStack]
    cases instruction with
    | stack instruction =>
      have hperform : failure? (State.perform box (.stack instruction)) s =
          (failure? instruction.perform s.memory).map .fatal :=
        (failure?_bind_total _ (fun _ => total_pure _) s).trans (State.failure?_onStacks _ s)
      rw [hperform]
      exact refused_stack_iff hknown (Option.some.inj hsymbol)
    | turn d =>
      cases hsymbol
      refine refused_iff_of_none hknown (by cases d <;> decide) (Total.failure? ?_ s)
      exact (State.total_movePointer _).bind fun _ => total_pure _
    | turnRandomly =>
      cases hsymbol
      refine refused_iff_of_none hknown (by decide) (Total.failure? ?_ s)
      exact (total_modify _).bind fun _ => total_pure _
    | reflect m =>
      cases hsymbol
      refine refused_iff_of_none hknown (by cases m <;> decide) (Total.failure? ?_ s)
      exact (State.total_movePointer _).bind fun _ => total_pure _
    | skip =>
      cases hsymbol
      exact refused_iff_of_none hknown (by decide) rfl
    | skipIfZero =>
      cases hsymbol
      refine refused_iff_of_lack (n := 1) hknown (by decide) rfl ((hfirst Stack.pop ?_).trans ?_)
      · exact fun _ => total_pure _
      · rw [Stack.failure?_pop]
    | jump =>
      cases hsymbol
      rw [State.perform, hfirst Stack.takePlace fun _ =>
        (State.total_movePointer _).bind fun _ => total_pure _]
      exact refused_place_iff (by decide)
    | quote q =>
      cases hsymbol
      refine refused_iff_of_none hknown (by cases q <;> decide) (Total.failure? ?_ s)
      exact (total_modify _).bind fun _ => total_pure _
    | writeNumber =>
      cases hsymbol
      refine refused_iff_of_lack (n := 1) hknown (by decide) rfl ((hfirst Stack.pop ?_).trans ?_)
      · exact fun _ => (State.total_write _).bind fun _ => total_pure _
      · rw [Stack.failure?_pop]
    | writeChar =>
      cases hsymbol
      rw [State.perform, hfirst Stack.takeChar fun _ =>
        (State.total_write _).bind fun _ => total_pure _]
      exact refused_writeChar_iff
    | readChar =>
      cases hsymbol
      rw [State.perform, failure?_bind_total _ fun _ =>
        (State.onStack_total (Stack.total_push _)).bind fun _ => total_pure _,
        State.failure?_receive]
      refine refused_iff (n := 0) rfl (fun h => absurd h (Nat.not_lt_zero _)) fun _ => ?_
      rw [objection_input_iff, Option.ite_none_right_eq_some, Option.some.injEq]
      exact and_congr_right fun _ => eq_comm
    | fetch =>
      cases hsymbol
      rw [State.perform, hfirst Stack.takePlace fun _ =>
        (State.onStack_total (Stack.total_push _)).bind fun _ => total_pure _]
      exact refused_place_iff (by decide)
    | halt =>
      cases hsymbol
      exact refused_iff_of_none hknown (by decide) rfl
    | blank => cases hsymbol
  · have hblank : c ∉ Instruction.symbols := fun hmem => (Instruction.ofChar?_of_mem hmem).2 hchar
    exact refused_iff_of_none hknown (fun h => hblank (demanding_subset_symbols h)) rfl

end Refusals

/-- Between quotation marks every character is accepted. Elsewhere an instruction is not done if
and only if the active stack has fewer values than it needs, which is the fault then, or else there
is an objection to it; and the state stays as it was. -/
theorem execute_fails_iff (box : Codebox) (c : Char) (s : State) :
    (s.quote = none ∨ ∃ t, State.execute box c s = .ok .next t) ∧
    ∀ (i : Interrupt) (t : State), State.execute box c s = .error i t ↔
      s.quote = none ∧ t = s ∧
        (s.memory.active.size < demand c s.memory.active ∧
            i = .fatal (.stackUnderflow (demand c s.memory.active) s.memory.active.size) ∨
          demand c s.memory.active ≤ s.memory.active.size ∧ Objection c s i) := by
  cases hquote : s.quote with
  | some q =>
    have hnext : ∃ t, State.execute box c s = .ok .next t := by
      rw [State.execute_of_quote hquote, State.readQuoted]
      split
      · exact ⟨_, rfl⟩
      · exact ⟨_, rfl⟩
    refine ⟨.inr hnext, fun i t => iff_of_false ?_ fun h => by cases h.1⟩
    obtain ⟨u, hok⟩ := hnext
    intro herror
    cases hok.symm.trans herror
  | none =>
    refine ⟨.inl rfl, fun i t => ?_⟩
    rw [(State.atomic_execute box c).error_iff, and_iff_right rfl]
    refine and_congr_right fun _ => ?_
    cases hchar : Instruction.ofChar? c with
    | some instruction =>
      have hperform := State.execute_of_instruction hquote hchar box
      rw [failure?, hperform]
      exact refused_perform_iff box hchar
    | none =>
      rw [failure?_of_error (State.execute_of_invalid hquote hchar box)]
      exact refused_unknown_iff hchar

end Fish
