import Fish.Proofs.Nesting
import Fish.Proofs.Objections

/-!
Values are neither lost nor made up. An instruction takes its operands away from the top of a
stack, or puts a result there, or moves values about; so what it makes of the number of all values
held, parked ones included, can be read off its character, and what lies beneath its operands stays
in place. The stacks that brackets open and close share their values out, but for a count and for
what is parked on a closed stack.
-/

namespace Fish

/-- By how much the instruction of a character changes the number of values held, if it is none
that opens or closes a stack. -/
def gain (c : Char) : Int :=
  match c with
  | ':' | 'l' | 'i' => 1
  | '+' | '-' | '*' | ',' | '%' | '=' | ')' | '(' | '~' | '?' | 'n' | 'o' | 'g' => -1
  | '.' => -2
  | c => if (digit? c).isSome then 1 else 0

theorem gain_of_notMem {c : Char} (h : c ∉ Instruction.symbols) : gain c = 0 := by
  have hnone : digit? c = none := by
    cases hdigit : digit? c with
    | none => rfl
    | some digit =>
      have hsymbol := Instruction.symbol_mem_symbols (.push digit)
      rw [StackInstruction.symbol, digitChar_of_digit? hdigit] at hsymbol
      exact absurd hsymbol h
  unfold gain
  split <;> first | exact absurd (by decide) h | rw [hnone]; rfl

/-- The characters whose instructions move values about. -/
def rearranging : List Char := ['$', '@', '}', '{', 'r', '&']

namespace Stack

/-- The `n` topmost values may be different, and there are `gained` more values. -/
structure Exchanges (n : Nat) (gained : Int) (s t : Stack) : Prop where
  beneath : s.values.drop n <:+ t.values
  count : (t.contents.length : Int) = s.contents.length + gained

theorem Exchanges.trans {n : Nat} {gained gained' : Int} {s t u : Stack}
    (h : Exchanges n gained s t) (h' : Exchanges 0 gained' t u) :
    Exchanges n (gained + gained') s u where
  beneath := h.beneath.trans h'.beneath
  count := by
    rw [h'.count, h.count]
    omega

/-- Some values on top are replaced by others. -/
theorem exchanges_append (front front' rest : List Value) (register : Option Value) :
    Exchanges front.length (front'.length - front.length) ⟨front ++ rest, register⟩
      ⟨front' ++ rest, register⟩ where
  beneath := by
    rw [List.drop_left]
    exact List.suffix_append front' rest
  count := by
    simp only [contents, List.length_append]
    omega

section Operations

variable {s t : Stack}

theorem exchanges_push {v : Value} (h : push v s = .ok () t) : Exchanges 0 1 s t := by
  cases h
  exact exchanges_append [] [v] s.values s.register

theorem exchanges_pop {v : Value} (h : pop s = .ok v t) : Exchanges 1 (-1) s t := by
  obtain rfl := eq_of_pop h
  exact exchanges_append [v] [] t.values t.register

theorem exchanges_duplicate (h : duplicate s = .ok () t) : Exchanges 1 1 s t := by
  obtain ⟨_ | ⟨top, rest⟩, register⟩ := s
  · cases h
  · cases h
    exact exchanges_append [top] [top, top] rest register

theorem values_of_peek2 {below top : Value} (h : peek2 s = .ok (below, top) t) :
    ∃ rest, s.values = top :: below :: rest := by
  obtain ⟨_ | ⟨y, _ | ⟨x, rest⟩⟩, register⟩ := s <;> cases h
  exact ⟨rest, rfl⟩

theorem exchanges_combine {f : Value → Value → Except Fault Value} (h : combine f s = .ok () t) :
    Exchanges 2 (-1) s t := by
  obtain ⟨⟨below, top⟩, u, hpeek, hrest⟩ := ok_of_bind_ok h
  obtain rfl := looking_peek2 _ _ _ hpeek
  obtain ⟨values, register⟩ := u
  obtain ⟨rest, rfl⟩ : ∃ rest, values = top :: below :: rest := values_of_peek2 hpeek
  dsimp only at hrest
  cases hresult : f below top with
  | error e =>
    rw [hresult] at hrest
    cases hrest
  | ok v =>
    rw [hresult] at hrest
    cases hrest
    exact exchanges_append [top, below] [v] rest register

theorem exchanges_takePlace {place : Int64 × Int64} (h : takePlace s = .ok place t) :
    Exchanges 2 (-2) s t := by
  obtain ⟨⟨below, top⟩, u, hpeek, hrest⟩ := ok_of_bind_ok h
  obtain rfl := looking_peek2 _ _ _ hpeek
  obtain ⟨values, register⟩ := u
  obtain ⟨rest, rfl⟩ : ∃ rest, values = top :: below :: rest := values_of_peek2 hpeek
  dsimp only at hrest
  cases hcolumn : below.coordinate with
  | error e =>
    rw [hcolumn] at hrest
    cases hrest
  | ok x =>
    cases hrow : top.coordinate with
    | error e =>
      rw [hcolumn, hrow] at hrest
      cases hrest
    | ok y =>
      rw [hcolumn, hrow] at hrest
      cases hrest
      exact exchanges_append [top, below] [] rest register

theorem exchanges_takeChar {c : Char} (h : takeChar s = .ok c t) : Exchanges 1 (-1) s t := by
  obtain ⟨v, u, hpeek, hrest⟩ := ok_of_bind_ok h
  obtain rfl := looking_peek _ _ _ _ hpeek
  cases hchar : v.toChar? with
  | none =>
    rw [hchar] at hrest
    cases hrest
  | some c' =>
    rw [hchar] at hrest
    obtain ⟨w, u', hpop, hreturn⟩ := ok_of_bind_ok hrest
    cases hreturn
    exact exchanges_pop hpop

end Operations

/-- The same values are held, in whatever order. -/
def Rearranged (s t : Stack) : Prop := t.contents.Perm s.contents

/-- Values exchange their places on top. -/
theorem rearranged_of_perm {values values' : List Value} (h : values'.Perm values)
    (register : Option Value) : Rearranged ⟨values, register⟩ ⟨values', register⟩ :=
  h.append_right register.toList

section Operations

variable {s t : Stack}

theorem rearranged_swap2 (h : swap2 s = .ok () t) :
    Rearranged s t ∧ s.values.drop 2 <:+ t.values := by
  obtain ⟨_ | ⟨b, _ | ⟨a, rest⟩⟩, register⟩ := s
  · cases h
  · cases h
  · cases h
    exact ⟨rearranged_of_perm (List.Perm.swap b a rest) register, List.suffix_append [a, b] rest⟩

theorem rearranged_swap3 (h : swap3 s = .ok () t) :
    Rearranged s t ∧ s.values.drop 3 <:+ t.values := by
  obtain ⟨_ | ⟨c, _ | ⟨b, _ | ⟨a, rest⟩⟩⟩, register⟩ := s
  · cases h
  · cases h
  · cases h
  · cases h
    have hperm : ([b, a] ++ c :: rest).Perm (c :: ([b, a] ++ rest)) := List.perm_middle
    exact ⟨rearranged_of_perm hperm register, List.suffix_append [b, a, c] rest⟩

theorem rearranged_shiftRight (h : shiftRight s = .ok () t) : Rearranged s t := by
  obtain ⟨_ | ⟨top, rest⟩, register⟩ := s
  · cases h
    exact .refl _
  · cases h
    exact rearranged_of_perm (List.perm_append_singleton top rest) register

theorem rearranged_shiftLeft (h : shiftLeft s = .ok () t) : Rearranged s t := by
  unfold shiftLeft at h
  split at h
  · rename_i bottom hbottom
    cases h
    obtain ⟨values, register⟩ := s
    obtain ⟨front, rfl⟩ := List.getLast?_eq_some_iff.mp hbottom
    dsimp only
    rw [List.dropLast_concat]
    exact rearranged_of_perm (List.perm_append_singleton bottom front).symm register
  · cases h
    exact .refl _

theorem rearranged_reverse (h : reverse s = .ok () t) : Rearranged s t := by
  cases h
  exact rearranged_of_perm s.values.reverse_perm s.register

theorem contents_of_empty (values : List Value) : contents ⟨values, none⟩ = values :=
  List.append_nil values

/-- A value is parked, or comes back from where it was. -/
theorem rearranged_toggleRegister (h : toggleRegister s = .ok () t) :
    Rearranged s t ∧ s.values.drop (if s.register = none then 1 else 0) <:+ t.values := by
  obtain ⟨values, _ | v⟩ := s
  · cases values with
    | nil => cases h
    | cons top rest =>
      cases h
      refine ⟨?_, List.suffix_refl rest⟩
      rw [Rearranged, contents_of_empty]
      exact List.perm_append_singleton top rest
  · cases h
    refine ⟨?_, List.suffix_cons v values⟩
    rw [Rearranged, contents_of_empty]
    exact (List.perm_append_singleton v values).symm

end Operations

/-- What the instruction of a character, if it is none that opens or closes a stack, makes of the
active one. -/
structure Conserved (c : Char) (s t : Stack) : Prop where
  rearranged : c ∈ rearranging → Rearranged s t
  count : (t.contents.length : Int) = s.contents.length + gain c
  beneath : c ∉ ['}', '{', 'r'] → s.values.drop (demand c s) <:+ t.values

section Characters

variable {c : Char} {s t : Stack}

theorem conserved_of_exchanges {n : Nat} {gained : Int} (h : Exchanges n gained s t)
    (hdemand : demand c s = n) (hgain : gain c = gained) (hc : c ∉ rearranging) :
    Conserved c s t where
  rearranged hrearranging := absurd hrearranging hc
  count := by rw [h.count, hgain]
  beneath _ := by rw [hdemand]; exact h.beneath

theorem conserved_of_rearranged (h : Rearranged s t) (hgain : gain c = 0)
    (hbeneath : c ∉ ['}', '{', 'r'] → s.values.drop (demand c s) <:+ t.values) :
    Conserved c s t where
  rearranged _ := h
  count := by rw [hgain, h.length_eq, Int.add_zero]
  beneath := hbeneath

end Characters

end Stack

/-- Where the effect succeeds, the suspended stacks are as they were, and the active one is as the
relation says. -/
def Works {α : Type} (R : Stack → Stack → Prop) (e : Effect α) : Prop :=
  ∀ s a t, e s = .ok a t →
    t.memory.suspended = s.memory.suspended ∧ R s.memory.active t.memory.active

section Effects

variable {α β : Type} {R Q T : Stack → Stack → Prop}

theorem Works.bind {e : Effect α} {next : α → Effect β} (h : Works R e)
    (hnext : ∀ a, Works Q (next a)) (hboth : ∀ s t u, R s t → Q t u → T s u) :
    Works T (e >>= next) := by
  intro s b u hok
  obtain ⟨a, t, hfirst, hrest⟩ := ok_of_bind_ok hok
  obtain ⟨hsuspended, hactive⟩ := h s a t hfirst
  obtain ⟨hsuspended', hactive'⟩ := hnext a t b u hrest
  exact ⟨hsuspended'.trans hsuspended, hboth _ _ _ hactive hactive'⟩

/-- The rest of an instruction leaves the stacks alone. -/
theorem Works.bind_eq {e : Effect α} {next : α → Effect β} (h : Works R e)
    (hnext : ∀ a, Works Eq (next a)) : Works R (e >>= next) :=
  h.bind hnext fun _ _ _ hactive heq => heq ▸ hactive

theorem works_of_memory_eq {e : Effect α} (h : ∀ s a t, e s = .ok a t → t.memory = s.memory) :
    Works Eq e := by
  intro s a t hok
  have hmemory := h s a t hok
  exact ⟨congrArg Stacks.suspended hmemory, congrArg Stacks.active hmemory.symm⟩

theorem works_pure (a : α) : Works Eq (pure a : Effect α) :=
  works_of_memory_eq fun _ _ _ h => by
    cases h
    rfl

theorem works_modify (f : State → State) (h : ∀ s, (f s).memory = s.memory) :
    Works Eq (modify f : Effect PUnit) :=
  works_of_memory_eq fun s _ _ hok => by
    cases hok
    exact h s

theorem works_movePointer (f : Pointer → Pointer) : Works Eq (State.movePointer f) :=
  works_modify _ fun _ => rfl

theorem works_turnRandomly : Works Eq State.turnRandomly := works_modify _ fun _ => rfl

theorem works_write (text : String) : Works Eq (State.write text) := works_modify _ fun _ => rfl

theorem works_receive : Works Eq State.receive := by
  refine works_of_memory_eq fun s v t hok => ?_
  unfold State.receive at hok
  split at hok <;> cases hok <;> rfl

theorem works_onStack {op : StackOp α} (h : ∀ s a t, op s = .ok a t → R s t) :
    Works R (State.onStack op) := by
  intro s a t hok
  have hactive := State.memory_of_onStacks hok
  exact ⟨Stacks.suspended_onActive hactive, h _ _ _ (Stacks.onActive_ok hactive)⟩

end Effects

section Characters

open Stack

variable {c : Char}

theorem Works.conserved {α : Type} {e : Effect α} (h : Works Eq e) (hgain : gain c = 0) :
    Works (Conserved c) e := by
  intro s a t hok
  obtain ⟨hsuspended, hactive⟩ := h s a t hok
  refine ⟨hsuspended, ?_⟩
  rw [← hactive]
  exact conserved_of_rearranged (.refl _) hgain fun _ => List.drop_suffix _ _

theorem works_stack {instruction : StackInstruction} (hc : instruction.symbol = c)
    (hbrackets : c ∉ ['[', ']']) : Works (Conserved c) (State.onStacks instruction.perform) := by
  cases instruction with
  | push digit =>
    have hdigits : ∀ digit : Fin 16, Nat.digitChar digit ∉ demanding ++ rearranging ∧
        gain (Nat.digitChar digit) = 1 := by decide
    obtain ⟨hplain, hgain⟩ := hdigits digit
    subst hc
    have hpush : ∀ s a t, push (.ofNat digit) s = .ok a t →
        Conserved (Nat.digitChar digit) s t := fun s _ _ h =>
      conserved_of_exchanges (exchanges_push h)
        (demand_eq_zero (fun hmem => hplain (List.mem_append_left _ hmem)) s) hgain
        fun hmem => hplain (List.mem_append_right _ hmem)
    exact works_onStack hpush
  | combine op =>
    subst hc
    refine works_onStack fun s _ t h => ?_
    exact conserved_of_exchanges (exchanges_combine h) (by cases op <;> rfl)
      (by cases op <;> rfl) (by cases op <;> decide)
  | duplicate =>
    subst hc
    exact works_onStack fun _ _ _ h =>
      conserved_of_exchanges (exchanges_duplicate h) rfl rfl (by decide)
  | discard =>
    subst hc
    refine works_onStack fun s _ t h => ?_
    obtain ⟨v, u, hpop, hreturn⟩ := ok_of_bind_ok h
    cases hreturn
    exact conserved_of_exchanges (exchanges_pop hpop) rfl rfl (by decide)
  | swap2 =>
    subst hc
    refine works_onStack fun s _ t h => ?_
    obtain ⟨hrearranged, hbeneath⟩ := rearranged_swap2 h
    exact conserved_of_rearranged hrearranged rfl fun _ => hbeneath
  | swap3 =>
    subst hc
    refine works_onStack fun s _ t h => ?_
    obtain ⟨hrearranged, hbeneath⟩ := rearranged_swap3 h
    exact conserved_of_rearranged hrearranged rfl fun _ => hbeneath
  | shiftRight =>
    subst hc
    exact works_onStack fun _ _ _ h =>
      conserved_of_rearranged (rearranged_shiftRight h) rfl fun hmoved => absurd (by decide) hmoved
  | shiftLeft =>
    subst hc
    exact works_onStack fun _ _ _ h =>
      conserved_of_rearranged (rearranged_shiftLeft h) rfl fun hmoved => absurd (by decide) hmoved
  | reverse =>
    subst hc
    have hreverse : ∀ s a t, reverse s = .ok a t → Conserved 'r' s t := fun _ _ _ h =>
      conserved_of_rearranged (rearranged_reverse h) rfl fun hmoved => absurd (by decide) hmoved
    exact works_onStack hreverse
  | size =>
    subst hc
    have hpush : ∀ s a t, pushSize s = .ok a t → Conserved 'l' s t := fun _ _ _ h =>
      conserved_of_exchanges (exchanges_push h) rfl rfl (by decide)
    exact works_onStack hpush
  | toggleRegister =>
    subst hc
    refine works_onStack fun s _ t h => ?_
    obtain ⟨hrearranged, hbeneath⟩ := rearranged_toggleRegister h
    exact conserved_of_rearranged hrearranged rfl fun _ => hbeneath
  | openStack => exact absurd (hc ▸ by decide) hbrackets
  | closeStack => exact absurd (hc ▸ by decide) hbrackets

theorem works_perform {box : Codebox} {instruction : Instruction}
    (hchar : Instruction.ofChar? c = some instruction) (hbrackets : c ∉ ['[', ']']) :
    Works (Conserved c) (State.perform box instruction) := by
  rcases Instruction.symbol?_of_ofChar? hchar with hsymbol | ⟨rfl, -⟩
  · cases instruction with
    | stack instruction =>
      exact (works_stack (Option.some.inj hsymbol) hbrackets).bind_eq fun _ => works_pure _
    | turn d =>
      cases hsymbol
      refine Works.conserved ?_ (by cases d <;> rfl)
      exact (works_movePointer _).bind_eq fun _ => works_pure _
    | turnRandomly =>
      cases hsymbol
      exact (works_turnRandomly.bind_eq fun _ => works_pure _).conserved rfl
    | reflect m =>
      cases hsymbol
      refine Works.conserved ?_ (by cases m <;> rfl)
      exact (works_movePointer _).bind_eq fun _ => works_pure _
    | skip =>
      cases hsymbol
      exact (works_pure _).conserved rfl
    | skipIfZero =>
      cases hsymbol
      refine (works_onStack fun s v t h => ?_).bind_eq fun _ => works_pure _
      exact conserved_of_exchanges (exchanges_pop h) rfl rfl (by decide)
    | jump =>
      cases hsymbol
      refine (works_onStack fun s place t h => ?_).bind_eq fun _ => ?_
      · exact conserved_of_exchanges (exchanges_takePlace h) rfl rfl (by decide)
      · exact (works_movePointer _).bind_eq fun _ => works_pure _
    | quote q =>
      cases hsymbol
      refine Works.conserved ?_ (by cases q <;> rfl)
      exact (works_modify (fun s => { s with quote := some q }) fun _ => rfl).bind_eq
        fun _ => works_pure _
    | writeNumber =>
      cases hsymbol
      refine (works_onStack fun s v t h => ?_).bind_eq fun _ => ?_
      · exact conserved_of_exchanges (exchanges_pop h) rfl rfl (by decide)
      · exact (works_write _).bind_eq fun _ => works_pure _
    | writeChar =>
      cases hsymbol
      refine (works_onStack fun s v t h => ?_).bind_eq fun _ => ?_
      · exact conserved_of_exchanges (exchanges_takeChar h) rfl rfl (by decide)
      · exact (works_write _).bind_eq fun _ => works_pure _
    | readChar =>
      cases hsymbol
      refine works_receive.bind (Q := Conserved 'i') (fun v => ?_) fun _ _ _ heq h => heq ▸ h
      refine (works_onStack fun s _ t h => ?_).bind_eq fun _ => works_pure _
      exact conserved_of_exchanges (exchanges_push h) rfl rfl (by decide)
    | fetch =>
      cases hsymbol
      refine (works_onStack fun _ _ _ => exchanges_takePlace).bind (Q := Exchanges 0 1)
        (fun place => ?_) fun s t u htake hpush => ?_
      · exact (works_onStack fun _ _ _ => exchanges_push).bind_eq fun _ => works_pure _
      · exact conserved_of_exchanges (htake.trans hpush) rfl rfl (by decide)
    | halt =>
      cases hsymbol
      exact (works_pure _).conserved rfl
    | blank => cases hsymbol
  · have hblank : c ∉ Instruction.symbols := fun hmem => (Instruction.ofChar?_of_mem hmem).2 hchar
    exact (works_pure _).conserved (gain_of_notMem hblank)

end Characters

theorem Stack.take_toList_prefix {n : Nat} {s t : Stack} (h : s.values.drop n <:+ t.values) :
    s.toList.take (s.size - n) <+: t.toList := by
  by_cases hle : n ≤ s.size
  · have hdrop : s.values.length - (s.size - n) = n := Nat.sub_sub_self hle
    rw [toList, List.take_reverse, hdrop]
    exact List.reverse_prefix.mpr h
  · rw [Nat.sub_eq_zero_of_le (Nat.le_of_not_le hle), List.take_zero]
    exact List.nil_prefix

namespace Stacks

theorem contents_eq (s : Stacks) :
    s.contents = s.active.contents ++ s.suspended.flatMap Stack.contents := List.flatMap_cons

theorem getElem?_toList (s : Stacks) : s.toList[s.suspended.length]? = some s.active := by
  rw [toList, List.reverse_cons, List.getElem?_append_right (by simp)]
  simp

theorem count_contents {gained : Int} {s t : Stacks} (hsuspended : t.suspended = s.suspended)
    (hcount : (t.active.contents.length : Int) = s.active.contents.length + gained) :
    (t.contents.length : Int) = s.contents.length + gained := by
  rw [contents_eq, contents_eq, hsuspended, List.length_append, List.length_append]
  omega

/-- What becomes of the values held when an instruction that is no bracket works on the active
stack. -/
theorem conserved_of_active {c : Char} {s t : Stacks} (hsuspended : t.suspended = s.suspended)
    (hactive : Stack.Conserved c s.active t.active) :
    t.depth = s.depth ∧ (c ∈ rearranging → t.contents.Perm s.contents) ∧
      (t.contents.length : Int) = s.contents.length + gain c ∧
      (c ∉ ['}', '{', 'r'] → ∃ stack, t.toList[s.suspended.length]? = some stack ∧
        s.active.toList.take (s.active.size - demand c s.active) <+: stack.toList) := by
  refine ⟨?_, fun hc => ?_, count_contents hsuspended hactive.count, fun hc => ?_⟩
  · rw [depth, depth, hsuspended]
  · rw [contents_eq, contents_eq, hsuspended]
    exact (hactive.rearranged hc).append_right _
  · refine ⟨t.active, ?_, Stack.take_toList_prefix (hactive.beneath hc)⟩
    rw [← hsuspended]
    exact t.getElem?_toList

/-- An opened stack takes the values that are counted from the top; the count is gone. -/
theorem conserved_of_opened {s t : Stacks} (h : openCounted s = .ok () t) :
    t.depth = s.depth + 1 ∧
      (∃ count, s.active.top? = some count ∧ s.contents.Perm (count :: t.contents)) ∧
      ∃ stack, t.toList[s.suspended.length]? = some stack ∧
        s.active.toList.take (s.active.size - demand '[' s.active) <+: stack.toList := by
  obtain ⟨count, n, upper, lower, hvalues, hcount, hupper, rfl⟩ := openCounted_ok h
  refine ⟨rfl, ⟨count, ?_, ?_⟩, ⟨lower, s.active.register⟩, ?_, ?_⟩
  · rw [Stack.top?, hvalues, List.head?_cons]
  · simp only [contents_eq, Stack.contents, hvalues, List.flatMap_cons, Option.toList_none,
      List.append_nil, List.cons_append, List.append_assoc, List.Perm.refl]
  · have hlist : toList ⟨⟨upper, none⟩, ⟨lower, s.active.register⟩ :: s.suspended⟩ =
        toList ⟨⟨lower, s.active.register⟩, s.suspended⟩ ++ [⟨upper, none⟩] := List.reverse_cons
    rw [hlist, List.getElem?_append_left (by simp [toList])]
    exact getElem?_toList ⟨⟨lower, s.active.register⟩, s.suspended⟩
  · refine Stack.take_toList_prefix ?_
    have hdrop : s.active.values.drop (demand '[' s.active) = lower := by
      rw [demand_openStack hvalues, hcount, hvalues, Option.map_some, Option.getD_some, ← hupper,
        List.drop_succ_cons, List.drop_left]
    exact hdrop.symm ▸ List.suffix_refl lower

/-- Only what is parked on a closed stack is lost. -/
theorem conserved_of_closed {s t : Stacks} (h : closeStack s = .ok () t) :
    t.depth + 1 = s.depth ∧
      s.contents.Perm (s.active.register.toList ++ t.contents) := by
  obtain ⟨below, rest, hsuspended, rfl⟩ := closeStack_ok h
  refine ⟨?_, contents_perm_of_closed hsuspended⟩
  rw [depth, depth, hsuspended]
  rfl

end Stacks

namespace State

variable {box : Codebox} {c : Char} {s t : State} {flow : Flow}

theorem closeStack_of_instruction (hquote : s.quote = none)
    (h : execute box ']' s = .ok flow t) : Stacks.closeStack s.memory = .ok () t.memory := by
  have hchar : Instruction.ofChar? ']' = some (.stack .closeStack) := by decide
  rw [execute_of_instruction hquote hchar] at h
  obtain ⟨_, u, hclose, hreturn⟩ := ok_of_bind_ok h
  cases hreturn
  exact memory_of_onStacks hclose

theorem works_of_execute (hquote : s.quote = none) (hbrackets : c ∉ ['[', ']'])
    (h : execute box c s = .ok flow t) :
    t.memory.suspended = s.memory.suspended ∧
      Stack.Conserved c s.memory.active t.memory.active := by
  cases hchar : Instruction.ofChar? c with
  | some instruction =>
    rw [execute_of_instruction hquote hchar] at h
    exact works_perform hchar hbrackets s flow t h
  | none =>
    rw [execute_of_invalid hquote hchar] at h
    cases h

/-- Between quotation marks a value is added on top, unless the text is over. -/
theorem conserved_of_quoted {q : Quote} (h : readQuoted q c s = .ok flow t) :
    t.memory.depth = s.memory.depth ∧
      t.memory.contents.length = s.memory.contents.length + (if c = q.char then 0 else 1) ∧
      s.memory.active.toList <+: t.memory.active.toList := by
  unfold readQuoted at h
  by_cases hc : c = q.char
  · rw [if_pos hc] at h
    cases h
    rw [if_pos hc]
    exact ⟨rfl, rfl, List.prefix_rfl⟩
  · rw [if_neg hc] at h
    have hpush : Works (Stack.Exchanges 0 1)
        (do onStack (Stack.push (.ofChar c)); return .next : Effect Flow) :=
      (works_onStack fun _ _ _ => Stack.exchanges_push).bind_eq fun _ => works_pure _
    obtain ⟨hsuspended, hactive⟩ := hpush s flow t h
    have hcount := Stacks.count_contents hsuspended hactive.count
    refine ⟨?_, ?_, List.reverse_prefix.mpr hactive.beneath⟩
    · rw [Stacks.depth, Stacks.depth, hsuspended]
    · rw [if_neg hc]
      omega

end State

open State in
/-- Values are neither lost nor made up by what is executed, and what lies beneath the operands
keeps its values in their places, unless the whole stack is moved or merged. -/
theorem values_conserved {box : Codebox} {c : Char} {s t : State} {flow : Flow}
    (h : execute box c s = .ok flow t) :
    let before := s.memory
    let after := t.memory
    (∀ q, s.quote = some q →
      after.depth = before.depth ∧
      after.contents.length = before.contents.length + (if c = q.char then 0 else 1) ∧
      before.active.toList <+: after.active.toList) ∧
    (s.quote = none →
      (c ∈ rearranging → after.contents.Perm before.contents) ∧
      (c = '[' → after.depth = before.depth + 1 ∧
        ∃ count, before.active.top? = some count ∧
          before.contents.Perm (count :: after.contents)) ∧
      (c = ']' → after.depth + 1 = before.depth ∧
        before.contents.Perm (before.active.register.toList ++ after.contents)) ∧
      (c ∉ ['[', ']'] → after.depth = before.depth ∧
        (after.contents.length : Int) = before.contents.length + gain c) ∧
      (c ∉ ['}', '{', 'r', ']'] → ∃ stack, after.toList[before.suspended.length]? = some stack ∧
        before.active.toList.take (before.active.size - demand c before.active) <+:
          stack.toList)) := by
  intro before after
  refine ⟨fun q hquote => ?_, fun hquote => ?_⟩
  · rw [execute_of_quote hquote] at h
    exact conserved_of_quoted h
  · by_cases hopen : c = '['
    · subst hopen
      obtain ⟨hdepth, hcount, hbeneath⟩ :=
        Stacks.conserved_of_opened (openCounted_of_execute hquote h)
      exact ⟨fun hc => absurd hc (by decide), fun _ => ⟨hdepth, hcount⟩,
        fun hc => absurd hc (by decide), fun hc => absurd (by decide) hc, fun _ => hbeneath⟩
    · by_cases hclose : c = ']'
      · subst hclose
        have hclosed := Stacks.conserved_of_closed (closeStack_of_instruction hquote h)
        exact ⟨fun hc => absurd hc (by decide), fun hc => absurd hc (by decide), fun _ => hclosed,
          fun hc => absurd (by decide) hc, fun hc => absurd (by decide) hc⟩
      · have hbrackets : c ∉ ['[', ']'] := by simp [hopen, hclose]
        obtain ⟨hsuspended, hactive⟩ := works_of_execute hquote hbrackets h
        obtain ⟨hdepth, hperm, hcount, hbeneath⟩ :=
          Stacks.conserved_of_active hsuspended hactive
        refine ⟨hperm, fun hc => absurd hc hopen, fun hc => absurd hc hclose,
          fun _ => ⟨hdepth, hcount⟩, fun hc => hbeneath fun hmem => hc ?_⟩
        exact List.mem_append_left [']'] hmem

open State in
/-- A stack is opened with one value, which is parked there, so that closing the stack loses it.
What was parked below stays. -/
theorem values_conserved_parked :
    let box := Codebox.ofSource ""
    let state (memory : Stacks) : State := { memory := memory, random := .ofSeed 0 }
    let s := state ⟨⟨[.int 1, .int 7, .int 8], some (.int 5)⟩, []⟩
    let t := state ⟨⟨[.int 7], none⟩, [⟨[.int 8], some (.int 5)⟩]⟩
    let u := state ⟨⟨[], some (.int 7)⟩, [⟨[.int 8], some (.int 5)⟩]⟩
    let v := state ⟨⟨[.int 8], some (.int 5)⟩, []⟩
    (execute box '[' s = .ok .next t ∧
      ∃ count, s.memory.active.top? = some count ∧
        s.memory.contents.Perm (count :: t.memory.contents)) ∧
    (execute box '&' t = .ok .next u ∧ u.memory.contents.Perm t.memory.contents) ∧
    execute box ']' u = .ok .next v ∧ u.memory.contents.Perm (.int 7 :: v.memory.contents) := by
  intro box state s t u v
  have hopen : execute box '[' s = .ok .next t := rfl
  have hpark : execute box '&' t = .ok .next u := rfl
  have hclose : execute box ']' u = .ok .next v := rfl
  obtain ⟨-, hcount, -⟩ := (values_conserved hopen).2 rfl
  obtain ⟨hparked, -⟩ := (values_conserved hpark).2 rfl
  obtain ⟨-, -, hlost, -⟩ := (values_conserved hclose).2 rfl
  exact ⟨⟨hopen, (hcount rfl).2⟩, ⟨hpark, hparked (by decide)⟩, hclose, (hlost rfl).2⟩

end Fish
