import Fish.Proofs.CheckedAgreement
import Fish.Proofs.Rotations

/-!
Access to the stacks by depth. An operation on a stack or on the stack of stacks that fails leaves
all as it was. Sizes and indices are words of 64 bits, and they stay so with one exception: a look
at the greatest depth that a word expresses needs one value more than a word counts, and crashes. A
look at any other depth finds a value exactly where there is one, and values that were cut off can
be put back.
-/

namespace Fish

namespace Stack

/-- What can be asked of a stack, by the type of the answer. -/
inductive Operation : Type → Type 1
  | push (v : Value) : Operation Unit
  | pop : Operation Value
  | pop2 : Operation (Value × Value)
  | peek (depth : UInt64) : Operation Value
  | peek2 : Operation (Value × Value)
  | duplicate : Operation Unit
  | discard : Operation Unit
  | swap2 : Operation Unit
  | swap3 : Operation Unit
  | shiftRight : Operation Unit
  | shiftLeft : Operation Unit
  | reverse : Operation Unit
  | toggleRegister : Operation Unit
  | split (n : UInt64) : Operation Stack
  | absorb (other : Stack) : Operation Unit

namespace Operation

/-- How the operation is done; none if it crashes. -/
def perform? {α : Type} : Operation α → Option (StackOp α)
  | push v => some (Stack.push v)
  | pop => some Stack.pop
  | pop2 => some Stack.pop2
  | peek depth => Stack.peek? depth
  | peek2 => some Stack.peek2
  | duplicate => some Stack.duplicate
  | discard => some Stack.discard
  | swap2 => some Stack.swap2
  | swap3 => some Stack.swap3
  | shiftRight => some Stack.shiftRight
  | shiftLeft => some Stack.shiftLeft
  | reverse => some Stack.reverse
  | toggleRegister => some Stack.toggleRegister
  | split n => some (Stack.split n.toNat)
  | absorb other => some (Stack.absorb other)

/-- The operation on the machine with its ranges checked. -/
def checked {α : Type} : Operation α → Checked.StackOp α
  | push v => Checked.lift (Stack.push v)
  | pop => Checked.lift Stack.pop
  | pop2 => Checked.lift Stack.pop2
  | peek depth => Checked.Stack.peek depth
  | peek2 => Checked.Stack.peek2
  | duplicate => Checked.Stack.duplicate
  | discard => Checked.lift Stack.discard
  | swap2 => Checked.Stack.swap2
  | swap3 => Checked.Stack.swap3
  | shiftRight => Checked.lift Stack.shiftRight
  | shiftLeft => Checked.lift Stack.shiftLeft
  | reverse => Checked.lift Stack.reverse
  | toggleRegister => Checked.lift Stack.toggleRegister
  | split n => Checked.Stack.split n.toNat
  | absorb other => Checked.lift (Stack.absorb other)

/-- It is a look at the greatest depth. -/
def IsGreatestLook {α : Type} : Operation α → Prop
  | peek depth => depth.toNat + 1 = UInt64.size
  | _ => False

end Operation

section Depths

variable {s : Stack} {n : Nat} {depth : UInt64}

theorem peek?_of_lt (h : depth.toNat + 1 < UInt64.size) : peek? depth = some (peek depth.toNat) :=
  if_pos h

/-- To look as far down as a count says does not crash. -/
theorem peek?_of_toCount? {v : Value} (h : v.toCount? = some depth) :
    peek? depth = some (peek depth.toNat) :=
  peek?_of_lt (Nat.lt_of_le_of_lt (Value.toNat_lt_of_toCount? h) (by decide))

theorem peek?_eq_none_iff : peek? depth = none ↔ depth.toNat + 1 = UInt64.size := by
  have hlt : depth.toNat < UInt64.size := depth.toNat_lt
  unfold peek?
  split
  · exact iff_of_false (Option.some_ne_none _) (by omega)
  · exact iff_of_true rfl (by omega)

theorem split_of_lt (h : s.size < n) : Stack.split n s = .error (.stackUnderflow n s.size) s :=
  if_neg (Nat.not_le_of_lt h)

/-- The values that are cut off, and those that are left, each in their order. -/
theorem split_eq_withList (h : n ≤ s.size) :
    Stack.split n s =
      .ok (.ofList (s.toList.drop (s.size - n))) (s.withList (s.toList.take (s.size - n))) := by
  have hupper : s.toList.drop (s.size - n) = (s.values.take n).reverse := List.reverse_take.symm
  have hlower : s.toList.take (s.size - n) = (s.values.drop n).reverse := List.reverse_drop.symm
  rw [split_of_le h, hupper, hlower, ofList, withList, List.reverse_reverse, List.reverse_reverse]

end Depths

theorem total_absorb (other : Stack) : Total (absorb other) :=
  fun s => ⟨(), { s with values := other.values ++ s.values }, rfl⟩

theorem atomic_split (n : Nat) : Atomic (Stack.split n) := by
  intro s e t h
  by_cases hle : n ≤ s.size
  · rw [split_of_le hle] at h
    cases h
  · rw [split_of_lt (Nat.lt_of_not_le hle)] at h
    cases h
    rfl

end Stack

namespace Checked

variable {α ε σ τ : Type}

/-- If the operation does not crash its failures change nothing, and with its ranges checked it
does the same; if it crashes something is out of range. -/
structure Safe (op? : Option (EStateM ε σ α)) (view : σ → τ) (checked : EStateM (Stop ε) τ α) :
    Prop where
  atomic : ∀ op, op? = some op → Atomic op
  agrees : ∀ op, op? = some op → Agrees view checked op
  crash : op? = none → ∀ s, checked (view s) = .error .outOfRange (view s)

section Operations

variable {view : σ → τ} {checked : EStateM (Stop ε) τ α} {op : EStateM ε σ α}

/-- It is not out of range, either, if it does not crash. -/
theorem Agrees.ne_outOfRange (h : Agrees view checked op) (s : σ) (t : τ) :
    checked (view s) ≠ .error .outOfRange t := by
  rw [h s]
  cases op s with
  | ok a u => exact fun hok => by cases hok
  | error e u => exact fun herror => by cases herror

theorem safe_some (hatomic : Atomic op) (hagrees : Agrees view checked op) :
    Safe (some op) view checked where
  atomic _ h := Option.some.inj h ▸ hatomic
  agrees _ h := Option.some.inj h ▸ hagrees
  crash h := absurd h (Option.some_ne_none op)

theorem safe_lift (hatomic : Atomic op) : Safe (some op) id (lift op) :=
  safe_some hatomic (agrees_lift op)

end Operations

theorem Stack.safe_peek (depth : UInt64) : Safe (Stack.peek? depth) id (peek depth) := by
  by_cases hfits : depth.toNat + 1 < UInt64.size
  · rw [Stack.peek?_of_lt hfits]
    exact safe_some (Stack.atomic_peek depth.toNat) (agrees_peek hfits)
  · refine ⟨fun op h => ?_, fun op h => ?_, fun _ s => ?_⟩
    · cases (if_neg hfits).symm.trans h
    · cases (if_neg hfits).symm.trans h
    · -- One more than the greatest word is not a word.
      have hsum : sum? depth.toNat 1 = none := if_neg hfits
      rw [peek, hsum]
      rfl

end Checked

open Checked

theorem Stack.Operation.safe {α : Type} (op : Stack.Operation α) :
    Safe op.perform? id op.checked := by
  cases op with
  | push v => exact safe_lift (total_push v).atomic
  | pop => exact safe_lift atomic_pop
  | pop2 => exact safe_lift atomic_pop2
  | peek depth => exact Checked.Stack.safe_peek depth
  | peek2 => exact safe_some atomic_peek2 Checked.Stack.agrees_peek2
  | duplicate => exact safe_some atomic_duplicate Checked.Stack.agrees_duplicate
  | discard => exact safe_lift atomic_discard
  | swap2 => exact safe_some atomic_swap2 Checked.Stack.agrees_swap2
  | swap3 => exact safe_some atomic_swap3 Checked.Stack.agrees_swap3
  | shiftRight => exact safe_lift total_shiftRight.atomic
  | shiftLeft => exact safe_lift total_shiftLeft.atomic
  | reverse => exact safe_lift total_reverse.atomic
  | toggleRegister => exact safe_lift atomic_toggleRegister
  | split n => exact safe_some (atomic_split n.toNat) (Checked.Stack.agrees_split n.toNat)
  | absorb other => exact safe_lift (total_absorb other).atomic

theorem Stack.Operation.perform?_eq_none_iff {α : Type} (op : Stack.Operation α) :
    op.perform? = none ↔ op.IsGreatestLook := by
  cases op with
  | peek depth => exact peek?_eq_none_iff
  | _ => exact iff_of_false (Option.some_ne_none _) id

namespace Stacks

/-- What can be asked of the stack of stacks, by the type of the answer. -/
inductive Operation : Type → Type 1
  | onActive {α : Type} (op : Stack.Operation α) : Operation α
  | openStack (n : UInt64) : Operation Unit
  | closeStack : Operation Unit

namespace Operation

variable {α : Type}

/-- How the operation is done; none if it crashes. -/
def perform? : Operation α → Option (StacksOp α)
  | onActive op => op.perform?.map Stacks.onActive
  | openStack n => some (Stacks.openStack n.toNat)
  | closeStack => some Stacks.closeStack

/-- The operation on the machine with its ranges checked. -/
def checked : Operation α → Checked.StacksOp α
  | onActive op => Checked.Stacks.onActive op.checked
  | openStack n => Checked.Stacks.openStack n.toNat
  | closeStack => Checked.Stacks.closeStack

/-- It is a look at the greatest depth. -/
def IsGreatestLook : Operation α → Prop
  | onActive op => op.IsGreatestLook
  | _ => False

end Operation

theorem atomic_openStack (n : Nat) : Atomic (openStack n) := by
  intro s e t h
  unfold openStack at h
  split at h
  · cases h
  · rename_i hsplit
    cases h
    rw [Stack.atomic_split n _ _ _ hsplit]

/-- What is cut off is put back where it was. -/
theorem closeStack_openStack {n : Nat} {s : Stacks} (h : n ≤ s.active.size) :
    (do openStack n; closeStack : StacksOp Unit) s = .ok () s := by
  have hopen : openStack n s = .ok () ⟨⟨s.active.values.take n, none⟩,
      { s.active with values := s.active.values.drop n } :: s.suspended⟩ := by
    rw [openStack, Stack.split_of_le h]
  rw [bind_of_ok hopen, closeStack]
  dsimp only [Stack.absorb]
  rw [List.take_append_drop]

namespace Operation

variable {α : Type}

theorem safe (op : Operation α) : Safe op.perform? toList op.checked := by
  cases op with
  | onActive op =>
    obtain ⟨hatomic, hagrees, hcrash⟩ := op.safe
    refine ⟨fun run h => ?_, fun run h => ?_, fun h s => ?_⟩
    · obtain ⟨run, hrun, rfl⟩ := Option.map_eq_some_iff.mp h
      exact onActive_atomic (hatomic run hrun)
    · obtain ⟨run, hrun, rfl⟩ := Option.map_eq_some_iff.mp h
      exact Checked.Stacks.agrees_onActive (hagrees run hrun)
    · have hactive : op.checked s.active = .error .outOfRange s.active :=
        hcrash (Option.map_eq_none_iff.mp h) s.active
      rw [checked, Checked.Stacks.onActive_toList, hactive]
  | openStack n =>
    exact safe_some (atomic_openStack n.toNat) (Checked.Stacks.agrees_openStack n.toNat)
  | closeStack => exact safe_some atomic_closeStack Checked.Stacks.agrees_closeStack

theorem perform?_eq_none_iff (op : Operation α) : op.perform? = none ↔ op.IsGreatestLook := by
  cases op with
  | onActive op => exact Option.map_eq_none_iff.trans op.perform?_eq_none_iff
  | _ => exact iff_of_false (Option.some_ne_none _) id

end Operation

end Stacks

/-- Looks and cuts at every depth but the greatest find what is there or say what is missing, a cut
can be undone, and of all operations on stacks only a look at the greatest depth crashes. -/
theorem access_by_depth (s : Stack) (levels : Stacks) :
    (∀ n : UInt64, n.toNat + 1 < UInt64.size → ∃ look, Stack.peek? n = some look ∧
      (n.toNat < s.size → ∃ v, s.toList[s.size - 1 - n.toNat]? = some v ∧ look s = .ok v s) ∧
      (s.size ≤ n.toNat → look s = .error (.stackUnderflow (n.toNat + 1) s.size) s)) ∧
    (∀ n : UInt64,
      (n.toNat ≤ s.size → Stack.split n.toNat s =
        .ok (.ofList (s.toList.drop (s.size - n.toNat)))
          (s.withList (s.toList.take (s.size - n.toNat)))) ∧
      (s.size < n.toNat →
        Stack.split n.toNat s = .error (.stackUnderflow n.toNat s.size) s)) ∧
    (∀ (α : Type) (op : Stack.Operation α), (op.perform? = none ↔ op.IsGreatestLook) ∧
      Checked.Safe op.perform? id op.checked) ∧
    (∀ (α : Type) (op : Stacks.Operation α), (op.perform? = none ↔ op.IsGreatestLook) ∧
      Checked.Safe op.perform? Stacks.toList op.checked) ∧
    ∀ n : UInt64, n.toNat ≤ levels.active.size →
      (do Stacks.openStack n.toNat; Stacks.closeStack : StacksOp Unit) levels = .ok () levels := by
  refine ⟨fun n hfits => ⟨_, Stack.peek?_of_lt hfits, fun h => ?_, Stack.peek_of_le⟩,
    fun n => ⟨Stack.split_eq_withList, Stack.split_of_lt⟩,
    fun α op => ⟨op.perform?_eq_none_iff, op.safe⟩,
    fun α op => ⟨op.perform?_eq_none_iff, op.safe⟩, fun n => Stacks.closeStack_openStack⟩
  refine ⟨s.values[n.toNat], ?_, Stack.peek_of_lt h⟩
  rw [Checked.Stack.getElem?_toList h, List.getElem?_eq_getElem h]

/-- The bottom of three values, a look below it, two of them cut off and put back above a suspended
stack, and an exchange that lacks a value. -/
theorem access_by_depth_three :
    let s : Stack := ⟨[.int 3, .int 2, .int 1], some (.int 9)⟩
    let levels : Stacks := ⟨s, [.ofList [.int 5]]⟩
    (∃ look, Stack.peek? 2 = some look ∧ look s = .ok (.int 1) s) ∧
    (∃ look, Stack.peek? 3 = some look ∧ look s = .error (.stackUnderflow 4 3) s) ∧
    Stack.split 2 s = .ok (.ofList [.int 2, .int 3]) ⟨[.int 1], some (.int 9)⟩ ∧
    (do Stacks.openStack 2; Stacks.closeStack : StacksOp Unit) levels = .ok () levels ∧
    (∀ e t, Stack.swap2 ⟨[.int 1], none⟩ = .error e t → t = ⟨[.int 1], none⟩) ∧
    ∀ t, Checked.Stack.peek 3 s ≠ .error .outOfRange t := by
  intro s levels
  obtain ⟨hpeek, hsplit, hstack, -, hclose⟩ := access_by_depth s levels
  obtain ⟨look, hlook, hfound, -⟩ := hpeek 2 (by decide)
  obtain ⟨look', hlook', -, hmissing⟩ := hpeek 3 (by decide)
  obtain ⟨v, hv, hbottom⟩ := hfound (by decide)
  cases hv
  refine ⟨⟨look, hlook, hbottom⟩, ⟨look', hlook', hmissing (by decide)⟩, (hsplit 2).1 (by decide),
    hclose 2 (by decide), (hstack _ .swap2).2.atomic _ rfl _, ?_⟩
  exact ((hstack _ (.peek 3)).2.agrees look' hlook').ne_outOfRange s

/-- A look at the greatest depth is no underflow, though there are fewer values. It crashes: one more
than the depth is out of range. -/
theorem peek_greatest_depth :
    let greatest : UInt64 := 0xffffffffffffffff
    Stack.size {} ≤ greatest.toNat ∧ Stack.peek? greatest = none ∧
    (¬ ∃ look needed t, Stack.peek? greatest = some look ∧
      look {} = .error (.stackUnderflow needed 0) t) ∧
    Checked.Stack.peek greatest {} = .error .outOfRange {} := by
  have hcrash : Stack.peek? 0xffffffffffffffff = none := Stack.peek?_eq_none_iff.mpr (by decide)
  refine ⟨by decide, hcrash, ?_, rfl⟩
  rintro ⟨look, needed, t, hlook, -⟩
  cases hcrash.symm.trans hlook

end Fish
