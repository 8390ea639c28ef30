import Fish.Proofs.CheckedMachine
import Fish.Proofs.Nesting

/-!
The machine with its ranges checked does what the machine does. An operation first makes sure
that there are as many values as it needs, and then no index and no cut can be out of range; the
guards of the two divisions leave out what has no quotient; and a count that was read fits in a
signed word, so that one more than it is a size. Axes that a signed word can count are walked
around without leaving the words.
-/

namespace Fish

/-- Signed words can count the columns and the rows of the codebox. -/
def Codebox.Countable (box : Codebox) : Prop := box.width < 2 ^ 63 ∧ box.height < 2 ^ 63

theorem Value.toNat_lt_of_toCount? {v : Value} {n : UInt64} (h : v.toCount? = some n) :
    n.toNat < 2 ^ 63 := by
  obtain ⟨m, -, hm⟩ := Option.bind_eq_some_iff.mp h
  split at hm
  · cases hm
    have hlt := m.toInt_lt
    rw [UInt64.toNat_ofNat']
    omega
  · cases hm

namespace Checked

variable {α β ε σ τ : Type}

theorem divisible_or {m n : Int64} (hn : n ≠ 0) :
    Divisible m n ∨ (m = Int64.minValue ∧ n = -1) := by
  by_cases h : m = Int64.minValue ∧ n = -1
  · exact .inr h
  · exact .inl ⟨hn, h⟩

theorem toInt_div {m n : Int64} (h : Divisible m n) :
    (m / n).toInt = m.toInt.tdiv n.toInt := by
  by_cases hm : m = Int64.minValue
  · exact Int64.toInt_div_of_ne_right m n fun hn => h.2 ⟨hm, hn⟩
  · exact Int64.toInt_div_of_ne_left m n hm

/-- Where nothing is left, the exact quotient is that of the words. -/
theorem exactOr_div {m n : Int64} (h : Divisible m n) (hrem : m.toInt % n.toInt = 0) (x : Float) :
    Value.exactOr (m.toInt / n.toInt) x = .int (m / n) := by
  have hdiv : m.toInt / n.toInt = (m / n).toInt := by
    rw [toInt_div h, Int.tdiv_eq_ediv_of_dvd (Int.dvd_of_emod_eq_zero hrem)]
  have hle := (m / n).le_toInt
  have hlt := (m / n).toInt_lt
  rw [Value.exactOr, hdiv, if_pos ⟨hle, hlt⟩, Int64.ofInt_toInt]

theorem rem_eq_zero_iff (m n : Int64) : m % n = 0 ↔ m.toInt % n.toInt = 0 := by
  rw [← Int64.toInt_inj, Int64.toInt_mod, Int64.toInt_zero, ← Int.dvd_iff_tmod_eq_zero,
    Int.dvd_iff_emod_eq_zero]

theorem quotient_eq (a b : Value) :
    quotient a b = (Operator.div.apply a b).mapError .raised := by
  unfold quotient
  simp only [Operator.apply, Value.div?]
  split
  · rfl
  · rename_i hzero
    cases a with
    | float x => rfl
    | int m =>
      cases b with
      | float y => rfl
      | int n =>
        have hn : n ≠ 0 := fun h => hzero (by rw [h]; rfl)
        rcases divisible_or (m := m) hn with hdiv | ⟨rfl, rfl⟩
        · simp only [rem?, if_pos hdiv, Option.some.injEq, rem_eq_zero_iff]
          split
          · rename_i hrem
            rw [exactOr_div hdiv hrem, div?, if_pos hdiv]
            rfl
          · rfl
        · rfl

/-- Words of different signs have a sum. -/
theorem add?_of_signs {m n : Int64} (h : decide (m < 0) ≠ decide (n < 0)) :
    add? m n = some (m + n) := by
  have hm := m.le_toInt
  have hm' := m.toInt_lt
  have hn := n.le_toInt
  have hn' := n.toInt_lt
  rw [ne_eq, decide_eq_decide, Int64.lt_iff_toInt_lt, Int64.lt_iff_toInt_lt, Int64.toInt_zero] at h
  rw [add?, if_pos (by omega)]

theorem remainder_eq (a b : Value) :
    remainder a b = (Operator.rem.apply a b).mapError .raised := by
  unfold remainder
  simp only [Operator.apply, Value.rem?]
  split
  · rfl
  · rename_i hzero
    cases a with
    | float x => rfl
    | int m =>
      cases b with
      | float y => rfl
      | int n =>
        have hn : n ≠ 0 := fun h => hzero (by rw [h]; rfl)
        rcases divisible_or (m := m) hn with hdiv | ⟨rfl, rfl⟩
        · simp only [rem?, if_pos hdiv, Value.flooredInt]
          split
          · rename_i hsigns
            rw [add?_of_signs hsigns.2]
            rfl
          · rfl
        · rfl

theorem apply_eq (op : Operator) (a b : Value) :
    apply op a b = (op.apply a b).mapError .raised := by
  cases op with
  | div => exact quotient_eq a b
  | rem => exact remainder_eq a b
  | _ => rfl

/-- The result of an operation, as that of one that checks its ranges. -/
def carry (view : σ → τ) : EStateM.Result ε σ α → EStateM.Result (Stop ε) τ α
  | .ok a s => .ok a (view s)
  | .error e s => .error (.raised e) (view s)

/-- An operation that checks its ranges finds nothing out of range, and does what the other does,
on states that are looked at through the view. -/
def Agrees (view : σ → τ) (checked : EStateM (Stop ε) τ α) (op : EStateM ε σ α) : Prop :=
  ∀ s, checked (view s) = carry view (op s)

section Agreement

variable {view : σ → τ}

theorem agrees_pure (a : α) : Agrees view (pure a : EStateM (Stop ε) τ α) (pure a) :=
  fun _ => rfl

theorem agrees_throw (e : ε) :
    Agrees view (throw (.raised e) : EStateM (Stop ε) τ α) (throw e) :=
  fun _ => rfl

theorem agrees_lift (op : EStateM ε σ α) : Agrees id (lift op) op := by
  intro s
  unfold lift
  dsimp only [id]
  cases op s with
  | ok a t => rfl
  | error e t => rfl

theorem Agrees.bind {checked : EStateM (Stop ε) τ α} {op : EStateM ε σ α}
    {next : α → EStateM (Stop ε) τ β} {next' : α → EStateM ε σ β} (h : Agrees view checked op)
    (hnext : ∀ a, Agrees view (next a) (next' a)) :
    Agrees view (checked >>= next) (op >>= next') := by
  intro s
  have hs := h s
  cases hop : op s with
  | ok a t =>
    rw [hop] at hs
    rw [bind_of_ok hs, bind_of_ok hop]
    exact hnext a t
  | error e t =>
    rw [hop] at hs
    rw [bind_of_error hs, bind_of_error hop]
    rfl

end Agreement

theorem inRange_bind {a : α} (next : α → EStateM (Stop ε) σ β) :
    inRange (some a) >>= next = next a := rfl

theorem get_bind (next : σ → EStateM (Stop ε) σ β) (s : σ) :
    ((get : EStateM (Stop ε) σ σ) >>= next) s = next s s := rfl

theorem difference?_of_le {m n : Nat} (h : n ≤ m) : difference? m n = some (m - n) := if_pos h

theorem sum?_of_lt {m n : Nat} (h : m + n < UInt64.size) : sum? m n = some (m + n) := if_pos h

namespace Stack

/-- Within a stack, the index from the bottom finds what is found from the top. -/
theorem getElem?_toList {s : Stack} {i : Nat} (h : i < s.size) :
    s.toList[s.size - 1 - i]? = s.values[i]? := by
  have hlength : s.values.length = s.size := rfl
  rw [Stack.toList, List.getElem?_reverse (by omega)]
  congr 1
  omega

theorem require_of_le {needed : Nat} {s : Stack} (h : needed ≤ s.size) :
    require needed s = .ok () s := if_neg (Nat.not_lt.mpr h)

theorem require_of_lt {needed : Nat} {s : Stack} (h : s.size < needed) :
    require needed s = .error (.raised (.stackUnderflow needed s.size)) s := if_pos h

theorem require_bind_of_le {needed : Nat} {s : Stack} (h : needed ≤ s.size)
    (next : Unit → StackOp α) : (require needed >>= next) s = next () s :=
  bind_of_ok (require_of_le h) next

theorem require_bind_of_lt {needed : Nat} {s : Stack} (h : s.size < needed)
    (next : Unit → StackOp α) :
    (require needed >>= next) s = .error (.raised (.stackUnderflow needed s.size)) s :=
  bind_of_error (require_of_lt h) next

theorem agrees_peek {depth : UInt64} (h : depth.toNat + 1 < UInt64.size) :
    Agrees id (peek depth) (Fish.Stack.peek depth.toNat) := by
  intro s
  unfold peek
  rw [sum?_of_lt h, inRange_bind, Fish.Stack.peek]
  by_cases hsize : depth.toNat + 1 ≤ s.size
  · rw [id, require_bind_of_le hsize, get_bind, difference?_of_le (by omega), inRange_bind,
      difference?_of_le (by omega), inRange_bind, getElem?_toList hsize,
      List.getElem?_eq_getElem hsize]
    rfl
  · have hvalue : s.values[depth.toNat]? = none :=
      List.getElem?_eq_none (Nat.le_of_not_lt hsize)
    rw [id, require_bind_of_lt (Nat.lt_of_not_le hsize), hvalue]
    rfl

theorem peek_of_getElem? {depth : UInt64} {s : Stack} {v : Value} (h : depth.toNat + 1 < UInt64.size)
    (hv : s.values[depth.toNat]? = some v) : peek depth s = .ok v s := by
  have hpeek := agrees_peek h s
  rw [Fish.Stack.peek] at hpeek
  simp only [hv] at hpeek
  exact hpeek

theorem agrees_peek2 : Agrees id peek2 Fish.Stack.peek2 := by
  intro s
  obtain ⟨values, register⟩ := s
  match values with
  | [] => rfl
  | [top] => rfl
  | top :: below :: rest =>
    have hbelow : peek 1 ⟨top :: below :: rest, register⟩ = .ok below _ :=
      peek_of_getElem? (by decide) rfl
    have htop : peek 0 ⟨top :: below :: rest, register⟩ = .ok top _ :=
      peek_of_getElem? (by decide) rfl
    rw [id, peek2, require_bind_of_le (Nat.le_add_left 2 _), bind_of_ok hbelow, bind_of_ok htop]
    rfl

theorem agrees_duplicate : Agrees id duplicate Fish.Stack.duplicate := by
  intro s
  obtain ⟨values, register⟩ := s
  match values with
  | [] => rfl
  | top :: rest =>
    have htop : peek 0 ⟨top :: rest, register⟩ = .ok top _ :=
      peek_of_getElem? (by decide) rfl
    rw [id, duplicate, bind_of_ok htop]
    rfl

/-- A stack of at least `n` values is cut between these and the rest. -/
theorem cut_toList {s : Stack} {n : Nat} (h : n ≤ s.size) :
    (difference? s.size n).bind (cut? · s.toList) =
      some ((s.values.drop n).reverse, (s.values.take n).reverse) := by
  have hlength : s.values.length = s.size := rfl
  have hcut : s.size - n ≤ s.toList.length := by
    rw [Stack.toList, List.length_reverse]
    omega
  rw [difference?_of_le h, Option.bind_some, cut?, if_pos hcut, Stack.toList, List.take_reverse,
    List.drop_reverse]
  congr 4
  · omega
  · omega

theorem agrees_split (n : Nat) : Agrees id (split n) (Fish.Stack.split n) := by
  intro s
  by_cases h : n ≤ s.size
  · rw [id, split, require_bind_of_le h, get_bind, cut_toList h, inRange_bind, Stack.split_of_le h]
    change EStateM.Result.ok (Stack.ofList (s.values.take n).reverse)
      { s with values := (s.values.drop n).reverse.reverse } = _
    rw [Stack.ofList, List.reverse_reverse, List.reverse_reverse]
    rfl
  · rw [id, split, require_bind_of_lt (Nat.lt_of_not_le h), Fish.Stack.split, if_neg h]
    rfl

theorem agrees_swap3 : Agrees id swap3 Fish.Stack.swap3 := by
  intro s
  obtain ⟨values, register⟩ := s
  match values with
  | [] => rfl
  | [c] => rfl
  | [c, b] => rfl
  | c :: b :: a :: rest =>
    have hsize : 3 ≤ (⟨c :: b :: a :: rest, register⟩ : Stack).size := Nat.le_add_left 3 _
    rw [id, swap3, require_bind_of_le hsize, get_bind, cut_toList hsize, inRange_bind]
    have hrotated : rotateRight? 1 [a, b, c] = some [c, a, b] := rfl
    change (inRange (rotateRight? 1 [a, b, c]) >>= fun rotated =>
      replace (rest.reverse ++ rotated)) _ = _
    rw [hrotated, inRange_bind, replace, List.reverse_append, List.reverse_reverse]
    rfl

theorem agrees_swap2 : Agrees id swap2 Fish.Stack.swap2 := by
  intro s
  obtain ⟨values, register⟩ := s
  match values with
  | [] => rfl
  | [top] => rfl
  | top :: below :: rest =>
    have hsize : 2 ≤ (⟨top :: below :: rest, register⟩ : Stack).size := Nat.le_add_left 2 _
    have hlist : (⟨top :: below :: rest, register⟩ : Stack).toList =
        rest.reverse ++ [below, top] := by simp [Stack.toList]
    rw [id, swap2, require_bind_of_le hsize, get_bind, difference?_of_le (by omega), inRange_bind,
      difference?_of_le hsize, inRange_bind, hlist]
    simp [Stack.size, inRange_bind, replace, Fish.Stack.swap2, carry]

theorem agrees_combine {f : Value → Value → Except (Stop Fault) Value}
    {f' : Value → Value → Except Fault Value} (h : ∀ a b, f a b = (f' a b).mapError .raised) :
    Agrees id (combine f) (Fish.Stack.combine f') := by
  refine agrees_peek2.bind fun operands => ?_
  dsimp only
  rw [h]
  cases f' operands.1 operands.2 with
  | error e => exact agrees_throw e
  | ok result => exact (agrees_lift Stack.pop2).bind fun _ => agrees_lift (Stack.push result)

theorem agrees_takePlace : Agrees id takePlace Fish.Stack.takePlace := by
  refine agrees_peek2.bind fun operands => ?_
  dsimp only
  cases operands.1.coordinate with
  | error e => exact agrees_throw e
  | ok x =>
    cases operands.2.coordinate with
    | error e => exact agrees_throw e
    | ok y => exact (agrees_lift Stack.pop2).bind fun _ => agrees_pure (x, y)

theorem agrees_takeChar : Agrees id takeChar Fish.Stack.takeChar := by
  refine (agrees_peek (by decide)).bind fun v => ?_
  cases v.toChar? with
  | none => exact agrees_throw (Fault.invalidCharacter v)
  | some c => exact (agrees_lift Stack.pop).bind fun _ => agrees_pure c

/-- One more than a count is a word, since a count is a whole number of 64 bits with a sign. -/
theorem agrees_takeCount : Agrees id takeCount Fish.Stack.takeCount := by
  refine (agrees_peek (by decide)).bind fun v => ?_
  cases hcount : v.toCount? with
  | none => exact agrees_throw (Fault.invalidCount v)
  | some count =>
    have hlt := Value.toNat_lt_of_toCount? hcount
    have hsize : count.toNat + 1 < UInt64.size := by
      rw [UInt64.size]
      omega
    refine (agrees_peek hsize).bind fun _ => ?_
    exact (agrees_lift Stack.pop).bind fun _ => agrees_pure count

end Stack

namespace Stacks

theorem toList_eq (s : Fish.Stacks) : s.toList = s.suspended.reverse ++ [s.active] :=
  List.reverse_cons

theorem difference?_toList (s : Fish.Stacks) :
    difference? s.toList.length 1 = some s.suspended.length := by
  rw [toList_eq, List.length_append, List.length_reverse]
  exact difference?_of_le (Nat.le_add_left 1 _)

/-- The active stack is where the last index of the row leads. -/
theorem onActive_toList (op : StackOp α) (s : Fish.Stacks) :
    onActive op s.toList = match op s.active with
      | .ok a active => .ok a (Stacks.toList { s with active := active })
      | .error e active => .error e (Stacks.toList { s with active := active }) := by
  have hactive : s.toList[s.suspended.length]? = some s.active := by
    rw [toList_eq, ← List.length_reverse]
    exact List.getElem?_concat_length
  have hset : ∀ active, s.toList.set s.suspended.length active =
      Stacks.toList { s with active := active } := by
    intro active
    rw [toList_eq, toList_eq]
    simp
  rw [onActive, difference?_toList]
  dsimp only
  rw [hactive]
  dsimp only
  cases op s.active with
  | ok a active =>
    dsimp only
    rw [hset]
  | error e active =>
    dsimp only
    rw [hset]

theorem agrees_onActive {checked : StackOp α} {op : Fish.StackOp α} (h : Agrees id checked op) :
    Agrees Stacks.toList (onActive checked) (Fish.Stacks.onActive op) := by
  intro s
  have hop := h s.active
  rw [onActive_toList, show checked s.active = carry id (op s.active) from hop,
    Fish.Stacks.onActive]
  cases op s.active <;> rfl

theorem agrees_openStack (n : Nat) :
    Agrees Stacks.toList (openStack n) (Fish.Stacks.openStack n) := by
  intro s
  have hsplit := agrees_onActive (Stack.agrees_split n) s
  rw [Fish.Stacks.onActive] at hsplit
  rw [Fish.Stacks.openStack]
  cases hop : Fish.Stack.split n s.active with
  | ok opened active =>
    rw [hop] at hsplit
    dsimp only at hsplit ⊢
    have htoList : Stacks.toList ⟨opened, active :: s.suspended⟩ =
        Stacks.toList ⟨active, s.suspended⟩ ++ [opened] := toList_eq _
    rw [openStack, bind_of_ok hsplit, carry, htoList]
    rfl
  | error e active =>
    rw [hop] at hsplit
    dsimp only at hsplit ⊢
    rw [openStack, bind_of_error hsplit]
    rfl

theorem agrees_closeStack : Agrees Stacks.toList closeStack Fish.Stacks.closeStack := by
  intro s
  obtain ⟨active, suspended⟩ := s
  cases suspended with
  | nil => rfl
  | cons below rest =>
    have htoList : Stacks.toList ⟨active, below :: rest⟩ =
        Stacks.toList ⟨below, rest⟩ ++ [active] := toList_eq _
    have hlength : ¬ (Stacks.toList ⟨below, rest⟩ ++ [active]).length < 2 := by
      simp [Stacks.toList]
    have habsorb := agrees_onActive (agrees_lift (Stack.absorb active)) ⟨below, rest⟩
    rw [closeStack, htoList, if_neg hlength, List.getLast?_concat, List.dropLast_concat]
    exact habsorb

theorem agrees_openCounted : Agrees Stacks.toList openCounted Fish.Stacks.openCounted :=
  (agrees_onActive Stack.agrees_takeCount).bind fun count => agrees_openStack count.toNat

theorem agrees_perform (instruction : StackInstruction) :
    Agrees Stacks.toList (perform instruction) instruction.perform := by
  cases instruction with
  | push digit => exact agrees_onActive (agrees_lift (Stack.push (.ofNat digit)))
  | combine op => exact agrees_onActive (Stack.agrees_combine (apply_eq op))
  | duplicate => exact agrees_onActive Stack.agrees_duplicate
  | discard => exact agrees_onActive (agrees_lift Stack.discard)
  | swap2 => exact agrees_onActive Stack.agrees_swap2
  | swap3 => exact agrees_onActive Stack.agrees_swap3
  | shiftRight => exact agrees_onActive (agrees_lift Stack.shiftRight)
  | shiftLeft => exact agrees_onActive (agrees_lift Stack.shiftLeft)
  | reverse => exact agrees_onActive (agrees_lift Stack.reverse)
  | size => exact agrees_onActive (agrees_lift Stack.pushSize)
  | toggleRegister => exact agrees_onActive (agrees_lift Stack.toggleRegister)
  | openStack => exact agrees_openCounted
  | closeStack => exact agrees_closeStack

end Stacks

namespace Pointer

theorem divisible_of_pos {n : Nat} (hpos : 0 < n) (hlt : n < 2 ^ 63) (m : Int64) :
    Divisible m (.ofNat n) := by
  have hn := Int64.toInt_ofNat_of_lt hlt
  refine ⟨fun hzero => ?_, fun hminus => ?_⟩
  · rw [hzero, Int64.toInt_zero] at hn
    omega
  · rw [hminus.2, show (-1 : Int64).toInt = -1 from rfl] at hn
    omega

/-- An axis whose cells can be counted by a signed word can be walked around. -/
theorem wrap?_eq {extent : Nat} (hpos : 0 < extent) (hlt : extent < 2 ^ 63) (place : Int64) :
    wrap? extent place = some (place.toInt % extent).toNat := by
  have hextent := Int64.toInt_ofNat_of_lt hlt
  have hnonneg := Int.emod_nonneg place.toInt (Int.natCast_ne_zero.mpr (Nat.ne_of_gt hpos))
  have hbelow := Int.emod_lt_of_pos place.toInt (Int.natCast_pos.mpr hpos)
  have hword : (Int64.ofInt (place.toInt % extent)).toInt = place.toInt % extent :=
    Int64.toInt_ofInt_of_le (by omega) (by omega)
  have hle : 0 ≤ Int64.ofInt (place.toInt % extent) := by
    rw [Int64.le_iff_toInt_le, hword, Int64.toInt_zero]
    exact hnonneg
  rw [wrap?, remEuclid?, if_pos (divisible_of_pos hpos hlt place), hextent, Option.map_some,
    Int64.toNat_toUInt64_of_le hle, Int64.toNatClampNeg, hword]

variable {box : Codebox}

theorem jump?_eq (hbox : box.Countable) (x y : Int64) (p : Pointer) :
    jump? box x y p = some (p.jump box x.toInt y.toInt) := by
  rw [jump?, wrap?_eq box.width_pos hbox.1, wrap?_eq box.height_pos hbox.2]
  rfl

/-- A place within the codebox is followed by one that a signed word can express. -/
theorem add?_eq {extent place : Nat} {d : Int} (hextent : extent < 2 ^ 63)
    (hplace : place < extent) (hd : -1 ≤ d ∧ d ≤ 1) :
    ∃ sum, add? (.ofNat place) (.ofInt d) = some sum ∧ sum.toInt = place + d := by
  have hword : (Int64.ofNat place).toInt = place :=
    Int64.toInt_ofNat_of_lt (Nat.lt_trans hplace hextent)
  have hdword : (Int64.ofInt d).toInt = d := Int64.toInt_ofInt_of_le (by omega) (by omega)
  refine ⟨.ofNat place + .ofInt d, ?_, ?_⟩
  · rw [add?, hword, hdword, if_pos (by omega)]
  · rw [Int64.toInt_add, hword, hdword]
    exact Int.bmod_eq_of_le (by omega) (by omega)

theorem dx_bounds (d : Direction) : -1 ≤ d.dx ∧ d.dx ≤ 1 := by cases d <;> decide

theorem dy_bounds (d : Direction) : -1 ≤ d.dy ∧ d.dy ≤ 1 := by cases d <;> decide

theorem moveOn?_eq (hbox : box.Countable) {p : Pointer} (hx : p.x < box.width)
    (hy : p.y < box.height) : moveOn? box p = some (p.moveOn box) := by
  obtain ⟨x, hsumX, hX⟩ := add?_eq hbox.1 hx (dx_bounds p.direction)
  obtain ⟨y, hsumY, hY⟩ := add?_eq hbox.2 hy (dy_bounds p.direction)
  rw [moveOn?, hsumX, hsumY, p.moveOn_of_inside box hx hy, ← hX, ← hY]
  exact jump?_eq hbox x y p

end Pointer

namespace State

def ofState (s : Fish.State) : State where
  pointer := s.pointer
  levels := s.memory.toList
  channel := s.channel
  quote := s.quote
  random := s.random

theorem agrees_onStacks {checked : StacksOp α} {op : Fish.StacksOp α}
    (h : Agrees Stacks.toList checked op) :
    Agrees ofState (onStacks checked) (Fish.State.onStacks op) := by
  intro s
  have hop := h s.memory
  rw [onStacks, show checked (ofState s).levels = carry Stacks.toList (op s.memory) from hop,
    Fish.State.onStacks]
  cases op s.memory with
  | ok a memory => rfl
  | error e memory => rfl

theorem agrees_onStack {checked : StackOp α} {op : Fish.StackOp α} (h : Agrees id checked op) :
    Agrees ofState (onStack checked) (Fish.State.onStack op) :=
  agrees_onStacks (Stacks.agrees_onActive h)

theorem agrees_modify {f : State → State} {f' : Fish.State → Fish.State}
    (h : ∀ s, f (ofState s) = ofState (f' s)) :
    Agrees ofState (modify f : Effect PUnit) (modify f' : Fish.Effect PUnit) :=
  fun s => congrArg (EStateM.Result.ok ()) (h s)

theorem agrees_movePointer {f : Pointer → Option Pointer} {f' : Pointer → Pointer}
    (h : ∀ p, f p = some (f' p)) :
    Agrees ofState (movePointer f) (Fish.State.movePointer f') := by
  intro s
  rw [movePointer, get_bind, h]
  rfl

theorem agrees_turnRandomly : Agrees ofState turnRandomly Fish.State.turnRandomly := by
  intro s
  have hdirections : ∀ i : Fin 4, directions[i.val]? = some (.ofIndex i) := by decide
  have hrandom : (ofState s).random = s.random := rfl
  rw [turnRandomly, get_bind, hdirections, inRange_bind, hrandom]
  rw [Fish.State.turnRandomly, modify_apply]
  generalize s.random.quarter = draw
  rfl

theorem agrees_write (text : String) : Agrees ofState (write text) (Fish.State.write text) :=
  agrees_modify fun _ => rfl

theorem agrees_receive : Agrees ofState receive Fish.State.receive := by
  intro s
  rw [receive, Fish.State.receive, show (ofState s).channel = s.channel from rfl]
  cases s.channel.receive with
  | ok received channel => cases received <;> rfl
  | error e channel => rfl

theorem agrees_perform {box : Codebox} (hbox : box.Countable) (instruction : Instruction) :
    Agrees ofState (perform box instruction) (Fish.State.perform box instruction) := by
  cases instruction with
  | stack instruction =>
    exact (agrees_onStacks (Stacks.agrees_perform instruction)).bind fun _ => agrees_pure _
  | turn d => exact (agrees_movePointer fun _ => rfl).bind fun _ => agrees_pure _
  | turnRandomly => exact agrees_turnRandomly.bind fun _ => agrees_pure _
  | reflect m => exact (agrees_movePointer fun _ => rfl).bind fun _ => agrees_pure _
  | skip => exact agrees_pure _
  | skipIfZero => exact (agrees_onStack (agrees_lift _)).bind fun _ => agrees_pure _
  | jump =>
    refine (agrees_onStack Stack.agrees_takePlace).bind fun place => ?_
    exact (agrees_movePointer (Pointer.jump?_eq hbox _ _)).bind fun _ => agrees_pure _
  | quote q => exact (agrees_modify fun _ => rfl).bind fun _ => agrees_pure _
  | writeNumber =>
    refine (agrees_onStack (agrees_lift _)).bind fun v => ?_
    exact (agrees_write _).bind fun _ => agrees_pure _
  | writeChar =>
    refine (agrees_onStack Stack.agrees_takeChar).bind fun c => ?_
    exact (agrees_write _).bind fun _ => agrees_pure _
  | readChar =>
    refine agrees_receive.bind fun v => ?_
    exact (agrees_onStack (agrees_lift _)).bind fun _ => agrees_pure _
  | fetch =>
    refine (agrees_onStack Stack.agrees_takePlace).bind fun place => ?_
    exact (agrees_onStack (agrees_lift _)).bind fun _ => agrees_pure _
  | halt => exact agrees_pure _
  | blank => exact agrees_pure _

theorem agrees_readQuoted (q : Quote) (c : Char) :
    Agrees ofState (readQuoted q c) (Fish.State.readQuoted q c) := by
  intro s
  unfold readQuoted Fish.State.readQuoted
  split
  · rfl
  · exact (agrees_onStack (agrees_lift _)).bind (fun _ => agrees_pure _) s

theorem agrees_execute {box : Codebox} (hbox : box.Countable) (c : Char) :
    Agrees ofState (execute box c) (Fish.State.execute box c) := by
  intro s
  rw [execute, Fish.State.execute, show (ofState s).quote = s.quote from rfl]
  cases s.quote with
  | some q => exact agrees_readQuoted q c s
  | none =>
    dsimp only
    cases Instruction.ofChar? c with
    | none => rfl
    | some instruction => exact agrees_perform hbox instruction s

end State

end Checked

end Fish
