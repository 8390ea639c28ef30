import Fish.Proofs.Expressions
import Fish.Proofs.Failures

/-!
Whole numbers are exact. Sums, differences and products, and quotients without a rest, are the
numbers of mathematics wherever a signed word of 64 bits can hold them, and doubles elsewhere;
nothing ever wraps around. The remainder of the division that rounds down always fits, and so does
the sum that moves it to the sign of the divisor.
-/

namespace Fish

/-- A signed word can hold the number. -/
def Fits (n : Int) : Prop := -0x8000000000000000 ≤ n ∧ n < 0x8000000000000000

theorem fits_toInt (n : Int64) : Fits n.toInt := ⟨n.le_toInt, n.toInt_lt⟩

theorem toInt_ofInt_of_fits {n : Int} (h : Fits n) : (Int64.ofInt n).toInt = n :=
  Int64.toInt_ofInt_of_le h.1 h.2

/-- No word can hold the quotient of the least one by minus one, and that is the only quotient
without a rest of which this is so. -/
theorem fits_div_iff {m n : Int64} (hn : n ≠ 0) (h : n.toInt ∣ m.toInt) :
    Fits (m.toInt / n.toInt) ↔ ¬(m = Int64.minValue ∧ n = -1) := by
  have hzero : n.toInt ≠ 0 := fun hzero => hn (Int64.toInt_inj.mp hzero)
  have hmin : m = Int64.minValue ↔ m.toInt = -0x8000000000000000 := Int64.toInt_inj.symm
  have hone : n = -1 ↔ n.toInt = -1 := Int64.toInt_inj.symm
  have hm := fits_toInt m
  rw [hmin, hone]
  obtain ⟨q, hq⟩ := h
  rw [hq, Int.mul_ediv_cancel_left q hzero, ← hq]
  have habs : m.toInt.natAbs = n.toInt.natAbs * q.natAbs := by rw [hq, Int.natAbs_mul]
  unfold Fits at hm ⊢
  by_cases hunit : n.toInt.natAbs = 1
  · rcases Int.natAbs_eq_iff.mp hunit with hpos | hneg
    · rw [hpos] at hq
      omega
    · rw [hneg] at hq
      omega
  · have hle : 2 * q.natAbs ≤ m.toInt.natAbs := by
      rw [habs]
      exact Nat.mul_le_mul_right _ (by omega)
    omega

namespace Value

/-- The value is the number, as a word, if one can hold it, and the double if none can. -/
structure Represents (v : Value) (n : Int) (x : Float) : Prop where
  word : ∀ r : Int64, v = .int r ↔ r.toInt = n
  double : ∀ y : Float, v = .float y ↔ ¬ Fits n ∧ y = x

theorem represents_exactOr (n : Int) (x : Float) : (exactOr n x).Represents n x := by
  by_cases h : Fits n
  · have hword : exactOr n x = .int (.ofInt n) := if_pos h
    rw [hword]
    refine ⟨fun r => ?_, fun y => ?_⟩
    · rw [Value.int.injEq, ← Int64.toInt_inj, toInt_ofInt_of_fits h, eq_comm]
    · exact iff_of_false (fun heq => by cases heq) fun hout => hout.1 h
  · have hdouble : exactOr n x = .float x := if_neg h
    rw [hdouble]
    refine ⟨fun r => ?_, fun y => ?_⟩
    · exact iff_of_false (fun heq => by cases heq) fun hr => h (hr ▸ fits_toInt r)
    · rw [Value.float.injEq, eq_comm]
      exact (and_iff_right h).symm

/-- The remainder that is moved to the sign of the divisor stays a word. -/
theorem toInt_add_of_signs {r n : Int64} (h : ¬(r < 0 ↔ n < 0)) :
    (r + n).toInt = r.toInt + n.toInt := by
  have hr := fits_toInt r
  have hn := fits_toInt n
  rw [Int64.lt_iff_toInt_lt, Int64.lt_iff_toInt_lt, Int64.toInt_zero] at h
  unfold Fits at hr hn
  rw [Int64.toInt_add, Int.bmod_eq_of_le (by omega) (by omega)]

/-- The remainder of the division that rounds down is that of the division toward zero, moved by
the divisor where the signs are not the same. -/
theorem fmod_eq (a b : Int) :
    a.fmod b = if a.tmod b ≠ 0 ∧ ¬(a.tmod b < 0 ↔ b < 0) then a.tmod b + b else a.tmod b := by
  have hdvd : b ∣ a ↔ a.tmod b = 0 := Int.dvd_iff_tmod_eq_zero
  have hpos : 0 ≤ a → 0 ≤ a.tmod b := Int.tmod_nonneg b
  have hneg : a < 0 → a.tmod b ≤ 0 := by
    intro ha
    have hopposite := Int.tmod_nonneg b (Int.neg_nonneg_of_nonpos (Int.le_of_lt ha))
    rw [Int.neg_tmod] at hopposite
    omega
  rw [Int.fmod_eq_tmod]
  simp only [hdvd]
  split <;> split <;> omega

/-- It has the sign of the divisor, and is nearer to zero. -/
theorem fmod_bounds (a : Int) {b : Int} (hb : b ≠ 0) :
    (a.fmod b = 0 ∨ (a.fmod b < 0 ↔ b < 0)) ∧ (a.fmod b).natAbs < b.natAbs := by
  have hlt : (a.tmod b).natAbs < b.natAbs := by
    rw [Int.natAbs_tmod]
    exact Nat.mod_lt _ (Int.natAbs_pos.mpr hb)
  rw [fmod_eq]
  split <;> omega

theorem toInt_flooredInt (m n : Int64) :
    (flooredInt (m % n) n).toInt = m.toInt.fmod n.toInt := by
  have hzero : m % n = 0 ↔ m.toInt.tmod n.toInt = 0 := by
    rw [← Int64.toInt_inj, Int64.toInt_mod, Int64.toInt_zero]
  have hsigns : (m % n < 0 ↔ n < 0) ↔ (m.toInt.tmod n.toInt < 0 ↔ n.toInt < 0) := by
    rw [Int64.lt_iff_toInt_lt, Int64.lt_iff_toInt_lt, Int64.toInt_mod, Int64.toInt_zero]
  rw [fmod_eq, flooredInt]
  simp only [ne_eq, decide_eq_decide, hzero, ← hsigns]
  split
  · rename_i h
    rw [toInt_add_of_signs h.2, Int64.toInt_mod]
  · rw [Int64.toInt_mod]

end Value

namespace Operator

open Value

variable {m n : Int64}

theorem isZero_int_iff (n : Int64) : (Value.int n).isZero = true ↔ n = 0 := beq_iff_eq

theorem apply_div_int (hn : n ≠ 0) :
    div.apply (.int m) (.int n) = .ok (if n.toInt ∣ m.toInt
      then exactOr (m.toInt / n.toInt) ((Value.int m).toFloat / (Value.int n).toFloat)
      else .float ((Value.int m).toFloat / (Value.int n).toFloat)) := by
  have hdivisor : ¬(Value.int n).isZero = true := mt (isZero_int_iff n).mp hn
  simp only [apply, div?, if_neg hdivisor, Int.dvd_iff_emod_eq_zero]

theorem apply_rem_int (hn : n ≠ 0) :
    rem.apply (.int m) (.int n) = .ok (.int (flooredInt (m % n) n)) := by
  have hdivisor : ¬(Value.int n).isZero = true := mt (isZero_int_iff n).mp hn
  simp only [apply, rem?, if_neg hdivisor]

theorem apply_div_error_iff (m n : Int64) (e : Fault) :
    div.apply (.int m) (.int n) = .error e ↔ n = 0 ∧ e = .divisionByZero := by
  rw [apply_error_iff, isZero_int_iff]
  exact and_iff_right (.inl rfl)

theorem apply_rem_error_iff (m n : Int64) (e : Fault) :
    rem.apply (.int m) (.int n) = .error e ↔ n = 0 ∧ e = .divisionByZero := by
  rw [apply_error_iff, isZero_int_iff]
  exact and_iff_right (.inr rfl)

theorem ne_zero_of_apply_div {v : Value} (h : div.apply (.int m) (.int n) = .ok v) : n ≠ 0 := by
  intro hn
  rw [(apply_div_error_iff m n .divisionByZero).mpr ⟨hn, rfl⟩] at h
  cases h

theorem apply_div_word_iff (m n q : Int64) :
    div.apply (.int m) (.int n) = .ok (.int q) ↔
      n ≠ 0 ∧ n.toInt ∣ m.toInt ∧ q.toInt = m.toInt / n.toInt := by
  by_cases hn : n = 0
  · exact iff_of_false (fun h => ne_zero_of_apply_div h hn) fun h => h.1 hn
  · rw [apply_div_int hn, Except.ok.injEq, and_iff_right hn]
    split
    · rename_i hdvd
      rw [(represents_exactOr _ _).word, and_iff_right hdvd]
    · rename_i hdvd
      exact iff_of_false (fun h => by cases h) fun h => hdvd h.1

theorem apply_div_double_iff (m n : Int64) (x : Float) :
    div.apply (.int m) (.int n) = .ok (.float x) ↔
      n ≠ 0 ∧ ¬(n.toInt ∣ m.toInt ∧ Fits (m.toInt / n.toInt)) ∧
        x = (Value.int m).toFloat / (Value.int n).toFloat := by
  by_cases hn : n = 0
  · exact iff_of_false (fun h => ne_zero_of_apply_div h hn) fun h => h.1 hn
  · rw [apply_div_int hn, Except.ok.injEq, and_iff_right hn]
    split
    · rename_i hdvd
      rw [(represents_exactOr _ _).double, and_iff_right hdvd]
    · rename_i hdvd
      rw [Value.float.injEq, eq_comm]
      exact (and_iff_right fun h => hdvd h.1).symm

end Operator

/-- The state with other values on the active stack, listed top first. -/
def State.withValues (values : List Value) (s : State) : State :=
  { s with memory := { s.memory with active := { s.memory.active with values := values } } }

/-- An operator puts its result in the place of the two values on top, and leaves everything as it
was where there is none. -/
theorem State.execute_combine {s : State} {a b : Value} {below : List Value}
    (hquote : s.quote = none) (hvalues : s.memory.active.values = b :: a :: below)
    (box : Codebox) (op : Operator) :
    execute box (StackInstruction.combine op).symbol s = match op.apply a b with
      | .ok v => .ok .next (s.withValues (v :: below))
      | .error e => .error (.fatal e) s := by
  obtain ⟨pointer, ⟨⟨values, register⟩, suspended⟩, channel, quote, random⟩ := s
  subst hvalues
  rw [execute_of_instruction hquote (StackInstruction.ofChar?_symbol (.combine op)), perform]
  cases hresult : op.apply a b with
  | ok v =>
    refine bind_of_ok (a := ()) ?_ _
    simp only [onStacks, StackInstruction.perform, Stacks.onActive, Stack.combine_of_ok hresult]
    rfl
  | error e =>
    refine bind_of_error ?_ _
    simp only [onStacks, StackInstruction.perform, Stacks.onActive, Stack.combine_of_error hresult]

/-- Whole numbers are exact: a result is that number as a word wherever a word can hold it, and a
double elsewhere. Only a zero divisor is an error. -/
theorem integers_exact (m n : Int64) :
    (((Value.int m).add (.int n)).Represents (m.toInt + n.toInt)
        ((Value.int m).toFloat + (Value.int n).toFloat) ∧
      ((Value.int m).sub (.int n)).Represents (m.toInt - n.toInt)
        ((Value.int m).toFloat - (Value.int n).toFloat) ∧
      ((Value.int m).mul (.int n)).Represents (m.toInt * n.toInt)
        ((Value.int m).toFloat * (Value.int n).toFloat)) ∧
    ((∀ e, Operator.div.apply (.int m) (.int n) = .error e ↔ n = 0 ∧ e = .divisionByZero) ∧
      (∀ q : Int64, Operator.div.apply (.int m) (.int n) = .ok (.int q) ↔
        n ≠ 0 ∧ n.toInt ∣ m.toInt ∧ q.toInt = m.toInt / n.toInt) ∧
      (∀ x, Operator.div.apply (.int m) (.int n) = .ok (.float x) ↔
        n ≠ 0 ∧ ¬(n.toInt ∣ m.toInt ∧ Fits (m.toInt / n.toInt)) ∧
          x = (Value.int m).toFloat / (Value.int n).toFloat) ∧
      (n ≠ 0 → n.toInt ∣ m.toInt →
        (Fits (m.toInt / n.toInt) ↔ ¬(m = Int64.minValue ∧ n = -1)))) ∧
    ((∀ e, Operator.rem.apply (.int m) (.int n) = .error e ↔ n = 0 ∧ e = .divisionByZero) ∧
      (n ≠ 0 → ∃ r : Int64, Operator.rem.apply (.int m) (.int n) = .ok (.int r) ∧
        r.toInt = m.toInt - n.toInt * m.toInt.fdiv n.toInt ∧
        (r = 0 ∨ (r < 0 ↔ n < 0)) ∧ r.toInt.natAbs < n.toInt.natAbs) ∧
      (¬(m % n < 0 ↔ n < 0) → Fits ((m % n).toInt + n.toInt))) ∧
    ∀ (c : Char) (op : Operator),
      (c, op) ∈ [('+', .add), ('-', .sub), ('*', .mul), (',', .div), ('%', .rem)] →
      ∀ (box : Codebox) (s : State) (below : List Value),
        s.quote = none → s.memory.active.values = .int n :: .int m :: below →
        State.execute box c s = match op.apply (.int m) (.int n) with
          | .ok v => .ok .next (s.withValues (v :: below))
          | .error e => .error (.fatal e) s := by
  refine ⟨⟨?_, ?_, ?_⟩, ⟨?_, ?_, ?_, ?_⟩, ⟨?_, ?_, ?_⟩, ?_⟩
  · exact Value.represents_exactOr _ _
  · exact Value.represents_exactOr _ _
  · exact Value.represents_exactOr _ _
  · exact Operator.apply_div_error_iff m n
  · exact Operator.apply_div_word_iff m n
  · exact Operator.apply_div_double_iff m n
  · exact fun hn hdvd => fits_div_iff hn hdvd
  · exact Operator.apply_rem_error_iff m n
  · intro hn
    have hzero : n.toInt ≠ 0 := fun hzero => hn (Int64.toInt_inj.mp hzero)
    have hfloor := Value.toInt_flooredInt m n
    obtain ⟨hsign, hless⟩ := Value.fmod_bounds m.toInt hzero
    refine ⟨_, Operator.apply_rem_int hn, hfloor.trans (Int.fmod_def _ _), ?_, ?_⟩
    · rw [← Int64.toInt_inj, Int64.lt_iff_toInt_lt, Int64.lt_iff_toInt_lt, hfloor]
      exact hsign
    · rw [hfloor]
      exact hless
  · intro hsigns
    rw [← Value.toInt_add_of_signs hsigns]
    exact fits_toInt _
  · intro c op hop box s below hquote hvalues
    have hsymbol : (StackInstruction.combine op).symbol = c := by
      simp only [List.mem_cons, Prod.mk.injEq, List.not_mem_nil, or_false] at hop
      rcases hop with ⟨rfl, rfl⟩ | ⟨rfl, rfl⟩ | ⟨rfl, rfl⟩ | ⟨rfl, rfl⟩ | ⟨rfl, rfl⟩ <;> rfl
    rw [← hsymbol]
    exact State.execute_combine hquote hvalues box op

/-- The least word divided by minus one is no word, and leaves nothing. -/
theorem integers_exact_least :
    let s : State :=
      { memory := ⟨.ofList [.int 5, .int Int64.minValue, .int (-1)], []⟩, random := .ofSeed 0 }
    let box := Codebox.ofSource ""
    (s.quote = none ∧
      s.memory.active.values = [.int (-1), .int Int64.minValue, .int 5]) ∧
    (∃ x, State.execute box ',' s = .ok .next (s.withValues [.float x, .int 5])) ∧
    State.execute box '%' s = .ok .next (s.withValues [.int 0, .int 5]) := by
  intro s box
  have hvalues : s.memory.active.values = [.int (-1), .int Int64.minValue, .int 5] := rfl
  obtain ⟨-, ⟨-, -, hdouble, hfits⟩, ⟨-, hrem, -⟩, hstack⟩ := integers_exact Int64.minValue (-1)
  have hquotient := hstack ',' .div (by decide) box s [.int 5] rfl hvalues
  have hremainder := hstack '%' .rem (by decide) box s [.int 5] rfl hvalues
  refine ⟨⟨rfl, hvalues⟩, ?_, ?_⟩
  · have hout : ¬ Fits (Int64.minValue.toInt / (-1 : Int64).toInt) := by
      rw [hfits (by decide) (by decide)]
      decide
    rw [(hdouble _).mpr ⟨by decide, fun h => hout h.2, rfl⟩] at hquotient
    exact ⟨_, hquotient⟩
  · obtain ⟨r, hr, -, -, hless⟩ := hrem (by decide)
    have hone : (-1 : Int64).toInt.natAbs = 1 := by decide
    rw [hone, Nat.lt_one_iff, Int.natAbs_eq_zero] at hless
    obtain rfl : r = 0 := Int64.toInt_inj.mp hless
    rw [hremainder, hr]

end Fish
