import Fish.Value
import Fish.Fault

/-!
The integer parts of values in full. A value has one unless it is an infinity or not a number; what
is asked of it as a coordinate, a count or a character is asked of this number, and that words hold
no more than 64 bits makes no difference to what is accepted.
-/

namespace Fish

namespace Binary64

open Float.Model in
theorem toNat_unpackExponent (x : Float) :
    (@UnpackedFloat.unpackExponent Format.binary64 x.toBits.toBitVec).toNat =
      x.toBits.toNat / 0x10000000000000 % 0x800 := by
  simp [UnpackedFloat.unpackExponent, Nat.shiftRight_eq_div_pow]

open Float.Model in
/-- A double is finite unless all bits of its exponent are set. -/
theorem isFinite_eq (x : Float) :
    x.isFinite = decide (x.toBits.toNat / 0x10000000000000 % 0x800 ≠ 2047) := by
  have hfinite : x.isFinite =
      (UnpackedFloat.unpack Format.binary64 x.toBits.toBitVec).isFinite := rfl
  have hset : ∀ exponent : BitVec 11, exponent = -1#11 ↔ exponent.toNat = 2047 :=
    fun exponent => BitVec.toNat_inj.symm
  rw [hfinite, ← toNat_unpackExponent]
  by_cases h : @UnpackedFloat.unpackExponent Format.binary64 x.toBits.toBitVec = -1#11
  · have hunpack : UnpackedFloat.unpack Format.binary64 x.toBits.toBitVec = _ := if_pos h
    rw [decide_eq_false (not_not_intro ((hset _).mp h)), hunpack]
    split <;> rfl
  · have hunpack : UnpackedFloat.unpack Format.binary64 x.toBits.toBitVec = _ := if_neg h
    rw [decide_eq_true (mt (hset _).mpr h), hunpack]
    by_cases hleast : @UnpackedFloat.unpackExponent Format.binary64 x.toBits.toBitVec = 0#11
    · rw [if_pos hleast]
      by_cases hzero : @UnpackedFloat.unpackMantissa Format.binary64 x.toBits.toBitVec = 0#52
      · rw [dif_pos hzero]
        rfl
      · rw [dif_neg hzero]
        rfl
    · rw [if_neg hleast]
      rfl

theorem ofFloat?_eq_none_iff (x : Float) : ofFloat? x = none ↔ x.isFinite = false := by
  rw [isFinite_eq, decide_eq_false_iff_not, Decidable.not_not, ofFloat?]
  split
  · rename_i h
    exact iff_of_true rfl h
  · rename_i h
    refine iff_of_false ?_ h
    split <;> exact Option.some_ne_none _

end Binary64

namespace Value

/-- Neither an infinity nor NaN. -/
def isFinite : Value → Bool
  | .int _ => true
  | .float x => x.isFinite

/-- The integer part, cut off toward zero, however great it is; `none` for the infinities
and NaN. -/
def integerPart? : Value → Option Int
  | .int n => some n.toInt
  | .float x => (Binary64.ofFloat? x).map Binary64.truncate

/-- How many values are counted by a value. What is beyond 63 bits counts as the greatest number
below. -/
def count? (v : Value) : Option Nat :=
  v.integerPart?.bind fun n => if 0 ≤ n then some (min n 0x7fffffffffffffff).toNat else none

theorem integerPart?_eq_none_iff (v : Value) : v.integerPart? = none ↔ v.isFinite = false := by
  cases v with
  | int n => exact iff_of_false (Option.some_ne_none _) Bool.true_eq_false.mp
  | float x => exact Option.map_eq_none_iff.trans (Binary64.ofFloat?_eq_none_iff x)

theorem toInt_clamp (n : Int) :
    (clamp n).toInt = max (-0x8000000000000000) (min n 0x7fffffffffffffff) := by
  unfold clamp
  rw [Int64.toInt_ofInt_of_le (by omega) (by omega)]

theorem clamp_toInt (n : Int64) : clamp n.toInt = n := by
  have hlt := n.toInt_lt
  have hle := n.le_toInt
  refine Int64.toInt_inj.mp ?_
  rw [toInt_clamp]
  omega

theorem toInt64?_eq (v : Value) : v.toInt64? = v.integerPart?.map clamp := by
  cases v with
  | int n => exact congrArg some (clamp_toInt n).symm
  | float x =>
    rw [toInt64?, integerPart?, Option.map_map]
    rfl

theorem toInt64?_eq_none_iff (v : Value) : v.toInt64? = none ↔ v.isFinite = false := by
  rw [toInt64?_eq, Option.map_eq_none_iff, integerPart?_eq_none_iff]

/-- A value is no coordinate if and only if it is not finite. -/
theorem coordinate_eq (v : Value) :
    (v.isFinite = false ∧ v.coordinate = .error (.invalidCoordinate v)) ∨
      (v.isFinite = true ∧ ∃ n, v.coordinate = .ok n) := by
  unfold coordinate
  cases h : v.toInt64? with
  | none => exact .inl ⟨v.toInt64?_eq_none_iff.mp h, rfl⟩
  | some n =>
    refine .inr ⟨?_, n, rfl⟩
    cases hfinite : v.isFinite with
    | true => rfl
    | false => cases h.symm.trans (v.toInt64?_eq_none_iff.mpr hfinite)

theorem count?_eq (v : Value) : v.count? = v.toCount?.map UInt64.toNat := by
  rw [count?, toCount?, toInt64?_eq]
  cases v.integerPart? with
  | none => rfl
  | some n =>
    have hclamp := toInt_clamp n
    simp only [Option.map_some, Option.bind_some]
    by_cases hn : 0 ≤ n
    · rw [if_pos hn, if_pos (by omega), Option.map_some, UInt64.toNat_ofNat']
      congr 1
      omega
    · rw [if_neg hn, if_neg (by omega), Option.map_none]

/-- A value counts nothing if and only if it is not finite or its integer part is negative. -/
theorem toCount?_eq_none_iff (v : Value) :
    v.toCount? = none ↔ v.isFinite = false ∨ ∃ n, v.integerPart? = some n ∧ n < 0 := by
  rw [← Option.map_eq_none_iff (f := UInt64.toNat), ← count?_eq, count?,
    ← integerPart?_eq_none_iff]
  cases v.integerPart? with
  | none => simp
  | some n => simp

/-- A value is no character if and only if it is not finite or its integer part is no code
point. -/
theorem toChar?_eq_none_iff (v : Value) :
    v.toChar? = none ↔ v.isFinite = false ∨
      ∃ n, v.integerPart? = some n ∧ ¬(0 ≤ n ∧ n.toNat.isValidChar) := by
  rw [toChar?, toInt64?_eq, ← integerPart?_eq_none_iff]
  cases v.integerPart? with
  | none => simp
  | some n =>
    have hclamp := toInt_clamp n
    have hsame : (0 ≤ (clamp n).toInt ∧ (clamp n).toInt.toNat.isValidChar) ↔
        (0 ≤ n ∧ n.toNat.isValidChar) := by
      unfold Nat.isValidChar
      omega
    have hpart : (∃ m, some n = some m ∧ ¬(0 ≤ m ∧ m.toNat.isValidChar)) ↔
        ¬(0 ≤ n ∧ n.toNat.isValidChar) := by simp only [Option.some.injEq, exists_eq_left']
    simp only [hpart, Option.map_some, Option.bind_some, hsame]
    by_cases h : 0 ≤ n ∧ n.toNat.isValidChar
    · rw [if_pos h]
      exact iff_of_false (Option.some_ne_none _)
        (not_or.mpr ⟨Option.some_ne_none _, not_not_intro h⟩)
    · rw [if_neg h]
      exact iff_of_true rfl (.inr h)

end Value

end Fish
