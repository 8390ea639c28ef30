/-!
The exact value of a finite double: a sign, a significand and a power of two. Work on
doubles that has to be exact (cutting off a fraction, taking a remainder, choosing
digits) is done on these parts, in integers.
-/

namespace Fish

/-- The number `± significand * 2 ^ exponent`. -/
structure Binary64 where
  negative : Bool
  significand : Nat
  exponent : Int
  deriving DecidableEq, Repr

namespace Binary64

/-- The parts of a finite double; `none` for the infinities and NaN. -/
def ofFloat? (x : Float) : Option Binary64 :=
  let bits := x.toBits.toNat
  let negative := bits / 0x8000000000000000 == 1
  let biased : Nat := bits / 0x10000000000000 % 0x800
  let fraction : Nat := bits % 0x10000000000000
  if biased = 2047 then none
  else if biased = 0 then some ⟨negative, fraction, -1074⟩
  else some ⟨negative, fraction + 0x10000000000000, (biased : Int) - 1075⟩

/-- The double with these parts, for a significand below `2 ^ 53` and an exponent that a
double can have; then nothing is rounded. -/
def toFloat (b : Binary64) : Float :=
  let room := 52 - b.significand.log2
  let shift := min room (b.exponent + 1074).toNat
  let significand := b.significand <<< shift
  let biased := if significand < 0x10000000000000 then 0 else (b.exponent - shift + 1075).toNat
  let magnitude := biased * 0x10000000000000 + significand % 0x10000000000000
  Float.ofBits (UInt64.ofNat (if b.negative then 0x8000000000000000 + magnitude else magnitude))

/-- The integer part: the fraction is cut off, toward zero. -/
def truncate (b : Binary64) : Int :=
  let magnitude := match b.exponent with
    | .ofNat e => b.significand <<< e
    | .negSucc e => b.significand >>> (e + 1)
  if b.negative then -magnitude else magnitude

/-- The remainder of the division that rounds toward zero. It has the sign of `a`, and
its significand is below those of both operands, so it is again a double. -/
def remainder (a b : Binary64) : Binary64 :=
  let exponent := min a.exponent b.exponent
  let left := a.significand <<< (a.exponent - exponent).toNat
  let right := b.significand <<< (b.exponent - exponent).toNat
  ⟨a.negative, left % right, exponent⟩

/-- The remainder of two doubles, exact: not a number when there is none, and `x` itself
under an infinite divisor. -/
def remainderFloat (x y : Float) : Float :=
  match ofFloat? x, ofFloat? y with
  | some a, some b => if b.significand = 0 then 0.0 / 0.0 else (a.remainder b).toFloat
  | some _, none => if y.isNaN then y else x
  | none, _ => 0.0 / 0.0

end Binary64

end Fish
