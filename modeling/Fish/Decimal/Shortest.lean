import Fish.Binary64

/-!
The shortest decimal text of a double. Among all decimals that read back to the same
double, the one with the fewest digits is written, and of those the one nearest to the
exact value; of two that are equally near, the larger. It is always written positionally,
without an exponent.
-/

namespace Fish.Decimal

/-- The decimals that read back to a double with a positive significand, all in units of
`scale⁻¹`: the exact value, and the two ends of its rounding interval. The ends belong to
the interval when the significand is even. -/
structure Interval where
  low : Nat
  value : Nat
  high : Nat
  scale : Nat
  closed : Bool

/-- The interval reaches half way to each neighbour. At a power of two the lower neighbour
is twice as near, except where the doubles are evenly spaced around zero. -/
def Interval.ofBinary (b : Binary64) : Interval :=
  let up := 1 <<< (b.exponent - 2).toNat
  let below := if b.significand = 0x10000000000000 ∧ -1074 < b.exponent then 1 else 2
  { low := (4 * b.significand - below) * up
    value := 4 * b.significand * up
    high := (4 * b.significand + 2) * up
    scale := 1 <<< (2 - b.exponent).toNat
    closed := b.significand % 2 = 0 }

/-- Measured in units of `10 ^ exponent`, the interval has the same shape. -/
def Interval.inUnits (i : Interval) (exponent : Int) : Interval :=
  let up := Nat.pow 10 (-exponent).toNat
  { i with
    low := i.low * up, value := i.value * up, high := i.high * up
    scale := i.scale * Nat.pow 10 exponent.toNat }

def Interval.contains (i : Interval) (n : Nat) : Bool :=
  if i.closed then i.low ≤ n * i.scale ∧ n * i.scale ≤ i.high
  else i.low < n * i.scale ∧ n * i.scale < i.high

/-- The whole number in the interval that is nearest to the value. If there is any, one of
the value's two neighbours is one. -/
def Interval.nearest? (i : Interval) : Option Nat :=
  let below := i.value / i.scale
  match i.contains below, i.contains (below + 1) with
  | true, true => some (if 2 * (i.value % i.scale) < i.scale then below else below + 1)
  | true, false => some below
  | false, true => some (below + 1)
  | false, false => none

/-- An exponent such that the value is below `10 ^ exponent`, and not far below. -/
def ceilingExponent (b : Binary64) : Int :=
  ((b.significand.log2 : Int) + b.exponent + 1) * 30103 / 100000 + 2

/-- Digits `n` and an exponent `e` with `n * 10 ^ e` the shortest decimal. Grids of powers
of ten are tried from the coarse to the fine; seventeen digits always suffice, and the
first grids may be too coarse to hold any. -/
def shortest (b : Binary64) : Nat × Int :=
  let interval := Interval.ofBinary b
  let top := ceilingExponent b
  let found := (List.range 24).findSome? fun (i : Nat) =>
    (interval.inUnits (top - i)).nearest?.map fun n => (n, top - i)
  found.getD (b.significand, b.exponent)

/-- The digits of `n * 10 ^ exponent`, with a point only if there is a fraction. -/
def positional (n : Nat) (exponent : Int) : String :=
  let digits := Nat.toDigits 10 n
  match exponent with
  | .ofNat e => String.ofList (digits ++ List.replicate e '0')
  | .negSucc e =>
    let places := e + 1
    let padded := List.replicate (places + 1 - digits.length) '0' ++ digits
    let whole := padded.length - places
    String.ofList (padded.take whole ++ '.' :: padded.drop whole)

/-- The text of a double: `inf`, `-inf` and `NaN` where there are no digits, and the sign
of zero is kept. -/
def floatText (x : Float) : String :=
  match Binary64.ofFloat? x with
  | none => if x.isNaN then "NaN" else if x < 0 then "-inf" else "inf"
  | some b =>
    let sign := if b.negative then "-" else ""
    if b.significand = 0 then sign ++ "0"
    else
      let (n, exponent) := shortest b
      sign ++ positional n exponent

end Fish.Decimal
