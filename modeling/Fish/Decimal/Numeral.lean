/-!
Numbers as they are written on a command line: whole numbers with an optional sign, and
decimals with an optional fraction and an optional power of ten.
-/

namespace Fish.Decimal

/-- The digits of a number and its size, or `none` if there is no digit or something else. -/
def natOfDigits? (cs : List Char) : Option Nat :=
  if cs.isEmpty ∨ ¬ cs.all Char.isDigit then none
  else some (cs.foldl (fun n c => 10 * n + (c.toNat - '0'.toNat)) 0)

/-- A leading sign, if there is one, and the rest. -/
def splitSign : List Char → Bool × List Char
  | '-' :: cs => (true, cs)
  | '+' :: cs => (false, cs)
  | cs => (false, cs)

/-- A whole number with an optional sign. -/
def int? (text : String) : Option Int :=
  let (negative, digits) := splitSign text.toList
  (natOfDigits? digits).map fun n => if negative then -(n : Int) else n

/-- A whole number that fits in 64 bits, with an optional plus sign. -/
def word? (text : String) : Option Nat :=
  let digits := match text.toList with
    | '+' :: cs => cs
    | cs => cs
  (natOfDigits? digits).filter (· < UInt64.size)

/-- The number `± digits * 10 ^ exponent`. -/
structure Numeral where
  negative : Bool
  digits : Nat
  exponent : Int
  deriving DecidableEq, Repr

/-- The nearest double. Exponents beyond the range of doubles are cut short before the
power of ten is taken. -/
def Numeral.toFloat (n : Numeral) : Float :=
  let places : Int := (Nat.toDigits 10 n.digits).length
  let magnitude : Float :=
    if n.digits = 0 ∨ n.exponent + places < -400 then 0.0
    else if 400 < n.exponent + places then 1.0 / 0.0
    else match n.exponent with
      | .ofNat e => Float.ofScientific n.digits false e
      | .negSucc e => Float.ofScientific n.digits true (e + 1)
  if n.negative then -magnitude else magnitude

/-- The power of ten after the digits: nothing, or `e` and a whole number. -/
def exponent? : List Char → Option Int
  | [] => some 0
  | c :: cs => if c = 'e' ∨ c = 'E' then int? (String.ofList cs) else none

/-- Digits, a fraction and a power of ten. The digits before or after the point may be
missing, but not both. -/
def magnitude? (cs : List Char) : Option (Nat × Int) :=
  let whole := cs.takeWhile Char.isDigit
  let rest := cs.dropWhile Char.isDigit
  let (fraction, rest) := match rest with
    | '.' :: more => (more.takeWhile Char.isDigit, more.dropWhile Char.isDigit)
    | _ => ([], rest)
  match natOfDigits? (whole ++ fraction), exponent? rest with
  | some n, some e => some (n, e - fraction.length)
  | _, _ => none

/-- A decimal with an optional sign, or one of the words for infinity and for no number,
in any case. -/
def float? (text : String) : Option Float :=
  let (negative, body) := splitSign text.toList
  let word := String.ofList (body.map Char.toLower)
  if word = "inf" ∨ word = "infinity" then
    some (if negative then -1.0 / 0.0 else 1.0 / 0.0)
  else if word = "nan" then some (0.0 / 0.0)
  else (magnitude? body).map fun (n, e) => (Numeral.mk negative n e).toFloat

end Fish.Decimal
