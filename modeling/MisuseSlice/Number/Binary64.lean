import MisuseSlice.Number.Literal

/-!
Rounding to the 64-bit binary floating point numbers. The numbers are kept as the rationals that
they are, so sums and floors of them are those of rationals.
-/
namespace MisuseSlice.Number

/-- The natural number nearest to `n / d`; a tie goes to the even neighbour. -/
def nearestNat (n d : Nat) : Nat :=
  let q := n / d
  let r := n % d
  if 2 * r < d then q
  else if d < 2 * r then q + 1
  else if q % 2 = 0 then q else q + 1

/-- The exponent of the last binary digit that a number `n / d` keeps: 53 digits, but none below
the smallest positive number. -/
private def lastPlace (n d : Nat) : Int :=
  let guess : Int := (Nat.log2 n : Int) - (Nat.log2 d : Int)
  -- The guess is the exponent of the first digit or one more.
  let first : Int :=
    if 0 ≤ guess then (if n < d * Nat.pow 2 guess.toNat then guess - 1 else guess)
    else if n * Nat.pow 2 (-guess).toNat < d then guess - 1 else guess
  max (first - 52) (-1074)

/-- The floating point number nearest to a rational, or `none` where it is too large. -/
def nearestBinary64? (q : Rat) : Option Rat :=
  let n := q.num.natAbs
  let d := q.den
  if n = 0 then some 0
  else
    let e := lastPlace n d
    let value : Rat :=
      if 0 ≤ e then ((nearestNat n (d * Nat.pow 2 e.toNat) * Nat.pow 2 e.toNat : Nat) : Rat)
      else ((nearestNat (n * Nat.pow 2 (-e).toNat) d : Nat) : Rat) / (Nat.pow 2 (-e).toNat : Rat)
    if value < (Nat.pow 2 1024 : Rat) then some (if q.num < 0 then -value else value) else none

/-- The floating point number nearest to a decimal literal without a suffix. Exponents far outside
the range give zero or no number without computing the power. -/
def Literal.binary64? (l : Literal) : Option Rat :=
  let fraction := l.fraction.getD []
  let digits := decimalValue (l.whole ++ fraction)
  let exponent : Int :=
    match l.exponent with
    | some ('-' :: ds) => -(decimalValue ds : Int)
    | some ds => decimalValue ds
    | none => 0
  let shift := exponent - fraction.length
  let sign : Rat := if l.negative then -1 else 1
  if digits = 0 then some 0
  else if 400 < shift then none
  else if shift < -(400 + (l.whole.length + fraction.length : Nat) : Int) then some 0
  else
    match shift with
    | .ofNat n => nearestBinary64? (sign * ((digits * Nat.pow 10 n : Nat) : Rat))
    | .negSucc n => nearestBinary64? (sign * ((digits : Rat) / (Nat.pow 10 (n + 1) : Rat)))

/-- The floating point number that a decimal text is rounded to. -/
def binary64? (s : List Char) : Option Rat :=
  match Literal.read? s with
  | some l => if l.hasDigits && l.suffix.isNone then l.binary64? else none
  | none => none

/-- The integer that a floating point number is cut to, which is the smallest word where it does not
fit. -/
def cutToWord (q : Rat) : Int :=
  let n := q.num.tdiv q.den
  if -0x8000000000000000 ≤ n ∧ n < 0x8000000000000000 then n else -0x8000000000000000

end MisuseSlice.Number
