import MisuseSlice.Number.Integer

/-!
Reading rational numbers. A numeral is a fraction of two integers, or a mantissa with an optional
point and an optional exponent, to base ten after `e` and to base two after `p`. Base marks and
underscores between digits are those of integers. Exponents beyond fixed limits are refused.
-/
namespace MisuseSlice.Number

/-- What the last character read was, when checking underscores. -/
inductive Last where
  | digit | underscore | other
  deriving DecidableEq

/-- A scanned mantissa: its base, its digits, how many stand after the point, and what follows. -/
structure Mantissa where
  base : Nat
  value : Nat
  fraction : Nat
  rest : List Char
  deriving DecidableEq, Repr

/-- What scanning digits has gathered: the digits' value and count, the count before the point, and whether an underscore
stood out of place. -/
structure Scan where
  value : Nat
  count : Nat
  point : Option Nat
  last : Last
  misplaced : Bool

def scanDigits (base : Nat) : (pointAllowed : Bool) → Scan → List Char → Scan × List Char
  | _, s, [] => (s, [])
  | pointAllowed, s, c :: rest =>
    if c = '.' ∧ pointAllowed then
      scanDigits base false
        { s with point := some s.count, last := .other, misplaced := s.misplaced || s.last == .underscore }
        rest
    else if c = '_' then
      scanDigits base pointAllowed
        { s with last := .underscore, misplaced := s.misplaced || s.last != .digit } rest
    else
      match digit? c with
      | some d =>
        if d < base then
          scanDigits base pointAllowed
            { s with value := s.value * base + d, count := s.count + 1, last := .digit } rest
        else (s, c :: rest)
      | none => (s, c :: rest)

/-- Scans an unsigned number with an optional base mark; a point only where `pointAllowed`. Without
a point allowed, a leading zero alone marks base eight. -/
def mantissa? (pointAllowed : Bool) (cs : List Char) : Option Mantissa :=
  let finish (base : Nat) (zeroMark : Bool) (r : Scan × List Char) : Option Mantissa :=
    let (s, rest) := r
    if s.misplaced || s.last == .underscore then none
    else if s.count = 0 then
      if zeroMark then some { base := 10, value := 0, fraction := 0, rest } else none
    else
      some { base, value := s.value, fraction := (s.point.map (s.count - ·)).getD 0, rest }
  let from0 (base : Nat) (zeroMark : Bool) (counted : Nat) (last : Last) (rest : List Char) :=
    finish base zeroMark
      (scanDigits base pointAllowed ⟨0, counted, none, last, false⟩ rest)
  match cs with
  | '0' :: m :: rest =>
    if m = 'b' ∨ m = 'B' then from0 2 false 0 .digit rest
    else if m = 'o' ∨ m = 'O' then from0 8 false 0 .digit rest
    else if m = 'x' ∨ m = 'X' then from0 16 false 0 .digit rest
    else if pointAllowed then from0 10 false 1 .digit (m :: rest)
    else from0 8 true 0 .digit (m :: rest)
  | ['0'] => from0 10 false 1 .digit []
  | _ => from0 10 false 0 .other cs

/-- A scanned exponent: its base and value, and what follows. -/
def exponent? (cs : List Char) : Option (Nat × Int × List Char) :=
  let scan (base : Nat) (rest : List Char) : Option (Nat × Int × List Char) :=
    let (negative, rest) : Bool × List Char :=
      match rest with
      | '+' :: r => (false, r)
      | '-' :: r => (true, r)
      | _ => (false, rest)
    let written := rest.takeWhile fun c => isDecimal c || c == '_'
    let digits := written.filter isDecimal
    let value := decimalValue digits
    if digits.isEmpty then none
    else if (if negative then 0x8000000000000000 < value else 0x8000000000000000 ≤ value) then none
    else if written.head? == some '_' || written.getLast? == some '_' ||
        (written.zip (written.drop 1)).any (fun p => p.1 == '_' && p.2 == '_') then none
    else some (base, if negative then -(value : Int) else value, rest.drop written.length)
  match cs with
  | 'e' :: rest => scan 10 rest
  | 'E' :: rest => scan 10 rest
  | 'p' :: rest => scan 2 rest
  | 'P' :: rest => scan 2 rest
  | _ => some (10, 0, cs)

def splitSign (cs : List Char) : Bool × List Char :=
  match cs with
  | '+' :: r => (false, r)
  | '-' :: r => (true, r)
  | _ => (false, cs)

def signed (negative : Bool) (q : Rat) : Rat :=
  if negative then -q else q

/-- Two to an integer power. -/
def pow (base : Nat) (e : Int) : Rat :=
  match e with
  | .ofNat n => (Nat.pow base n : Rat)
  | .negSucc n => 1 / (Nat.pow base (n + 1) : Rat)

/-- The powers of five and of two by which a mantissa is scaled. -/
def scaling (m : Mantissa) (ebase : Nat) (e : Int) : Int × Int :=
  let f := -(m.fraction : Int)
  let (five, two) : Int × Int :=
    if m.base = 10 then (f, f) else if m.base = 2 then (0, f) else if m.base = 8 then (0, 3 * f)
    else (0, 4 * f)
  if ebase = 10 then (five + e, two + e) else (five, two + e)

/-- The rational number that a numeral denotes, or `none` where the text is no numeral. -/
def rational? (s : String) : Option Rat :=
  match Text.splitFirst? ['/'] s.toList with
  | some (above, below) =>
    let (negative, digits) := splitSign above
    match mantissa? false digits, mantissa? false below with
    | some a, some b =>
      if a.rest.isEmpty && b.rest.isEmpty && b.value != 0 then
        some (signed negative ((a.value : Rat) / (b.value : Rat)))
      else none
    | _, _ => none
  | none =>
    let (negative, digits) := splitSign s.toList
    match mantissa? true digits with
    | none => none
    | some m =>
      match exponent? m.rest with
      | some (ebase, e, []) =>
        if m.value = 0 then some 0
        else
          let (five, two) := scaling m ebase e
          if five.natAbs > 1000000 || two.natAbs > 10000000 then none
          else some (signed negative ((m.value : Rat) * pow 5 five * pow 2 two))
      | _ => none

/-- A rational number written as an integer or as a reduced fraction. -/
def showRational (q : Rat) : String :=
  if q.den = 1 then Text.ofInt q.num else Text.ofInt q.num ++ "/" ++ Text.ofNat q.den

end MisuseSlice.Number
