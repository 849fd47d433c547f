import MisuseSlice.Number.Integer

/-!
Numeric literals of program code: an optional minus, digits with an optional point, an optional
exponent and an optional type suffix. The type of a literal follows from these parts.
-/
namespace MisuseSlice.Number

/-- The parts of a numeric literal. -/
structure Literal where
  negative : Bool
  whole : List Char
  fraction : Option (List Char)
  exponent : Option (List Char)
  suffix : Option Char
  deriving DecidableEq, Repr

/-- The types of numeric literals. -/
inductive LiteralType where
  | int | long | float | double
  deriving DecidableEq, Repr

/-- The exponent after its letter: an optional sign and at least one digit. -/
def exponentOf? (cs : List Char) : Option (List Char × List Char) :=
  let (sign, rest) : List Char × List Char :=
    match cs with
    | '+' :: r => ([], r)
    | '-' :: r => (['-'], r)
    | _ => ([], cs)
  let digits := rest.takeWhile isDecimal
  if digits.isEmpty then none else some (sign ++ digits, rest.dropWhile isDecimal)

/-- Tells a minus at the start of a text from what follows. -/
def splitMinus (cs : List Char) : Bool × List Char :=
  match cs with
  | '-' :: r => (true, r)
  | _ => (false, cs)

/-- Tells the digits after a point at the start of a text from what follows. -/
def splitFraction (cs : List Char) : Option (List Char) × List Char :=
  match cs with
  | '.' :: r => (some (r.takeWhile isDecimal), r.dropWhile isDecimal)
  | _ => (none, cs)

/-- Reads a text as one literal. -/
def Literal.read? (cs : List Char) : Option Literal :=
  let (negative, cs) := splitMinus cs
  let whole := cs.takeWhile isDecimal
  let (fraction, afterFraction) := splitFraction (cs.dropWhile isDecimal)
  let finish (exponent : Option (List Char)) : List Char → Option Literal
    | [] => some { negative, whole, fraction, exponent, suffix := none }
    | [c] => some { negative, whole, fraction, exponent, suffix := some c }
    | _ => none
  match afterFraction with
  | c :: r =>
    if c = 'e' ∨ c = 'E' then
      match exponentOf? r with
      | some (e, rest) => finish (some e) rest
      | none => none
    else finish none afterFraction
  | [] => finish none []

/-- The literal has digits before or after its point. -/
def Literal.hasDigits (l : Literal) : Bool :=
  !l.whole.isEmpty || (match l.fraction with | some f => !f.isEmpty | none => false)

/-- The type that a literal's parts give it, if they make a literal at all. -/
def Literal.type? (l : Literal) : Option LiteralType :=
  if !l.hasDigits then none
  else
    match l.suffix with
    | some 'F' => some .float
    | some 'D' => some .double
    | some 'L' => if l.fraction.isNone && l.exponent.isNone then some .long else none
    | some _ => none
    | none =>
      if l.fraction.isSome then some .double
      else if l.exponent.isNone then some .int
      else none

/-- The type of the literal that a text writes. -/
def literalType? (s : String) : Option LiteralType :=
  (Literal.read? s.toList).bind Literal.type?

/-- The name of the type in program code. -/
def LiteralType.name : LiteralType → String
  | .int => "int"
  | .long => "long"
  | .float => "float"
  | .double => "double"

end MisuseSlice.Number
