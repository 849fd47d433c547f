import MisuseSlice.Number.Rational
import MisuseSlice.Text.Blank
import MisuseSlice.Text.Quoted

/-!
Closed intervals of rational numbers and comparisons between them. A comparison of two intervals
holds for all their numbers, for none of them, or is not known.
-/
namespace MisuseSlice

/-- The answer to a comparison. Only `unknown` is not a certainty. -/
inductive Verdict where
  | holds | fails | unknown
  deriving DecidableEq, Repr, Inhabited

namespace Verdict

/-- The word for a verdict. -/
def word : Verdict → String
  | holds => "true"
  | fails => "false"
  | unknown => "unknown"

/-- The number for a verdict. -/
def code : Verdict → Int
  | holds => 1
  | fails => 0
  | unknown => -1

/-- The verdict on the negated comparison. -/
def negate : Verdict → Verdict
  | holds => fails
  | fails => holds
  | unknown => unknown

end Verdict

/-- A closed interval. -/
structure Interval where
  lower : Rat
  upper : Rat
  deriving DecidableEq

namespace Interval

/-- The interval of one number. -/
def point (x : Rat) : Interval := ⟨x, x⟩

/-- The interval of an operand about which nothing is known. -/
def unbounded : Interval := ⟨-21474836, 21474836⟩

/-- The interval holds one number. -/
def isPoint (i : Interval) : Bool := i.lower == i.upper

/-- The interval in brackets. -/
def text (i : Interval) : String :=
  "[" ++ Number.showRational i.lower ++ ", " ++ Number.showRational i.upper ++ "]"

/-- A number lies in the interval. -/
def Mem (x : Rat) (i : Interval) : Prop := i.lower ≤ x ∧ x ≤ i.upper

/-- The verdict on `a < b` (`decideLess`). -/
def less (a b : Interval) : Verdict :=
  if a.upper < b.lower then .holds else if b.upper ≤ a.lower then .fails else .unknown

/-- The verdict on `a ≤ b`. -/
def lessOrEqual (a b : Interval) : Verdict :=
  if a.upper ≤ b.lower then .holds else if b.upper < a.lower then .fails else .unknown

/-- The verdict on `a = b` (`decideEqual`). -/
def equal (a b : Interval) : Verdict :=
  if a.isPoint && b.isPoint && a.lower == b.lower then .holds
  else if a.upper < b.lower ∨ b.upper < a.lower then .fails
  else .unknown

/-- The verdict on a comparison with the operator of the given text. -/
def decide (a : Interval) (op : String) (b : Interval) : Verdict :=
  if op = "<" then less a b
  else if op = "<=" then lessOrEqual a b
  else if op = ">" then less b a
  else if op = ">=" then lessOrEqual b a
  else if op = "==" ∨ op = "=" then equal a b
  else if op = "!=" then (equal a b).negate
  else .unknown

end Interval

/-! Comparisons of literals. -/
namespace Comparison

/-- Nothing is known of an operand that is empty or null. -/
def isUnconstrained (s : String) : Bool :=
  Text.trim s == "" || Text.trim s == "null"

/-- The number that a literal denotes, its type suffix removed. -/
def number? (s : String) : Option Rat :=
  Number.rational?
    (String.ofList
      (Text.dropEndWhile (fun c => "LlFfDd".toList.contains c) (Text.trim s).toList))

/-- The interval of an operand, or `none` where it is no numeric literal (`ParseOperand`). -/
def operand? (s : String) : Option Interval :=
  if isUnconstrained s then some .unbounded else (number? s).map .point

/-- The complaint about an operand that is no numeric literal. -/
def operandMessage (s : String) : String :=
  "not a numeric literal: " ++ Text.quote s

/-- The verdict on a comparison of two literals. A run that was called off answers nothing. -/
def resolve (live : Bool) (lhs op rhs : String) : Verdict :=
  if isUnconstrained lhs || isUnconstrained rhs then .unknown
  else
    match number? lhs, number? rhs with
    | some a, some b => if live then (Interval.point a).decide op (.point b) else .unknown
    | _, _ => .unknown

/-- The comparison operators in the order in which an expression is searched for them. -/
def operators : List String := ["<=", ">=", "==", "!=", "<", ">", "="]

/-- The operator of an expression and what stands on its right. -/
def operatorOf? (expression : String) : Option (String × String) :=
  operators.findSome? fun op =>
    (Text.cut? (Text.trim expression) op).map fun (_, right) => (op, Text.trim right)

/-- The verdict on an expression such as `x < 16` or `>= 2048` for the value `x` (`EvalExpression`); the name on
the left of the operator does not matter. -/
def evaluate (live : Bool) (x expression : String) : Verdict :=
  match operatorOf? expression with
  | some (op, right) => resolve live x op right
  | none => .unknown

end Comparison

end MisuseSlice
