import MisuseSlice.Slice.Line

/-!
Findings: patterns of rules that hold, with the lines where their checks found a match.
-/
namespace MisuseSlice

/-- A line as it is reported. -/
structure FindingLine where
  code : String := ""
  kind : Kind := .other
  caller : String := ""
  number : Int := 0
  deriving DecidableEq, Repr, Inhabited

/-- The printed form. -/
def FindingLine.text (l : FindingLine) : String :=
  l.caller ++ ":" ++ Text.ofInt l.number ++ ": " ++ l.code

/-- The line of a slice as it is reported. -/
def SliceLine.reported (l : SliceLine) : FindingLine :=
  { code := l.code, kind := l.statement.kind, caller := l.caller, number := l.number }

/-- A pattern of a rule that holds. -/
structure Finding where
  ruleId : String := ""
  description : String := ""
  secure : Bool := false
  /-- The method that holds the seed statement. -/
  caller : String := ""
  /-- The seed statement. -/
  target : String := ""
  lines : List FindingLine := []
  /-- The lines are listed, if only as an empty list. -/
  listsLines : Bool := true
  deriving DecidableEq, Repr, Inhabited

end MisuseSlice
