import MisuseSlice.Statement.Basic

/-!
Lines of slices: statements with the method that holds them.
-/
namespace MisuseSlice

/-- A statement of a method. -/
structure SliceLine where
  caller : String
  statement : Statement
  deriving DecidableEq, Repr, Inhabited

namespace SliceLine

/-- The printed statement. -/
def code (l : SliceLine) : String := l.statement.text

/-- The position of the statement in its method, counted from one. -/
def number (l : SliceLine) : Nat := l.statement.pos + 1

/-- The position of the statement in its method. -/
def pos (l : SliceLine) : Nat := l.statement.pos

/-- What tells lines of different slices apart. -/
def key (l : SliceLine) : String := l.caller ++ "#" ++ Text.ofNat l.number ++ "#" ++ l.code

/-- The printed form. -/
def text (l : SliceLine) : String := l.caller ++ ":" ++ Text.ofNat l.number ++ ": " ++ l.code

/-- Lines in the order of their positions. -/
def sort (ls : List SliceLine) : List SliceLine := Sorting.sort (fun a b => decide (a.pos ≤ b.pos)) ls

end SliceLine

end MisuseSlice
