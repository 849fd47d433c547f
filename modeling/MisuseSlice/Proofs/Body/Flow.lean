import Mathlib.Data.List.Basic
import MisuseSlice.Statement.Basic

/-! Control flow in a body: where control can go after a statement, and the paths that it can take. What
is thrown leaves the body. -/
namespace MisuseSlice

namespace Statement

/-- The positions that control can go to after the statement at a position. -/
def successors (u : Statement) (pos : Nat) : List Int :=
  match u.kind with
  | .returnValue | .returnVoid | .throwValue => []
  | .goto => [u.target]
  | .branchIf => [(pos : Int) + 1, u.target]
  | .switch => u.targets
  | _ => [(pos : Int) + 1]

/-- The statement does not jump backward. -/
def IsForward (u : Statement) : Prop := (u.kind = .branchIf ∨ u.kind = .goto) → (u.pos : Int) < u.target

instance (u : Statement) : Decidable u.IsForward := inferInstanceAs (Decidable (_ → _))

/-- The statement gives the name a value. -/
def Writes (u : Statement) (name : String) : Prop := u.kind.definesLocal = true ∧ u.left.text = name

instance (u : Statement) (name : String) : Decidable (u.Writes name) := inferInstanceAs (Decidable (_ ∧ _))

end Statement

/-- Control can go from one position to another. -/
def Flows (units : List Statement) (p q : Nat) : Prop := ∃ u ∈ units[p]?, (q : Int) ∈ u.successors p

instance (units : List Statement) (p q : Nat) : Decidable (Flows units p q) :=
  inferInstanceAs (Decidable (∃ u ∈ units[p]?, (q : Int) ∈ u.successors p))

/-- A path that control can take. -/
def IsPath (units : List Statement) (path : List Nat) : Prop := path.IsChain (Flows units)

instance (units : List Statement) (path : List Nat) : Decidable (IsPath units path) :=
  inferInstanceAs (Decidable (path.IsChain (Flows units)))

end MisuseSlice
