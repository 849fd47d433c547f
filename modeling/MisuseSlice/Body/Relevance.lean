import MisuseSlice.Statement.Basic

/-!
Relevance of retained statements. A statement is connected to the seed when it shares an operand that
is no constant with the seed or with a connected statement. The others are of no use, branches apart.
-/
namespace MisuseSlice.Relevance

/-- The operands that are no constants (`nonConstant`). -/
def variableOperands (u : Statement) : List Value := u.operands.filter (!·.isConstant)

/-- One scan: the statements that are not connected yet are looked at in order, and each connected one
adds its operands. -/
def scan : List Statement → ValueSet → List Statement × ValueSet
  | [], vars => ([], vars)
  | u :: rest, vars =>
    if (vars.common u.operands).isEmpty then
      let (left, vars) := scan rest vars
      (u :: left, vars)
    else scan rest (vars.insertAll (variableOperands u))

/-- Scans backward and forward until a round finds nothing more. The statements that stay unconnected
are returned, last first. -/
def settle : (fuel : Nat) → List Statement → ValueSet → List Statement
  | 0, left, _ => left
  | fuel + 1, left, vars =>
    let (back, vars) := scan left vars
    let (forth, vars) := scan back.reverse vars
    if forth.length == left.length then left else settle fuel forth.reverse vars

/-- The positions of the retained statements that are of no use (`PruneUseless`). -/
def useless (seed : Option Statement) (retained : List Statement) : List Nat :=
  let vars := ValueSet.ofList (match seed with | some u => variableOperands u | none => [])
  let left := settle (retained.length + 1) retained.reverse vars
  (left.reverse.filter (!·.kind.isBranch)).map (·.pos)

end MisuseSlice.Relevance
