import MisuseSlice.Body.Folding
import MisuseSlice.Body.Renaming

/-!
Method bodies prepared for slicing: reads of constant fields are replaced by their values, redefined
variables are renamed, and constants are folded. Every view of a body has the same positions.
-/
namespace MisuseSlice

/-- A prepared body. -/
structure Body where
  method : String
  /-- The statements after substitution, renaming and folding. -/
  source : List Statement
  /-- The positions of statements that cannot run. -/
  dead : List Nat
  /-- The last name given to each renamed slot. -/
  aliases : Std.TreeMap String Value

namespace Body

/-- The source with dead statements replaced by ones that do nothing. -/
def whole (b : Body) : List Statement :=
  b.source.mapIdx fun i u => if b.dead.contains i then Statement.nopAt i else u

/-- The whole body, last statement first. -/
def reversed (b : Body) : List Statement := b.whole.reverse

/-- The number of statements. -/
def size (b : Body) : Nat := b.source.length

/-- The place of a position in the reversed body, and back. -/
def mirror (b : Body) (i : Int) : Int := (b.size : Int) - 1 - i

/-- The statement at a position of the whole body. -/
def at? (b : Body) (pos : Nat) : Option Statement := b.whole[pos]?

/-- A read of a static field with a known constant, as the assignment of that constant (`substituteConstants`). -/
def substitute (constants : String → Option Value) (u : Statement) : Statement :=
  if u.kind == .assignVariableField && u.right.base == "" then
    match constants u.fieldSignature with
    | some v => Statement.assignConstant u.left v u.pos
    | none => u
  else u

/-- Prepares a body; `none` where a statement is missing or a branch points outside the body. -/
def prepare? (constants : String → Option Value) (live : Bool) (method : String)
    (units : List (Option Statement)) : Option (Body × Log) :=
  if units.any (·.isNone) then none
  else
    let placed := (units.filterMap id).mapIdx fun i u => { u with pos := i }
    let substituted := placed.map (substitute constants)
    match renameBody? substituted with
    | none => none
    | some (renamed, aliases) =>
      let (source, dead, log) := Folding.body live method renamed
      let note :=
        if dead.isEmpty then []
        else
          Log.one .debug
            (method ++ ": " ++ Text.ofNat dead.length ++ " units on infeasible branches")
      some ({ method, source, dead, aliases }, log ++ note)

end Body

end MisuseSlice
