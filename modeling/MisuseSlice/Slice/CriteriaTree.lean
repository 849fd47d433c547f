import Std.Data.TreeMap
import MisuseSlice.Digraph.Cycles
import MisuseSlice.Text.Quoted

/-!
The tree of criteria. A directed edge goes from a criterion in a calling method to one in the called
method, and an undirected one joins the reader and the writer of a field. A removed criterion keeps its
edges but counts no more until it is added again.
-/
namespace MisuseSlice

/-- The criteria of an analysis with their links. -/
structure CriteriaTree where
  ids : List String := []
  numbers : Std.TreeMap String Nat := {}
  levels : List Int := []
  removed : List Bool := []
  callers : List (List Nat) := []
  callees : List (List Nat) := []
  neighbors : List (List Nat) := []
  /-- The edges added: ends and direction, the ends of an undirected one in ascending order. -/
  edges : List (Nat × Nat × Bool) := []

namespace CriteriaTree

/-- Adds a criterion, or restores a removed one; gives its number. -/
def add (t : CriteriaTree) (id : String) (level : Int) : Nat × CriteriaTree :=
  match t.numbers[id]? with
  | some i => (i, { t with removed := t.removed.set i false })
  | none =>
    (t.ids.length,
      { t with
        ids := t.ids ++ [id], numbers := t.numbers.insert id t.ids.length
        levels := t.levels ++ [level], removed := t.removed ++ [false]
        callers := t.callers ++ [[]], callees := t.callees ++ [[]], neighbors := t.neighbors ++ [[]] })

/-- The criterion with a number is removed. -/
def isRemoved (t : CriteriaTree) (i : Nat) : Bool := t.removed.getD i false

/-- The number of a criterion that is not removed. -/
def number? (t : CriteriaTree) (id : String) : Option Nat :=
  match t.numbers[id]? with
  | some i => if t.isRemoved i then none else some i
  | none => none

/-- The criterion is in the tree and not removed. -/
def contains (t : CriteriaTree) (id : String) : Bool := (t.number? id).isSome

/-- The criterion with a number. -/
def idOf (t : CriteriaTree) (i : Nat) : String := t.ids.getD i ""

/-- The level that a criterion was first added with. -/
def level (t : CriteriaTree) (id : String) : Int :=
  match t.numbers[id]? with
  | some i => t.levels.getD i 0
  | none => 0

/-- The number of a criterion, which is added with level zero if it was never in the tree. -/
def numberOrAdd (t : CriteriaTree) (id : String) : Nat × CriteriaTree :=
  match t.numbers[id]? with
  | some i => (i, t)
  | none => t.add id 0

/-- Adds an edge once. -/
def addEdge (t : CriteriaTree) (source target : String) (directed : Bool) : CriteriaTree :=
  let (f, t) := t.numberOrAdd source
  let (d, t) := t.numberOrAdd target
  let key := if directed then (f, d, true) else (min f d, max f d, false)
  if t.edges.contains key then t
  else
    let append (xs : List (List Nat)) (i n : Nat) : List (List Nat) := xs.modify i (· ++ [n])
    let t := { t with edges := t.edges ++ [key] }
    if directed then
      { t with callees := append t.callees f d, callers := append t.callers d f }
    else { t with neighbors := append (append t.neighbors f d) d f }

/-- Removes a criterion. -/
def remove (t : CriteriaTree) (id : String) : CriteriaTree :=
  match t.numbers[id]? with
  | some i => { t with removed := t.removed.set i true }
  | none => t

/-- The criteria that are not removed. -/
def live (t : CriteriaTree) (ns : List Nat) : List Nat := ns.filter (!t.isRemoved ·)

/-- The numbers of the callers that are not removed. -/
def callerNumbers (t : CriteriaTree) (i : Nat) : List Nat := t.live (t.callers.getD i [])

def idsOf (t : CriteriaTree) (links : List (List Nat)) (id : String) : List String :=
  match t.number? id with
  | some i => Text.sort ((t.live (links.getD i [])).map t.idOf)
  | none => []

/-- The callers of a criterion, sorted. -/
def callersOf (t : CriteriaTree) (id : String) : List String := t.idsOf t.callers id

/-- The callees of a criterion, sorted. -/
def calleesOf (t : CriteriaTree) (id : String) : List String := t.idsOf t.callees id

/-- The criteria joined to a criterion by an undirected edge, sorted. -/
def neighborsOf (t : CriteriaTree) (id : String) : List String := t.idsOf t.neighbors id

/-- The number of criteria ever added. -/
def order (t : CriteriaTree) : Nat := t.ids.length

/-- The callees of a criterion by number; a removed one has none. -/
def successors (t : CriteriaTree) (i : Nat) : List Nat :=
  if t.isRemoved i then [] else t.live (t.callees.getD i [])

/-- The directed edges between criteria that are not removed. -/
def directed (t : CriteriaTree) : Digraph := .ofTargets ((List.range t.order).map t.successors)

/-- The label of a criterion in drawings. -/
def label (t : CriteriaTree) (i : Nat) : String := Text.quote (t.idOf i)

end CriteriaTree

end MisuseSlice
