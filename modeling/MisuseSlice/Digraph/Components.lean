import MisuseSlice.Digraph.Basic

/-!
Strongly connected components, found by one depth-first search: a node's low link is the least time of a
node of its component that is known from it, and a component is complete when the search leaves its
first node. Components come out in the order in which they are completed.
-/
namespace MisuseSlice.Digraph

/-- The state of the search. -/
structure ComponentSearch where
  time : Nat := 0
  /-- The low links of the nodes visited; `none` for a node whose component is complete. -/
  low : List (Nat × Option Nat) := []
  stack : List Nat := []
  components : List (List Nat) := []

namespace ComponentSearch

/-- The node was visited. -/
def visited (s : ComponentSearch) (v : Nat) : Bool := s.low.any (·.1 == v)

/-- The low link of a node whose component is not complete. -/
def lowOf (s : ComponentSearch) (v : Nat) : Option Nat :=
  match s.low.find? (·.1 == v) with
  | some (_, l) => l
  | none => none

/-- Sets the low link of a node. -/
def setLow (s : ComponentSearch) (v : Nat) (l : Option Nat) : ComponentSearch :=
  { s with low := (v, l) :: s.low.filter (·.1 != v) }

/-- Takes the component of `v` from the stack. -/
def complete (s : ComponentSearch) (v : Nat) : ComponentSearch :=
  let above := s.stack.takeWhile (· != v)
  let component := above ++ [v]
  let s := component.foldl (fun s w => s.setLow w none) s
  { s with stack := s.stack.drop component.length, components := s.components ++ [component] }

end ComponentSearch

/-- Searches from a node that was not visited. -/
def searchComponent (g : Digraph) : (fuel : Nat) → Nat → ComponentSearch → ComponentSearch
  | 0, _, s => s
  | fuel + 1, v, s =>
    let start : ComponentSearch :=
      { (s.setLow v (some s.time)) with time := s.time + 1, stack := v :: s.stack }
    let (s, isRoot) := (g.next v).foldl (fun (s, isRoot) w =>
      let s := if s.visited w then s else searchComponent g fuel w s
      match s.lowOf v, s.lowOf w with
      | some a, some b => if b < a then (s.setLow v (some b), false) else (s, isRoot)
      | _, _ => (s, isRoot)) (start, true)
    if isRoot then s.complete v else s

/-- The strongly connected components in the order in which they are completed. -/
def components (g : Digraph) : List (List Nat) :=
  ((List.range g.order).foldl (fun s v =>
    if s.visited v then s else searchComponent g (g.order + 1) v s) ({} : ComponentSearch)).components

/-- Numbers in ascending order. -/
def ascending (xs : List Nat) : List Nat := xs.mergeSort fun a b => decide (a ≤ b)

/-- The components that hold a cycle, each sorted, in the order of their first nodes. -/
def recursiveComponents (g : Digraph) : List (List Nat) :=
  let cyclic := g.components.filter fun c =>
    match c with
    | [v] => g.hasEdge v v
    | _ => true
  (cyclic.map ascending).mergeSort fun a b => decide (a.headD 0 ≤ b.headD 0)

end MisuseSlice.Digraph
