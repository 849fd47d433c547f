/-!
Finite directed graphs on the numbers below an order. A graph may hold only some of these numbers as its
nodes, so that a part of a graph keeps the numbers of the whole.
-/
namespace MisuseSlice

/-- A directed graph. -/
structure Digraph where
  order : Nat
  /-- The nodes, in ascending order. -/
  nodes : List Nat
  /-- The targets of the edges from each number, each target once. -/
  successors : List (List Nat)
  deriving DecidableEq, Repr

namespace Digraph

/-- The graph on all numbers below the length of a list of targets. -/
def ofTargets (targets : List (List Nat)) : Digraph :=
  { order := targets.length, nodes := List.range targets.length,
    successors := targets.map (·.eraseDups) }

/-- The targets of the edges from a node. -/
def next (g : Digraph) (v : Nat) : List Nat := g.successors.getD v []

/-- The sources of the edges to a node. -/
def previous (g : Digraph) (v : Nat) : List Nat := g.nodes.filter fun u => (g.next u).contains v

/-- There is an edge from `u` to `v`. -/
def hasEdge (g : Digraph) (u v : Nat) : Bool := (g.next u).contains v

/-- The number is a node. -/
def hasNode (g : Digraph) (v : Nat) : Bool := g.nodes.contains v

/-- The part of a graph with the given nodes and the edges between them. -/
def restrict (g : Digraph) (keep : List Nat) : Digraph :=
  { order := g.order, nodes := keep,
    successors := g.successors.mapIdx fun v ws =>
      if keep.contains v then ws.filter keep.contains else [] }

/-- The edges as pairs, ordered by source and target. -/
def edges (g : Digraph) : List (Nat × Nat) :=
  g.nodes.flatMap fun v => ((g.next v).mergeSort fun a b => decide (a ≤ b)).map fun w => (v, w)

/-- Collects what can be reached from the pending nodes. -/
def reachFrom (g : Digraph) : (fuel : Nat) → (pending seen : List Nat) → List Nat
  | 0, _, seen => seen
  | _, [], seen => seen
  | fuel + 1, v :: rest, seen =>
    if seen.contains v then reachFrom g fuel rest seen
    else reachFrom g fuel (rest ++ g.next v) (v :: seen)

/-- Bounds the number of nodes that a search looks at. -/
def searchBound (g : Digraph) : Nat := g.successors.foldl (fun n ws => n + ws.length) 0

/-- Which numbers can be reached from the roots that are nodes. -/
def reachable (g : Digraph) (roots : List Nat) : List Bool :=
  let roots := roots.filter g.hasNode
  let seen := g.reachFrom (roots.length + g.searchBound + 1) roots []
  (List.range g.order).map seen.contains

end Digraph

end MisuseSlice
