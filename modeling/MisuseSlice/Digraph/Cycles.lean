import MisuseSlice.Digraph.Components

/-!
Elementary cycles. The search looks for cycles through the least node of each component of at least two
nodes, and blocks a node from which the start cannot be reached without crossing the current path. It
then goes on with the nodes after the one looked at last. A cycle is given by its nodes with the first
one repeated at the end.
-/
namespace MisuseSlice.Digraph

/-- The state of a search for cycles. -/
structure CycleSearch where
  blocked : List Nat := []
  /-- For each node, the nodes to unblock with it. -/
  waiting : List (Nat × Nat) := []
  found : List (List Nat) := []

namespace CycleSearch

/-- Unblocks a node and the blocked nodes that wait for it. -/
def unblock : (fuel : Nat) → Nat → CycleSearch → CycleSearch
  | 0, _, s => s
  | fuel + 1, u, s =>
    let s := { s with blocked := s.blocked.filter (· != u) }
    let ws := (s.waiting.filter (·.1 == u)).map (·.2)
    ws.foldl (fun s w => if s.blocked.contains w then unblock fuel w s else s) s

/-- Lets `v` wait for each of the given nodes. -/
def await (s : CycleSearch) (v : Nat) (ws : List Nat) : CycleSearch :=
  ws.foldl (fun s w =>
    if s.waiting.contains (w, v) then s else { s with waiting := s.waiting ++ [(w, v)] }) s

end CycleSearch

/-- Extends the path by `v` and looks for ways back to `start`; tells whether there is one. -/
def circuit (g : Digraph) (start : Nat) :
    (fuel : Nat) → Nat → (path : List Nat) → CycleSearch → Bool × CycleSearch
  | 0, _, _, s => (false, s)
  | fuel + 1, v, path, s =>
    let path := path ++ [v]
    let s := { s with blocked := v :: s.blocked }
    let (closed, s) := (g.next v).foldl (fun (closed, s) w =>
      if w == start then (true, { s with found := s.found ++ [path ++ [w]] })
      else if s.blocked.contains w then (closed, s)
      else
        let (c, s) := circuit g start fuel w path s
        (closed || c, s)) (false, s)
    if closed then (true, s.unblock (g.order + 1) v)
    else (false, s.await v (g.next v))

/-- Looks for the cycles through the least nodes of components among the nodes from index `i` on. -/
def cyclesFrom (g : Digraph) : (fuel i : Nat) → (found : List (List Nat)) → List (List Nat)
  | 0, _, found => found
  | fuel + 1, i, found =>
    if i < g.nodes.length then
      let part := g.restrict (g.nodes.drop i)
      let large := part.components.filter fun c => 2 ≤ c.length
      if large.isEmpty then found
      else
        let (i, found) := large.foldl (fun (_, found) c =>
          let node := (ascending c).headD 0
          let s := (circuit part node (g.order + 1) node [] { found }).2
          (g.nodes.idxOf node + 1, s.found)) (i, found)
        cyclesFrom g fuel i found
    else found

/-- The elementary cycles that the search finds (`FindAllElementaryCycles`). -/
def elementaryCycles (g : Digraph) : List (List Nat) := g.cyclesFrom (g.nodes.length + 1) 0 []

end MisuseSlice.Digraph
