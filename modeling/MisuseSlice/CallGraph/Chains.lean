import MisuseSlice.CallGraph.Basic

/-!
Chains of callers. A chain starts at a method and goes from each node to one of its callers that is not
on the chain; it ends at a node that has none.
-/
namespace MisuseSlice.CallGraph

/-- The limit on the number of chains is reached; zero is no limit. -/
def isFull (limit : Nat) (found : List (List Nat)) : Bool := limit != 0 && limit ≤ found.length

/-- Extends the path by `n` and adds the chains that go on from it. -/
def extendChain (g : CallGraph) (limit : Nat) :
    (fuel : Nat) → (path : List Nat) → Nat → List (List Nat) → List (List Nat)
  | 0, _, _, found => found
  | fuel + 1, path, n, found =>
    let path := path ++ [n]
    let more := (g.callersOf n).filter (!path.contains ·)
    if more.isEmpty then found ++ [path]
    else
      more.foldl (fun found c =>
        if isFull limit found then found else extendChain g limit fuel path c found) found

/-- The chains of callers of a node, at most `limit` of them unless that is zero. -/
def callerChains (g : CallGraph) (n limit : Nat) : List (List Nat) :=
  g.extendChain limit (g.nodes.length + 1) [] n []

/-- The last nodes of the chains, each once, in the order found. -/
def topCallers (g : CallGraph) (n limit : Nat) : List Nat :=
  (g.callerChains n limit).foldl (fun tops chain =>
    let top := chain.getLastD n
    if tops.contains top then tops else tops ++ [top]) []

end MisuseSlice.CallGraph
