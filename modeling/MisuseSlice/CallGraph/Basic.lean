import Std.Data.TreeMap
import MisuseSlice.Digraph.Cycles
import MisuseSlice.Digraph.Dot
import MisuseSlice.Text.Quoted

/-!
Call graphs. The nodes are methods and fields; a directed edge goes from a caller to a callee, and an
undirected one joins a method to a field that it reads or writes. Nodes are numbered as they come.
-/
namespace MisuseSlice

/-- A method or a field of the program. -/
structure CallNode where
  signature : String
  isField : Bool := false
  /-- The body of the method is available. -/
  isConcrete : Bool := false
  /-- The called method of a super type that this method implements, or empty. -/
  bridge : String := ""
  deriving DecidableEq, Repr, Inhabited

/-- A call, or an access to a field. -/
structure CallEdge where
  source : Nat
  target : Nat
  isCall : Bool
  deriving DecidableEq, Repr

/-- A call graph. -/
structure CallGraph where
  nodes : List CallNode := []
  numbers : Std.TreeMap String Nat := {}
  edges : List CallEdge := []
  /-- The callees, callers and accessed fields of each node, as they come. -/
  callees : List (List Nat) := []
  callers : List (List Nat) := []
  neighbors : List (List Nat) := []

namespace CallGraph

/-- The number of a signature. -/
def number? (g : CallGraph) (sig : String) : Option Nat := g.numbers[sig]?

/-- The node of a signature, made if it is new. -/
def addNode (g : CallGraph) (sig : String) (isField : Bool) : Nat × CallGraph :=
  match g.number? sig with
  | some n => (n, g)
  | none =>
    (g.nodes.length,
      { g with
        nodes := g.nodes ++ [{ signature := sig, isField }]
        numbers := g.numbers.insert sig g.nodes.length
        callees := g.callees ++ [[]], callers := g.callers ++ [[]], neighbors := g.neighbors ++ [[]] })

/-- Adds a number to the list at a place. -/
def append (xs : List (List Nat)) (i n : Nat) : List (List Nat) := xs.modify i (· ++ [n])

/-- The edge is in the graph. -/
def hasEdge (g : CallGraph) (e : CallEdge) : Bool := g.edges.contains e

/-- Adds an edge once. The flag is false where an end of it is no node; the edge then counts as added,
and only the ends up to the missing one know of it. -/
def addEdge (g : CallGraph) (e : CallEdge) : CallGraph × Bool :=
  if g.hasEdge e then (g, true)
  else
    let size := g.nodes.length
    let g := { g with edges := g.edges ++ [e] }
    if size ≤ e.source then (g, false)
    else if e.isCall then
      let g := { g with callees := append g.callees e.source e.target }
      if size ≤ e.target then (g, false)
      else ({ g with callers := append g.callers e.target e.source }, true)
    else
      let g := { g with neighbors := append g.neighbors e.source e.target }
      if size ≤ e.target then (g, false)
      else ({ g with neighbors := append g.neighbors e.target e.source }, true)

/-- Joins node `n` to the node of a signature, made if it is new: to a callee, or to an accessed field. -/
def link (g : CallGraph) (n : Nat) (sig : String) (isCall : Bool) : CallGraph :=
  let (m, g) := g.addNode sig (!isCall)
  (g.addEdge ⟨n, m, isCall⟩).1

/-- Notes that the body of the method at node `n` is available. -/
def markConcrete (g : CallGraph) (n : Nat) : CallGraph :=
  { g with nodes := g.nodes.modify n ({ · with isConcrete := true }) }

/-- The node with a number. -/
def node? (g : CallGraph) (n : Nat) : Option CallNode := g.nodes[n]?

/-- The callers of a node in the order in which they came. -/
def callersOf (g : CallGraph) (n : Nat) : List Nat := g.callers.getD n []

/-- The callees of a node in the order in which they came. -/
def calleesOf (g : CallGraph) (n : Nat) : List Nat := g.callees.getD n []

/-- The fields that a method accesses, or the methods that access a field. -/
def neighborsOf (g : CallGraph) (n : Nat) : List Nat := g.neighbors.getD n []

/-- The signature of a node. -/
def signatureOf (g : CallGraph) (n : Nat) : String :=
  match g.node? n with
  | some c => c.signature
  | none => ""

/-- The signatures of the callers of a method, sorted. -/
def callerSignatures (g : CallGraph) (sig : String) : List String :=
  match g.number? sig with
  | some n => Text.sort ((g.callersOf n).map g.signatureOf)
  | none => []

/-- The signatures of the methods that access a field, sorted. -/
def accessorSignatures (g : CallGraph) (field : String) : List String :=
  match g.number? field with
  | some n => Text.sort ((g.neighborsOf n).map g.signatureOf)
  | none => []

/-- The edges ordered by source and target, a call before an access. -/
def sortedEdges (g : CallGraph) : List CallEdge :=
  g.edges.mergeSort fun a b =>
    decide (a.source < b.source) ||
      (a.source == b.source &&
        (decide (a.target < b.target) || (a.target == b.target && (a.isCall || !b.isCall))))

/-- The graph of the calls alone. -/
def calls (g : CallGraph) : Digraph := .ofTargets g.callees

/-- The label of a node in drawings. -/
def label (g : CallGraph) (n : Nat) : String := Text.quote (g.signatureOf n)

/-- The signatures of the methods in each group of methods that call each other. -/
def recursiveClusters (g : CallGraph) : List (List String) :=
  g.calls.recursiveComponents.map (·.map g.signatureOf)

/-- The signatures of the methods on each elementary cycle of calls. -/
def elementaryCycles (g : CallGraph) : List (List String) :=
  let inner := Digraph.ascending g.calls.recursiveComponents.flatten
  if inner.isEmpty then []
  else ((g.calls.restrict inner).elementaryCycles).map (·.map g.signatureOf)

/-- Which nodes the roots reach over calls. -/
def reachable (g : CallGraph) (roots : List Nat) : List Bool := g.calls.reachable roots

/-- The drawing of the calls. -/
def dot (g : CallGraph) (name : String) : String := g.calls.dot name g.label

end CallGraph

end MisuseSlice
