import Mathlib
import MisuseSlice.CallGraph.Basic
import MisuseSlice.Proofs.Folds

/-! Growing a call graph. Nodes are only added at the end and edges never leave, so a node or an edge once made
keeps its number; the lists of callees, callers and neighbors say what the edges say. -/
namespace MisuseSlice.CallGraph

variable {g : CallGraph} {sig a b : String} {n m k : Nat} {isCall isField : Bool} {e : CallEdge}

/-- The numbers of a graph are those of its nodes, and its lists of neighbors follow its edges. -/
structure WellFormed (g : CallGraph) : Prop where
  numbered : ∀ sig n, g.number? sig = some n ↔ ∃ c, g.nodes[n]? = some c ∧ c.signature = sig
  inside : ∀ e ∈ g.edges, e.source < g.nodes.length ∧ e.target < g.nodes.length
  sizes : g.callees.length = g.nodes.length ∧ g.callers.length = g.nodes.length ∧
    g.neighbors.length = g.nodes.length
  callees : ∀ n m, m ∈ g.calleesOf n ↔ ⟨n, m, true⟩ ∈ g.edges
  callers : ∀ n m, m ∈ g.callersOf n ↔ ⟨m, n, true⟩ ∈ g.edges
  neighbors : ∀ n m, m ∈ g.neighborsOf n ↔ ⟨n, m, false⟩ ∈ g.edges ∨ ⟨m, n, false⟩ ∈ g.edges

/-- An edge joins the nodes of two signatures: a call, or an access of a method to a field. -/
def Joins (g : CallGraph) (isCall : Bool) (a b : String) : Prop :=
  ∃ n m, g.number? a = some n ∧ g.number? b = some m ∧ g.hasEdge ⟨n, m, isCall⟩ = true

/-- The node of the signature is that of a method with a body. -/
def IsConcrete (g : CallGraph) (sig : String) : Prop := ∃ c ∈ g.nodes, c.signature = sig ∧ c.isConcrete = true

theorem WellFormed.empty : WellFormed {} where
  numbered sig n := by simp [number?]
  inside e member := nomatch member
  sizes := ⟨rfl, rfl, rfl⟩
  callees n m := by simp [calleesOf]
  callers n m := by simp [callersOf]
  neighbors n m := by simp [neighborsOf]

theorem WellFormed.lt_size (wf : g.WellFormed) (found : g.number? sig = some n) : n < g.nodes.length := by
  obtain ⟨c, here, _⟩ := (wf.numbered sig n).mp found
  exact (List.getElem?_eq_some_iff.mp here).1

/-- A signature has one node. -/
theorem WellFormed.number?_inj (wf : g.WellFormed) (first : g.number? a = some n) (second : g.number? b = some n) :
    a = b := by
  obtain ⟨c, here, rfl⟩ := (wf.numbered a n).mp first
  obtain ⟨d, there, rfl⟩ := (wf.numbered b n).mp second
  rw [here] at there
  cases there
  rfl

theorem WellFormed.number?_signature (wf : g.WellFormed) {c : CallNode} (here : g.nodes[n]? = some c) :
    g.number? c.signature = some n :=
  (wf.numbered c.signature n).mpr ⟨c, here, rfl⟩

/-! ### A new node -/

theorem addNode_of_some (found : g.number? sig = some n) : g.addNode sig isField = (n, g) := by
  simp only [addNode, found]

theorem number?_addNode (s : String) :
    (g.addNode sig isField).2.number? s = if s = sig then some (g.addNode sig isField).1 else g.number? s := by
  cases found : g.number? sig with
  | some k =>
    rw [addNode_of_some found]
    split
    · rename_i same
      rw [same, found]
    · rfl
  | none =>
    simp only [addNode, found]
    simp only [number?, Std.TreeMap.getElem?_insert, Std.compare_eq_iff_eq]
    simp only [eq_comm]

theorem number?_addNode_self : (g.addNode sig isField).2.number? sig = some (g.addNode sig isField).1 := by
  rw [number?_addNode, if_pos rfl]

theorem edges_addNode : (g.addNode sig isField).2.edges = g.edges := by
  cases found : g.number? sig with
  | some k => rw [addNode_of_some found]
  | none => simp only [addNode, found]

/-- A node that is known stays what it is. -/
theorem number?_addNode_of_some (found : g.number? a = some n) : (g.addNode sig isField).2.number? a = some n := by
  rw [number?_addNode]
  split
  · rename_i same
    rw [same] at found
    rw [addNode_of_some found]
  · exact found

theorem WellFormed.addNode (wf : g.WellFormed) : (g.addNode sig isField).2.WellFormed := by
  cases found : g.number? sig with
  | some k =>
    rw [addNode_of_some found]
    exact wf
  | none =>
    have new : (g.addNode sig isField).2 = { g with
        nodes := g.nodes ++ [{ signature := sig, isField }], numbers := g.numbers.insert sig g.nodes.length
        callees := g.callees ++ [[]], callers := g.callers ++ [[]], neighbors := g.neighbors ++ [[]] } := by
      simp only [CallGraph.addNode, found]
    have number := @number?_addNode g sig isField
    have first : (g.addNode sig isField).1 = g.nodes.length := by simp only [CallGraph.addNode, found]
    rw [first, new] at number
    rw [new]
    refine ⟨fun s n => ?_, fun e member => ?_, ?_, fun n m => ?_, fun n m => ?_, fun n m => ?_⟩
    · rw [number]
      rcases Nat.lt_trichotomy n g.nodes.length with below | rfl | above
      · rw [List.getElem?_append_left below]
        by_cases same : s = sig
        · subst same
          rw [if_pos rfl]
          refine ⟨fun h => absurd (Option.some.inj h) below.ne', fun h => ?_⟩
          exact absurd ((wf.numbered s n).mpr h) (by simp [found])
        · rw [if_neg same]
          exact wf.numbered s n
      · by_cases same : s = sig
        · simp [same]
        · have fresh : g.number? s ≠ some g.nodes.length := fun h => (wf.lt_size h).ne rfl
          simp [same, fresh, Ne.symm same]
      · have gone : (g.nodes ++ [({ signature := sig, isField } : CallNode)])[n]? = none :=
          List.getElem?_eq_none (by simp; omega)
        have fresh : g.number? s ≠ some n := fun h => absurd (wf.lt_size h) above.asymm
        rw [gone]
        by_cases same : s = sig <;> simp [same, fresh, above.ne]
    · have bound := wf.inside e member
      simp only [List.length_append, List.length_singleton]
      omega
    · simp [wf.sizes]
    · simpa only [calleesOf, getD_concat_default] using wf.callees n m
    · simpa only [callersOf, getD_concat_default] using wf.callers n m
    · simpa only [neighborsOf, getD_concat_default] using wf.neighbors n m

/-- A new node brings no edge. -/
theorem joins_addNode (wf : g.WellFormed) : (g.addNode sig isField).2.Joins isCall a b ↔ g.Joins isCall a b := by
  simp only [Joins, hasEdge, edges_addNode]
  constructor
  · rintro ⟨n, m, source, target, edge⟩
    obtain ⟨below, below'⟩ := wf.inside _ (List.contains_iff_mem.mp edge)
    have old : ∀ {s k}, k < g.nodes.length → (g.addNode sig isField).2.number? s = some k → g.number? s = some k := by
      intro s k below found
      obtain ⟨c, here⟩ : ∃ c, g.nodes[k]? = some c := ⟨_, List.getElem?_eq_getElem below⟩
      have known : (g.addNode sig isField).2.number? _ = _ := number?_addNode_of_some (wf.number?_signature here)
      rw [wf.addNode.number?_inj found known]
      exact wf.number?_signature here
    exact ⟨n, m, old below source, old below' target, edge⟩
  · rintro ⟨n, m, source, target, edge⟩
    exact ⟨n, m, number?_addNode_of_some source, number?_addNode_of_some target, edge⟩

/-- A new node has no body yet. -/
theorem isConcrete_addNode : (g.addNode sig isField).2.IsConcrete a ↔ g.IsConcrete a := by
  cases found : g.number? sig with
  | some k => rw [addNode_of_some found]
  | none =>
    simp only [addNode, found, IsConcrete, List.mem_append, List.mem_singleton]
    constructor
    · rintro ⟨c, old | rfl, same, concrete⟩
      · exact ⟨c, old, same, concrete⟩
      · cases concrete
    · rintro ⟨c, old, rest⟩
      exact ⟨c, .inl old, rest⟩

/-! ### A new edge -/

private theorem mem_getD_append {xs : List (List Nat)} {i x : Nat} (inside : i < xs.length) :
    m ∈ (append xs i x).getD n [] ↔ m ∈ xs.getD n [] ∨ (n = i ∧ m = x) := by
  rw [append, getD_modify_concat, List.mem_append]
  simp [inside, and_comm]

/-- Adding an edge between nodes records it once, and tells both ends. -/
theorem addEdge_spec (wf : g.WellFormed) (source : e.source < g.nodes.length) (target : e.target < g.nodes.length) :
    (g.addEdge e).1.WellFormed ∧ (g.addEdge e).1.nodes = g.nodes ∧ (g.addEdge e).1.numbers = g.numbers ∧
      ∀ e', e' ∈ (g.addEdge e).1.edges ↔ e' ∈ g.edges ∨ e' = e := by
  by_cases known : g.hasEdge e = true
  · have same : g.addEdge e = (g, true) := by simp only [addEdge, known, if_true]
    rw [same]
    refine ⟨wf, rfl, rfl, fun e' => ⟨.inl, ?_⟩⟩
    rintro (old | rfl)
    · exact old
    · exact List.contains_iff_mem.mp known
  obtain ⟨s, t, isCall⟩ := e
  have edges : ∀ e', e' ∈ g.edges ++ [⟨s, t, isCall⟩] ↔ e' ∈ g.edges ∨ e' = ⟨s, t, isCall⟩ := by simp
  have inside : ∀ e ∈ g.edges ++ [⟨s, t, isCall⟩], e.source < g.nodes.length ∧ e.target < g.nodes.length := by
    intro e member
    rcases (edges e).mp member with old | rfl
    · exact wf.inside e old
    · exact ⟨source, target⟩
  obtain ⟨sizeCallees, sizeCallers, sizeNeighbors⟩ := wf.sizes
  cases isCall with
  | true =>
    have new : (g.addEdge ⟨s, t, true⟩).1 = { g with
        edges := g.edges ++ [⟨s, t, true⟩], callees := append g.callees s t, callers := append g.callers t s } := by
      simp [addEdge, known, source.not_ge, target.not_ge]
    rw [new]
    refine ⟨⟨wf.numbered, inside, ?_, fun n m => ?_, fun n m => ?_, fun n m => ?_⟩, rfl, rfl, edges⟩
    · simp [append, wf.sizes]
    · simp only [calleesOf, mem_getD_append (source.trans_eq sizeCallees.symm), edges]
      simp [← wf.callees n m, calleesOf]
    · simp only [callersOf, mem_getD_append (target.trans_eq sizeCallers.symm), edges]
      simp [← wf.callers n m, callersOf, and_comm]
    · simp only [edges, CallEdge.mk.injEq, Bool.false_eq_true, and_false, or_false]
      exact wf.neighbors n m
  | false =>
    have new : (g.addEdge ⟨s, t, false⟩).1 = { g with
        edges := g.edges ++ [⟨s, t, false⟩], neighbors := append (append g.neighbors s t) t s } := by
      simp [addEdge, known, source.not_ge, target.not_ge]
    rw [new]
    refine ⟨⟨wf.numbered, inside, ?_, fun n m => ?_, fun n m => ?_, fun n m => ?_⟩, rfl, rfl, edges⟩
    · simp [append, wf.sizes]
    · simp only [edges, CallEdge.mk.injEq, Bool.true_eq_false, and_false, or_false]
      exact wf.callees n m
    · simp only [edges, CallEdge.mk.injEq, Bool.true_eq_false, and_false, or_false]
      exact wf.callers n m
    · have size : t < (append g.neighbors s t).length := by simpa [append] using target.trans_eq sizeNeighbors.symm
      simp only [neighborsOf, mem_getD_append size, mem_getD_append (source.trans_eq sizeNeighbors.symm), edges,
        CallEdge.mk.injEq, and_true]
      rw [← neighborsOf, wf.neighbors n m]
      tauto

/-- Linking a node to a signature adds one edge and changes nothing else between known nodes. -/
theorem link_spec (b : String) (isCall : Bool) (wf : g.WellFormed) (found : g.number? sig = some n) :
    (g.link n b isCall).WellFormed ∧ (g.link n b isCall).number? sig = some n ∧
      (∀ a, (g.link n b isCall).IsConcrete a ↔ g.IsConcrete a) ∧
      ∀ k a c, (g.link n b isCall).Joins k a c ↔ g.Joins k a c ∨ (k = isCall ∧ a = sig ∧ c = b) := by
  have there := @number?_addNode_self g b (!isCall)
  have here : (g.addNode b !isCall).2.number? sig = some n := number?_addNode_of_some found
  have wf' : (g.addNode b !isCall).2.WellFormed := wf.addNode
  obtain ⟨whole, nodes, numbers, edges⟩ := addEdge_spec (e := ⟨n, (g.addNode b !isCall).1, isCall⟩) wf'
    (wf'.lt_size here) (wf'.lt_size there)
  have number : ∀ s, (g.link n b isCall).number? s = (g.addNode b !isCall).2.number? s := by
    intro s
    simp only [link, number?, numbers]
  refine ⟨whole, (number sig).trans here, fun a => ?_, fun k a c => ?_⟩
  · rw [← @isConcrete_addNode g b _ (!isCall)]
    simp only [IsConcrete, link, nodes]
  · rw [← @joins_addNode g b _ _ _ (!isCall) wf]
    simp only [Joins, number, hasEdge, List.contains_iff_mem]
    simp only [link, edges, CallEdge.mk.injEq]
    constructor
    · rintro ⟨i, j, source, target, old | ⟨rfl, rfl, rfl⟩⟩
      · exact .inl ⟨i, j, source, target, old⟩
      · exact .inr ⟨rfl, wf'.number?_inj source here, wf'.number?_inj target there⟩
    · rintro (⟨i, j, source, target, old⟩ | ⟨rfl, rfl, rfl⟩)
      · exact ⟨i, j, source, target, .inl old⟩
      · exact ⟨n, _, here, there, .inr ⟨rfl, rfl, rfl⟩⟩

/-- Linking a node to several signatures. -/
theorem foldl_link_spec (sigs : List String) (isCall : Bool) (wf : g.WellFormed) (found : g.number? sig = some n) :
    (sigs.foldl (fun g b => g.link n b isCall) g).WellFormed ∧
      (sigs.foldl (fun g b => g.link n b isCall) g).number? sig = some n ∧
      (∀ a, (sigs.foldl (fun g b => g.link n b isCall) g).IsConcrete a ↔ g.IsConcrete a) ∧
      ∀ k a c, (sigs.foldl (fun g b => g.link n b isCall) g).Joins k a c ↔
        g.Joins k a c ∨ (k = isCall ∧ a = sig ∧ c ∈ sigs) := by
  induction sigs generalizing g with
  | nil => exact ⟨wf, found, fun _ => Iff.rfl, fun k a c => by simp⟩
  | cons b sigs ih =>
    obtain ⟨wf', found', concrete', joins'⟩ := link_spec b isCall wf found
    obtain ⟨whole, number, concrete, joins⟩ := ih wf' found'
    refine ⟨whole, number, fun a => (concrete a).trans (concrete' a), fun k a c => ?_⟩
    rw [List.foldl_cons, joins, joins', List.mem_cons]
    tauto

/-! ### Methods with a body -/

/-- Noting that a body is available changes no edge. -/
theorem markConcrete_spec (wf : g.WellFormed) (found : g.number? sig = some n) :
    (g.markConcrete n).WellFormed ∧ (g.markConcrete n).number? sig = some n ∧
      (∀ a, (g.markConcrete n).IsConcrete a ↔ g.IsConcrete a ∨ a = sig) ∧
      ∀ k a c, (g.markConcrete n).Joins k a c ↔ g.Joins k a c := by
  have size : (g.markConcrete n).nodes.length = g.nodes.length := by simp [markConcrete]
  have node : ∀ i, (g.markConcrete n).nodes[i]? =
      g.nodes[i]?.map fun c => if n = i then { c with isConcrete := true } else c := by
    intro i
    simp only [markConcrete, List.getElem?_modify]
    cases g.nodes[i]? <;> rfl
  refine ⟨⟨fun s i => ?_, fun e member => ?_, ?_, wf.callees, wf.callers, wf.neighbors⟩, found, fun a => ?_,
    fun k a c => Iff.rfl⟩
  · rw [show (g.markConcrete n).number? s = g.number? s from rfl, wf.numbered s i, node]
    cases g.nodes[i]? with
    | none => simp
    | some c => by_cases same : n = i <;> simp [same]
  · rw [size]
    exact wf.inside e member
  · rw [size]
    exact wf.sizes
  · obtain ⟨d, here, rfl⟩ := (wf.numbered sig n).mp found
    simp only [IsConcrete, List.mem_iff_getElem?, node]
    constructor
    · rintro ⟨c, ⟨i, at'⟩, rfl, concrete⟩
      obtain ⟨c', there, rfl⟩ := Option.map_eq_some_iff.mp at'
      by_cases same : n = i
      · subst same
        rw [here] at there
        cases there
        exact .inr (by simp)
      · rw [if_neg same] at concrete ⊢
        exact .inl ⟨c', ⟨i, there⟩, rfl, concrete⟩
    · rintro (⟨c, ⟨i, there⟩, rfl, concrete⟩ | rfl)
      · refine ⟨_, ⟨i, by rw [there]; rfl⟩, ?_, ?_⟩ <;> split <;> simp [concrete]
      · exact ⟨_, ⟨n, by rw [here]; rfl⟩, by simp, by simp⟩

end MisuseSlice.CallGraph
