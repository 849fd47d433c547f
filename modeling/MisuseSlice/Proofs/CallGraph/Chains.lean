import MisuseSlice.CallGraph.Build
import MisuseSlice.CallGraph.Chains
import MisuseSlice.Proofs.Digraph.Ways
import MisuseSlice.Proofs.Folds

/-! Chains of callers. However a graph was made, the callers kept for a node are called by nobody else and none of them is
kept twice. So the chains found from a node are its ways up over callers, each of them once, and a limit leaves the first
ones of them. -/
namespace MisuseSlice.CallGraph

open Ways

variable {g : CallGraph} {n m limit : Nat} {e : CallEdge} {chain path : List Nat} {found : List (List Nat)}

/-- The graphs that adding nodes and edges makes. An edge may name what is no node, and what is said of a node may
change. -/
inductive Built : CallGraph → Prop where
  | empty : Built {}
  | addNode {g : CallGraph} (built : Built g) (sig : String) (isField : Bool) : Built (g.addNode sig isField).2
  | addEdge {g : CallGraph} (built : Built g) (e : CallEdge) : Built (g.addEdge e).1
  | revise {g : CallGraph} (built : Built g) (nodes : List CallNode) (same : nodes.length = g.nodes.length) :
      Built { g with nodes }

/-- The signatures have nodes, and the callers kept for a node are sources of its edges that know of it. -/
structure Sound (g : CallGraph) : Prop where
  numbered : ∀ (sig : String) (n : Nat), g.number? sig = some n → n < g.nodes.length
  sizes : g.callees.length = g.nodes.length ∧ g.callers.length = g.nodes.length
  called : ∀ n, ∀ m ∈ g.callersOf n, n ∈ g.calleesOf m
  recorded : ∀ n, ∀ m ∈ g.callersOf n, g.hasEdge ⟨m, n, true⟩ = true
  nodup : ∀ n, (g.callersOf n).Nodup

/-- A chain of callers of a node. Each node on it calls the one before, none comes twice, and it goes on no further: every
caller of the last one is on it. -/
structure IsCallerChain (g : CallGraph) (n : Nat) (chain : List Nat) : Prop where
  starts : chain.head? = some n
  linked : chain.IsChain fun callee caller => caller ∈ g.callersOf callee
  simple : chain.Nodup
  topped : ∀ top, chain.getLast? = some top → ∀ caller ∈ g.callersOf top, caller ∈ chain

/-! ### What adding keeps -/

theorem Sound.empty : Sound {} := by
  refine ⟨fun sig n found => ?_, ⟨rfl, rfl⟩, nofun, nofun, fun _ => List.nodup_nil⟩
  simp [number?] at found

theorem Sound.addNode (sound : g.Sound) (sig : String) (isField : Bool) : (g.addNode sig isField).2.Sound := by
  unfold CallGraph.addNode
  split
  · exact sound
  · refine ⟨fun sig' n found => ?_, ?_, fun n m => ?_, fun n m => ?_, fun n => ?_⟩
    · simp only [number?, Std.TreeMap.getElem?_insert] at found
      rw [List.length_append, List.length_singleton]
      split at found
      · obtain rfl := Option.some.inj found
        exact Nat.lt_succ_self _
      · exact Nat.lt_succ_of_lt (sound.numbered sig' n found)
    · simp [sound.sizes]
    · simpa only [callersOf, calleesOf, getD_concat_default] using sound.called n m
    · simpa only [callersOf, hasEdge, getD_concat_default] using sound.recorded n m
    · simpa only [callersOf, getD_concat_default] using sound.nodup n

/-- A new edge is recorded. Its source is told of a call, and then its target, as far as they are nodes. -/
theorem addEdge_new (new : g.hasEdge e ≠ true) : ∃ callees callers neighbors,
    (g.addEdge e).1 = { g with edges := g.edges ++ [e], callees, callers, neighbors } ∧
      (callees = g.callees ∧ callers = g.callers ∨
        callees = append g.callees e.source e.target ∧ (callers = g.callers ∨
          e.isCall = true ∧ e.source < g.nodes.length ∧ e.target < g.nodes.length ∧
            callers = append g.callers e.target e.source)) := by
  unfold CallGraph.addEdge
  rw [if_neg new]
  dsimp only
  split
  · exact ⟨_, _, _, rfl, .inl ⟨rfl, rfl⟩⟩
  rename_i source
  split
  · rename_i call
    split
    · exact ⟨_, _, _, rfl, .inr ⟨rfl, .inl rfl⟩⟩
    · rename_i target
      exact ⟨_, _, _, rfl, .inr ⟨rfl, .inr ⟨call, Nat.lt_of_not_le source, Nat.lt_of_not_le target, rfl⟩⟩⟩
  · split <;> exact ⟨_, _, _, rfl, .inl ⟨rfl, rfl⟩⟩

/-- Graphs that differ in edges and callees only, of which none is missing. -/
theorem Sound.grow (sound : g.Sound) (edges : List CallEdge) (callees neighbors : List (List Nat))
    (sizes : callees.length = g.nodes.length) (told : ∀ n, ∀ m ∈ g.calleesOf n, m ∈ callees.getD n [])
    (grown : ∀ e' ∈ g.edges, e' ∈ edges) : Sound { g with edges, callees, neighbors } where
  numbered := sound.numbered
  sizes := ⟨sizes, sound.sizes.2⟩
  called n m caller := told m n (sound.called n m caller)
  recorded n m caller :=
    List.contains_iff_mem.mpr (grown _ (List.contains_iff_mem.mp (sound.recorded n m caller)))
  nodup := sound.nodup

/-- A call between nodes makes its source a caller of its target, if the graph knows of it. -/
theorem Sound.call (sound : g.Sound) {source target : Nat} (known : g.hasEdge ⟨source, target, true⟩ = true)
    (told : target ∈ g.calleesOf source) (fresh : source ∉ g.callersOf target) (inside : target < g.nodes.length) :
    Sound { g with callers := append g.callers target source } := by
  have callers : ∀ n, (append g.callers target source).getD n [] =
      g.callersOf n ++ if n = target then [source] else [] := by
    intro n
    rw [append, getD_modify_concat, callersOf]
    simp only [sound.sizes.2, inside, and_true]
  have member : ∀ n, ∀ m ∈ (append g.callers target source).getD n [],
      m ∈ g.callersOf n ∨ (m = source ∧ n = target) := by
    intro n m caller
    rw [callers, List.mem_append] at caller
    refine caller.imp_right fun last => ?_
    split at last
    · rename_i same
      exact ⟨List.mem_singleton.mp last, same⟩
    · cases last
  refine ⟨sound.numbered, ⟨sound.sizes.1, by simp [append, sound.sizes]⟩, fun n m caller => ?_,
    fun n m caller => ?_, fun n => ?_⟩
  · rcases member n m caller with old | ⟨rfl, rfl⟩
    · exact sound.called n m old
    · exact told
  · rcases member n m caller with old | ⟨rfl, rfl⟩
    · exact sound.recorded n m old
    · exact known
  · rw [callersOf, callers]
    split
    · rename_i same
      subst same
      exact List.nodup_append.mpr ⟨sound.nodup n, List.nodup_singleton _, fun a old b last same =>
        fresh (List.mem_singleton.mp last ▸ same ▸ old)⟩
    · rw [List.append_nil]
      exact sound.nodup n

theorem Sound.addEdge (sound : g.Sound) (e : CallEdge) : (g.addEdge e).1.Sound := by
  by_cases known : g.hasEdge e = true
  · have same : (g.addEdge e).1 = g := by simp only [CallGraph.addEdge, known, if_true]
    rwa [same]
  obtain ⟨source, target, isCall⟩ := e
  obtain ⟨callees, callers, neighbors, same, told⟩ := addEdge_new known
  have grown : ∀ e' ∈ g.edges, e' ∈ g.edges ++ [(⟨source, target, isCall⟩ : CallEdge)] :=
    fun e' old => List.mem_append_left _ old
  have size : (append g.callees source target).length = g.nodes.length := by simp [append, sound.sizes]
  have kept : ∀ n, ∀ m ∈ g.calleesOf n, m ∈ (append g.callees source target).getD n [] := by
    intro n m callee
    rw [append, getD_modify_concat]
    exact List.mem_append_left _ callee
  rw [same]
  rcases told with ⟨rfl, rfl⟩ | ⟨rfl, rfl | ⟨rfl, inside, inside', rfl⟩⟩
  · exact sound.grow _ _ _ sound.sizes.1 (fun _ _ callee => callee) grown
  · exact sound.grow _ _ _ size kept grown
  · refine (sound.grow _ _ neighbors size kept grown).call (List.contains_iff_mem.mpr (by simp)) ?_
      (fun old => known (sound.recorded target source old)) inside'
    simp only [calleesOf]
    rw [append, getD_modify_concat, if_pos ⟨rfl, sound.sizes.1 ▸ inside⟩]
    exact List.mem_append_right _ (List.mem_singleton_self _)

theorem Built.sound (built : g.Built) : g.Sound := by
  induction built with
  | empty => exact .empty
  | addNode _ sig isField ih => exact ih.addNode sig isField
  | addEdge _ e ih => exact ih.addEdge e
  | revise _ nodes same ih =>
    exact ⟨fun sig n found => same ▸ ih.numbered sig n found, same ▸ ih.sizes, ih.called, ih.recorded, ih.nodup⟩

theorem Built.link (built : g.Built) (n : Nat) (sig : String) (isCall : Bool) : (g.link n sig isCall).Built :=
  (built.addNode sig !isCall).addEdge _

theorem commit_built {b : CallModel} (built : b.graph.Built) (sig : String) (concrete : Bool) (scan : MethodScan) :
    (b.commit sig concrete scan).graph.Built := by
  have node : (if concrete then (b.graph.addNode sig false).2.markConcrete (b.graph.addNode sig false).1
      else (b.graph.addNode sig false).2).Built := by
    split
    · exact (built.addNode sig false).revise _ (List.length_modify ..)
    · exact built.addNode sig false
  refine List.foldlRecOn _ _ (motive := Built) (List.foldlRecOn _ _ (motive := Built) node ?_) ?_
  · exact fun g built callee _ => built.link _ callee true
  · exact fun g built field _ => built.link _ field false

theorem addMethod_built {b : CallModel} (built : b.graph.Built) (p : Provider) (m : Method) :
    (b.addMethod p m).graph.Built := by
  unfold CallModel.addMethod
  split
  · exact commit_built built _ _ _
  · exact built

theorem addClass_built {b : CallModel} (built : b.graph.Built) (p : Provider) (name : String) :
    (b.addClass p name).graph.Built := by
  unfold CallModel.addClass
  split
  · exact built
  · exact List.foldlRecOn _ _ (motive := fun b : CallModel => b.graph.Built) built fun _ built m _ =>
      addMethod_built built p m

/-- The call graph of a program is made so. -/
theorem ofProvider_built (p : Provider) : (CallModel.ofProvider p).graph.Built := by
  have pass : (p.declaredClasses.foldl (CallModel.addClass p) {}).graph.Built :=
    List.foldlRecOn _ _ (motive := fun b : CallModel => b.graph.Built) .empty fun _ built name _ =>
      addClass_built built p name
  exact pass.revise _ (List.length_map _)

theorem Sound.caller_lt (sound : g.Sound) (caller : m ∈ g.callersOf n) : m < g.nodes.length := by
  have called := sound.called n m caller
  rw [calleesOf, List.getD_eq_getElem?_getD] at called
  by_contra outside
  rw [List.getElem?_eq_none (by rw [sound.sizes.1]; omega)] at called
  cases called

/-! ### The search -/

theorem isFull_iff : isFull limit found = true ↔ Reached limit found := by
  simp [isFull, Reached]

/-- The search that stops at a limit adds to what was found the chains that go on from a path, up to the limit. -/
theorem extendChain_eq (g : CallGraph) (limit fuel : Nat) (path : List Nat) (n : Nat) (within : Within limit found)
    (room : ¬Reached limit found) :
    g.extendChain limit fuel path n found =
      upTo limit (found ++ (full g.callersOf fuel (n :: path.reverse)).map List.reverse) := by
  induction fuel generalizing path n found with
  | zero => rw [extendChain, full, List.map_nil, List.append_nil, within.upTo_eq]
  | succ fuel ih =>
    have turned : (path ++ [n]).reverse = n :: path.reverse := by rw [List.reverse_append]; rfl
    have more : (g.callersOf n).filter (!(path ++ [n]).contains ·) = onward g.callersOf (n :: path.reverse) := by
      refine List.filter_congr fun c _ => ?_
      rw [← turned, List.contains_reverse]
    unfold extendChain full
    dsimp only
    rw [more]
    split
    · rw [List.map_singleton, ← turned, List.reverse_reverse, upTo_append_singleton within, if_neg room]
    · rw [List.map_flatMap]
      refine foldl_upTo id (fun c _ found within => ?_) within
      dsimp only [id] at within ⊢
      split
      · rename_i reached
        exact ((isFull_iff.mp reached).upTo_append within _).symm
      · rename_i below
        rw [ih _ c within (mt isFull_iff.mpr below), turned]

theorem callerChains_eq (g : CallGraph) (n limit : Nat) :
    g.callerChains n limit = upTo limit ((full g.callersOf (g.nodes.length + 1) [n]).map List.reverse) := by
  refine extendChain_eq g limit _ [] n (.nil limit) fun reached => ?_
  exact reached.1 (Nat.le_zero.mp reached.2)

/-- A chain is a way up to its last node, read from below. -/
theorem isCallerChain_iff :
    g.IsCallerChain n chain ↔
      IsWay g.callersOf chain.reverse ∧ [n] <:+ chain.reverse ∧ onward g.callersOf chain.reverse = [] := by
  have starts : [n] <:+ chain.reverse ↔ chain.head? = some n := by
    rw [← List.reverse_singleton, List.reverse_suffix]
    cases chain with
    | nil => simp
    | cons a rest => simp [eq_comm]
  have linked : chain.reverse.IsChain (fun above below => above ∈ g.callersOf below) ↔
      chain.IsChain fun callee caller => caller ∈ g.callersOf callee := List.isChain_reverse
  have topped : onward g.callersOf chain.reverse = [] ↔
      ∀ top, chain.getLast? = some top → ∀ caller ∈ g.callersOf top, caller ∈ chain := by
    rw [List.eq_nil_iff_forall_not_mem]
    simp only [mem_onward, List.head?_reverse, List.mem_reverse, not_and, not_not]
    exact ⟨fun closed top last caller above => closed caller ⟨top, last, above⟩,
      fun closed caller ⟨top, last, above⟩ => closed top last caller above⟩
  rw [starts, topped]
  constructor
  · intro isChain
    exact ⟨⟨linked.mpr isChain.linked, List.nodup_reverse.mpr isChain.simple⟩, isChain.starts, isChain.topped⟩
  · rintro ⟨isWay, first, closed⟩
    exact ⟨first, linked.mp isWay.linked, List.nodup_reverse.mp isWay.simple, closed⟩

theorem Sound.mem_callerChains (sound : g.Sound) (node : n < g.nodes.length) :
    chain ∈ g.callerChains n 0 ↔ g.IsCallerChain n chain := by
  rw [callerChains_eq, upTo, if_pos rfl, isCallerChain_iff]
  have found : chain ∈ (full g.callersOf (g.nodes.length + 1) [n]).map List.reverse ↔
      chain.reverse ∈ full g.callersOf (g.nodes.length + 1) [n] := by
    rw [List.mem_map]
    constructor
    · rintro ⟨way, member, rfl⟩
      rwa [List.reverse_reverse]
    · exact fun member => ⟨_, member, chain.reverse_reverse⟩
  rw [found]
  refine mem_full (fun n c caller => sound.caller_lt caller) (List.cons_ne_nil _ _)
    ⟨.singleton n, List.nodup_singleton n⟩ (List.forall_mem_singleton.mpr node) ?_
  rw [List.length_singleton]
  omega

/-- Without a limit the chains of callers of a node are found, each of them once; a limit leaves the first ones. -/
theorem callerChains_exact (built : g.Built) (node : n < g.nodes.length) :
    (∀ chain, chain ∈ g.callerChains n 0 ↔ g.IsCallerChain n chain) ∧ (g.callerChains n 0).Nodup ∧
      ∀ limit, 0 < limit → g.callerChains n limit <+: g.callerChains n 0 ∧
        (g.callerChains n limit).length = min limit (g.callerChains n 0).length := by
  refine ⟨fun chain => built.sound.mem_callerChains node, ?_, fun limit some => ?_⟩
  · rw [callerChains_eq, upTo, if_pos rfl]
    exact (nodup_full built.sound.nodup).map List.reverse_injective
  · have first : g.callerChains n limit = (g.callerChains n 0).take limit := by
      rw [callerChains_eq, callerChains_eq, upTo, upTo, if_neg some.ne', if_pos rfl]
    rw [first]
    exact ⟨List.take_prefix _ _, List.length_take⟩

/-- Two methods that call each other, and a third one that calls both. -/
def reciprocal : CallGraph :=
  let methods := ((((({} : CallGraph).addNode "a" false).2).addNode "b" false).2.addNode "c" false).2
  [(0, 1), (1, 0), (2, 0), (2, 1)].foldl (fun g e => (g.addEdge ⟨e.1, e.2, true⟩).1) methods

theorem reciprocal_built : reciprocal.Built := by
  have methods := ((Built.empty.addNode "a" false).addNode "b" false).addNode "c" false
  exact (((methods.addEdge _).addEdge _).addEdge _).addEdge _

theorem reciprocal_chains :
    reciprocal.Built ∧ 0 < reciprocal.nodes.length ∧ reciprocal.callerChains 0 0 = [[0, 1, 2], [0, 2]] ∧
      (∀ chain, chain ∈ reciprocal.callerChains 0 0 ↔ reciprocal.IsCallerChain 0 chain) ∧
      (reciprocal.callerChains 0 0).Nodup ∧
      ∀ limit, 0 < limit → reciprocal.callerChains 0 limit <+: reciprocal.callerChains 0 0 ∧
        (reciprocal.callerChains 0 limit).length = min limit (reciprocal.callerChains 0 0).length :=
  have node : 0 < reciprocal.nodes.length := by decide +kernel
  ⟨reciprocal_built, node, by decide +kernel, callerChains_exact reciprocal_built node⟩

end MisuseSlice.CallGraph
