import MisuseSlice.Criterion.Ledger
import MisuseSlice.Proofs.CallGraph.Chains
import MisuseSlice.Proofs.Digraph.Reach
import MisuseSlice.Proofs.Maps
import MisuseSlice.Statement.Build

/-! What the entry points reach. A method is reached exactly if calls lead to it from a method that is an entry point: the
chains of its callers end in methods that call it, so they never tell more than the search from the entry points. A field
has no callers and is the one end of its own chain, so it counts as reached where its class makes it look like an entry
point. -/
namespace MisuseSlice

namespace CallGraph

variable {g : CallGraph} {n m limit : Nat} {chain : List Nat}

/-- The number is that of a method. -/
def IsMethod (g : CallGraph) (n : Nat) : Prop := ∃ c, g.node? n = some c ∧ c.isField = false

/-- The number is that of a field. -/
def IsField (g : CallGraph) (n : Nat) : Prop := ∃ c, g.node? n = some c ∧ c.isField = true

/-- Calls lead from one node to another one. -/
def CallPath (g : CallGraph) : Nat → Nat → Prop := Relation.ReflTransGen fun caller callee => callee ∈ g.calleesOf caller

/-- Calls join methods only. -/
def JoinsMethods (g : CallGraph) : Prop := ∀ n, ∀ m ∈ g.calleesOf n, g.IsMethod n ∧ g.IsMethod m

theorem IsMethod.not_isField (method : g.IsMethod n) : ¬g.IsField n := by
  rintro ⟨c, there, field⟩
  obtain ⟨c', here, plain⟩ := method
  rw [here] at there
  obtain rfl := Option.some.inj there
  rw [plain] at field
  cases field

theorem isMethod_or_isField (inside : n < g.nodes.length) : g.IsMethod n ∨ g.IsField n := by
  have here : g.node? n = some g.nodes[n] := List.getElem?_eq_getElem inside
  cases field : g.nodes[n].isField with
  | false => exact .inl ⟨_, here, field⟩
  | true => exact .inr ⟨_, here, field⟩

theorem IsMethod.lt (method : g.IsMethod n) : n < g.nodes.length := by
  obtain ⟨c, here, _⟩ := method
  exact (List.getElem?_eq_some_iff.mp here).1

theorem calls_reaches : g.calls.Reaches n m ↔ g.CallPath n m := by
  have edges : (fun v w => w ∈ g.calls.next v) = fun caller callee => callee ∈ g.calleesOf caller := by
    funext v w
    simp only [calls, Digraph.ofTargets, Digraph.next, calleesOf, List.getD_eq_getElem?_getD, List.getElem?_map]
    cases g.callees[v]? with
    | none => rfl
    | some ws => simp
  rw [Digraph.Reaches, edges]
  exact Iff.rfl

instance (g : CallGraph) (n : Nat) : Decidable (g.IsMethod n) :=
  decidable_of_iff ((g.node? n).any (!·.isField) = true) (by simp [IsMethod, Option.any_eq_true])

instance (g : CallGraph) (n : Nat) : Decidable (g.IsField n) :=
  decidable_of_iff ((g.node? n).any (·.isField) = true) (by simp [IsField, Option.any_eq_true])

/-- Only nodes have callees. -/
theorem Sound.joinsMethods (sound : g.Sound)
    (joins : ∀ n < g.nodes.length, ∀ m ∈ g.calleesOf n, g.IsMethod n ∧ g.IsMethod m) : g.JoinsMethods := by
  intro n m call
  refine joins n ?_ m call
  by_contra outside
  rw [calleesOf, List.getD_eq_getElem?_getD, List.getElem?_eq_none (by rw [sound.sizes.1]; omega)] at call
  cases call

/-- Whatever calls a method over calls that join methods is a method. -/
theorem JoinsMethods.isMethod (joins : g.JoinsMethods) (method : g.IsMethod m) (path : g.CallPath n m) : g.IsMethod n := by
  rcases Relation.ReflTransGen.cases_head path with rfl | ⟨_, call, _⟩
  · exact method
  · exact (joins n _ call).1

/-- No call leads to a field. -/
theorem JoinsMethods.eq_of_isField (joins : g.JoinsMethods) (field : g.IsField m) (path : g.CallPath n m) : n = m := by
  rcases Relation.ReflTransGen.cases_tail path with same | ⟨k, _, call⟩
  · exact same.symm
  · exact absurd field (joins k m call).2.not_isField

/-- The last one of a chain of callers calls the first one. -/
theorem Sound.path_of_chain (sound : g.Sound) (isChain : g.IsCallerChain n chain) : g.CallPath (chain.getLastD n) n := by
  obtain ⟨rest, rfl⟩ : ∃ rest, chain = n :: rest := by
    have starts := isChain.starts
    cases chain with
    | nil => cases starts
    | cons a rest => exact ⟨rest, by rw [Option.some.inj starts]⟩
  have last : (n :: rest).getLast (List.cons_ne_nil n rest) = (n :: rest).getLastD n := by
    rw [List.getLastD_eq_getLast?, List.getLast?_eq_getLast_of_ne_nil (List.cons_ne_nil n rest), Option.getD_some]
  have up : Relation.ReflTransGen (fun callee caller => caller ∈ g.callersOf callee) n ((n :: rest).getLastD n) :=
    List.relationReflTransGen_of_exists_isChain_cons rest isChain.linked last
  exact Relation.reflTransGen_swap.mp (Relation.ReflTransGen.mono sound.called _ _ up)

theorem mem_topCallers {top : Nat} :
    top ∈ g.topCallers n limit ↔ ∃ chain ∈ g.callerChains n limit, chain.getLastD n = top := by
  have tops : ∀ (chains : List (List Nat)) (acc : List Nat),
      top ∈ chains.foldl (fun tops chain =>
        if tops.contains (chain.getLastD n) then tops else tops ++ [chain.getLastD n]) acc ↔
      top ∈ acc ∨ ∃ chain ∈ chains, chain.getLastD n = top := by
    intro chains
    induction chains with
    | nil => simp
    | cons chain chains ih =>
      intro acc
      rw [List.foldl_cons, ih]
      split
      · rename_i known
        rw [List.contains_iff_mem] at known
        grind
      · grind
  exact (tops _ []).trans (or_iff_right List.not_mem_nil)

/-- The chains of callers of a method end in nodes from which calls lead to it. -/
theorem Sound.path_of_topCaller (sound : g.Sound) (node : n < g.nodes.length) {top : Nat}
    (member : top ∈ g.topCallers n limit) : g.CallPath top n := by
  obtain ⟨chain, found, rfl⟩ := mem_topCallers.mp member
  refine sound.path_of_chain ((sound.mem_callerChains node).mp ?_)
  rw [callerChains_eq] at found ⊢
  rw [upTo] at found
  rw [upTo, if_pos rfl]
  split at found
  · exact found
  · exact List.mem_of_mem_take found

/-- A node without callers is the one end of its chains. -/
theorem topCallers_of_alone (alone : g.callersOf n = []) : g.topCallers n limit = [n] := by
  have chains : g.callerChains n limit = [[n]] := by
    rw [callerChains, extendChain]
    simp [alone]
  rw [topCallers, chains]
  rfl

end CallGraph

namespace Workspace

variable {p : Program} {settings : Settings} {live : Bool} {model : CallModel} {g : CallGraph} {n : Nat} {method : String}

/-- Calls lead to a node from a method that is an entry point. -/
def EntryReaches (p : Program) (g : CallGraph) (n : Nat) : Prop :=
  ∃ e, g.IsMethod e ∧ isEntryPoint p (g.signatureOf e) = true ∧ g.CallPath e n

theorem mem_entryPoints {e : Nat} : e ∈ entryPoints p g ↔ g.IsMethod e ∧ isEntryPoint p (g.signatureOf e) = true := by
  unfold entryPoints CallGraph.IsMethod CallGraph.signatureOf CallGraph.node?
  simp only [List.mem_filterMap, List.mem_mapIdx]
  constructor
  · rintro ⟨_, ⟨i, inside, rfl⟩, found⟩
    split at found
    · rename_i entry
      obtain rfl := Option.some.inj found
      rw [Bool.and_eq_true, Bool.not_eq_true'] at entry
      rw [List.getElem?_eq_getElem inside]
      exact ⟨⟨_, rfl, entry.1⟩, entry.2⟩
    · cases found
  · rintro ⟨⟨c, here, plain⟩, entry⟩
    obtain ⟨inside, rfl⟩ := List.getElem?_eq_some_iff.mp here
    rw [here] at entry
    refine ⟨some e, ⟨e, inside, ?_⟩, rfl⟩
    rw [if_pos (by rw [plain, entry]; rfl)]

/-- The search from the entry points marks what they reach. -/
theorem fromEntries_getD (sound : model.graph.Sound) (node : n < model.graph.nodes.length) :
    (ofModel p settings live model).fromEntries.getD n false = true ↔ EntryReaches p model.graph n := by
  have order : model.graph.calls.order = model.graph.nodes.length := sound.sizes.1
  refine Digraph.reachable_getD.trans ?_
  rw [order]
  constructor
  · rintro ⟨_, e, entry, _, path⟩
    obtain ⟨method, named⟩ := mem_entryPoints.mp entry
    exact ⟨e, method, named, CallGraph.calls_reaches.mp path⟩
  · rintro ⟨e, method, named, path⟩
    have inside : e ∈ model.graph.calls.nodes := List.mem_range.mpr (method.lt.trans_eq order.symm)
    exact ⟨node, e, mem_entryPoints.mpr ⟨method, named⟩, inside, CallGraph.calls_reaches.mpr path⟩

/-- The chains of callers of a method do not change what the search says; a field is reached as its own entry point. -/
theorem isReachable_iff (built : model.graph.Built) (joins : model.graph.JoinsMethods) :
    (ofModel p settings live model).isReachable method = true ↔
      ∃ n, model.graph.number? method = some n ∧ (EntryReaches p model.graph n ∨
        (model.graph.IsField n ∧ isEntryPoint p (model.graph.signatureOf n) = true)) := by
  have graph : (ofModel p settings live model).graph = model.graph := rfl
  have program : (ofModel p settings live model).program = p := rfl
  unfold isReachable
  rw [graph, program]
  split
  · rename_i unknown
    simp [unknown]
  rename_i n found
  have inside := built.sound.numbered method n found
  simp only [found, Option.some.injEq, exists_eq_left', Bool.or_eq_true, fromEntries_getD built.sound inside,
    List.any_eq_true]
  refine or_congr_right' fun unseen => ?_
  rcases CallGraph.isMethod_or_isField inside with isMethod | isField
  · refine iff_of_false ?_ fun field => isMethod.not_isField field.1
    rintro ⟨top, member, entry⟩
    have path := built.sound.path_of_topCaller inside member
    exact unseen ⟨top, joins.isMethod isMethod path, entry, path⟩
  · have alone : model.graph.callersOf n = [] := by
      refine List.eq_nil_iff_forall_not_mem.mpr fun caller calls => ?_
      exact (joins caller n (built.sound.called n caller calls)).2.not_isField isField
    rw [CallGraph.topCallers_of_alone alone]
    simp [isField]

end Workspace

namespace Ledger

variable {w : Workspace} {l : Ledger}

/-- The answers kept are those that would be given now. -/
def Recalls (w : Workspace) (l : Ledger) : Prop :=
  ∀ (method : String) (answer : Bool), l.reached[method]? = some answer → w.isReachable method = answer

theorem isReachable_fst (recalls : Recalls w l) (method : String) : (l.isReachable w method).1 = w.isReachable method := by
  unfold Ledger.isReachable
  split
  · rename_i answer known
    exact (recalls method answer known).symm
  · split
    · rename_i unknown
      rw [Workspace.isReachable, unknown]
    · rfl

theorem Recalls.isReachable (recalls : Recalls w l) (method : String) : Recalls w (l.isReachable w method).2 := by
  unfold Ledger.isReachable
  split
  · exact recalls
  · split
    · exact recalls
    · intro other answer kept
      rcases Maps.getElem?_insert_eq_some.mp kept with ⟨rfl, rfl⟩ | ⟨_, old⟩
      · rfl
      · exact recalls other answer old

theorem recalls_asked (w : Workspace) (asked : List String) :
    Recalls w (asked.foldl (fun l method => (l.isReachable w method).2) {}) := by
  refine List.foldlRecOn asked _ (motive := Recalls w) (fun method answer kept => ?_)
    fun l recalls method _ => recalls.isReachable method
  simp at kept

end Ledger

namespace Workspace

variable {p : Program} {model : CallModel}

/-- Whether a signature is reached, that of no field: exactly if it is that of a node to which calls lead from a method
that is an entry point. For a method this is what the search from the entry points says; a field, to which no calls
lead, is asked whether it is an entry point itself. The limit on chains makes no difference, nor does what was asked
before. -/
theorem isReachable_exact (settings : Settings) (live : Bool) (built : model.graph.Built)
    (joins : model.graph.JoinsMethods) (method : String) :
    ((∀ n, model.graph.number? method = some n → ¬model.graph.IsField n) →
      ((ofModel p settings live model).isReachable method = true ↔
        ∃ n, model.graph.number? method = some n ∧ EntryReaches p model.graph n)) ∧
    (∀ n, model.graph.number? method = some n → model.graph.IsField n →
      (ofModel p settings live model).isReachable method = isEntryPoint p (model.graph.signatureOf n)) ∧
    (∀ n, model.graph.number? method = some n → model.graph.IsMethod n →
      (ofModel p settings live model).isReachable method = (ofModel p settings live model).fromEntries.getD n false) ∧
    (∀ other : Settings, (ofModel p other live model).isReachable method = (ofModel p settings live model).isReachable method) ∧
    ∀ asked : List String, let w := ofModel p settings live model
      ((asked.foldl (fun l m => (l.isReachable w m).2) ({} : Ledger)).isReachable w method).1 = w.isReachable method := by
  refine ⟨fun noField => ?_, fun n found isField => ?_, fun n found isMethod => ?_, fun other => ?_, fun asked => ?_⟩
  · rw [isReachable_iff built joins]
    exact exists_congr fun n => and_congr_right fun found => or_iff_left fun field => noField n found field.1
  · have uncalled : ¬EntryReaches p model.graph n := by
      rintro ⟨e, method, _, path⟩
      obtain rfl := joins.eq_of_isField isField path
      exact method.not_isField isField
    rw [Bool.eq_iff_iff, isReachable_iff built joins]
    simp [found, isField, uncalled]
  · rw [Bool.eq_iff_iff, isReachable_iff built joins, fromEntries_getD built.sound isMethod.lt]
    simp [found, isMethod.not_isField]
  · rw [Bool.eq_iff_iff, isReachable_iff built joins, isReachable_iff built joins]
  · exact Ledger.isReachable_fst (Ledger.recalls_asked _ asked) method

/-- A component that reads a field of its own and calls a method that calls itself; nothing calls the third method. -/
def counting : Program :=
  Program.finalize
    { package := "a", components := ["a.B"]
      classes := [
        some { name := "a.B", fields := [{ signature := "<a.B: int F>" }], methods := [
          some { signature := "<a.B: void m()>", isStatic := true, units := [
            some (.assign "i0" "<a.B: int F>"), some (.call "" "<a.C: void t(int)>" ["i0"]), some .retVoid] }] },
        some { name := "a.C", methods := [
          some { signature := "<a.C: void t(int)>", isStatic := true, units := [
            some (.param "i0" 0 "int"), some (.call "" "<a.C: void t(int)>" ["i0"]), some .retVoid] },
          some { signature := "<a.C: void u()>", isStatic := true, units := [
            some (.call "" "<a.C: void t(int)>" ["1"]), some .retVoid] }] }] } |>.1

/-- The call graph of that program. -/
def counted : CallGraph := (CallModel.ofProgram counting).graph

/-- What is computed for that program. -/
theorem counted_answers :
    (∀ n < counted.nodes.length, ∀ m ∈ counted.calleesOf n, counted.IsMethod n ∧ counted.IsMethod m) ∧
      (counted.number? "<a.C: void t(int)>" = some 1 ∧ counted.IsMethod 1) ∧
      (counted.number? "<a.C: void u()>" = some 3 ∧ counted.IsMethod 3) ∧
      (counted.number? "<a.B: int F>" = some 2 ∧ counted.IsField 2) ∧
      (ofModel counting {} true (.ofProgram counting)).isReachable "<a.C: void t(int)>" = true ∧
      (ofModel counting {} true (.ofProgram counting)).isReachable "<a.C: void u()>" = false ∧
      (ofModel counting {} true (.ofProgram counting)).isReachable "<a.B: int F>" = true := by decide +kernel

theorem counted_sound : counted.Built ∧ counted.JoinsMethods := by
  have built : counted.Built := CallGraph.ofProvider_built _
  exact ⟨built, built.sound.joinsMethods counted_answers.1⟩

/-- The component reaches the method it calls, and not the one that nothing calls. -/
theorem counting_reaches :
    (counted.Built ∧ counted.JoinsMethods) ∧
      (∃ n, counted.number? "<a.C: void t(int)>" = some n ∧ EntryReaches counting counted n) ∧
      ¬∃ n, counted.number? "<a.C: void u()>" = some n ∧ EntryReaches counting counted n := by
  obtain ⟨built, joins⟩ := counted_sound
  obtain ⟨_, ⟨number, isMethod⟩, ⟨number', isMethod'⟩, _, called, uncalled, _⟩ := counted_answers
  have plain {signature : String} {i : Nat} (number : counted.number? signature = some i)
      (isMethod : counted.IsMethod i) : ∀ n, counted.number? signature = some n → ¬counted.IsField n := by
    intro n found
    obtain rfl := Option.some.inj (number.symm.trans found)
    exact isMethod.not_isField
  have reached := (@isReachable_exact counting (.ofProgram counting) {} true built joins
    "<a.C: void t(int)>").1 (plain number isMethod)
  have left := (@isReachable_exact counting (.ofProgram counting) {} true built joins
    "<a.C: void u()>").1 (plain number' isMethod')
  refine ⟨⟨built, joins⟩, reached.mp called, fun path => ?_⟩
  rw [left.mpr path] at uncalled
  cases uncalled

/-- The field of the component counts as reached, though no call leads to it. -/
theorem field_reached_uncalled :
    (counted.Built ∧ counted.JoinsMethods) ∧
      ¬((ofModel counting {} true (.ofProgram counting)).isReachable "<a.B: int F>" = true ↔
        ∃ n, counted.number? "<a.B: int F>" = some n ∧ EntryReaches counting counted n) := by
  obtain ⟨_, _, _, ⟨number, isField⟩, _, _, answer⟩ := counted_answers
  refine ⟨counted_sound, fun same => ?_⟩
  obtain ⟨n, found, e, method, _, path⟩ := same.mp answer
  obtain rfl := Option.some.inj (number.symm.trans found)
  obtain rfl := counted_sound.2.eq_of_isField isField path
  exact method.not_isField isField

end Workspace

end MisuseSlice
