import Mathlib.Data.List.Cycle
import MisuseSlice.Proofs.Digraph.Circuits
import MisuseSlice.Proofs.Digraph.Reach
import MisuseSlice.Proofs.Folds

/-! The elementary cycles of a graph. Each pass of the search looks for the cycles through the least nodes of the components
of at least two nodes, and goes on after the start that it took last. Where this is the greatest of the starts, and no cycle
has its least node among the others that are passed over, each cycle is found in exactly one pass. -/
namespace MisuseSlice.Digraph

variable {g : Digraph} {i m s v w x fuel : Nat} {keep l c : List Nat} {cs found : List (List Nat)}

/-- The nodes are sorted, and edges join nodes. -/
structure WellFormed (g : Digraph) : Prop where
  ascending : g.nodes.Pairwise (· < ·)
  below : ∀ v ∈ g.nodes, v < g.order
  joins : ∀ v, ∀ w ∈ g.next v, v ∈ g.nodes ∧ w ∈ g.nodes
  once : ∀ v, (g.next v).Nodup

theorem WellFormed.bounded (wellFormed : g.WellFormed) : g.Bounded :=
  ⟨fun v w edge => wellFormed.below w (wellFormed.joins v w edge).2, wellFormed.once⟩

theorem next_restrict : (g.restrict keep).next v = if v ∈ keep then (g.next v).filter keep.contains else [] := by
  unfold next restrict
  simp only [List.getD_eq_getElem?_getD, List.getElem?_mapIdx, List.contains_iff_mem]
  cases g.successors[v]? <;> simp

theorem mem_next_restrict : w ∈ (g.restrict keep).next v ↔ w ∈ g.next v ∧ v ∈ keep ∧ w ∈ keep := by
  rw [next_restrict]
  split <;> simp_all

/-- The nodes from an index on, with the edges between them. -/
def part (g : Digraph) (i : Nat) : Digraph := g.restrict (g.nodes.drop i)

theorem edge_part : (g.part i).Edge v w ↔ g.Edge v w ∧ v ∈ g.nodes.drop i ∧ w ∈ g.nodes.drop i := mem_next_restrict

theorem WellFormed.part (wellFormed : g.WellFormed) (i : Nat) : (g.part i).WellFormed := by
  have sublist : (g.nodes.drop i).Sublist g.nodes := List.drop_sublist i g.nodes
  refine ⟨wellFormed.ascending.sublist sublist, fun v node => wellFormed.below v (sublist.subset node), ?_, fun v => ?_⟩
  · exact fun v w edge => (mem_next_restrict.mp edge).2
  · rw [Digraph.part, next_restrict]
    split
    · exact (wellFormed.once v).filter _
    · exact List.nodup_nil

/-- The graph of targets below the number of lists is well-formed. -/
theorem ofTargets_wellFormed {targets : List (List Nat)} (below : ∀ ws ∈ targets, ∀ w ∈ ws, w < targets.length) :
    (ofTargets targets).WellFormed := by
  refine ⟨List.pairwise_lt_range, fun v => List.mem_range.mp, fun v w edge => ?_, fun v => ?_⟩ <;>
    simp only [next, ofTargets, List.getD_eq_getElem?_getD, List.getElem?_map] at *
  · cases here : targets[v]? with
    | none => simp [here] at edge
    | some ws =>
      simp only [here, Option.map_some, Option.getD_some, List.mem_eraseDups] at edge
      obtain ⟨inside, rfl⟩ := List.getElem?_eq_some_iff.mp here
      exact ⟨List.mem_range.mpr inside, List.mem_range.mpr (below _ (List.getElem_mem inside) w edge)⟩
  · cases targets[v]? with
    | none => exact List.nodup_nil
    | some ws => exact nodup_eraseDups ws

theorem WellFormed.lt_of_take_of_drop (wellFormed : g.WellFormed) (before : v ∈ g.nodes.take i) (after : w ∈ g.nodes.drop i) :
    v < w := by
  have ordered := wellFormed.ascending
  rw [← List.take_append_drop i g.nodes, List.pairwise_append] at ordered
  exact ordered.2.2 v before w after

/-- The nodes from an index on are those from one of them on, as far as they are not smaller. -/
theorem WellFormed.mem_drop_of_le (wellFormed : g.WellFormed) (first : v ∈ g.nodes.drop i) (node : w ∈ g.nodes)
    (le : v ≤ w) : w ∈ g.nodes.drop i := by
  rw [← List.take_append_drop i g.nodes] at node
  rcases List.mem_append.mp node with before | after
  · exact absurd (wellFormed.lt_of_take_of_drop before first) (Nat.not_lt.mpr le)
  · exact after

theorem WellFormed.le_idxOf (wellFormed : g.WellFormed) (member : v ∈ g.nodes.drop i) : i ≤ g.nodes.idxOf v := by
  by_contra before
  have taken := (List.mem_take_iff_idxOf_lt (List.mem_of_mem_drop member)).mpr (Nat.not_le.mp before)
  exact Nat.lt_irrefl v (wellFormed.lt_of_take_of_drop taken member)

theorem drop_idxOf (node : v ∈ g.nodes) :
    g.nodes.drop (g.nodes.idxOf v) = v :: g.nodes.drop (g.nodes.idxOf v + 1) := by
  rw [List.drop_eq_getElem_cons (List.idxOf_lt_length_iff.mpr node), List.getElem_idxOf]

theorem WellFormed.mem_drop_after (wellFormed : g.WellFormed) (node : v ∈ g.nodes) :
    w ∈ g.nodes.drop (g.nodes.idxOf v + 1) ↔ w ∈ g.nodes ∧ v < w := by
  constructor
  · have ordered := wellFormed.ascending.sublist (List.drop_sublist (g.nodes.idxOf v) g.nodes)
    rw [drop_idxOf node, List.pairwise_cons] at ordered
    exact fun member => ⟨List.mem_of_mem_drop member, ordered.1 w member⟩
  · rintro ⟨here, lt⟩
    have later := wellFormed.mem_drop_of_le (drop_idxOf node ▸ List.mem_cons_self) here lt.le
    rw [drop_idxOf node, List.mem_cons] at later
    exact later.resolve_left lt.ne'

/-- The lists are the strongly connected components: each number below the order comes once, along with the numbers that
edges lead to and back from. -/
structure AreComponents (g : Digraph) (cs : List (List Nat)) : Prop where
  once : cs.flatten.Nodup
  below : ∀ c ∈ cs, ∀ v ∈ c, v < g.order
  all : ∀ v < g.order, ∃ c ∈ cs, v ∈ c
  strong : ∀ c ∈ cs, ∀ v ∈ c, ∀ w < g.order, w ∈ c ↔ g.Reaches v w ∧ g.Reaches w v

instance (g : Digraph) (cs : List (List Nat)) : Decidable (g.AreComponents cs) :=
  decidable_of_iff (cs.flatten.Nodup ∧ (∀ c ∈ cs, ∀ v ∈ c, v < g.order) ∧ (∀ v < g.order, ∃ c ∈ cs, v ∈ c) ∧
      ∀ c ∈ cs, ∀ v ∈ c, ∀ w < g.order, w ∈ c ↔ g.Reaches v w ∧ g.Reaches w v)
    ⟨fun ⟨once, below, all, strong⟩ => ⟨once, below, all, strong⟩, fun h => ⟨h.once, h.below, h.all, h.strong⟩⟩

/-- The components of a part that have at least two nodes. -/
def large (g : Digraph) (i : Nat) : List (List Nat) := (g.part i).components.filter fun c => 2 ≤ c.length

/-- The least node of a component. -/
def least (c : List Nat) : Nat := (ascending c).headD 0

/-- The nodes from which a pass searches, one after the other. -/
def starts (g : Digraph) (i : Nat) : List Nat := (g.large i).map least

/-- The node after which the search goes on. -/
def lastStart (g : Digraph) (i : Nat) : Nat := (g.starts i).getLastD 0

theorem least_mem (some : c ≠ []) : least c ∈ c := by
  have sorted : ascending c ≠ [] := by
    intro empty
    have length := congrArg List.length empty
    rw [ascending, List.length_mergeSort, List.length_nil] at length
    exact some (List.length_eq_zero_iff.mp length)
  obtain ⟨x, rest, shape⟩ := List.exists_cons_of_ne_nil sorted
  have member : x ∈ ascending c := shape ▸ List.mem_cons_self
  rw [least, shape, List.headD_cons]
  exact List.mem_mergeSort.mp member

theorem least_le (member : v ∈ c) : least c ≤ v := by
  have here : v ∈ ascending c := List.mem_mergeSort.mpr member
  have sorted : (ascending c).Pairwise fun a b => decide (a ≤ b) = true :=
    List.pairwise_mergeSort (fun a b c => by simp; omega) (fun a b => by simp; omega) c
  obtain ⟨x, rest, shape⟩ := List.exists_cons_of_ne_nil (List.ne_nil_of_mem here)
  rw [shape, List.pairwise_cons] at sorted
  rw [least, shape, List.headD_cons]
  rcases List.mem_cons.mp (shape ▸ here) with rfl | later
  · exact Nat.le_refl _
  · exact of_decide_eq_true (sorted.1 v later)

/-- What one pass finds. -/
def pass (g : Digraph) (i : Nat) (found : List (List Nat)) : List (List Nat) :=
  (g.starts i).foldl (fun found s => (circuit (g.part i) s (g.order + 1) s [] { found }).2.found) found

theorem cyclesFrom_succ : g.cyclesFrom (fuel + 1) i found =
    if i < g.nodes.length ∧ g.large i ≠ [] then
      g.cyclesFrom fuel (g.nodes.idxOf (g.lastStart i) + 1) (g.pass i found)
    else found := by
  have along : ∀ (cs : List (List Nat)) (i j : Nat) (found : List (List Nat)),
      cs.foldl (fun r c => (g.nodes.idxOf (least c) + 1,
        (circuit (g.part i) (least c) (g.order + 1) (least c) [] { found := r.2 }).2.found)) (j, found) =
      ((cs.getLast?.map fun c => g.nodes.idxOf (least c) + 1).getD j,
        (cs.map least).foldl (fun found s => (circuit (g.part i) s (g.order + 1) s [] { found }).2.found) found) := by
    intro cs i
    induction cs with
    | nil => exact fun _ _ => rfl
    | cons c cs ih =>
      intro j found
      rw [List.foldl_cons, ih, List.map_cons, List.foldl_cons]
      cases cs with
      | nil => rfl
      | cons d ds =>
        rw [List.getLast?_cons_cons, List.getLast?_eq_getLast_of_ne_nil (List.cons_ne_nil d ds)]
        rfl
  rw [cyclesFrom]
  by_cases inside : i < g.nodes.length
  · rw [if_pos inside]
    change (if (g.large i).isEmpty then found else _) = _
    by_cases none : g.large i = []
    · rw [none, List.isEmpty_nil, if_pos rfl, if_neg fun both => both.2 rfl]
    · rw [if_neg fun empty => none (List.isEmpty_iff.mp empty), if_pos ⟨inside, none⟩]
      have ends := along (g.large i) i i found
      have last : ((g.large i).getLast?.map fun c => g.nodes.idxOf (least c) + 1).getD i =
          g.nodes.idxOf (g.lastStart i) + 1 := by
        rw [lastStart, starts, List.getLastD_eq_getLast?, List.getLast?_map,
          List.getLast?_eq_getLast_of_ne_nil none]
        rfl
      rw [last] at ends
      exact congrArg (fun r : Nat × List (List Nat) => g.cyclesFrom fuel r.1 r.2) ends
  · rw [if_neg inside, if_neg fun both => inside both.1]

/-- The passes from an index on are orderly. A search never goes on to a node of its own path. No start of a pass is
greater than the last one, and a node that is passed over is in no component of at least two nodes of what follows it. -/
inductive Orderly (g : Digraph) : Nat → Prop
  | done {i : Nat} (none : i < g.nodes.length → g.large i = []) : Orderly g i
  | pass {i : Nat} (inside : i < g.nodes.length) (more : g.large i ≠ [])
      (simple : ∀ s ∈ g.starts i, ∀ walk ∈ walks (g.part i) s (g.order + 1) s [] {}, walk.Nodup)
      (ascends : ∀ s ∈ g.starts i, s ≤ g.lastStart i)
      (skips : ∀ v ∈ g.nodes.drop i, v < g.lastStart i → v ∉ g.starts i → ∀ c ∈ g.large (g.nodes.idxOf v), v ∉ c)
      (rest : Orderly g (g.nodes.idxOf (g.lastStart i) + 1)) : Orderly g i

/-- The parts have the components that are taken for theirs. -/
def KnowsComponents (g : Digraph) : Prop := ∀ i < g.nodes.length, (g.part i).AreComponents (g.part i).components

/-- An elementary cycle of at least two nodes, written from its least node back to it. -/
def IsCycleOf (g : Digraph) (m : Nat) (l : List Nat) : Prop := 2 < l.length ∧ g.IsReturn m [] m l ∧ ∀ x ∈ l, m ≤ x

theorem isReturn_self {l : List Nat} : g.IsReturn s [] s l ↔
    ∃ ext, l = s :: ext ++ [s] ∧ (s :: ext ++ [s]).IsChain g.Edge ∧ (s :: ext).Nodup := Iff.rfl

theorem IsReturn.head? (way : g.IsReturn s [] s l) : l.head? = some s := by
  obtain ⟨_, rfl, _⟩ := isReturn_self.mp way
  rfl

theorem reaches_of_isChain {l : List Nat} (chain : (s :: l ++ [v]).IsChain g.Edge) (member : x ∈ s :: l ++ [v]) :
    g.Reaches s x ∧ g.Reaches x v := by
  have : Trans g.Reaches g.Reaches g.Reaches := ⟨Relation.ReflTransGen.trans⟩
  have paths : (s :: l ++ [v]).Pairwise g.Reaches :=
    List.isChain_iff_pairwise.mp (chain.imp fun _ _ edge => Relation.ReflTransGen.single edge)
  obtain ⟨later, _⟩ := List.pairwise_cons.mp paths
  obtain ⟨_, _, earlier⟩ := List.pairwise_append.mp paths
  constructor
  · rcases List.mem_cons.mp member with rfl | member
    · exact .refl
    · exact later x member
  · rcases List.mem_append.mp member with member | member
    · exact earlier x member v List.mem_cons_self
    · rw [List.mem_singleton.mp member]
      exact .refl

theorem IsReturn.of_part (way : (g.part i).IsReturn s [] s l) : g.IsReturn s [] s l := by
  obtain ⟨ext, shape, chain, simple⟩ := isReturn_self.mp way
  exact isReturn_self.mpr ⟨ext, shape, chain.imp fun _ _ edge => (edge_part.mp edge).1, simple⟩

/-- A cycle lies in the part from its least node on. -/
theorem IsCycleOf.in_part (wellFormed : g.WellFormed) (isCycle : g.IsCycleOf m l) (first : m ∈ g.nodes.drop i) :
    (g.part i).IsReturn m [] m l := by
  obtain ⟨_, way, least⟩ := isCycle
  obtain ⟨ext, rfl, chain, simple⟩ := isReturn_self.mp way
  refine isReturn_self.mpr ⟨ext, rfl, chain.imp_of_mem_imp fun v w inside inside' edge => ?_, simple⟩
  obtain ⟨node, node'⟩ := wellFormed.joins v w edge
  exact edge_part.mpr ⟨edge, wellFormed.mem_drop_of_le first node (least v inside),
    wellFormed.mem_drop_of_le first node' (least w inside')⟩

/-- The least node of a cycle is in a component of at least two nodes of each part that holds it. -/
theorem IsCycleOf.exists_large (wellFormed : g.WellFormed) (known : (g.part i).AreComponents (g.part i).components)
    (isCycle : g.IsCycleOf m l) (first : m ∈ g.nodes.drop i) : ∃ c ∈ g.large i, m ∈ c := by
  have way := isCycle.in_part wellFormed first
  obtain ⟨long, _, _⟩ := isCycle
  obtain ⟨ext, rfl, chain, simple⟩ := isReturn_self.mp way
  obtain ⟨x, rest, rfl⟩ : ∃ x rest, ext = x :: rest := by
    cases ext with
    | nil => simp at long
    | cons x rest => exact ⟨x, rest, rfl⟩
  have inside : ∀ v ∈ g.nodes.drop i, v < g.order := fun v member => wellFormed.below v (List.mem_of_mem_drop member)
  obtain ⟨c, isComponent, member⟩ := known.all m (inside m first)
  have onCycle : x ∈ m :: x :: rest ++ [m] := by simp
  have edge : (g.part i).Edge m x := (List.isChain_cons_cons.mp chain).1
  have other : x ∈ c := (known.strong c isComponent m member x (inside x (edge_part.mp edge).2.2)).mpr
    (reaches_of_isChain chain onCycle)
  have different : m ≠ x := fun same => (List.nodup_cons.mp simple).1 (same ▸ List.mem_cons_self)
  have two : [m, x] ⊆ c := by simp [member, other]
  have long : 2 ≤ c.length := (List.subperm_of_subset (by simpa using different) two).length_le
  exact ⟨c, List.mem_filter.mpr ⟨isComponent, decide_eq_true long⟩, member⟩

/-- A start is the least node of its component. -/
theorem mem_starts : s ∈ g.starts i ↔ ∃ c ∈ g.large i, least c = s := List.mem_map

theorem large_mem (isLarge : c ∈ g.large i) : c ∈ (g.part i).components ∧ 2 ≤ c.length := by
  obtain ⟨isComponent, long⟩ := List.mem_filter.mp isLarge
  exact ⟨isComponent, of_decide_eq_true long⟩

theorem least_mem_of_large (isLarge : c ∈ g.large i) : least c ∈ c := by
  refine least_mem fun none => ?_
  have long := (large_mem isLarge).2
  simp [none] at long

/-- The nodes of a component of at least two nodes are nodes of the part. -/
theorem AreComponents.mem_drop_of_large (known : (g.part i).AreComponents (g.part i).components) (isLarge : c ∈ g.large i)
    (member : v ∈ c) : v ∈ g.nodes.drop i := by
  obtain ⟨isComponent, long⟩ := large_mem isLarge
  have once : c.Nodup := (List.nodup_flatten.mp known.once).1 c isComponent
  obtain ⟨w, other, different⟩ : ∃ w ∈ c, w ≠ v := by
    by_contra none
    have only : c ⊆ [v] := fun w here => by
      by_contra different
      exact none ⟨w, here, fun same => different (same ▸ List.mem_cons_self)⟩
    have short := (List.subperm_of_subset once only).length_le
    simp at short
    omega
  have path := ((known.strong c isComponent v member w (known.below c isComponent w other)).mp other).1
  rcases Relation.ReflTransGen.cases_head path with same | ⟨x, edge, _⟩
  · exact absurd same.symm different
  · exact (edge_part.mp edge).2.1

theorem AreComponents.mem_drop_of_starts (known : (g.part i).AreComponents (g.part i).components)
    (start : s ∈ g.starts i) : s ∈ g.nodes.drop i := by
  obtain ⟨c, isLarge, rfl⟩ := mem_starts.mp start
  exact known.mem_drop_of_large isLarge (least_mem_of_large isLarge)

/-- Where there is a component to search, the last start is one of them. -/
theorem lastStart_mem_starts (more : g.large i ≠ []) : g.lastStart i ∈ g.starts i := by
  have starts : g.starts i ≠ [] := fun none => more (List.map_eq_nil_iff.mp none)
  rw [lastStart, List.getLastD_eq_getLast?, List.getLast?_eq_getLast_of_ne_nil starts]
  exact List.getLast_mem starts

theorem starts_nodup (known : (g.part i).AreComponents (g.part i).components) : (g.starts i).Nodup := by
  have apart : (g.large i).Pairwise List.Disjoint := (List.nodup_flatten.mp known.once).2.sublist List.filter_sublist
  refine List.pairwise_map.mpr (apart.imp_of_mem fun {c d} isLarge isLarge' disjoint same => ?_)
  exact disjoint (least_mem_of_large isLarge) (same ▸ least_mem_of_large isLarge')

/-- What is found from a start of a pass are the cycles of which it is the least node. -/
theorem isReturn_iff_isCycleOf (wellFormed : g.WellFormed) (known : (g.part i).AreComponents (g.part i).components)
    (start : s ∈ g.starts i) (long : 2 < l.length) : (g.part i).IsReturn s [] s l ↔ g.IsCycleOf s l := by
  obtain ⟨c, isLarge, rfl⟩ := mem_starts.mp start
  have here := least_mem_of_large isLarge
  refine ⟨fun way => ⟨long, way.of_part, fun x onCycle => ?_⟩,
    fun isCycle => isCycle.in_part wellFormed (known.mem_drop_of_large isLarge here)⟩
  obtain ⟨ext, rfl, chain, _⟩ := isReturn_self.mp way
  obtain ⟨there, back⟩ := reaches_of_isChain chain onCycle
  rcases Relation.ReflTransGen.cases_tail there with same | ⟨y, _, edge⟩
  · exact same.ge
  · have inside : x < g.order := wellFormed.below x (List.mem_of_mem_drop (edge_part.mp edge).2.2)
    exact least_le ((known.strong c (large_mem isLarge).1 _ here x inside).mpr ⟨there, back⟩)

/-- A pass finds the ways from its starts back to them, each once. -/
theorem pass_finds (wellFormed : g.WellFormed) (known : (g.part i).AreComponents (g.part i).components)
    (simple : ∀ s ∈ g.starts i, ∀ walk ∈ walks (g.part i) s (g.order + 1) s [] {}, walk.Nodup) (found : List (List Nat)) :
    ∃ new, g.pass i found = found ++ new ∧ new.Nodup ∧ ∀ l, l ∈ new ↔ ∃ s ∈ g.starts i, (g.part i).IsReturn s [] s l := by
  have inside : ∀ s ∈ g.starts i, s < g.order := by
    intro s start
    obtain ⟨c, isLarge, rfl⟩ := mem_starts.mp start
    exact known.below c (large_mem isLarge).1 _ (least_mem_of_large isLarge)
  have once := starts_nodup known
  unfold pass
  generalize g.starts i = starts at *
  induction starts generalizing found with
  | nil => exact ⟨[], by simp⟩
  | cons s starts ih =>
    obtain ⟨here, laterSimple⟩ := List.forall_mem_cons.mp simple
    obtain ⟨below, laterBelow⟩ := List.forall_mem_cons.mp inside
    obtain ⟨other, laterOnce⟩ := List.nodup_cons.mp once
    obtain ⟨first, foundFirst, onceFirst, waysFirst⟩ :=
      circuit_finds (wellFormed.part i).bounded below found here
    obtain ⟨rest, foundRest, onceRest, waysRest⟩ := ih (found ++ first) laterSimple laterBelow laterOnce
    refine ⟨first ++ rest, ?_, List.nodup_append.mpr ⟨onceFirst, onceRest, ?_⟩, fun l => ?_⟩
    · rw [List.foldl_cons, ← List.append_assoc, ← foundRest]
      exact congrArg (List.foldl _ · starts) foundFirst
    · -- both lists begin with the starts they were found from
      rintro l inFirst _ inRest rfl
      obtain ⟨t, later, way⟩ := (waysRest l).mp inRest
      obtain rfl := Option.some.inj (((waysFirst l).mp inFirst).head?.symm.trans way.head?)
      exact other later
    · rw [List.mem_append, waysFirst, waysRest, List.exists_mem_cons_iff]

/-- Where no component is left to search, no cycle is left. -/
theorem not_isCycleOf_of_large_nil (wellFormed : g.WellFormed) (known : g.KnowsComponents)
    (none : i < g.nodes.length → g.large i = []) (first : s ∈ g.nodes.drop i) : ¬g.IsCycleOf s l := by
  intro isCycle
  have inside : i < g.nodes.length := by
    by_contra outside
    rw [List.drop_of_length_le (Nat.not_lt.mp outside)] at first
    cases first
  obtain ⟨c, isLarge, _⟩ := isCycle.exists_large wellFormed (known i inside) first
  rw [none inside] at isLarge
  cases isLarge

/-- What lies behind the last start of a pass lies behind the index of the pass, and is greater than that start. -/
theorem mem_drop_of_after_lastStart (wellFormed : g.WellFormed) (last : g.lastStart i ∈ g.nodes.drop i)
    (after : m ∈ g.nodes.drop (g.nodes.idxOf (g.lastStart i) + 1)) : m ∈ g.nodes.drop i ∧ g.lastStart i < m := by
  obtain ⟨node, lt⟩ := (wellFormed.mem_drop_after (List.mem_of_mem_drop last)).mp after
  exact ⟨wellFormed.mem_drop_of_le last node lt.le, lt⟩

/-- Where only starts of a pass lie on components up to the last start, each cycle begins at a start or behind the last
one. -/
theorem IsCycleOf.start_or_after (wellFormed : g.WellFormed) (known : g.KnowsComponents) (isCycle : g.IsCycleOf m l)
    (first : m ∈ g.nodes.drop i) (last : g.lastStart i ∈ g.starts i) (node : g.lastStart i ∈ g.nodes)
    (skips : m < g.lastStart i → m ∉ g.starts i → ∀ c ∈ g.large (g.nodes.idxOf m), m ∉ c) :
    m ∈ g.starts i ∨ m ∈ g.nodes.drop (g.nodes.idxOf (g.lastStart i) + 1) := by
  by_cases start : m ∈ g.starts i
  · exact .inl start
  have own : m ∈ g.nodes := List.mem_of_mem_drop first
  refine .inr ((wellFormed.mem_drop_after node).mpr ⟨own, ?_⟩)
  by_contra passed
  have before : m < g.lastStart i := Nat.lt_of_le_of_ne (Nat.not_lt.mp passed) fun same => start (same ▸ last)
  obtain ⟨c, isLarge, member⟩ := isCycle.exists_large wellFormed
    (known (g.nodes.idxOf m) (List.idxOf_lt_length_iff.mpr own)) (drop_idxOf own ▸ List.mem_cons_self)
  exact skips before start c isLarge member

theorem Orderly.finds (wellFormed : g.WellFormed) (known : g.KnowsComponents) (orderly : g.Orderly i)
    (enough : g.nodes.length < fuel + i) (found : List (List Nat)) :
    ∃ new, g.cyclesFrom fuel i found = found ++ new ∧ new.Nodup ∧
      (∀ l ∈ new, ∃ s ∈ g.nodes.drop i, g.IsReturn s [] s l) ∧
      ∀ l, 2 < l.length → (l ∈ new ↔ ∃ m ∈ g.nodes.drop i, g.IsCycleOf m l) := by
  induction orderly generalizing fuel found with
  | @done i none =>
    have same : g.cyclesFrom fuel i found = found := by
      cases fuel with
      | zero => rfl
      | succ fuel => rw [cyclesFrom_succ, if_neg fun ⟨inside, more⟩ => more (none inside)]
    refine ⟨[], by rw [same, List.append_nil], List.nodup_nil, fun _ member => absurd member List.not_mem_nil, ?_⟩
    exact fun l _ => iff_of_false List.not_mem_nil fun ⟨m, first, isCycle⟩ =>
      not_isCycleOf_of_large_nil wellFormed known none first isCycle
  | @pass i inside more simple ascends skips rest ih =>
    have last := lastStart_mem_starts more
    have begins : ∀ s ∈ g.starts i, s ∈ g.nodes.drop i := fun _ start => (known i inside).mem_drop_of_starts start
    have node : g.lastStart i ∈ g.nodes := List.mem_of_mem_drop (begins _ last)
    have onward : ∀ t ∈ g.nodes.drop (g.nodes.idxOf (g.lastStart i) + 1), t ∈ g.nodes.drop i ∧ g.lastStart i < t :=
      fun _ => mem_drop_of_after_lastStart wellFormed (begins _ last)
    have index : i ≤ g.nodes.idxOf (g.lastStart i) := wellFormed.le_idxOf (begins _ last)
    cases fuel with
    | zero => omega
    | succ fuel =>
      obtain ⟨here, foundHere, onceHere, waysHere⟩ := pass_finds wellFormed (known i inside) simple found
      have room : g.nodes.length < fuel + (g.nodes.idxOf (g.lastStart i) + 1) := by omega
      obtain ⟨later, foundLater, onceLater, begin', cyclesLater⟩ := ih room (g.pass i found)
      refine ⟨here ++ later, ?_, List.nodup_append.mpr ⟨onceHere, onceLater, ?_⟩, fun l member => ?_, fun l long => ?_⟩
      · rw [cyclesFrom_succ, if_pos ⟨inside, more⟩, foundLater, foundHere, List.append_assoc]
      · rintro l inHere _ inLater rfl
        obtain ⟨s, start, way⟩ := (waysHere l).mp inHere
        obtain ⟨t, after, way'⟩ := begin' l inLater
        obtain rfl := Option.some.inj (way.head?.symm.trans way'.head?)
        exact absurd (onward s after).2 (Nat.not_lt.mpr (ascends s start))
      · rcases List.mem_append.mp member with member | member
        · obtain ⟨s, start, way⟩ := (waysHere l).mp member
          exact ⟨s, begins s start, way.of_part⟩
        · obtain ⟨t, after, way⟩ := begin' l member
          exact ⟨t, (onward t after).1, way⟩
      · rw [List.mem_append, waysHere, cyclesLater l long]
        constructor
        · rintro (⟨s, start, way⟩ | ⟨m, after, isCycle⟩)
          · exact ⟨s, begins s start, (isReturn_iff_isCycleOf wellFormed (known i inside) start long).mp way⟩
          · exact ⟨m, (onward m after).1, isCycle⟩
        · rintro ⟨m, first, isCycle⟩
          rcases isCycle.start_or_after wellFormed known first last node (skips m first) with start | after
          · exact .inl ⟨m, start, (isReturn_iff_isCycleOf wellFormed (known i inside) start long).mpr isCycle⟩
          · exact .inr ⟨m, after, isCycle⟩

/-- The elementary cycles with their nodes up to rotation. -/
def IsElementary (g : Digraph) (c : Cycle Nat) : Prop := c.Nodup ∧ c.Chain g.Edge

theorem isElementary_coe : g.IsElementary (v :: l : List Nat) ↔ (v :: l).Nodup ∧ (v :: l ++ [v]).IsChain g.Edge := by
  rw [IsElementary, Cycle.nodup_coe_iff, Cycle.chain_coe_cons]
  rfl

/-- A cycle has one way of being written from a given node. -/
theorem eq_of_isRotated {l l' : List Nat} (simple : (v :: l).Nodup) (rotated : (v :: l) ~r (v :: l')) : l = l' := by
  obtain ⟨n, le, same⟩ := List.isRotated_iff_mod.mp rotated
  rcases Nat.lt_or_eq_of_le le with lt | all
  · have first : (v :: l)[n]? = some v := by rw [← List.head?_rotate lt, same, List.head?_cons]
    have zero : n = 0 := by
      obtain ⟨_, here⟩ := List.getElem?_eq_some_iff.mp first
      have both : (v :: l)[n] = (v :: l)[0] := here
      exact simple.getElem_inj_iff.mp both
    rw [zero, List.rotate_zero] at same
    exact (List.cons.inj same).2
  · rw [all, List.rotate_length] at same
    exact (List.cons.inj same).2

/-- Each elementary cycle can be written from its least node. -/
theorem exists_isCycleOf {c : Cycle Nat} (elementary : g.IsElementary c) (two : 2 ≤ c.length) :
    ∃ m l, g.IsCycleOf m l ∧ (l.dropLast : Cycle Nat) = c := by
  obtain ⟨xs, rfl⟩ : ∃ xs : List Nat, (xs : Cycle Nat) = c := Quotient.exists_rep c
  rw [Cycle.length_coe] at two
  have member : least xs ∈ xs := least_mem fun none => by simp [none] at two
  have smallest : ∀ x ∈ xs, least xs ≤ x := fun x inside => least_le inside
  generalize least xs = m at member smallest
  obtain ⟨before, after, rfl⟩ := List.append_of_mem member
  have turned : ((before ++ m :: after : List Nat) : Cycle Nat) = (m :: (after ++ before) : List Nat) :=
    Cycle.coe_eq_coe.mpr List.isRotated_append
  rw [turned, isElementary_coe] at elementary
  refine ⟨m, m :: (after ++ before) ++ [m], ⟨?_, ⟨after ++ before, rfl, elementary.2, elementary.1⟩, fun x onCycle => ?_⟩, ?_⟩
  · simp at two ⊢
    omega
  · refine smallest x ?_
    simp only [List.mem_append, List.mem_cons, List.not_mem_nil, or_false] at onCycle ⊢
    tauto
  · rw [List.dropLast_concat, turned]

/-- Two lists of one cycle from its least node are the same. -/
theorem IsCycleOf.unique {l l' : List Nat} (isCycle : g.IsCycleOf v l) (isCycle' : g.IsCycleOf w l')
    (same : (l.dropLast : Cycle Nat) = l'.dropLast) : l = l' := by
  obtain ⟨_, way, smallest⟩ := isCycle
  obtain ⟨_, way', smallest'⟩ := isCycle'
  obtain ⟨ext, rfl, _, simple⟩ := isReturn_self.mp way
  obtain ⟨ext', rfl, _, _⟩ := isReturn_self.mp way'
  rw [List.dropLast_concat, List.dropLast_concat, Cycle.coe_eq_coe] at same
  have inside : w ∈ v :: ext := same.mem_iff.mpr List.mem_cons_self
  have inside' : v ∈ w :: ext' := same.mem_iff.mp List.mem_cons_self
  obtain rfl : v = w :=
    Nat.le_antisymm (smallest w (List.mem_append_left _ inside)) (smallest' v (List.mem_append_left _ inside'))
  rw [eq_of_isRotated simple same]

/-- What the search for elementary cycles gives: for orderly passes, each list it gives is given once, and those of more
than one edge are the elementary cycles of at least two nodes, each written from its least node. -/
theorem mem_elementaryCycles (wellFormed : g.WellFormed) (known : g.KnowsComponents) (orderly : g.Orderly 0) :
    g.elementaryCycles.Nodup ∧ ∀ l, 2 < l.length → (l ∈ g.elementaryCycles ↔ ∃ m, g.IsCycleOf m l) := by
  obtain ⟨new, found, once, _, cycles⟩ :=
    orderly.finds wellFormed known (Nat.lt_succ_self g.nodes.length) []
  rw [elementaryCycles, found, List.nil_append]
  refine ⟨once, fun l long => (cycles l long).trans (exists_congr fun m => and_iff_right_of_imp fun isCycle => ?_)⟩
  obtain ⟨ext, rfl, chain, _⟩ := isReturn_self.mp isCycle.2.1
  cases ext with
  | nil => exact (wellFormed.joins m m (List.isChain_pair.mp chain)).1
  | cons x ext => exact (wellFormed.joins m x (List.isChain_cons_cons.mp chain).1).1

/-- The elementary cycles that the search finds. With the strongly connected components known, where the passes are orderly
and no search goes on to a node of its own path, each elementary cycle of at least two nodes is among them exactly once up to
rotation, every list of more than two numbers is such a cycle, and the order of the successors makes no difference. -/
theorem elementaryCycles_exact (wellFormed : g.WellFormed) (known : g.KnowsComponents) (orderly : g.Orderly 0) :
    (∀ c : Cycle Nat, g.IsElementary c → 2 ≤ c.length →
      g.elementaryCycles.countP (fun l => (l.dropLast : Cycle Nat) = c) = 1) ∧
    (∀ l ∈ g.elementaryCycles, 2 < l.length →
      ∃ v ext, l = v :: ext ++ [v] ∧ g.IsElementary (v :: ext : List Nat) ∧ 2 ≤ (v :: ext).length) ∧
    ∀ h : Digraph, h.WellFormed → h.KnowsComponents → h.Orderly 0 → (∀ v w, h.Edge v w ↔ g.Edge v w) →
      (h.elementaryCycles.filter (2 < ·.length)).Perm (g.elementaryCycles.filter (2 < ·.length)) := by
  obtain ⟨once, cycles⟩ := mem_elementaryCycles wellFormed known orderly
  refine ⟨fun c elementary two => ?_, fun l member long => ?_, fun h wellFormed' known' orderly' same => ?_⟩
  · obtain ⟨m, l, isCycle, rfl⟩ := exists_isCycleOf elementary two
    have only : ∀ l' ∈ g.elementaryCycles, ((l'.dropLast : Cycle Nat) = l.dropLast) ↔ l' = l := by
      intro l' member
      refine ⟨fun turned => ?_, fun same => by rw [same]⟩
      have length : l'.length = l.length := by
        have same := congrArg Cycle.length turned
        rw [Cycle.length_coe, Cycle.length_coe, List.length_dropLast, List.length_dropLast] at same
        have long := isCycle.1
        omega
      obtain ⟨m', isCycle'⟩ := (cycles l' (length ▸ isCycle.1)).mp member
      exact isCycle'.unique isCycle turned
    have count : g.elementaryCycles.countP (fun l' => (l'.dropLast : Cycle Nat) = l.dropLast) = g.elementaryCycles.count l :=
      List.countP_congr fun l' member => by simpa using only l' member
    rw [count]
    exact List.count_eq_one_of_mem once ((cycles l isCycle.1).mpr ⟨m, isCycle⟩)
  · obtain ⟨m, isCycle⟩ := (cycles l long).mp member
    obtain ⟨ext, rfl, chain, simple⟩ := isReturn_self.mp isCycle.2.1
    refine ⟨m, ext, rfl, isElementary_coe.mpr ⟨simple, chain⟩, ?_⟩
    simp at long ⊢
    omega
  · obtain ⟨once', cycles'⟩ := mem_elementaryCycles wellFormed' known' orderly'
    have edges : h.Edge = g.Edge := funext fun v => funext fun w => propext (same v w)
    refine (List.perm_ext_iff_of_nodup (once'.filter _) (once.filter _)).mpr fun l => ?_
    have isCycleOf : ∀ m, h.IsCycleOf m l ↔ g.IsCycleOf m l := fun m => by rw [IsCycleOf, IsReturn, edges]; rfl
    simp only [List.mem_filter, decide_eq_true_eq]
    refine and_congr_left fun long => ?_
    rw [cycles l long, cycles' l long, exists_congr isCycleOf]

/-- Two cycles that share a node, a loop, and a node without edges. -/
def sharing : Digraph := ofTargets [[1], [2], [0, 3], [2], [4], []]

theorem sharing_orderly : sharing.Orderly 0 := by
  have start : sharing.starts 0 = [0] := by cbv
  have start' : sharing.starts 1 = [2] := by cbv
  have lasts : sharing.lastStart 0 = 0 ∧ sharing.lastStart 1 = 2 := by rw [lastStart, lastStart, start, start']; decide
  have later : sharing.large 1 = [[3, 2]] := by cbv
  have done : sharing.large 3 = [] := by cbv
  have third : sharing.Orderly 3 := .done fun _ => done
  have second : sharing.Orderly 1 := by
    refine .pass (by decide) (by rw [later]; decide) ?_ ?_ ?_ ?_
    · rw [start']
      decide +kernel
    · rw [start', lasts.2]
      decide
    · rw [lasts.2]
      have passed : ∀ v < 2, v ∈ sharing.nodes.drop 1 → sharing.nodes.idxOf v = 1 ∧ v ∉ [3, 2] := by decide
      intro v member before _
      obtain ⟨index, other⟩ := passed v before member
      rw [index, later]
      exact List.forall_mem_singleton.mpr other
    · rw [lasts.2]
      exact third
  refine .pass (by decide) (by cbv; decide) ?_ ?_ ?_ ?_
  · rw [start]
    decide +kernel
  · rw [start, lasts.1]
    decide
  · rw [lasts.1]
    exact fun v _ none => absurd none (Nat.not_lt_zero v)
  · rw [lasts.1]
    exact second

/-- The search finds each of the two cycles of that graph once. -/
theorem sharing_elementaryCycles :
    (sharing.WellFormed ∧ sharing.KnowsComponents ∧ sharing.Orderly 0) ∧
      ∀ c ∈ [[2, 0, 1], [3, 2]], sharing.elementaryCycles.countP (fun l => (l.dropLast : Cycle Nat) = (c : List Nat)) = 1 := by
  have wellFormed : sharing.WellFormed := ofTargets_wellFormed (by decide)
  have known : sharing.KnowsComponents := by
    unfold KnowsComponents
    decide +kernel
  have once := (elementaryCycles_exact wellFormed known sharing_orderly).1
  refine ⟨⟨wellFormed, known, sharing_orderly⟩, List.forall_mem_cons.mpr ⟨?_, List.forall_mem_singleton.mpr ?_⟩⟩
  · exact once _ (isElementary_coe.mpr (by decide +kernel)) (by decide)
  · exact once _ (isElementary_coe.mpr (by decide +kernel)) (by decide)

/-- Two components of two nodes in one pass. The search goes on after the lesser start, and finds the other cycle again. -/
def twofold : Digraph := ofTargets [[1, 2], [0], [3], [2]]

theorem twofold_elementaryCycles : twofold.elementaryCycles = [[2, 3, 2], [0, 1, 0], [2, 3, 2]] := by
  have starts : twofold.starts 0 = [2, 0] ∧ twofold.starts 1 = [2] := by constructor <;> cbv
  have more : twofold.large 0 ≠ [] ∧ twofold.large 1 ≠ [] := by constructor <;> cbv <;> decide
  have first : twofold.cyclesFrom 5 0 [] = twofold.cyclesFrom 4 1 [[2, 3, 2], [0, 1, 0]] := by
    have found : twofold.pass 0 [] = [[2, 3, 2], [0, 1, 0]] := by
      rw [pass, starts.1]
      decide +kernel
    rw [cyclesFrom_succ, if_pos ⟨by decide, more.1⟩, found, lastStart, starts.1]
    rfl
  have second : twofold.cyclesFrom 4 1 [[2, 3, 2], [0, 1, 0]] =
      twofold.cyclesFrom 3 3 [[2, 3, 2], [0, 1, 0], [2, 3, 2]] := by
    have found : twofold.pass 1 [[2, 3, 2], [0, 1, 0]] = [[2, 3, 2], [0, 1, 0], [2, 3, 2]] := by
      rw [pass, starts.2]
      decide +kernel
    rw [cyclesFrom_succ, if_pos ⟨by decide, more.2⟩, found, lastStart, starts.2]
    rfl
  have last : twofold.large 3 = [] := by cbv
  calc twofold.elementaryCycles = twofold.cyclesFrom 5 0 [] := rfl
    _ = twofold.cyclesFrom 3 3 [[2, 3, 2], [0, 1, 0], [2, 3, 2]] := first.trans second
    _ = [[2, 3, 2], [0, 1, 0], [2, 3, 2]] := by rw [cyclesFrom_succ, if_neg fun both => both.2 last]

theorem twofold_cycle_repeated :
    (twofold.WellFormed ∧ twofold.KnowsComponents) ∧ twofold.IsElementary ([2, 3] : List Nat) ∧
      twofold.elementaryCycles = [[2, 3, 2], [0, 1, 0], [2, 3, 2]] ∧
      ¬∀ c : Cycle Nat, twofold.IsElementary c → 2 ≤ c.length →
        twofold.elementaryCycles.countP (fun l => (l.dropLast : Cycle Nat) = c) = 1 := by
  have wellFormed : twofold.WellFormed := ofTargets_wellFormed (by decide)
  have known : twofold.KnowsComponents := by
    unfold KnowsComponents
    decide +kernel
  have elementary : twofold.IsElementary ([2, 3] : List Nat) := isElementary_coe.mpr (by decide +kernel)
  refine ⟨⟨wellFormed, known⟩, elementary, twofold_elementaryCycles, fun once => ?_⟩
  have one := once _ elementary (by decide)
  rw [twofold_elementaryCycles] at one
  exact absurd one (by decide +kernel)

end MisuseSlice.Digraph
