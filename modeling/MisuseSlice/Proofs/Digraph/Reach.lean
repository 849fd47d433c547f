import Mathlib.Algebra.BigOperators.Group.Finset.Basic
import Mathlib.Logic.Relation
import MisuseSlice.Digraph.Basic

/-! Reachability. The search takes a pending node at a time and expands it once, so it stops after as many steps as there
are roots and edges, and what it has seen then is what edges lead to from the roots. -/
namespace MisuseSlice.Digraph

variable {g : Digraph} {u v w n fuel : Nat} {pending seen roots : List Nat}

/-- Edges lead from one node to another one. -/
def Reaches (g : Digraph) : Nat → Nat → Prop := Relation.ReflTransGen fun v w => w ∈ g.next v

/-- What the edges from the nodes that are not seen yet can still make pending. -/
def left (g : Digraph) (seen : List Nat) : Nat :=
  ∑ v ∈ (Finset.range g.successors.length).filter (· ∉ seen), (g.next v).length

theorem left_cons (new : v ∉ seen) : (g.next v).length + g.left (v :: seen) = g.left seen := by
  have rest : (Finset.range g.successors.length).filter (· ∉ v :: seen) =
      ((Finset.range g.successors.length).filter (· ∉ seen)).erase v := by
    ext w
    simp only [Finset.mem_filter, List.mem_cons, not_or, Finset.mem_erase]
    tauto
  unfold left
  rw [rest]
  by_cases inside : v < g.successors.length
  · exact Finset.add_sum_erase _ (fun v => (g.next v).length)
      (Finset.mem_filter.mpr ⟨Finset.mem_range.mpr inside, new⟩)
  · have none : (g.next v).length = 0 := by
      rw [next, List.getD_eq_getElem?_getD, List.getElem?_eq_none (Nat.not_lt.mp inside)]
      rfl
    rw [none, Nat.zero_add, Finset.erase_eq_of_notMem]
    exact fun member => inside (Finset.mem_range.mp (Finset.mem_filter.mp member).1)

theorem left_nil (g : Digraph) : g.left [] = g.searchBound := by
  have sum : ∀ xs : List (List Nat), ∑ v ∈ Finset.range xs.length, (xs.getD v []).length =
      xs.foldl (fun n ws => n + ws.length) 0 := by
    intro xs
    induction xs using List.reverseRecOn with
    | nil => rfl
    | append_singleton xs ws ih =>
      rw [List.length_append, List.length_singleton, Finset.sum_range_succ, List.foldl_append, ← ih]
      congr 1
      · refine Finset.sum_congr rfl fun v inside => ?_
        rw [List.getD_eq_getElem?_getD, List.getD_eq_getElem?_getD,
          List.getElem?_append_left (Finset.mem_range.mp inside)]
      · simp
  have all : (Finset.range g.successors.length).filter (· ∉ ([] : List Nat)) = Finset.range g.successors.length :=
    Finset.filter_true_of_mem fun _ _ => List.not_mem_nil
  rw [left, all]
  exact sum g.successors

/-- What the search sees can be reached. -/
theorem reaches_of_mem_reachFrom (member : w ∈ g.reachFrom fuel pending seen) :
    w ∈ seen ∨ ∃ v ∈ pending, g.Reaches v w := by
  induction fuel generalizing pending seen with
  | zero => exact .inl member
  | succ fuel ih =>
    cases pending with
    | nil => exact .inl member
    | cons v rest =>
      rw [reachFrom] at member
      split at member
      · exact (ih member).imp_right fun ⟨u, pend, path⟩ => ⟨u, List.mem_cons_of_mem _ pend, path⟩
      · rcases ih member with old | ⟨u, pend, path⟩
        · rcases List.mem_cons.mp old with rfl | old
          · exact .inr ⟨w, List.mem_cons_self, .refl⟩
          · exact .inl old
        · refine .inr ?_
          rcases List.mem_append.mp pend with pend | edge
          · exact ⟨u, List.mem_cons_of_mem _ pend, path⟩
          · exact ⟨v, List.mem_cons_self, .head edge path⟩

/-- A search with enough fuel sees the pending nodes, and all that edges lead to from what it sees. -/
theorem reachFrom_closed (enough : pending.length + g.left seen < fuel)
    (known : ∀ v ∈ seen, ∀ w ∈ g.next v, w ∈ seen ∨ w ∈ pending) :
    (∀ v, v ∈ seen ∨ v ∈ pending → v ∈ g.reachFrom fuel pending seen) ∧
      ∀ v ∈ g.reachFrom fuel pending seen, ∀ w ∈ g.next v, w ∈ g.reachFrom fuel pending seen := by
  induction fuel generalizing pending seen with
  | zero => omega
  | succ fuel ih =>
    cases pending with
    | nil =>
      refine ⟨fun v known => known.resolve_right List.not_mem_nil, fun v member w edge => ?_⟩
      exact (known v member w edge).resolve_right List.not_mem_nil
    | cons v rest =>
      rw [List.length_cons] at enough
      rw [reachFrom]
      split
      · rename_i old
        rw [List.contains_iff_mem] at old
        have stays : ∀ w, w ∈ seen ∨ w ∈ v :: rest → w ∈ seen ∨ w ∈ rest := by
          rintro w (here | here)
          · exact .inl here
          · rcases List.mem_cons.mp here with rfl | here
            · exact .inl old
            · exact .inr here
        have room : rest.length + g.left seen < fuel := by omega
        obtain ⟨holds, closed⟩ := ih room fun u here w edge => stays w (known u here w edge)
        exact ⟨fun w here => holds w (stays w here), closed⟩
      · rename_i new
        rw [List.contains_iff_mem] at new
        have drop := left_cons (g := g) new
        have grown : ∀ u ∈ v :: seen, ∀ w ∈ g.next u, w ∈ v :: seen ∨ w ∈ rest ++ g.next v := by
          intro u here w edge
          rw [List.mem_cons, List.mem_append]
          rcases List.mem_cons.mp here with rfl | here
          · exact .inr (.inr edge)
          · rcases known u here w edge with old | pend
            · exact .inl (.inr old)
            · exact (List.mem_cons.mp pend).imp .inl .inl
        obtain ⟨holds, closed⟩ := ih (by rw [List.length_append]; omega) grown
        refine ⟨fun w here => holds w ?_, closed⟩
        rw [List.mem_cons, List.mem_append]
        rcases here with old | pend
        · exact .inl (.inr old)
        · exact (List.mem_cons.mp pend).imp .inl .inl

/-- The search from some nodes sees exactly what can be reached from them. -/
theorem mem_reachFrom (enough : roots.length + g.searchBound < fuel) :
    w ∈ g.reachFrom fuel roots [] ↔ ∃ v ∈ roots, g.Reaches v w := by
  constructor
  · exact fun member => (reaches_of_mem_reachFrom member).resolve_left List.not_mem_nil
  · rintro ⟨v, root, path⟩
    have room : roots.length + g.left [] < fuel := by
      rw [left_nil]
      exact enough
    obtain ⟨holds, closed⟩ := reachFrom_closed room nofun
    induction path with
    | refl => exact holds v (.inr root)
    | tail _ edge ih => exact closed _ ih _ edge

theorem reaches_iff : g.Reaches u v ↔ v ∈ g.reachFrom (g.searchBound + 2) [u] [] := by
  rw [mem_reachFrom (by simp; omega)]
  simp

instance (g : Digraph) (u v : Nat) : Decidable (g.Reaches u v) := decidable_of_iff' _ reaches_iff

/-- A number is marked if it is below the order and can be reached from a root that is a node. -/
theorem reachable_getD : (g.reachable roots).getD n false = true ↔
    n < g.order ∧ ∃ r ∈ roots, r ∈ g.nodes ∧ g.Reaches r n := by
  have seen : ∀ n, n ∈ g.reachFrom ((roots.filter g.hasNode).length + g.searchBound + 1) (roots.filter g.hasNode) [] ↔
      ∃ r ∈ roots, r ∈ g.nodes ∧ g.Reaches r n := by
    intro n
    rw [mem_reachFrom (Nat.lt_succ_self _)]
    simp only [List.mem_filter, hasNode, List.contains_iff_mem, and_assoc]
  rw [← seen]
  unfold reachable
  by_cases inside : n < g.order
  · simp [List.getD_eq_getElem?_getD, inside]
  · simp [List.getD_eq_getElem?_getD, inside]

end MisuseSlice.Digraph
