import Mathlib
import MisuseSlice.Proofs.Folds

/-! Searches in breadth. Pending nodes are taken from the front, and what a new node leads to goes behind the others. Such
a search ends, comes to each reachable node once, and comes to nearer nodes before farther ones. -/
namespace MisuseSlice.Breadth

variable {α : Type} {next : α → List α} {start pending seen found : List α} {p q : α}

/-- A search in breadth from pending nodes finds new nodes one after the other, and passes over those seen before. -/
inductive Visits (next : α → List α) : (pending seen found : List α) → Prop where
  | done {seen : List α} : Visits next [] seen []
  | known {p : α} {pending seen found : List α} (old : p ∈ seen) (rest : Visits next pending seen found) :
      Visits next (p :: pending) seen found
  | new {p : α} {pending seen found : List α} (fresh : p ∉ seen)
      (rest : Visits next (pending ++ next p) (p :: seen) found) : Visits next (p :: pending) seen (p :: found)

/-- A node is reached over at most so many links. -/
def Within (next : α → List α) (start : List α) : Nat → α → Prop
  | 0, q => q ∈ start
  | n + 1, q => q ∈ start ∨ ∃ p, Within next start n p ∧ q ∈ next p

/-- What is found can be reached from what is pending. -/
theorem Visits.reaches (visits : Visits next pending seen found) (member : q ∈ found) :
    ∃ p ∈ pending, Relation.ReflTransGen (fun a b => b ∈ next a) p q := by
  induction visits with
  | done => cases member
  | known old rest ih =>
    obtain ⟨p, here, path⟩ := ih member
    exact ⟨p, List.mem_cons_of_mem _ here, path⟩
  | @new p pending seen found fresh rest ih =>
    rcases List.mem_cons.mp member with rfl | member
    · exact ⟨q, List.mem_cons_self, .refl⟩
    · obtain ⟨a, here, path⟩ := ih member
      rcases List.mem_append.mp here with here | link
      · exact ⟨a, List.mem_cons_of_mem _ here, path⟩
      · exact ⟨p, List.mem_cons_self, .head link path⟩

section

variable [DecidableEq α]

/-- What is found is what is pending and what the found nodes lead to, in this order and each node once. -/
theorem Visits.found_eq (visits : Visits next pending seen found) :
    found = ((pending ++ found.flatMap next).filter (· ∉ seen)).eraseDups := by
  induction visits with
  | done => rfl
  | known old rest ih =>
    rw [List.cons_append, List.filter_cons_of_neg (by simpa using old)]
    exact ih
  | @new p pending seen found fresh rest ih =>
    have others : ((pending ++ next p ++ found.flatMap next).filter (· ∉ p :: seen)) =
        ((pending ++ next p ++ found.flatMap next).filter (· ∉ seen)).filter fun q => !q == p := by
      rw [List.filter_filter]
      refine List.filter_congr fun q _ => ?_
      by_cases same : q = p <;> simp [same]
    rw [List.cons_append, List.filter_cons_of_pos (by simpa using fresh), List.eraseDups_cons, List.flatMap_cons,
      ← List.append_assoc, ← others, ← ih]

theorem Visits.nodup (visits : Visits next pending seen found) : found.Nodup := by
  rw [visits.found_eq]
  exact nodup_eraseDups _

theorem Visits.mem_iff_step (visits : Visits next start [] found) :
    q ∈ found ↔ q ∈ start ∨ ∃ p ∈ found, q ∈ next p := by
  conv_lhs => rw [visits.found_eq]
  simp [List.mem_eraseDups]

/-- A search finds what can be reached. -/
theorem Visits.mem_iff (visits : Visits next start [] found) :
    q ∈ found ↔ ∃ p ∈ start, Relation.ReflTransGen (fun a b => b ∈ next a) p q := by
  refine ⟨visits.reaches, ?_⟩
  rintro ⟨p, here, path⟩
  induction path with
  | refl => exact visits.mem_iff_step.mpr (.inl here)
  | tail _ link ih => exact visits.mem_iff_step.mpr (.inr ⟨_, ih, link⟩)

/-- The nodes within a number of links come before all others. -/
theorem Visits.within_prefix (visits : Visits next start [] found) (n : Nat) :
    ∃ near far, found = near ++ far ∧ ∀ q, q ∈ near ↔ Within next start n q := by
  have order := visits.found_eq
  simp only [List.not_mem_nil, not_false_eq_true, decide_true, List.filter_true] at order
  induction n with
  | zero =>
    rw [List.eraseDups_append] at order
    exact ⟨_, _, order, fun q => List.mem_eraseDups⟩
  | succ n ih =>
    obtain ⟨near, far, parts, within⟩ := ih
    rw [parts, List.flatMap_append, ← List.append_assoc, List.eraseDups_append, ← parts] at order
    refine ⟨_, _, order, fun q => ?_⟩
    simp [List.mem_eraseDups, Within, within]

/-- Nearer nodes are found before farther ones. -/
theorem Visits.nearest_first (visits : Visits next start [] found) :
    found.Pairwise fun p q => ∀ n, Within next start n q → Within next start n p := by
  have each : ∀ n, found.Pairwise fun p q => Within next start n q → Within next start n p := by
    intro n
    obtain ⟨near, far, parts, within⟩ := visits.within_prefix n
    have nodup := visits.nodup
    rw [parts] at nodup ⊢
    simp only [← within]
    refine List.pairwise_append.mpr ⟨?_, ?_, fun p here q _ _ => here⟩
    · exact List.pairwise_of_forall_mem_list fun p here q _ _ => here
    · refine List.pairwise_of_forall_mem_list fun p _ q far near => ?_
      exact absurd far ((List.disjoint_of_nodup_append nodup) near)
  rw [List.pairwise_iff_getElem]
  exact fun i j i_in j_in less n => List.pairwise_iff_getElem.mp (each n) i j i_in j_in less

/-- A search stays among nodes from which nothing leads out. -/
theorem Visits.subset {nodes : List α} (closed : ∀ p ∈ nodes, ∀ q ∈ next p, q ∈ nodes)
    (visits : Visits next start [] found) (inside : ∀ p ∈ start, p ∈ nodes) : found ⊆ nodes := by
  intro q member
  obtain ⟨p, here, path⟩ := visits.reaches member
  induction path with
  | refl => exact inside p here
  | tail _ link ih => exact closed _ (ih (visits.mem_iff.mpr ⟨p, here, ‹_›⟩)) _ link

/-- A search follows the links of each node at most once. -/
theorem Visits.links_le {nodes : List α} (closed : ∀ p ∈ nodes, ∀ q ∈ next p, q ∈ nodes)
    (visits : Visits next start [] found) (inside : ∀ p ∈ start, p ∈ nodes) :
    (found.flatMap next).length ≤ (nodes.map fun p => (next p).length).sum := by
  obtain ⟨same, perm, sublist⟩ := List.subperm_of_subset visits.nodup (visits.subset closed inside)
  rw [List.length_flatMap, ← (perm.map fun p => (next p).length).sum_eq]
  exact (sublist.map _).sum_le_sum fun _ _ => Nat.zero_le _

/-- A search among finitely many nodes ends. -/
theorem exists_visits {nodes : List α} (closed : ∀ p ∈ nodes, ∀ q ∈ next p, q ∈ nodes) (pending seen : List α)
    (inside : ∀ p ∈ pending, p ∈ nodes) : ∃ found, Visits next pending seen found := by
  match pending with
  | [] => exact ⟨[], .done⟩
  | p :: pending =>
    have here := inside p List.mem_cons_self
    have others : ∀ q ∈ pending, q ∈ nodes := fun q member => inside q (List.mem_cons_of_mem _ member)
    by_cases old : p ∈ seen
    · obtain ⟨found, rest⟩ := exists_visits closed pending seen others
      exact ⟨found, .known old rest⟩
    · have unseen : (nodes.filter (· ∉ p :: seen)).length < (nodes.filter (· ∉ seen)).length := by
        have apart : nodes.filter (· ∉ p :: seen) = (nodes.filter (· ∉ seen)).filter (· ≠ p) := by
          rw [List.filter_filter]
          exact List.filter_congr fun q _ => by simp
        rw [apart]
        exact List.length_filter_lt_length_iff_exists.mpr ⟨p, List.mem_filter.mpr ⟨here, by simpa using old⟩, by simp⟩
      obtain ⟨found, rest⟩ := exists_visits closed (pending ++ next p) (p :: seen) fun q member =>
        (List.mem_append.mp member).elim (others q) (closed p here q)
      exact ⟨p :: found, .new old rest⟩
termination_by ((nodes.filter (· ∉ seen)).length, pending.length)
decreasing_by
  · exact Prod.Lex.right _ (by simp)
  · exact Prod.Lex.left _ _ unseen

end

end MisuseSlice.Breadth
