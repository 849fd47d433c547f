import MisuseSlice.Proofs.Body.DeadCode
import MisuseSlice.Proofs.Body.Nesting
import MisuseSlice.Proofs.Program.Finalizing

/-! Preparation never fails on a finalized program. What the passes look up by a branch target lies in the body, since
a statement without a defect points into it and every pass keeps where statements point. -/
namespace MisuseSlice

/-- Every branch of the statements points at one of `size` positions. -/
def BranchesInside (size : Nat) (units : List Statement) : Prop :=
  ∀ u ∈ units, ∀ t ∈ u.jumps, 0 ≤ t ∧ t < size

instance (size : Nat) (units : List Statement) : Decidable (BranchesInside size units) :=
  inferInstanceAs (Decidable (∀ u ∈ units, ∀ t ∈ u.jumps, _ ∧ _))

namespace Statement

variable {size : Nat} {u : Statement} {t : Int}

theorem inMethod_iff {size : Int} : inMethod size t = true ↔ 0 ≤ t ∧ t < size := by
  simp [inMethod]

/-- A statement without a defect points into its method. -/
theorem jumps_inside (sound : u.defect? size = none) (jump : t ∈ u.jumps) : 0 ≤ t ∧ t < size := by
  simp only [jumps] at jump
  split at jump
  · rename_i kind
    simp only [defect?, kind] at sound
    cases List.mem_singleton.mp jump
    split at sound
    · cases sound
    · split at sound
      · rename_i inside
        exact inMethod_iff.mp inside
      · cases sound
  · rename_i kind
    simp only [defect?, kind] at sound
    cases List.mem_singleton.mp jump
    split at sound
    · rename_i inside
      exact inMethod_iff.mp inside
    · cases sound
  · rename_i kind
    simp only [defect?, kind] at sound
    split at sound
    · cases sound
    · have none_outside := List.find?_eq_none.mp (Option.map_eq_none_iff.mp sound) t jump
      exact inMethod_iff.mp (by simpa using none_outside)
  · simp at jump

end Statement

/-- Branches stay inside the body where statements are replaced. -/
theorem BranchesInside.of_replaces {size : Nat} {later earlier : List Statement} (inside : BranchesInside size earlier)
    (replaces : List.Forall₂ Statement.Replaces later earlier) : BranchesInside size later := by
  intro u member t jump
  obtain ⟨i, below, rfl⟩ := List.getElem_of_mem member
  have bound : i < earlier.length := replaces.length_eq ▸ below
  have kept := replaces.get below bound
  rw [List.get_eq_getElem, List.get_eq_getElem] at kept
  exact inside _ (List.getElem_mem bound) t (kept.jumps ▸ jump)

namespace Region

variable {units rest : List Statement} {u : Statement} {i : Nat}

/-- The region of a statement that points into the body is found, and it starts in the body. -/
theorem exists_ofStatement (inside : BranchesInside units.length units) (member : u ∈ units) :
    ∃ found, ofStatement units i u = some found ∧ ∀ r ∈ found, 0 ≤ r.start := by
  have here := inside u member
  simp only [ofStatement]
  split
  · rename_i kind
    have target : 0 ≤ u.target ∧ u.target < units.length := here u.target (by simp [Statement.jumps, kind])
    split
    · exact ⟨_, rfl, fun r found => Option.mem_some_iff.mp found ▸ target.1⟩
    · split
      · exact ⟨none, rfl, fun r found => by cases found⟩
      · have below : u.target.toNat - 1 < units.length := by omega
        have forward : ∀ r : Region, r.start = i + 1 → 0 ≤ r.start := fun r start => by omega
        rw [List.getElem?_eq_getElem below]
        simp only
        split
        · rename_i jumps
          rw [Bool.and_eq_true, beq_iff_eq] at jumps
          have ends : units[u.target.toNat - 1].target < units.length :=
            (inside _ (List.getElem_mem below) _ (by simp [Statement.jumps, jumps.1])).2
          rw [if_neg (by omega)]
          exact ⟨_, rfl, fun r found => forward r (Option.mem_some_iff.mp found ▸ rfl)⟩
        · exact ⟨_, rfl, fun r found => forward r (Option.mem_some_iff.mp found ▸ rfl)⟩
  · rename_i kind
    have target : 0 ≤ u.target ∧ u.target < units.length := here u.target (by simp [Statement.jumps, kind])
    refine ⟨_, rfl, fun r found => ?_⟩
    split at found
    · exact Option.mem_some_iff.mp found ▸ target.1
    · cases found
  · exact ⟨none, rfl, fun r found => by cases found⟩

theorem exists_ofStatements (inside : BranchesInside units.length units) (part : rest ⊆ units) :
    ∃ regions, ofStatements units i rest = some regions ∧ ∀ r ∈ regions, 0 ≤ r.start := by
  induction rest generalizing i with
  | nil => exact ⟨[], rfl, by simp⟩
  | cons u rest ih =>
    obtain ⟨found, first, start⟩ := exists_ofStatement (i := i) inside (part List.mem_cons_self)
    obtain ⟨more, others, starts⟩ := ih (i := i + 1) (List.subset_of_cons_subset part)
    refine ⟨found.toList ++ more, by simp only [ofStatements, first, others], fun r member => ?_⟩
    rcases List.mem_append.mp member with here | later
    · exact start r (Option.mem_toList.mp here)
    · exact starts r later

/-- The regions of a body whose branches point into it are found, and they start in the body. -/
theorem exists_all (inside : BranchesInside units.length units) :
    ∃ regions, all units = some regions ∧ ∀ r ∈ regions, 0 ≤ r.start :=
  exists_ofStatements inside (List.Subset.refl units)

end Region

namespace Renaming

variable {units rest : List Statement} {regions : List Region} {u : Statement} {pos : Nat} {slot : String}

theorem exists_define? (starts : ∀ r ∈ regions, 0 ≤ r.start) (units : List Statement) (s : Renaming)
    (slot : String) (pos : Nat) : ∃ defined, define? units regions s slot pos = some defined := by
  simp only [define?]
  split
  · exact ⟨_, rfl⟩
  · split
    · exact ⟨_, rfl⟩
    · rename_i i r inner
      have start := starts r (List.mem_of_getElem? (Region.innermost?_mem inner).1)
      split
      · rw [if_neg (by omega)]
        exact ⟨_, rfl⟩
      · exact ⟨_, rfl⟩
      · split
        · split <;> exact ⟨_, rfl⟩
        · exact ⟨_, rfl⟩

theorem exists_step? (starts : ∀ r ∈ regions, 0 ≤ r.start) (units : List Statement) (s : Renaming)
    (u : Statement) (pos : Nat) : ∃ stepped, step? units regions s u pos = some stepped := by
  simp only [step?]
  split
  · exact ⟨_, rfl⟩
  · obtain ⟨⟨new, after⟩, defined⟩ := exists_define? starts units (arrive regions s pos) u.defined.text pos
    rw [defined]
    cases new <;> exact ⟨_, rfl⟩

theorem exists_run? (starts : ∀ r ∈ regions, 0 ≤ r.start) (units rest : List Statement) (pos : Nat)
    (s : Renaming) : ∃ ran, run? units regions pos rest s = some ran := by
  induction rest generalizing pos s with
  | nil => exact ⟨_, rfl⟩
  | cons u rest ih =>
    obtain ⟨⟨u', after⟩, stepped⟩ := exists_step? starts units s u pos
    obtain ⟨⟨us, final⟩, tail⟩ := ih (pos + 1) after
    exact ⟨(u' :: us, final), by simp only [run?, stepped, tail]⟩

end Renaming

/-- A body whose branches point into it can be renamed. -/
theorem exists_renameBody? {units : List Statement} (inside : BranchesInside units.length units) :
    ∃ renamed aliases, renameBody? units = some (renamed, aliases) := by
  obtain ⟨regions, found, starts⟩ := Region.exists_all inside
  obtain ⟨⟨renamed, after⟩, ran⟩ := Renaming.exists_run? starts units units 0
    { counters := .ofStatements units }
  exact ⟨renamed, after.aliases, by simp only [renameBody?, found, ran, Option.map_some]⟩

namespace Folding

variable {live : Bool} {method : String} {units : List Statement} {p : Nat}

/-- What folding finds dead lies in the body. -/
theorem dead_inside (inside : BranchesInside units.length units) (dead : p ∈ (body live method units).2.1) :
    p < units.length := by
  obtain ⟨q, u, found, ruled⟩ := mem_body_dead.mp dead
  have member : u ∈ units := List.mem_of_getElem? found
  cases verdict : decided live method units q with
  | unknown => simp [verdict, ruledOut] at ruled
  | holds =>
    have kind : u.kind = .branchIf := by
      by_contra other
      simp [decided, Option.mem_def.mp found, other] at verdict
    have target := inside u member u.target (by simp [Statement.jumps, kind])
    have reach : ∀ last : Int, last < u.target → p ∈ range (q + 1) last → p < units.length := by
      intro last below ranged
      have := (mem_range_iff.mp ranged).2
      omega
    simp only [verdict, ruledOut] at ruled
    split at ruled
    · split at ruled
      · exact reach _ (by omega) ruled
      · exact reach _ (by omega) ruled
    · exact reach _ (by omega) ruled
  | fails =>
    simp only [verdict, ruledOut] at ruled
    split at ruled
    · simp at ruled
    · split at ruled
      · rename_i last ends
        split at ruled
        · rename_i jumps
          rw [Bool.and_eq_true, beq_iff_eq] at jumps
          have target := inside last (List.mem_of_getElem? ends) last.target (by simp [Statement.jumps, jumps.1])
          have := (mem_range_iff.mp ruled).2
          omega
        · simp at ruled
      · simp at ruled

end Folding

namespace Body

variable {constants : String → Option Value} {live : Bool} {method : String} {statements : List Statement}

theorem substitute_replaces (constants : String → Option Value) (u : Statement) :
    (substitute constants u).Replaces u := by
  simp only [substitute]
  split
  · rename_i read
    rw [Bool.and_eq_true, beq_iff_eq] at read
    split
    · exact ⟨rfl, .inr ⟨rfl, .inl read.1⟩⟩
    · exact .refl u
  · exact .refl u

/-- A body and the statements that it was prepared from. The three views have their length and carry positions,
the whole body differs from the source by no-ops where code is dead, and each statement of the source keeps kind and
branches or assigns a constant in place of a field read or of a call with a result. -/
structure PreparedFrom (b : Body) (statements : List Statement) : Prop where
  length_source : b.source.length = statements.length
  length_whole : b.whole.length = statements.length
  length_reversed : b.reversed.length = statements.length
  placed_source : ∀ (i : Nat) u, b.source[i]? = some u → u.pos = i
  placed_whole : ∀ (i : Nat) u, b.whole[i]? = some u → u.pos = i
  dead_inside : ∀ d ∈ b.dead, d < statements.length
  whole_dead : ∀ d ∈ b.dead, b.whole[d]? = some (Statement.nopAt d)
  whole_alive : ∀ i, i ∉ b.dead → b.whole[i]? = b.source[i]?
  reversed : b.reversed = b.whole.reverse
  replaces : List.Forall₂ Statement.Replaces b.source statements

/-- Statements at their positions whose branches point among them can be prepared. -/
theorem exists_prepare? (placed : ∀ (i : Nat) u, statements[i]? = some u → u.pos = i)
    (inside : BranchesInside statements.length statements) :
    ∃ b log, prepare? constants live method (statements.map some) = some (b, log) ∧ b.PreparedFrom statements := by
  have gapless : (statements.map some).any (·.isNone) = false := by simp
  have same : ((statements.map some).filterMap id).mapIdx (fun i u => { u with pos := i }) = statements := by
    refine List.ext_getElem? fun i => ?_
    rw [List.filterMap_map, Function.id_comp, List.filterMap_some, List.getElem?_mapIdx]
    cases here : statements[i]? with
    | none => rfl
    | some u => simp [← placed i u here]
  have substituted : List.Forall₂ Statement.Replaces (statements.map (substitute constants)) statements :=
    List.forall₂_map_left_iff.mpr (List.forall₂_same.mpr fun u _ => substitute_replaces constants u)
  have pointed : BranchesInside (statements.map (substitute constants)).length
      (statements.map (substitute constants)) := by
    rw [List.length_map]
    exact inside.of_replaces substituted
  obtain ⟨renamed, aliases, names⟩ := exists_renameBody? pointed
  have kept := Statement.Replaces.forall₂_trans (renameBody?_replaces names) substituted
  have source : List.Forall₂ Statement.Replaces
      (Folding.run live method renamed (Folding.branchTargets renamed) 0 renamed {}).1 statements :=
    Statement.Replaces.forall₂_trans Folding.run_replaces kept
  obtain ⟨b, log, prepared⟩ : ∃ b log, prepare? constants live method (statements.map some) = some (b, log) := by
    simp only [prepare?, gapless, same, names]
    exact ⟨_, _, rfl⟩
  refine ⟨b, log, prepared, ?_⟩
  have own := prepare?_prepared prepared
  obtain ⟨renamed', names', folded, dead⟩ := prepare?_folded prepared
  rw [renamed?, same, names, Option.map_some, Option.some.injEq] at names'
  subst names'
  rw [Folding.body] at folded
  have length : b.source.length = statements.length := by
    rw [folded]
    exact source.length_eq
  have insides : ∀ d ∈ b.dead, d < statements.length := by
    intro d member
    rw [dead] at member
    have bound := Folding.dead_inside (by simpa [kept.length_eq] using inside.of_replaces kept) member
    rwa [kept.length_eq] at bound
  exact {
    length_source := length
    length_whole := b.length_whole.trans length
    length_reversed := b.length_reversed.trans length
    placed_source := own.placed
    placed_whole := fun i u => own.placed.whole
    dead_inside := insides
    whole_dead := fun d member => by
      have below : d < b.source.length := length ▸ insides d member
      rw [whole_getElem?, List.getElem?_eq_getElem below, Option.map_some, if_pos (List.contains_iff_mem.mpr member)]
    whole_alive := fun i alive => b.whole_of_live alive
    reversed := rfl
    replaces := folded ▸ source }

end Body

/-- The body of a method as it is when a program that declares it with these statements is finalized. A body with a
defect is left empty. -/
def Method.finalBody (signature : String) (units : List Statement) : List Statement :=
  let (m, problem) := Method.finalized { signature, units := units.map some }
  if problem.isNone then m.units.filterMap id else []

end MisuseSlice
