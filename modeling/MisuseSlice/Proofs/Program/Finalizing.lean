import Mathlib
import MisuseSlice.Program.Basic

/-! Finalized programs. Finalizing settles a body once and for all: a second time finds every statement at its
position and without a defect, and reports only what can never be repaired, classes without a name and methods
without a signature. -/
namespace MisuseSlice

/-- The problem is one of a declaration, which finalizing cannot repair; a defective body is dropped. -/
def Problem.isLasting : Problem → Bool
  | .statement _ _ _ => false
  | .namelessClass | .methodSignature _ => true

/-- What a pass over a list changes and reports the second time, from what it does to an entry. -/
theorem map_settled {α : Type} {f : α → α × List Problem}
    (settled : ∀ a, f (f a).1 = ((f a).1, (f a).2.filter Problem.isLasting)) (as : List α) :
    (((as.map f).map (·.1)).map f).map (·.1) = (as.map f).map (·.1) ∧
      (((as.map f).map (·.1)).map f).flatMap (·.2) = ((as.map f).flatMap (·.2)).filter Problem.isLasting := by
  induction as with
  | nil => simp
  | cons a as ih =>
    obtain ⟨kept, reported⟩ := ih
    simp only [List.map_cons, List.flatMap_cons, List.filter_append, settled a, kept, reported, and_self]

namespace Method

variable {m : Method} {size i : Nat} {s : Statement} {className : String}

/-- Every entry of the body is a statement that carries its position and has no defect. -/
def IsFinal (m : Method) : Prop :=
  ∀ i u, m.units[i]? = some u → ∃ s : Statement, u = some s ∧ s.pos = i ∧ s.defect? m.units.length = none

theorem firstDefect?_eq_none_iff {ss : List Statement} :
    firstDefect? size ss = none ↔ ∀ s ∈ ss, s.defect? size = none := by
  induction ss with
  | nil => simp [firstDefect?]
  | cons s rest ih =>
    simp only [firstDefect?, List.mem_cons, forall_eq_or_imp]
    split
    · rename_i found
      simp [found]
    · rename_i sound
      simp [sound, ih]

@[simp] theorem length_positioned : m.positioned.length = m.units.length := by simp [positioned]

/-- A positioned statement carries its position. -/
theorem positioned_pos (found : m.positioned[i]? = some s) : s.pos = i := by
  rw [positioned, List.getElem?_mapIdx] at found
  obtain ⟨u, _, rfl⟩ := Option.map_eq_some_iff.mp found
  cases u <;> rfl

/-- Finalizing leaves a body whose statements carry their positions and have no defect. -/
theorem finalized_isFinal (m : Method) : m.finalized.1.IsFinal := by
  intro i u found
  rw [finalized] at found ⊢
  split at found
  · simp at found
  · rename_i sound
    rw [List.getElem?_map] at found
    obtain ⟨s, here, rfl⟩ := Option.map_eq_some_iff.mp found
    refine ⟨s, rfl, positioned_pos here, ?_⟩
    simpa [sound] using firstDefect?_eq_none_iff.mp sound s (List.mem_of_getElem? here)

@[simp] theorem finalized_signature (m : Method) : m.finalized.1.signature = m.signature := by
  rw [finalized]
  split <;> rfl

/-- The positions of a final body are set already. -/
theorem IsFinal.map_positioned (final : m.IsFinal) : m.positioned.map some = m.units := by
  refine List.ext_getElem? fun i => ?_
  rw [List.getElem?_map, positioned, List.getElem?_mapIdx, Option.map_map]
  cases here : m.units[i]? with
  | none => rfl
  | some u =>
    obtain ⟨s, rfl, placed, _⟩ := final i u here
    simp [← placed]

/-- A final body stays as it is. -/
theorem IsFinal.finalized (final : m.IsFinal) : m.finalized = (m, none) := by
  have sound : firstDefect? m.units.length m.positioned = none := by
    refine firstDefect?_eq_none_iff.mpr fun s member => ?_
    have entry : some s ∈ m.units := by
      rw [← final.map_positioned]
      exact List.mem_map_of_mem member
    obtain ⟨i, inside, here⟩ := List.getElem_of_mem entry
    obtain ⟨s', same, _, sound⟩ := final i _ (List.getElem?_eq_getElem inside)
    rw [here] at same
    cases same
    exact sound
  simp only [Method.finalized, sound, final.map_positioned]

/-- The statements of a final body, one for each entry. -/
theorem IsFinal.units_eq (final : m.IsFinal) : m.units = m.statements.map some := by
  have entries : m.statements = m.positioned := by
    rw [statements, ← final.map_positioned, List.filterMap_map]
    simp
  rw [entries, final.map_positioned]

theorem IsFinal.length_statements (final : m.IsFinal) : m.statements.length = m.units.length := by
  rw [final.units_eq, List.length_map]

/-- A statement of a final body carries its position and has no defect. -/
theorem IsFinal.statement (final : m.IsFinal) (found : m.statements[i]? = some s) :
    s.pos = i ∧ s.defect? m.statements.length = none := by
  have entry : m.units[i]? = some (some s) := by
    rw [final.units_eq, List.getElem?_map, found, Option.map_some]
  obtain ⟨s', same, placed, sound⟩ := final i _ entry
  cases same
  exact ⟨placed, final.length_statements ▸ sound⟩

theorem finalizedIn_signed (signed : Signature.isMethod m.signature = true) :
    finalizedIn className (some m) = (some m.finalized.1, m.finalized.2.toList) := by
  simp only [finalizedIn, signed, ↓reduceIte]

theorem finalizedIn_unsigned (unsigned : Signature.isMethod m.signature = false) :
    finalizedIn className (some m) = (some m, [.methodSignature className]) := by
  simp only [finalizedIn, unsigned, Bool.false_eq_true, ↓reduceIte]

theorem finalizedIn_settled (className : String) (m : Option Method) :
    finalizedIn className (finalizedIn className m).1 =
      ((finalizedIn className m).1, (finalizedIn className m).2.filter Problem.isLasting) := by
  rcases m with _ | m
  · rfl
  · cases signed : Signature.isMethod m.signature with
    | false =>
      rw [finalizedIn_unsigned signed, finalizedIn_unsigned signed]
      rfl
    | true =>
      have again : Signature.isMethod m.finalized.1.signature = true := by rwa [finalized_signature]
      -- the one problem that a body can have is not reported again
      have repaired : m.finalized.2.toList.filter Problem.isLasting = [] := by
        rw [finalized]
        split <;> rfl
      rw [finalizedIn_signed signed, finalizedIn_signed again, m.finalized_isFinal.finalized, repaired]
      rfl

end Method

namespace ClassDecl

variable {c : ClassDecl} {m : Method}

@[simp] theorem finalized_name (c : ClassDecl) : c.finalized.1.name = c.name := rfl

theorem finalized_settled (c : ClassDecl) :
    c.finalized.1.finalized = (c.finalized.1, c.finalized.2.filter Problem.isLasting) := by
  obtain ⟨kept, reported⟩ := map_settled (Method.finalizedIn_settled c.name) c.methods
  refine Prod.ext ?_ reported
  simp only [finalized, mk.injEq, true_and]
  exact kept

theorem finalizedIn_named (named : c.name ≠ "") : finalizedIn (some c) = (some c.finalized.1, c.finalized.2) := by
  simp only [finalizedIn, beq_iff_eq, named, ↓reduceIte]

theorem finalizedIn_nameless (nameless : c.name = "") : finalizedIn (some c) = (some c, [.namelessClass]) := by
  simp only [finalizedIn, nameless, beq_self_eq_true, ↓reduceIte]

theorem finalizedIn_settled (c : Option ClassDecl) :
    finalizedIn (finalizedIn c).1 = ((finalizedIn c).1, (finalizedIn c).2.filter Problem.isLasting) := by
  rcases c with _ | c
  · rfl
  · by_cases nameless : c.name = ""
    · rw [finalizedIn_nameless nameless, finalizedIn_nameless nameless]
      rfl
    · rw [finalizedIn_named nameless, finalizedIn_named (c := c.finalized.1) nameless, finalized_settled]

/-- The methods with a signature of a finalized class are final. -/
theorem isFinal_of_indexed (member : m ∈ c.finalized.1.indexedMethods) : m.IsFinal := by
  obtain ⟨entry, listed, chosen⟩ := List.mem_filterMap.mp member
  simp only [finalized, List.map_map] at listed
  obtain ⟨before, _, rfl⟩ := List.mem_map.mp listed
  rcases before with _ | before
  · cases chosen
  · rw [Function.comp_apply] at chosen
    cases signed : Signature.isMethod before.signature with
    | false =>
      rw [Method.finalizedIn_unsigned signed] at chosen
      simp [signed] at chosen
    | true =>
      rw [Method.finalizedIn_signed signed] at chosen
      simp only [Method.finalized_signature, signed, ↓reduceIte, Option.some.injEq] at chosen
      exact chosen ▸ before.finalized_isFinal

end ClassDecl

namespace Program

variable {p : Program} {c : ClassDecl} {m : Method} {sig : String}

/-- Finalizing again keeps the program with its indexes, and reports only classes without a name and methods
without a signature. -/
theorem finalize_settled (p : Program) :
    p.finalize.1.finalize = (p.finalize.1, p.finalize.2.filter Problem.isLasting) := by
  obtain ⟨kept, reported⟩ := map_settled ClassDecl.finalizedIn_settled p.classes
  refine Prod.ext ?_ reported
  simp only [finalize, indexed, namedClasses, Option.getD_some]
  simp only [kept]

theorem named_of_namedClasses (member : c ∈ p.namedClasses) : c.name ≠ "" := by
  obtain ⟨entry, _, chosen⟩ := List.mem_filterMap.mp member
  rcases entry with _ | found
  · cases chosen
  · dsimp only at chosen
    split at chosen
    · cases chosen
    · rename_i named
      cases chosen
      simpa using named

/-- The named classes of a finalized program are finalized. -/
theorem finalized_of_named (member : c ∈ p.finalize.1.namedClasses) : ∃ before : ClassDecl, c = before.finalized.1 := by
  obtain ⟨entry, listed, chosen⟩ := List.mem_filterMap.mp member
  simp only [finalize, indexed, List.map_map] at listed
  obtain ⟨before, _, rfl⟩ := List.mem_map.mp listed
  rcases before with _ | before
  · cases chosen
  · rw [Function.comp_apply] at chosen
    by_cases nameless : before.name = ""
    · rw [ClassDecl.finalizedIn_nameless nameless] at chosen
      simp [nameless] at chosen
    · rw [ClassDecl.finalizedIn_named nameless] at chosen
      simp only [ClassDecl.finalized_name, beq_iff_eq, nameless, ↓reduceIte, Option.some.injEq] at chosen
      exact ⟨before, chosen.symm⟩

/-- What the method index of a finalized program knows is final. -/
theorem isFinal_of_method? (found : p.finalize.1.method? sig = some m) : m.IsFinal := by
  let known (ix : Std.TreeMap String Method) : Prop := ∀ (sig : String) (m : Method), ix[sig]? = some m → m.IsFinal
  have all : known p.finalize.1.methodIndex := by
    refine List.foldlRecOn (motive := known) p.finalize.1.namedClasses _ (by simp [known]) fun ix known c named => ?_
    obtain ⟨before, rfl⟩ := finalized_of_named named
    refine List.foldlRecOn (motive := _) before.finalized.1.indexedMethods _ known fun ix known m member sig m' here => ?_
    rw [Std.TreeMap.getElem?_insert] at here
    split at here
    · cases here
      exact ClassDecl.isFinal_of_indexed member
    · exact known sig m' here
  exact all sig m found

/-- The statements that a finalized program gives for a method carry their positions and have no defect. -/
theorem statements_final {i : Nat} {u : Statement} (found : (p.finalize.1.statements sig)[i]? = some u) :
    u.pos = i ∧ u.defect? (p.finalize.1.statements sig).length = none := by
  rw [statements] at found ⊢
  split at found
  · rename_i m known
    exact (isFinal_of_method? known).statement found
  · simp at found

end Program

end MisuseSlice
