import Mathlib.Algebra.Order.BigOperators.Group.List
import Mathlib.Algebra.Order.Ring.Nat
import MisuseSlice.Criterion.Ledger
import MisuseSlice.Proofs.Body.Prepared

/-! Where criteria come from. What is created for a method depends on its prepared body alone, never on
what was created before, and every criterion stands at its seed statement. -/
namespace MisuseSlice

/-- An argument is the receiver or one of those given, where it is there. -/
theorem Statement.arg_cases (u : Statement) (i : Int) : (u.arg i = u.base ∨ u.arg i ∈ u.args) ∨ u.arg i = {} := by
  unfold arg
  split
  · exact .inl (.inl rfl)
  · cases i with
    | ofNat n =>
      simp only [List.getD_eq_getElem?_getD]
      cases found : u.args[n]? with
      | none => exact .inr rfl
      | some v => exact .inl (.inr (List.mem_of_getElem? found))
    | negSucc n => exact .inr rfl

namespace Criterion

/-- The criterion stands in the body, and its place in the reversed body is that of its position. -/
structure SeededIn (c : Criterion) (b : Body) : Prop where
  inside : c.pos < b.size
  mirrored : c.start = b.mirror c.pos

/-- The criteria of the seeds of a method. -/
def created (w : Workspace) (caller target : String) (kind : SeedKind) (positions : List Int) (level : Int) :
    List Criterion :=
  if kind == .invoke && positions.isEmpty && !(Signature.paramTypes target).isEmpty then []
  else
    match w.body? caller with
    | none => []
    | some b => inBody b.source caller target kind positions level

/-- A criterion is made of the statement that it stands at. -/
theorem mem_inBody {source : List Statement} {caller target : String} {kind : SeedKind}
    {positions : List Int} {level : Int} {c : Criterion} :
    c ∈ inBody source caller target kind positions level ↔
      ∃ i u, source.reverse[i]? = some u ∧ isSeed u target kind = true ∧ valuesOf u kind positions ≠ [] ∧
        c = ofSeed caller target kind u i positions (valuesOf u kind positions) level := by
  rw [inBody, List.mem_filterMap]
  constructor
  · rintro ⟨entry, member, rfl⟩
    obtain ⟨i, here⟩ := List.mem_iff_getElem?.mp member
    rw [List.getElem?_mapIdx] at here
    obtain ⟨u, found, value⟩ := Option.map_eq_some_iff.mp here
    split at value
    · rename_i seed
      dsimp only at value
      split at value
      · cases value
      · rename_i some
        exact ⟨i, u, found, seed, by simpa using some, (Option.some.inj value).symm⟩
    · cases value
  · rintro ⟨i, u, found, seed, some, rfl⟩
    refine ⟨_, List.mem_iff_getElem?.mpr ⟨i, ?_⟩, rfl⟩
    rw [List.getElem?_mapIdx, found]
    simp [seed, some]

/-- In a prepared body a criterion is made of the statement at its position, and its place is that of the position in the
reversed body. -/
theorem mem_inBody_placed {b : Body} (prepared : b.Prepared) {caller target : String} {kind : SeedKind}
    {positions : List Int} {level : Int} {c : Criterion} :
    c ∈ inBody b.source caller target kind positions level ↔
      ∃ n u, b.source[n]? = some u ∧ u.pos = n ∧ isSeed u target kind = true ∧ valuesOf u kind positions ≠ [] ∧
        c = ofSeed caller target kind u (b.size - 1 - n) positions (valuesOf u kind positions) level := by
  rw [mem_inBody]
  constructor
  · rintro ⟨i, u, here, seed, some_, rfl⟩
    obtain ⟨inside, _⟩ := List.getElem?_eq_some_iff.mp here
    rw [List.length_reverse] at inside
    have bound : i < b.size := inside
    have source : b.source[b.size - 1 - i]? = some u := by
      rw [← here, List.getElem?_reverse inside]
      rfl
    refine ⟨b.size - 1 - i, u, source, prepared.placed _ _ source, seed, some_, ?_⟩
    rw [Nat.sub_sub_self (Nat.le_sub_one_of_lt bound)]
  · rintro ⟨n, u, here, -, seed, some_, rfl⟩
    obtain ⟨inside, _⟩ := List.getElem?_eq_some_iff.mp here
    have bound : n < b.size := inside
    refine ⟨b.size - 1 - n, u, ?_, seed, some_, rfl⟩
    have mirrored : b.source.length - 1 - (b.size - 1 - n) = n := Nat.sub_sub_self (Nat.le_sub_one_of_lt bound)
    have within : b.size - 1 - n < b.source.length := (Nat.sub_le _ _).trans_lt (Nat.sub_one_lt_of_lt bound)
    rw [List.getElem?_reverse within, mirrored, here]

/-- The values of interest of a call are its receiver and arguments that are there. -/
theorem mem_valuesOf_call {u : Statement} {kind : SeedKind} {positions : List Int} {v : Value}
    (call : kind = .invoke ∨ kind = .parameter) (member : v ∈ valuesOf u kind positions) :
    v.text ≠ "" ∧ (v = u.base ∨ v ∈ u.args) := by
  have named : v ∈ (if !u.kind.isInvoke then [] else if positions.isEmpty then [u.base] else positions.map u.arg) ∧
      v.text ≠ "" := by
    rcases call with rfl | rfl <;> simpa [valuesOf, Value.isAbsent] using member
  obtain ⟨member, there⟩ := named
  refine ⟨there, ?_⟩
  split at member
  · cases member
  · split at member
    · exact .inl (List.mem_singleton.mp member)
    · obtain ⟨i, _, rfl⟩ := List.mem_map.mp member
      exact (Statement.arg_cases u i).resolve_right fun absent => there (absent ▸ rfl)

end Criterion

namespace Ledger

variable {l : Ledger} {w : Workspace}

@[simp] theorem openBody_fst {method : String} : (l.openBody w method).1 = w.body? method := by
  unfold openBody
  split
  · rfl
  · unfold Workspace.body?
    split
    · rename_i b log found
      simp [found]
    · rename_i missing
      rw [missing]
      split <;> rfl

@[simp] theorem create_fst {caller target : String} {kind : SeedKind} {positions : List Int} {level : Int} :
    (l.create w caller target kind positions level).1 =
      Criterion.created w caller target kind positions level := by
  unfold create Criterion.created
  split
  · rfl
  · rw [← openBody_fst (l := l)]
    split <;> rename_i opened <;> simp [opened]

end Ledger

namespace Criterion

variable {w : Workspace} {caller target : String} {kind : SeedKind} {positions : List Int} {level : Int}
  {c : Criterion}

/-- What a created criterion says of its seed. -/
structure StandsAt (c : Criterion) (b : Body) (u : Statement) : Prop where
  statement : b.source[c.pos]? = some u
  seeded : c.SeededIn b
  seed : isSeed u c.target c.kind = true
  values : valuesOf u c.kind c.positions ≠ []
  targets : c.targets = normalized (valuesOf u c.kind c.positions)

/-- A created criterion belongs to what it was asked for and stands at a seed of the body. -/
theorem mem_created (prepared : ∀ b, w.body? caller = some b → b.Prepared)
    (member : c ∈ created w caller target kind positions level) :
    (c.caller = caller ∧ c.target = target ∧ c.kind = kind ∧ c.positions = positions ∧ c.level = level) ∧
      ∃ b u, w.body? caller = some b ∧ c.StandsAt b u := by
  unfold created at member
  split at member
  · cases member
  · split at member
    · cases member
    · rename_i b found
      obtain ⟨n, u, here, place, seed, some, rfl⟩ := (mem_inBody_placed (prepared b found)).mp member
      obtain ⟨inside, _⟩ := List.getElem?_eq_some_iff.mp here
      have bound : n < b.size := inside
      refine ⟨⟨rfl, rfl, rfl, rfl, rfl⟩, b, u, found, ?_, ⟨?_, ?_⟩, seed, some, rfl⟩
      · simpa only [ofSeed, place] using here
      · simpa only [ofSeed, place] using bound
      · simp only [ofSeed, place, Body.mirror]
        omega

/-- A created criterion is of the kind that was asked for. -/
theorem kind_of_created (member : c ∈ created w caller target kind positions level) : c.kind = kind := by
  unfold created at member
  split at member
  · cases member
  · split at member
    · cases member
    · obtain ⟨_, _, _, _, _, rfl⟩ := mem_inBody.mp member
      rfl

theorem length_inBody_le {source : List Statement} :
    (inBody source caller target kind positions level).length ≤ source.length := by
  unfold inBody
  exact (List.length_filterMap_le _ _).trans (by simp)

end Criterion

namespace Workspace

variable {w : Workspace}

/-- A body has no more statements than all of them. -/
theorem size_le {method : String} {b : Body} (found : w.body? method = some b) : b.size ≤ w.size := by
  obtain ⟨x, here, rfl⟩ := Option.map_eq_some_iff.mp found
  have member : (method, x) ∈ w.bodies.toList := Std.TreeMap.mem_toList_iff_getElem?_eq_some.mpr here
  exact List.le_sum_of_mem (List.mem_map_of_mem (f := fun e : String × Body × Log => e.2.1.size) member)

/-- One pass over a method gives no more criteria than there are statements. -/
theorem length_created_le {caller target : String} {kind : SeedKind} {positions : List Int} {level : Int} :
    (Criterion.created w caller target kind positions level).length ≤ w.size := by
  unfold Criterion.created
  split
  · exact Nat.zero_le _
  · split
    · exact Nat.zero_le _
    · rename_i b found
      exact Criterion.length_inBody_le.trans (size_le found)

theorem length_flatMap_le {α β : Type} (f : α → List β) (xs : List α) {bound : Nat}
    (each : ∀ x ∈ xs, (f x).length ≤ bound) : (xs.flatMap f).length ≤ xs.length * bound := by
  rw [List.length_flatMap]
  exact (List.sum_le_card_nsmul _ _ (by simpa using each)).trans (by simp)

theorem length_getD_flatten {xs : List (List Nat)} {n : Nat} : (xs.getD n []).length ≤ xs.flatten.length := by
  rw [List.getD_eq_getElem?_getD]
  cases found : xs[n]? with
  | none => exact Nat.zero_le _
  | some ys =>
    rw [List.length_flatten]
    exact List.le_sum_of_mem (List.mem_map_of_mem (List.mem_of_getElem? found))

theorem length_accessorSignatures_le {field : String} :
    (w.graph.accessorSignatures field).length ≤ w.links := by
  unfold CallGraph.accessorSignatures
  split
  · rw [Text.sort, Sorting.length_sort, List.length_map]
    exact length_getD_flatten.trans (Nat.le_add_left _ _)
  · exact Nat.zero_le _

theorem length_callerSignatures_le {method : String} :
    (w.graph.callerSignatures method).length ≤ w.links := by
  unfold CallGraph.callerSignatures
  split
  · rw [Text.sort, Sorting.length_sort, List.length_map]
    exact length_getD_flatten.trans (Nat.le_add_right _ _)
  · exact Nat.zero_le _

end Workspace

end MisuseSlice
