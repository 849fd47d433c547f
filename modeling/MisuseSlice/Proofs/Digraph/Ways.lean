import Mathlib.Data.List.Chain
import Mathlib.Data.List.Nodup
import Mathlib.Data.List.Perm.Subperm
import Mathlib.Data.List.Range

/-! Ways up a graph. A way is written from its first node down, each node above the next one, and no node stands on it
twice. It goes on, at its front, to a node above the first one. The ways that can go on no further are found by a
depth-first search, each of them once. -/
namespace MisuseSlice.Ways

variable {up : Nat → List Nat} {way p : List Nat} {fuel order : Nat}

/-- The nodes that a way can go on to. -/
def onward (up : Nat → List Nat) (way : List Nat) : List Nat :=
  (way.head?.elim [] up).filter fun c => !way.contains c

/-- The ways that a way becomes when it goes on as far as it can. -/
def full (up : Nat → List Nat) : (fuel : Nat) → (way : List Nat) → List (List Nat)
  | 0, _ => []
  | fuel + 1, way =>
    if (onward up way).isEmpty then [way] else (onward up way).flatMap fun c => full up fuel (c :: way)

/-- Each node is above the next one, and no node comes twice. -/
structure IsWay (up : Nat → List Nat) (way : List Nat) : Prop where
  linked : way.IsChain fun above below => above ∈ up below
  simple : way.Nodup

theorem mem_onward {c : Nat} : c ∈ onward up way ↔ (∃ n, way.head? = some n ∧ c ∈ up n) ∧ c ∉ way := by
  cases way with
  | nil => simp [onward]
  | cons n rest => simp [onward]

theorem IsWay.cons {c : Nat} (isWay : IsWay up way) (next : c ∈ onward up way) : IsWay up (c :: way) := by
  obtain ⟨⟨n, first, above⟩, new⟩ := mem_onward.mp next
  refine ⟨List.isChain_cons.mpr ⟨fun n' first' => ?_, isWay.linked⟩, List.nodup_cons.mpr ⟨new, isWay.simple⟩⟩
  obtain rfl := Option.some.inj (first.symm.trans first')
  exact above

/-- What a list ends with is the list itself, or ends it after one more element. -/
theorem eq_or_suffix_of_suffix (suffix : way <:+ p) : p = way ∨ ∃ c, c :: way <:+ p := by
  obtain ⟨ext, rfl⟩ := suffix
  rcases List.eq_nil_or_concat ext with rfl | ⟨before, c, rfl⟩
  · exact .inl rfl
  · exact .inr ⟨c, before, by simp⟩

/-- A way that ends as another one does, and is longer, goes on from it. -/
theorem IsWay.onward_of_suffix {c : Nat} (isWay : IsWay up p) (suffix : c :: way <:+ p) (nonempty : way ≠ []) :
    c ∈ onward up way := by
  obtain ⟨n, rest, rfl⟩ := List.exists_cons_of_ne_nil nonempty
  obtain ⟨ext, rfl⟩ := suffix
  have linked := (List.isChain_append.mp isWay.linked).2.1
  have simple := (List.nodup_append.mp isWay.simple).2.1
  exact mem_onward.mpr ⟨⟨n, rfl, (List.isChain_cons_cons.mp linked).1⟩, (List.nodup_cons.mp simple).1⟩

theorem suffix_of_mem_full (member : p ∈ full up fuel way) : way <:+ p := by
  induction fuel generalizing way with
  | zero => cases member
  | succ fuel ih =>
    unfold full at member
    split at member
    · exact List.mem_singleton.mp member ▸ List.suffix_refl way
    · obtain ⟨c, _, later⟩ := List.mem_flatMap.mp member
      exact (List.suffix_cons c way).trans (ih later)

/-- The search finds the ways that end as the given one does and can go on no further, where there is fuel for one more
step than the longest of them takes. -/
theorem mem_full (below : ∀ n, ∀ c ∈ up n, c < order) (nonempty : way ≠ []) (isWay : IsWay up way)
    (inside : ∀ n ∈ way, n < order) (room : order < fuel + way.length) :
    p ∈ full up fuel way ↔ IsWay up p ∧ way <:+ p ∧ onward up p = [] := by
  induction fuel generalizing way with
  | zero =>
    -- a way of nodes below the order is no longer than that
    have short := (List.subperm_of_subset isWay.simple
      (fun n member => List.mem_range.mpr (inside n member) : way ⊆ List.range order)).length_le
    rw [List.length_range] at short
    omega
  | succ fuel ih =>
    unfold full
    by_cases ends : onward up way = []
    · rw [if_pos (List.isEmpty_iff.mpr ends), List.mem_singleton]
      constructor
      · rintro rfl
        exact ⟨isWay, List.suffix_refl p, ends⟩
      · rintro ⟨isWay', suffix, -⟩
        rcases eq_or_suffix_of_suffix suffix with rfl | ⟨c, longer⟩
        · rfl
        · have next := isWay'.onward_of_suffix longer nonempty
          rw [ends] at next
          cases next
    · rw [if_neg (by simpa using ends), List.mem_flatMap]
      have step : ∀ c ∈ onward up way, (p ∈ full up fuel (c :: way) ↔ IsWay up p ∧ c :: way <:+ p ∧ onward up p = []) := by
        intro c next
        obtain ⟨⟨n, _, above⟩, _⟩ := mem_onward.mp next
        refine ih (List.cons_ne_nil _ _) (isWay.cons next) ?_ (by rw [List.length_cons]; omega)
        exact List.forall_mem_cons.mpr ⟨below n c above, inside⟩
      constructor
      · rintro ⟨c, next, member⟩
        obtain ⟨isWay', suffix, ends'⟩ := (step c next).mp member
        exact ⟨isWay', (List.suffix_cons c way).trans suffix, ends'⟩
      · rintro ⟨isWay', suffix, ends'⟩
        rcases eq_or_suffix_of_suffix suffix with rfl | ⟨c, longer⟩
        · exact absurd ends' ends
        · have next := isWay'.onward_of_suffix longer nonempty
          exact ⟨c, next, (step c next).mpr ⟨isWay', longer, ends'⟩⟩

/-- The search finds no way twice. -/
theorem nodup_full (nodup : ∀ n, (up n).Nodup) : (full up fuel way).Nodup := by
  induction fuel generalizing way with
  | zero => exact List.nodup_nil
  | succ fuel ih =>
    unfold full
    split
    · exact List.nodup_singleton way
    · refine List.nodup_flatMap.mpr ⟨fun c _ => ih, ?_⟩
      have onwards : (onward up way).Nodup := by
        cases way with
        | nil => exact List.nodup_nil
        | cons n rest => exact (nodup n).filter _
      refine onwards.imp_of_mem fun {a b} _ _ different => ?_
      intro p first second
      obtain ⟨ext, same⟩ := suffix_of_mem_full first
      obtain ⟨ext', same'⟩ := suffix_of_mem_full second
      have ends : ext = ext' ∧ a :: way = b :: way := List.append_inj' (same.trans same'.symm) rfl
      exact different (List.cons.inj ends.2).1

end MisuseSlice.Ways
