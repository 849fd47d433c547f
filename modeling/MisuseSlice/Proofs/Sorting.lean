import Mathlib.Data.List.Perm.Basic
import Mathlib.Data.String.Basic
import MisuseSlice.Text.Basic

/-! Sorting by insertion in a linear order. The elements stay the same, and where they are all different they ascend
strictly. -/
namespace MisuseSlice

namespace Sorting

section

variable {α : Type} {le : α → α → Bool}

theorem insert_perm (a : α) (xs : List α) : (insert le a xs).Perm (a :: xs) := by
  induction xs with
  | nil => exact .refl _
  | cons b bs ih =>
    simp only [insert]
    split
    · exact .refl _
    · exact (ih.cons b).trans (.swap a b bs)

theorem sort_perm (xs : List α) : (sort le xs).Perm xs := by
  induction xs with
  | nil => exact .refl _
  | cons a xs ih => exact (insert_perm a (sort le xs)).trans (ih.cons a)

end

variable {α : Type} [LinearOrder α] {le : α → α → Bool} (order : ∀ a b, le a b = true ↔ a ≤ b)

include order

theorem pairwise_insert {a : α} {xs : List α} (ascending : xs.Pairwise (· ≤ ·)) :
    (insert le a xs).Pairwise (· ≤ ·) := by
  induction xs with
  | nil => exact List.pairwise_singleton _ _
  | cons b bs ih =>
    obtain ⟨first, rest⟩ := List.pairwise_cons.mp ascending
    simp only [insert]
    split
    · rename_i below
      have below := (order a b).mp below
      refine .cons (fun c member => ?_) ascending
      rcases List.mem_cons.mp member with rfl | later
      · exact below
      · exact below.trans (first c later)
    · rename_i above
      have above : b ≤ a := (le_total a b).resolve_left fun below => above ((order a b).mpr below)
      refine .cons (fun c member => ?_) (ih rest)
      rcases mem_insert.mp member with rfl | later
      · exact above
      · exact first c later

theorem pairwise_sort (xs : List α) : (sort le xs).Pairwise (· ≤ ·) := by
  induction xs with
  | nil => exact .nil
  | cons a xs ih => exact pairwise_insert order ih

/-- Elements that are all different are sorted in strictly ascending order. -/
theorem pairwise_lt_sort {xs : List α} (distinct : xs.Nodup) : (sort le xs).Pairwise (· < ·) :=
  (pairwise_sort order xs).imp₂ (fun _ _ le ne => lt_of_le_of_ne le ne) ((sort_perm xs).nodup_iff.mpr distinct)

end Sorting

/-- Texts that are all different are sorted in strictly ascending order. -/
theorem Text.pairwise_sort {xs : List String} (distinct : xs.Nodup) : (Text.sort xs).Pairwise (· < ·) :=
  Sorting.pairwise_lt_sort (fun _ _ => decide_eq_true_iff) distinct

end MisuseSlice
