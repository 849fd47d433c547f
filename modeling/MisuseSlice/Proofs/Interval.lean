import Mathlib
import MisuseSlice.Interval

/-! Comparisons of intervals are exact. A verdict that a comparison holds or fails speaks of all pairs of numbers of the
two intervals, and it is unknown only where some pairs are in the relation and others are not. -/
namespace MisuseSlice

/-- The relation between two numbers that the text of an operator stands for. -/
def Comparison.relation? : String → Option (Rat → Rat → Prop)
  | "<" => some (· < ·)
  | "<=" => some (· ≤ ·)
  | ">" => some (· > ·)
  | ">=" => some (· ≥ ·)
  | "==" => some (· = ·)
  | "=" => some (· = ·)
  | "!=" => some (· ≠ ·)
  | _ => none

/-- A verdict says exactly what is true of a relation between all numbers of two intervals. -/
structure Verdict.IsExact (v : Verdict) (r : Rat → Rat → Prop) (a b : Interval) : Prop where
  holds_iff : v = .holds ↔ ∀ x y, Interval.Mem x a → Interval.Mem y b → r x y
  fails_iff : v = .fails ↔ ∀ x y, Interval.Mem x a → Interval.Mem y b → ¬r x y
  unknown_iff : v = .unknown ↔
    (∃ x y, Interval.Mem x a ∧ Interval.Mem y b ∧ r x y) ∧ ∃ x y, Interval.Mem x a ∧ Interval.Mem y b ∧ ¬r x y

namespace Verdict.IsExact

variable {v : Verdict} {r : Rat → Rat → Prop} {a b : Interval}

/-- The certainties settle what is unknown. -/
theorem of_certain (holds_iff : v = .holds ↔ ∀ x y, Interval.Mem x a → Interval.Mem y b → r x y)
    (fails_iff : v = .fails ↔ ∀ x y, Interval.Mem x a → Interval.Mem y b → ¬r x y) : v.IsExact r a b := by
  refine ⟨holds_iff, fails_iff, ?_⟩
  have uncertain : v = .unknown ↔ ¬v = .fails ∧ ¬v = .holds := by cases v <;> decide
  rw [uncertain, holds_iff, fails_iff]
  push Not
  exact Iff.rfl

/-- A relation read from right to left. -/
theorem swap (exact : v.IsExact r b a) : v.IsExact (fun x y => r y x) a b :=
  of_certain
    (exact.holds_iff.trans ⟨fun all x y x_in y_in => all y x y_in x_in, fun all y x y_in x_in => all x y x_in y_in⟩)
    (exact.fails_iff.trans ⟨fun all x y x_in y_in => all y x y_in x_in, fun all y x y_in x_in => all x y x_in y_in⟩)

/-- The negated relation. -/
theorem negate (exact : v.IsExact r a b) : v.negate.IsExact (fun x y => ¬r x y) a b := by
  have certain : (v.negate = .holds ↔ v = .fails) ∧ (v.negate = .fails ↔ v = .holds) := by cases v <;> decide
  refine of_certain (certain.1.trans exact.fails_iff) (certain.2.trans (exact.holds_iff.trans ?_))
  simp only [not_not]

end Verdict.IsExact

namespace Interval

variable {a b : Interval}

theorem mem_lower (proper : a.lower ≤ a.upper) : Mem a.lower a := ⟨le_rfl, proper⟩

theorem mem_upper (proper : a.lower ≤ a.upper) : Mem a.upper a := ⟨proper, le_rfl⟩

/-- A comparison of two intervals with ends in order is exact if its first test finds that all pairs are in the relation,
and its second that none is. -/
theorem exact_of_tests {r : Rat → Rat → Prop} {p q : Prop} [Decidable p] [Decidable q] (left : a.lower ≤ a.upper)
    (right : b.lower ≤ b.upper) (all : p ↔ ∀ x y, Mem x a → Mem y b → r x y)
    (none : q ↔ ∀ x y, Mem x a → Mem y b → ¬r x y) :
    (if p then Verdict.holds else if q then .fails else .unknown).IsExact r a b := by
  have apart : p → ¬q := fun here there =>
    none.mp there _ _ (mem_lower left) (mem_lower right) (all.mp here _ _ (mem_lower left) (mem_lower right))
  refine .of_certain (Iff.trans ?_ all) (Iff.trans ?_ none)
  · split
    · simpa
    · split <;> simpa
  · split
    · simpa using apart ‹p›
    · split <;> simpa

/-- All pairs are in strict order if the inner ends are, and none is if the outer ends are not. -/
theorem less_exact (left : a.lower ≤ a.upper) (right : b.lower ≤ b.upper) : (less a b).IsExact (· < ·) a b := by
  refine exact_of_tests left right ⟨fun apart x y x_in y_in => ?_, fun all => ?_⟩
    ⟨fun apart x y x_in y_in => ?_, fun none => ?_⟩
  · exact (x_in.2.trans_lt apart).trans_le y_in.1
  · exact all _ _ (mem_upper left) (mem_lower right)
  · exact not_lt.mpr ((y_in.2.trans apart).trans x_in.1)
  · exact not_lt.mp (none _ _ (mem_lower left) (mem_upper right))

theorem lessOrEqual_exact (left : a.lower ≤ a.upper) (right : b.lower ≤ b.upper) :
    (lessOrEqual a b).IsExact (· ≤ ·) a b := by
  refine exact_of_tests left right ⟨fun apart x y x_in y_in => ?_, fun all => ?_⟩
    ⟨fun apart x y x_in y_in => ?_, fun none => ?_⟩
  · exact (x_in.2.trans apart).trans y_in.1
  · exact all _ _ (mem_upper left) (mem_lower right)
  · exact not_le.mpr ((y_in.2.trans_lt apart).trans_le x_in.1)
  · exact not_le.mp (none _ _ (mem_lower left) (mem_upper right))

/-- All pairs are equal only if both intervals are the same point, and none is if the intervals lie apart. -/
theorem equal_exact (left : a.lower ≤ a.upper) (right : b.lower ≤ b.upper) : (equal a b).IsExact (· = ·) a b := by
  refine exact_of_tests left right ?_ ?_
  · simp only [isPoint, Bool.and_eq_true, beq_iff_eq]
    constructor
    · rintro ⟨⟨first, second⟩, same⟩ x y x_in y_in
      have x_eq : x = a.lower := le_antisymm (first ▸ x_in.2) x_in.1
      have y_eq : y = b.lower := le_antisymm (second ▸ y_in.2) y_in.1
      rw [x_eq, y_eq, same]
    · intro all
      have low := all _ _ (mem_lower left) (mem_lower right)
      have high := all _ _ (mem_upper left) (mem_lower right)
      have other := all _ _ (mem_lower left) (mem_upper right)
      exact ⟨⟨low.trans high.symm, low.symm.trans other⟩, low⟩
  · constructor
    · rintro (apart | apart) x y x_in y_in rfl
      · exact absurd (y_in.1.trans x_in.2) (not_le.mpr apart)
      · exact absurd (x_in.1.trans y_in.2) (not_le.mpr apart)
    · intro none
      -- where the intervals overlap, the greater of the lower ends lies in both
      by_contra overlap
      push Not at overlap
      exact none _ _ ⟨le_max_left _ _, max_le left overlap.1⟩ ⟨le_max_right _ _, max_le overlap.2 right⟩ rfl

/-- The verdict on a comparison is exact for the relation that the operator stands for. -/
theorem isExact_decide (left : a.lower ≤ a.upper) (right : b.lower ≤ b.upper) {op : String} {r : Rat → Rat → Prop}
    (asks : Comparison.relation? op = some r) : (a.decide op b).IsExact r a b := by
  unfold Comparison.relation? at asks
  split at asks <;> cases asks
  · exact less_exact left right
  · exact lessOrEqual_exact left right
  · exact (less_exact right left).swap
  · exact (lessOrEqual_exact right left).swap
  · exact equal_exact left right
  · exact equal_exact left right
  · exact (equal_exact left right).negate

/-- Comparing is sound and complete: for each operator the verdict is exact, and for a text that is no operator it is
unknown. -/
theorem decide_exact (left : a.lower ≤ a.upper) (right : b.lower ≤ b.upper) (op : String) :
    (∀ r, Comparison.relation? op = some r → (a.decide op b).IsExact r a b) ∧
      (Comparison.relation? op = none → a.decide op b = .unknown) := by
  refine ⟨fun r asks => isExact_decide left right asks, fun none => ?_⟩
  unfold Comparison.relation? at none
  split at none <;> simp_all [decide]

/-- Intervals that touch are in weak order, and their strict order is not known. -/
theorem touching_decided :
    (∀ x y, Mem x ⟨0, 1⟩ → Mem y ⟨1, 2⟩ → x ≤ y) ∧ (decide ⟨0, 1⟩ "<" ⟨1, 2⟩).IsExact (· < ·) ⟨0, 1⟩ ⟨1, 2⟩ ∧
      decide ⟨0, 1⟩ "<>" ⟨1, 2⟩ = .unknown := by
  have left : (⟨0, 1⟩ : Interval).lower ≤ (⟨0, 1⟩ : Interval).upper := by norm_num
  have right : (⟨1, 2⟩ : Interval).lower ≤ (⟨1, 2⟩ : Interval).upper := by norm_num
  refine ⟨?_, (decide_exact left right "<").1 _ rfl, (decide_exact left right "<>").2 rfl⟩
  have weak := (decide_exact left right "<=").1 _ rfl
  exact weak.holds_iff.mp (by decide +kernel)

end Interval

end MisuseSlice
