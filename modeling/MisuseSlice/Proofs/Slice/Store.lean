import Mathlib.Data.List.Basic
import MisuseSlice.Slice.Store

/-! The slices of a store. However a store was made, it keeps one slice for each criterion, under the criterion's name. -/
namespace MisuseSlice.SliceStore

variable {s : SliceStore} {p q : PartialSlice}

/-- The stores that recording makes. -/
inductive Built : SliceStore → Prop where
  | empty : Built {}
  | put {s : SliceStore} (built : Built s) (p : PartialSlice) : Built (s.put p)
  | putCombined {s : SliceStore} (built : Built s) (root : String) (cs : List CombinedSlice) :
      Built (s.putCombined root cs)

/-- A slice is kept under the name of its criterion. -/
theorem Built.id_eq (built : s.Built) {id : String} (found : s.get? id = some p) : p.id = id := by
  induction built generalizing id with
  | empty => simp [get?] at found
  | put built p' ih =>
    rw [get?_put] at found
    split at found
    · rename_i same
      rwa [Option.some.inj found] at same
    · exact ih found
  | putCombined built root cs ih => exact ih found

/-- Two slices of a store are slices of different criteria. -/
theorem Built.eq_of_id_eq (built : s.Built) (left : p ∈ s.toList) (right : q ∈ s.toList) (same : p.id = q.id) : p = q := by
  obtain ⟨i, -, first⟩ := List.mem_filterMap.mp left
  obtain ⟨j, -, second⟩ := List.mem_filterMap.mp right
  have names : i = j := (built.id_eq first).symm.trans (same.trans (built.id_eq second))
  rw [← names, first] at second
  exact Option.some.inj second

end MisuseSlice.SliceStore
