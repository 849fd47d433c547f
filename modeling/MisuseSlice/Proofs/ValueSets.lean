import Mathlib.Data.List.Sort
import MisuseSlice.Slicer.Scan

/-! Sets of values are sets of names: what each operation does to the names in a set, and when a
statement shares a name with it. Nothing below opens the map behind a set again. -/
namespace MisuseSlice

namespace Value

/-- A variable with a name. -/
def IsName (v : Value) : Prop := v.isVariable = true ∧ v.text ≠ ""

instance (v : Value) : Decidable v.IsName := inferInstanceAs (Decidable (_ ∧ _))

theorem IsName.not_constant {v : Value} (name : v.IsName) : v.isConstant = false := by
  obtain ⟨variableKind, _⟩ := name
  simp only [isVariable, Bool.or_eq_true, beq_iff_eq] at variableKind
  rcases variableKind with kind | kind <;> simp [isConstant, kind]

theorem IsName.not_numeric {v : Value} (name : v.IsName) : v.isNumeric = false := by
  obtain ⟨variableKind, _⟩ := name
  simp only [isVariable, Bool.or_eq_true, beq_iff_eq] at variableKind
  rcases variableKind with kind | kind <;> simp [isNumeric, kind]

end Value

namespace ValueSet

/-- A name is in the set when a value printed so is. -/
instance : Membership String ValueSet where
  mem s name := s.byText.contains name = true

theorem mem_def {s : ValueSet} {name : String} : name ∈ s ↔ s.byText.contains name = true := Iff.rfl

@[simp] theorem contains_iff {s : ValueSet} {v : Value} : s.contains v = true ↔ v.text ∈ s := Iff.rfl

@[simp] theorem contains_eq_false_iff {s : ValueSet} {v : Value} : s.contains v = false ↔ v.text ∉ s := by
  rw [← contains_iff, Bool.not_eq_true]

@[simp] theorem not_mem_empty {name : String} : name ∉ empty := by
  simp [mem_def, empty]

@[simp] theorem mem_insert {s : ValueSet} {v : Value} {name : String} :
    name ∈ s.insert v ↔ (v.text ≠ "" ∧ name = v.text) ∨ name ∈ s := by
  by_cases absent : v.text = ""
  · simp [insert, Value.isAbsent, absent]
  · simp only [mem_def, insert, Value.isAbsent, beq_iff_eq, absent, ↓reduceIte,
      Std.TreeMap.contains_insert, Bool.or_eq_true, Std.compare_eq_iff_eq, ne_eq, not_false_eq_true,
      true_and]
    exact or_congr eq_comm Iff.rfl

@[simp] theorem mem_erase {s : ValueSet} {v : Value} {name : String} :
    name ∈ s.erase v ↔ name ≠ v.text ∧ name ∈ s := by
  simp only [mem_def, erase, Std.TreeMap.contains_erase, Bool.and_eq_true, bne_iff_ne, ne_eq,
    Std.compare_eq_iff_eq]
  exact and_congr (not_congr eq_comm) Iff.rfl

@[simp] theorem mem_insertAll {s : ValueSet} {vs : List Value} {name : String} :
    name ∈ s.insertAll vs ↔ (∃ v ∈ vs, v.text ≠ "" ∧ name = v.text) ∨ name ∈ s := by
  induction vs generalizing s with
  | nil => simp [insertAll]
  | cons v vs ih =>
    have step : s.insertAll (v :: vs) = (s.insert v).insertAll vs := rfl
    rw [step, ih, mem_insert]
    simp only [List.mem_cons, exists_eq_or_imp]
    exact ⟨fun h => by rcases h with h | h | h <;> simp_all,
      fun h => by rcases h with (h | h) | h <;> simp_all⟩

/-- What a set of the values of a list keeps is one of them, under its text. -/
theorem getElem?_ofList {vs : List Value} {name : String} {v : Value} (found : (ofList vs).byText[name]? = some v) :
    v ∈ vs ∧ v.text = name := by
  have own : ∀ (given : List Value) (s : ValueSet), (∀ x ∈ given, x ∈ vs) →
      (∀ (k : String) x, s.byText[k]? = some x → x ∈ vs ∧ x.text = k) →
      ∀ (k : String) x, (s.insertAll given).byText[k]? = some x → x ∈ vs ∧ x.text = k := by
    intro given
    induction given with
    | nil => exact fun s _ own => own
    | cons v given ih =>
      intro s listed own
      refine ih (s.insert v) (fun x later => listed x (List.mem_cons_of_mem v later)) fun k x found => ?_
      unfold insert at found
      split at found
      · exact own k x found
      · rw [Std.TreeMap.getElem?_insert] at found
        split at found
        · rename_i same
          cases found
          exact ⟨listed v List.mem_cons_self, Std.compare_eq_iff_eq.mp same⟩
        · exact own k x found
  exact own vs empty (fun x here => here) (by simp [empty]) name v found

theorem mem_of_mem_toList_ofList {vs : List Value} {v : Value} (member : v ∈ (ofList vs).toList) : v ∈ vs := by
  obtain ⟨e, entry, rfl⟩ := List.mem_map.mp member
  exact (getElem?_ofList (Std.TreeMap.mem_toList_iff_getElem?_eq_some.mp entry)).1

theorem map_text_toList_ofList {vs : List Value} : (ofList vs).toList.map (·.text) = (ofList vs).byText.keys := by
  rw [toList, List.map_map, ← Std.TreeMap.map_fst_toList_eq_keys]
  refine List.map_congr_left fun e member => ?_
  exact (getElem?_ofList (Std.TreeMap.mem_toList_iff_getElem?_eq_some.mp member)).2

/-- The values of a set stand in the order of their texts, each text once. -/
theorem pairwise_texts {vs : List Value} : ((ofList vs).toList.map (·.text)).Pairwise (· < ·) := by
  rw [map_text_toList_ofList]
  exact (Std.TreeMap.ordered_keys (t := (ofList vs).byText)).imp fun before => compareOfLessAndEq_eq_lt.mp before

/-- The texts of the values of a list of values, made a set, are those of the values that are there. -/
theorem mem_texts_ofList {vs : List Value} {name : String} :
    name ∈ (ofList vs).toList.map (·.text) ↔ ∃ v ∈ vs, v.text ≠ "" ∧ name = v.text := by
  have named : name ∈ ofList vs ↔ ∃ v ∈ vs, v.text ≠ "" ∧ name = v.text := by
    rw [ofList, mem_insertAll]
    simp
  rw [← named, map_text_toList_ofList, Std.TreeMap.mem_keys, ← Std.TreeMap.contains_iff_mem]
  exact Iff.rfl

/-- The texts of the values of a list, made a set, stand in their order. -/
theorem sublist_texts_ofList {vs : List Value} {names : List String}
    (sorted : names.Pairwise fun a b => compare a b = .lt) (inside : ∀ v ∈ vs, v.text ≠ "" → v.text ∈ names) :
    ((ofList vs).toList.map (·.text)).Sublist names := by
  have antisymmetric : Std.Antisymm fun a b : String => compare a b = .lt :=
    ⟨fun a b before after => by rw [Std.OrientedCmp.gt_of_lt before] at after; cases after⟩
  have subset : (ofList vs).toList.map (·.text) ⊆ names := fun name member => by
    obtain ⟨v, given, there, rfl⟩ := mem_texts_ofList.mp member
    exact inside v given there
  have keys : (ofList vs).toList.map (·.text) = (ofList vs).byText.keys := map_text_toList_ofList
  exact List.sublist_of_subperm_of_pairwise
    (List.subperm_of_subset (keys ▸ Std.TreeMap.nodup_keys) subset) (keys ▸ Std.TreeMap.ordered_keys) sorted

/-- The values of a list that a set shares are some exactly when one of them, which is neither missing nor
a number, is named in the set. -/
theorem common_ne_nil {s : ValueSet} {vs : List Value} :
    s.common vs ≠ [] ↔ ∃ v ∈ vs, v.text ≠ "" ∧ v.isNumeric = false ∧ v.text ∈ s := by
  have fold : ∀ found : List Value, (∀ v ∈ found, v.text ∈ s) →
      (vs.foldl (fun found v =>
        if v.isAbsent || v.isNumeric || found.any (·.text == v.text) || !s.contains v then found
        else found ++ [v]) found ≠ [] ↔
      found ≠ [] ∨ ∃ v ∈ vs, v.text ≠ "" ∧ v.isNumeric = false ∧ v.text ∈ s) := by
    induction vs with
    | nil => simp
    | cons v vs ih =>
      intro found inside
      simp only [List.foldl_cons, List.mem_cons, exists_eq_or_imp]
      by_cases skipped : (v.isAbsent || v.isNumeric || found.any (·.text == v.text) || !s.contains v) = true
      · rw [if_pos skipped, ih found inside]
        constructor
        · rintro (some | later)
          · exact .inl some
          · exact .inr (.inr later)
        · rintro (some | here | later)
          · exact .inl some
          · -- a value that is skipped though it is shared was found before
            left
            rintro rfl
            simp_all [Value.isAbsent]
          · exact .inr later
      · have named : v.text ≠ "" ∧ v.isNumeric = false ∧ v.text ∈ s := by
          simp only [Bool.or_eq_true, not_or, Bool.not_eq_true, Value.isAbsent, beq_eq_false_iff_ne] at skipped
          obtain ⟨⟨⟨present, noNumber⟩, _⟩, shared⟩ := skipped
          exact ⟨present, noNumber, by simpa using shared⟩
        rw [if_neg skipped, ih (found ++ [v]) (by
          intro x member
          rcases List.mem_append.mp member with member | member
          · exact inside x member
          · exact List.mem_singleton.mp member ▸ named.2.2)]
        simp [named]
  simpa [common] using fold [] (by simp)

end ValueSet

/-- Tracking adds the values that are no constants. -/
@[simp] theorem CallFlow.mem_track {ts : ValueSet} {vs : List Value} {name : String} :
    name ∈ CallFlow.track ts vs ↔
      (∃ v ∈ vs, v.isConstant = false ∧ v.text ≠ "" ∧ name = v.text) ∨ name ∈ ts := by
  simp only [CallFlow.track, ValueSet.mem_insertAll, List.mem_filter, Bool.not_eq_eq_eq_not, Bool.not_true,
    and_assoc]

namespace Scan

@[simp] theorem mem_targets_track {st : Scan} {vs : List Value} {name : String} :
    name ∈ (st.track vs).targets ↔
      (∃ v ∈ vs, v.isConstant = false ∧ v.text ≠ "" ∧ name = v.text) ∨ name ∈ st.targets :=
  CallFlow.mem_track

@[simp] theorem mem_targets_untrack {st : Scan} {v : Value} {name : String} :
    name ∈ (st.untrack v).targets ↔ name ≠ v.text ∧ name ∈ st.targets :=
  ValueSet.mem_erase

theorem touches_iff {st : Scan} {vs : List Value} :
    st.touches vs = true ↔ ∃ v ∈ vs, v.text ≠ "" ∧ v.isNumeric = false ∧ v.text ∈ st.targets := by
  rw [← ValueSet.common_ne_nil, touches, Bool.not_eq_eq_eq_not, Bool.not_true, List.isEmpty_eq_false_iff]

end Scan

end MisuseSlice
