import Mathlib

/-! Maps with texts as keys: presence as the existence of a value, and sums over the values of a map. -/
namespace MisuseSlice.Maps

variable {β : Type} {m : Std.TreeMap String β} {k : String} {v : β}

theorem contains_iff : m.contains k = true ↔ ∃ v, m[k]? = some v := by
  rw [Std.TreeMap.contains_eq_isSome_getElem?, Option.isSome_iff_exists]

theorem contains_of_getElem? (found : m[k]? = some v) : m.contains k = true := contains_iff.mpr ⟨v, found⟩

theorem getElem?_eq_none_iff : m[k]? = none ↔ m.contains k = false := by
  rw [Std.TreeMap.contains_eq_isSome_getElem?, Option.isSome_eq_false_iff, Option.isNone_iff_eq_none]

theorem getElem?_insert_eq_some {name : String} {v' : β} :
    (m.insert k v)[name]? = some v' ↔ (k = name ∧ v = v') ∨ (k ≠ name ∧ m[name]? = some v') := by
  rw [Std.TreeMap.getElem?_insert]
  split
  · rename_i same
    simp [Std.compare_eq_iff_eq.mp same]
  · rename_i other
    have different : k ≠ name := fun same => other (Std.compare_eq_iff_eq.mpr same)
    simp [different]

theorem getElem?_erase_eq_some {name : String} {v' : β} :
    (m.erase k)[name]? = some v' ↔ k ≠ name ∧ m[name]? = some v' := by
  rw [Std.TreeMap.getElem?_erase]
  split
  · rename_i same
    simp [Std.compare_eq_iff_eq.mp same]
  · rename_i other
    have different : k ≠ name := fun same => other (Std.compare_eq_iff_eq.mpr same)
    simp [different]

/-- The entry for a key among the entries of a map holds the key's value. -/
theorem find?_toList : (m.toList.find? (·.1 == k)).map (·.2) = m[k]? := by
  cases found : m.toList.find? (·.1 == k) with
  | none =>
    refine (getElem?_eq_none_iff.mpr (Bool.eq_false_iff.mpr fun present => ?_)).symm
    obtain ⟨v, here⟩ := contains_iff.mp present
    have absent := List.find?_eq_none.mp found (k, v) (Std.TreeMap.mem_toList_iff_getElem?_eq_some.mpr here)
    simp at absent
  | some e =>
    have key : e.1 = k := by simpa using List.find?_some found
    rw [Option.map_some, ← key]
    exact (Std.TreeMap.mem_toList_iff_getElem?_eq_some.mp (List.mem_of_find?_eq_some found)).symm

/-- Where no key comes twice, at most one entry has the key. -/
theorem filter_eq_find?_toList {entries : List (String × β)} (distinct : entries.Pairwise (·.1 ≠ ·.1)) :
    entries.filter (·.1 == k) = (entries.find? (·.1 == k)).toList := by
  induction entries with
  | nil => rfl
  | cons e entries ih =>
    obtain ⟨apart, distinct⟩ := List.pairwise_cons.mp distinct
    by_cases here : e.1 = k
    · have rest : entries.filter (·.1 == k) = [] := List.filter_eq_nil_iff.mpr fun e' member => by
        simpa [← here] using (apart e' member).symm
      simp [here, rest]
    · simp [here, ih distinct]

/-- The entries of a map for a key hold the key's value, if it has one. -/
theorem filter_toList : (m.toList.filter (·.1 == k)).map (·.2) = m[k]?.toList := by
  have distinct : m.toList.Pairwise (·.1 ≠ ·.1) :=
    Std.TreeMap.distinct_keys_toList.imp fun differ same => differ (Std.compare_eq_iff_eq.mpr same)
  rw [filter_eq_find?_toList distinct, ← find?_toList]
  cases m.toList.find? (·.1 == k) <;> rfl

/-- The sum of a measure over the values of a map. -/
def total (f : β → Nat) (m : Std.TreeMap String β) : Nat := (m.toList.map fun e => f e.2).sum

variable (f : β → Nat)

theorem total_insert_new (new : m.contains k = false) : total f (m.insert k v) = f v + total f m := by
  unfold total
  have kept : m.toList.filter (fun e => ¬k == e.1) = m.toList := by
    refine List.filter_eq_self.mpr fun e member => ?_
    have here : m[e.1]? = some e.2 := Std.TreeMap.mem_toList_iff_getElem?_eq_some.mp member
    have other : k ≠ e.1 := fun same => by simp [same, contains_of_getElem? here] at new
    simpa using other
  rw [(Std.TreeMap.toList_insert_perm.map _).sum_eq, kept, List.map_cons, List.sum_cons]

theorem total_erase (found : m[k]? = some v) : f v + total f (m.erase k) = total f m := by
  have gone : (m.erase k).contains k = false := by simp
  rw [← total_insert_new f gone]
  have same : ((m.erase k).insert k v).Equiv m := by
    refine Std.TreeMap.Equiv.of_forall_constGet?_eq fun name => ?_
    rw [Std.TreeMap.getElem?_insert, Std.TreeMap.getElem?_erase]
    split
    · rename_i eq
      rw [← Std.compare_eq_iff_eq.mp eq, found]
    · rfl
  unfold total
  rw [same.toList_eq]

/-- Replacing a value changes the sum by the difference of the values. -/
theorem total_insert_found {v' : β} (found : m[k]? = some v) : f v + total f (m.insert k v') = f v' + total f m := by
  have gone : (m.erase k).contains k = false := by simp
  have same : (m.insert k v').Equiv ((m.erase k).insert k v') := by
    refine Std.TreeMap.Equiv.of_forall_constGet?_eq fun name => ?_
    rw [Std.TreeMap.getElem?_insert, Std.TreeMap.getElem?_insert, Std.TreeMap.getElem?_erase]
    split <;> rfl
  have moved : total f (m.insert k v') = total f ((m.erase k).insert k v') := by
    unfold total
    rw [same.toList_eq]
  rw [moved, total_insert_new f gone, ← total_erase f found]
  omega

/-- Replacing a value by one of the same measure keeps the sum. -/
theorem total_insert_same {v' : β} (found : m[k]? = some v) (measure : f v' = f v) :
    total f (m.insert k v') = total f m := by
  have replaced : f v + total f (m.insert k v') = f v' + total f m := total_insert_found f found
  omega

/-- Values that are bounded each have a bounded sum. -/
theorem total_le {b : Nat} (bound : ∀ (k : String) v, m[k]? = some v → f v ≤ b) : total f m ≤ m.keys.length * b := by
  have count : (m.toList.map fun e => f e.2).length = m.keys.length := by
    rw [← Std.TreeMap.map_fst_toList_eq_keys, List.length_map, List.length_map]
  have each : ∀ n ∈ m.toList.map fun e => f e.2, n ≤ b := by
    intro n member
    obtain ⟨e, here, rfl⟩ := List.mem_map.mp member
    exact bound e.1 e.2 (Std.TreeMap.mem_toList_iff_getElem?_eq_some.mp here)
  rw [← count]
  exact List.sum_le_card_nsmul _ b each

end MisuseSlice.Maps
