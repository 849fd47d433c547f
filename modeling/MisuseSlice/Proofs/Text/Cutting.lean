import Mathlib
import MisuseSlice.Text.Blank

/-! Trimming and cutting texts. What trimming removes at one end does not depend on the other, and a text is cut at the first
place where a mark stands, as it would be without what stands around it and has none of the mark's characters. -/
namespace MisuseSlice.Text

variable {p : Char → Bool} {cs : List Char}

theorem mem_of_mem_trim {s : String} {c : Char} (member : c ∈ (trim s).toList) : c ∈ s.toList := by
  rw [trim, String.toList_ofList, trimWhere, dropEndWhile, List.mem_reverse] at member
  have inside := List.mem_reverse.mp ((List.dropWhile_sublist _).subset member)
  exact (List.dropWhile_sublist _).subset inside

/-- Trimming removes nothing but what it is to remove. -/
theorem mem_trimWhere_or {c : Char} (member : c ∈ cs) : p c = true ∨ c ∈ trimWhere p cs := by
  rw [← List.takeWhile_append_dropWhile (p := p) (l := cs), List.mem_append] at member
  rcases member with front | member
  · exact .inl (List.mem_takeWhile_imp front)
  · rw [← List.mem_reverse, ← List.takeWhile_append_dropWhile (p := p) (l := (cs.dropWhile p).reverse),
      List.mem_append] at member
    exact member.imp List.mem_takeWhile_imp List.mem_reverse.mpr

/-- What a text ends in is dropped up to the last character to keep. -/
theorem dropEndWhile_append {kept dropped : List Char} (keep : ∀ c ∈ kept, p c = false)
    (drop : ∀ c ∈ dropped, p c = true) : dropEndWhile p (kept ++ dropped) = kept := by
  have gone : dropped.reverse.dropWhile p = [] := by simpa using drop
  have stays : kept.reverse.dropWhile p = kept.reverse := by
    rw [List.dropWhile_eq_self_iff]
    intro some_
    simpa using keep _ (List.mem_reverse.mp (List.getElem_mem some_))
  rw [dropEndWhile, List.reverse_append, List.dropWhile_append, gone]
  simp [stays]

theorem dropEndWhile_append_dropped {dropped : List Char} (drop : ∀ c ∈ dropped, p c = true) :
    dropEndWhile p (cs ++ dropped) = dropEndWhile p cs := by
  have all : ∀ c ∈ dropped.reverse, p c = true := fun c member => drop c (List.mem_reverse.mp member)
  rw [dropEndWhile, List.reverse_append, List.dropWhile_append_of_pos all, dropEndWhile]

/-- Nothing is dropped before a text that is to be kept. -/
theorem dropEndWhile_append_kept {kept : List Char} (some_ : kept ≠ []) (keep : ∀ c ∈ kept, p c = false)
    (rest : List Char) : dropEndWhile p (cs ++ kept ++ rest) = cs ++ kept ++ dropEndWhile p rest := by
  have stays : (cs ++ kept).reverse.dropWhile p = (cs ++ kept).reverse := by
    rw [List.reverse_append, List.dropWhile_eq_self_iff]
    intro positive
    rw [List.getElem_append_left (by simpa using List.length_pos_iff.mpr some_)]
    exact Bool.eq_false_iff.mp (keep _ (List.mem_reverse.mp (List.getElem_mem _)))
  rw [dropEndWhile, List.reverse_append, List.dropWhile_append, stays]
  by_cases gone : (rest.reverse.dropWhile p).isEmpty = true
  · rw [if_pos gone, List.reverse_reverse, dropEndWhile, List.isEmpty_iff.mp gone]
    simp
  · rw [if_neg gone, List.reverse_append, List.reverse_reverse, dropEndWhile]

/-- Both ends of a text around a text to be kept are trimmed apart. -/
theorem trimWhere_around {front kept back : List Char} (some_ : kept ≠ []) (keep : ∀ c ∈ kept, p c = false) :
    trimWhere p (front ++ kept ++ back) = front.dropWhile p ++ kept ++ dropEndWhile p back := by
  have first : (front ++ (kept ++ back)).dropWhile p = front.dropWhile p ++ (kept ++ back) := by
    rw [List.dropWhile_append]
    by_cases gone : (front.dropWhile p).isEmpty = true
    · obtain ⟨c, rest, rfl⟩ := List.exists_cons_of_ne_nil some_
      simp [List.isEmpty_iff.mp gone, keep c List.mem_cons_self]
    · rw [if_neg gone]
  rw [trimWhere, List.append_assoc, first, ← List.append_assoc, dropEndWhile_append_kept some_ keep]

/-- A text whose end is trimmed is trimmed to the same text. -/
theorem trimWhere_dropEndWhile : trimWhere p (dropEndWhile p cs) = trimWhere p cs := by
  have parts : cs = dropEndWhile p cs ++ (cs.reverse.takeWhile p).reverse := by
    rw [dropEndWhile, ← List.reverse_append, List.takeWhile_append_dropWhile, List.reverse_reverse]
  have drop : ∀ c ∈ (cs.reverse.takeWhile p).reverse, p c = true := fun c member =>
    List.mem_takeWhile_imp (List.mem_reverse.mp member)
  conv_rhs => rw [parts, trimWhere, List.dropWhile_append]
  split
  · rename_i gone
    have all : ((cs.reverse.takeWhile p).reverse).dropWhile p = [] := by simpa using drop
    rw [trimWhere, List.isEmpty_iff.mp gone, all]
  · rw [dropEndWhile_append_dropped drop, trimWhere]

/-- A text is not split at a mark that it does not have. -/
theorem splitFirst?_of_notMem {c : Char} (absent : c ∉ cs) (rest : List Char) :
    splitFirst? (c :: rest) cs = none := by
  induction cs with
  | nil => rfl
  | cons d cs ih =>
    obtain ⟨apart, others⟩ := not_or.mp (mt List.mem_cons.mpr absent)
    simp [splitFirst?, dropFront?, apart, ih others]

/-- What stands before a text that is split, and has none of the separator's characters, stays before it. -/
theorem splitFirst?_append_left {sep front : List Char} (some_ : sep ≠ []) (free : ∀ c ∈ front, c ∉ sep)
    (s : List Char) : splitFirst? sep (front ++ s) = (splitFirst? sep s).map (Prod.map (front ++ ·) id) := by
  obtain ⟨q, sep, rfl⟩ := List.exists_cons_of_ne_nil some_
  induction front with
  | nil =>
    rw [List.nil_append]
    cases splitFirst? (q :: sep) s <;> rfl
  | cons c front ih =>
    have apart : q ≠ c := fun same => free c List.mem_cons_self (same ▸ List.mem_cons_self)
    rw [List.cons_append, splitFirst?]
    simp only [dropFront?, apart, beq_iff_eq, ↓reduceIte]
    rw [ih fun c member => free c (List.mem_cons_of_mem _ member), Option.map_map]
    rfl

theorem dropFront?_append_right {sep back : List Char} (free : ∀ c ∈ back, c ∉ sep) (s : List Char) :
    dropFront? sep (s ++ back) = (dropFront? sep s).map (· ++ back) := by
  induction sep generalizing s with
  | nil => rfl
  | cons q sep ih =>
    cases s with
    | nil =>
      cases back with
      | nil => rfl
      | cons c back =>
        have apart : q ≠ c := fun same => free c List.mem_cons_self (same ▸ List.mem_cons_self)
        simp [dropFront?, apart]
    | cons c s =>
      simp only [List.cons_append, dropFront?]
      split
      · exact ih (fun c member other => free c member (List.mem_cons_of_mem _ other)) s
      · rfl

/-- What stands behind a text that is split, and has none of the separator's characters, stays behind it. -/
theorem splitFirst?_append_right {sep back : List Char} (some_ : sep ≠ []) (free : ∀ c ∈ back, c ∉ sep) (s : List Char) :
    splitFirst? sep (s ++ back) = (splitFirst? sep s).map (Prod.map id (· ++ back)) := by
  induction s with
  | nil =>
    obtain ⟨q, sep, rfl⟩ := List.exists_cons_of_ne_nil some_
    have absent : q ∉ back := fun member => free q member List.mem_cons_self
    simpa [splitFirst?] using splitFirst?_of_notMem absent sep
  | cons c s ih =>
    rw [List.cons_append, splitFirst?, splitFirst?, ← List.cons_append, dropFront?_append_right free]
    cases dropFront? sep (c :: s) with
    | some rest => rfl
    | none =>
      simp only [Option.map_none, ih, Option.map_map]
      rfl

/-- A text is what trimming leaves of it, between characters to be removed. -/
theorem exists_around_trimWhere (p : Char → Bool) (cs : List Char) :
    ∃ front back, cs = front ++ (trimWhere p cs ++ back) ∧ (∀ c ∈ front, p c = true) ∧ ∀ c ∈ back, p c = true := by
  refine ⟨cs.takeWhile p, ((cs.dropWhile p).reverse.takeWhile p).reverse, ?_, fun c member => List.mem_takeWhile_imp member,
    fun c member => List.mem_takeWhile_imp (List.mem_reverse.mp member)⟩
  rw [trimWhere, dropEndWhile, ← List.reverse_append, List.takeWhile_append_dropWhile, List.reverse_reverse,
    List.takeWhile_append_dropWhile]

/-- What is to be removed at the end of a text does not matter. -/
theorem trimWhere_append_dropped {dropped : List Char} (drop : ∀ c ∈ dropped, p c = true) :
    trimWhere p (cs ++ dropped) = trimWhere p cs := by
  rw [← trimWhere_dropEndWhile, dropEndWhile_append_dropped drop, trimWhere_dropEndWhile]

section

variable {α : Type} [BEq α] [LawfulBEq α] {sep s before after : List α}

theorem dropFront?_eq_some_iff {rest : List α} : dropFront? sep s = some rest ↔ s = sep ++ rest := by
  induction sep generalizing s with
  | nil => simp [dropFront?, eq_comm]
  | cons q sep ih =>
    cases s with
    | nil => simp [dropFront?]
    | cons c s =>
      by_cases same : q = c
      · simp [dropFront?, same, ih]
      · simp [dropFront?, same, Ne.symm same]

/-- The parts of a text that is split stand around the separator. -/
theorem eq_of_splitFirst? (split : splitFirst? sep s = some (before, after)) : s = before ++ sep ++ after := by
  induction s generalizing before with
  | nil =>
    cases sep with
    | nil => cases split; rfl
    | cons q sep => simp [splitFirst?] at split
  | cons c s ih =>
    rw [splitFirst?] at split
    cases here : dropFront? sep (c :: s) with
    | some rest =>
      rw [here] at split
      cases split
      exact dropFront?_eq_some_iff.mp here
    | none =>
      rw [here] at split
      obtain ⟨parts, found, same⟩ := Option.map_eq_some_iff.mp split
      cases same
      rw [ih found]
      rfl

/-- A text is split at the first place where the separator stands. -/
theorem length_le_of_splitFirst? (split : splitFirst? sep s = some (before, after)) {before' after' : List α}
    (parts : s = before' ++ sep ++ after') : before.length ≤ before'.length := by
  induction s generalizing before before' with
  | nil =>
    have whole := congrArg List.length (eq_of_splitFirst? split)
    simp only [List.length_nil, List.length_append] at whole
    omega
  | cons c s ih =>
    rw [splitFirst?] at split
    cases here : dropFront? sep (c :: s) with
    | some rest =>
      rw [here] at split
      cases split
      exact Nat.zero_le _
    | none =>
      rw [here] at split
      obtain ⟨found, behind, same⟩ := Option.map_eq_some_iff.mp split
      cases same
      cases before' with
      | nil =>
        rw [dropFront?_eq_some_iff.mpr (by simpa using parts)] at here
        cases here
      | cons d before' =>
        obtain ⟨-, rest⟩ := List.cons.inj parts
        exact Nat.succ_le_succ (ih behind rest)

/-- A text is split exactly if it has the separator. -/
theorem isSome_splitFirst?_iff : (splitFirst? sep s).isSome = true ↔ sep <:+: s := by
  constructor
  · intro split
    obtain ⟨⟨before, after⟩, found⟩ := Option.isSome_iff_exists.mp split
    exact ⟨before, after, (eq_of_splitFirst? found).symm⟩
  · intro inside
    induction s with
    | nil => simp [List.eq_nil_of_infix_nil inside, splitFirst?]
    | cons c s ih =>
      rw [splitFirst?]
      cases here : dropFront? sep (c :: s) with
      | some rest => rfl
      | none =>
        rcases List.infix_cons_iff.mp inside with ⟨rest, front⟩ | inside
        · rw [dropFront?_eq_some_iff.mpr front.symm] at here
          cases here
        · simpa using ih inside

theorem splitFirst?_eq_none_iff : splitFirst? sep s = none ↔ ¬sep <:+: s := by
  rw [← isSome_splitFirst?_iff, Option.not_isSome_iff_eq_none]

/-- A text is split into two parts exactly if they stand around the first separator in it. -/
theorem splitFirst?_eq_some_iff : splitFirst? sep s = some (before, after) ↔
    s = before ++ sep ++ after ∧ ∀ before' after', s = before' ++ sep ++ after' → before.length ≤ before'.length := by
  refine ⟨fun split => ⟨eq_of_splitFirst? split, fun _ _ parts => length_le_of_splitFirst? split parts⟩, ?_⟩
  rintro ⟨parts, first⟩
  obtain ⟨⟨before', after'⟩, split⟩ := Option.isSome_iff_exists.mp
    (isSome_splitFirst?_iff.mpr ⟨before, after, parts.symm⟩)
  have parts' := eq_of_splitFirst? split
  have place : before'.length = before.length :=
    le_antisymm (length_le_of_splitFirst? split parts) (first _ _ parts')
  rw [parts, List.append_assoc, List.append_assoc] at parts'
  obtain ⟨rfl, rest⟩ := List.append_inj parts' place.symm
  rw [split, List.append_cancel_left rest]

end

theorem contains_iff {s pattern : String} : contains s pattern = true ↔ pattern.toList <:+: s.toList :=
  isSome_splitFirst?_iff

/-- A text is found behind what lacks its first character exactly if it is found in the rest. -/
theorem infix_append_left_iff {α : Type} {a : α} {t front s : List α} (free : a ∉ front) :
    a :: t <:+: front ++ s ↔ a :: t <:+: s := by
  induction front with
  | nil => exact Iff.rfl
  | cons c front ih =>
    obtain ⟨apart, free⟩ := not_or.mp (mt List.mem_cons.mpr free)
    rw [List.cons_append, List.infix_cons_iff, ih free]
    refine or_iff_right ?_
    rintro ⟨rest, same⟩
    exact apart (List.cons.inj same).1

theorem infix_append_right_iff {α : Type} {a : α} {t back s : List α} (free : a ∉ back) :
    t ++ [a] <:+: s ++ back ↔ t ++ [a] <:+: s := by
  have mirrored : ∀ s : List α, t ++ [a] <:+: s ↔ a :: t.reverse <:+: s.reverse := fun s => by
    rw [← List.reverse_infix, List.reverse_append, List.reverse_singleton, List.singleton_append]
  rw [mirrored, mirrored, List.reverse_append, infix_append_left_iff (mt List.mem_reverse.mp free)]

/-- The characters of joined texts are those of the texts and of what stands between them. -/
theorem mem_joinWith {sep : String} {c : Char} {xs : List String} (member : c ∈ (joinWith sep xs).toList) :
    c ∈ sep.toList ∨ ∃ x ∈ xs, c ∈ x.toList := by
  fun_induction joinWith sep xs with
  | case1 => simp at member
  | case2 a => exact .inr ⟨a, List.mem_singleton_self a, member⟩
  | case3 a b rest ih =>
    simp only [String.toList_append, List.mem_append] at member
    rcases member with (first | between) | later
    · exact .inr ⟨a, List.mem_cons_self, first⟩
    · exact .inl between
    · exact (ih later).imp_right fun ⟨x, inside, here⟩ => ⟨x, List.mem_cons_of_mem a inside, here⟩

theorem startsWith_eq_false {t : String} {c d : Char} {rest : List Char} (parts : t.toList = c :: rest) (apart : d ≠ c)
    (ds : List Char) : startsWith t (String.ofList (d :: ds)) = false := by
  simp [startsWith, parts, dropFront?, apart]

end MisuseSlice.Text
