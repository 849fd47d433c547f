import MisuseSlice.Proofs.Body.Nesting

/-! The name in use along a nested body. Outside the if/else in which both sides share a name, the name in use for a
slot is the same wherever control comes from; in one, each side starts with the name from before it and ends with
the name that the sides share. -/
namespace MisuseSlice

/-- The first position lies in the first side of the if/else and the second in its second side. -/
def Region.apart (r : Region) (q p : Nat) : Bool :=
  match r.split? with
  | some split => r.start ≤ q && decide (q < split) && decide (split ≤ p) && p ≤ r.stop
  | none => false

theorem Region.apart_iff {r : Region} {q p : Nat} :
    r.apart q p = true ↔ ∃ t, r.split? = some t ∧ r.start ≤ q ∧ q < t ∧ t ≤ p ∧ (p : Int) ≤ r.stop := by
  simp only [apart]
  split
  · rename_i t split
    simp [split, and_assoc]
  · rename_i none
    simp [none]

/-- The statement at a position gives the slot a value. -/
def DefinedAt (units : List Statement) (slot : String) (p : Nat) : Prop := ∃ u ∈ units[p]?, u.Defines slot

instance (units : List Statement) (slot : String) (p : Nat) : Decidable (DefinedAt units slot p) :=
  inferInstanceAs (Decidable (∃ u ∈ units[p]?, u.Defines slot))

/-- A definition of the slot stands above the position, and not on the other side of an if/else. -/
def DefinedAbove (units : List Statement) (regions : List Region) (slot : String) (p : Nat) : Prop :=
  ∃ q < p, DefinedAt units slot q ∧ ∀ r ∈ regions, r.apart q p = false

instance (units : List Statement) (regions : List Region) (slot : String) (p : Nat) :
    Decidable (DefinedAbove units regions slot p) :=
  inferInstanceAs (Decidable (∃ q < p, DefinedAt units slot q ∧ ∀ r ∈ regions, r.apart q p = false))

namespace Nests

variable {units : List Statement} {regions : List Region} {r r' : Region} {slot : String} {k p t t' : Nat}

/-- Of two if/elses that hold a position, one lies in a side of the other. -/
theorem sides_cases (nests : Nests units regions) (member : r ∈ regions) (member' : r' ∈ regions)
    (split : r.split? = some t) (split' : r'.split? = some t') (holds : r.start ≤ p ∧ (p : Int) ≤ r.stop)
    (holds' : r'.start ≤ p ∧ (p : Int) ≤ r'.stop) :
    (r.start = r'.start ∧ r.stop = r'.stop ∧ t = t') ∨
      (r.start < r'.start ∧ (r'.stop + 2 ≤ t ∨ (t ≤ r'.start ∧ r'.stop ≤ r.stop))) ∨
      (r'.start < r.start ∧ (r.stop + 2 ≤ t' ∨ (t' ≤ r.start ∧ r.stop ≤ r'.stop))) := by
  rcases nests.within_cases member member' holds holds' with rfl | ⟨before, within⟩ | ⟨before, within⟩
  · exact .inl ⟨rfl, rfl, Option.some.inj (split.symm.trans split')⟩
  · simp only [Region.IsWithin, split] at within
    exact .inr (.inl ⟨before, within⟩)
  · simp only [Region.IsWithin, split'] at within
    exact .inr (.inr ⟨before, within⟩)

/-- No region ends where a second side starts. -/
theorem stop_ne_split (nests : Nests units regions) (member : r ∈ regions) (member' : r' ∈ regions)
    (split' : r'.split? = some t') : r.stop + 1 ≠ t' := by
  intro ends
  have start := nests.start_pos member
  have sides' := nests.split_spec member' split'
  rcases nests.within_cases member member' (p := r.stop) (by omega) (by omega) with rfl | ⟨_, within⟩ | ⟨_, within⟩
  · omega
  · simp only [Region.IsWithin] at within
    split at within
    · rename_i t split
      have sides := nests.split_spec member split
      omega
    · omega
  · simp only [Region.IsWithin, split'] at within
    omega

/-- The second side of an if/else starts from what is defined above the first. -/
theorem definedAbove_split (nests : Nests units regions) (member : r ∈ regions) (split : r.split? = some t) :
    DefinedAbove units regions slot r.start.toNat ↔ DefinedAbove units regions slot t := by
  obtain ⟨low, high, _⟩ := nests.split_spec member split
  have start := nests.start_pos member
  constructor
  · rintro ⟨q, above, defined, near⟩
    refine ⟨q, by omega, defined, fun r' member' => Bool.eq_false_iff.mpr fun apart => ?_⟩
    obtain ⟨t', split', low', first, second, high'⟩ := Region.apart_iff.mp apart
    have sides := nests.sides_cases (p := t) member member' split split' (by omega) (by omega)
    have := Bool.eq_false_iff.mp (near r' member')
    exact this (Region.apart_iff.mpr ⟨t', split', low', first, by omega, by omega⟩)
  · rintro ⟨q, above, defined, near⟩
    have outside : (q : Int) < r.start := by
      by_contra inside
      have := Bool.eq_false_iff.mp (near r member)
      exact this (Region.apart_iff.mpr ⟨t, split, by omega, above, Nat.le_refl t, high⟩)
    refine ⟨q, by omega, defined, fun r' member' => Bool.eq_false_iff.mpr fun apart => ?_⟩
    obtain ⟨t', split', low', first, second, high'⟩ := Region.apart_iff.mp apart
    have sides := nests.sides_cases (p := r.start.toNat) member member' split split' (by omega) (by omega)
    have := Bool.eq_false_iff.mp (near r' member')
    exact this (Region.apart_iff.mpr ⟨t', split', low', first, by omega, by omega⟩)

/-- Where no second side starts, what is defined above was so above the statement before, or at the end of the first
side of an if/else that has ended. -/
theorem definedAbove_succ (nests : Nests units regions) (parts : ∀ r ∈ regions, r.split? ≠ some (k + 1)) :
    ((∃ q ≤ k, DefinedAt units slot q ∧ ∀ r ∈ regions, r.apart q k = false) ∨
      ∃ r ∈ regions, ∃ j : Nat, r.split? = some (j + 1) ∧ r.stop = k ∧
        ∃ q ≤ j, DefinedAt units slot q ∧ ∀ r ∈ regions, r.apart q j = false) ↔
      DefinedAbove units regions slot (k + 1) := by
  have notHere : ∀ r' ∈ regions, ∀ t', r'.split? = some t' → t' ≠ k + 1 := by
    rintro r' member' t' split' rfl
    exact parts r' member' split'
  constructor
  · rintro (⟨q, above, defined, near⟩ | ⟨r, member, j, split, ends, q, above, defined, near⟩)
    · refine ⟨q, by omega, defined, fun r' member' => Bool.eq_false_iff.mpr fun apart => ?_⟩
      obtain ⟨t', split', low', first, second, high'⟩ := Region.apart_iff.mp apart
      have other := notHere r' member' t' split'
      exact Bool.eq_false_iff.mp (near r' member')
        (Region.apart_iff.mpr ⟨t', split', low', first, by omega, by omega⟩)
    · obtain ⟨low, high, _⟩ := nests.split_spec member split
      refine ⟨q, by omega, defined, fun r' member' => Bool.eq_false_iff.mpr fun apart => ?_⟩
      obtain ⟨t', split', low', first, second, high'⟩ := Region.apart_iff.mp apart
      have other := notHere r' member' t' split'
      have sides := nests.sides_cases (p := k) member member' split split' (by omega) (by omega)
      exact Bool.eq_false_iff.mp (near r' member')
        (Region.apart_iff.mpr ⟨t', split', low', first, by omega, by omega⟩)
  · rintro ⟨q, above, defined, near⟩
    by_cases near' : ∀ r ∈ regions, r.apart q k = false
    · exact .inl ⟨q, by omega, defined, near'⟩
    · push Not at near'
      obtain ⟨r, member, apart⟩ := near'
      obtain ⟨t, split, low, first, second, high⟩ := Region.apart_iff.mp (eq_true_of_ne_false apart)
      have ends : r.stop = k := by
        by_contra longer
        exact Bool.eq_false_iff.mp (near r member)
          (Region.apart_iff.mpr ⟨t, split, low, first, by omega, by omega⟩)
      obtain ⟨j, rfl⟩ : ∃ j, t = j + 1 := ⟨t - 1, by omega⟩
      refine .inr ⟨r, member, j, split, ends, q, by omega, defined, ?_⟩
      refine fun r' member' => Bool.eq_false_iff.mpr fun apart' => ?_
      obtain ⟨t', split', low', first', second', high'⟩ := Region.apart_iff.mp apart'
      have sides := nests.sides_cases (p := q) member member' split split' (by omega) (by omega)
      omega

end Nests

namespace Renaming

variable {units us : List Statement} {regions : List Region} {state : Nat → Renaming} {s s' : Renaming}
  {u u' : Statement} {i p t : Nat} {r : Region} {slot other : String} {new : Option String}

theorem mem_seen_see {scope : Scope} : slot ∈ (scope.see other).seen ↔ slot ∈ scope.seen ∨ slot = other := by
  unfold Scope.see
  split
  · rename_i known
    have known : other ∈ scope.seen := by simpa using known
    constructor
    · exact .inl
    · rintro (old | rfl)
      · exact old
      · exact known
  · simp [or_comm]

/-- Where two sides join, what either has seen is seen. -/
theorem mem_seen_join : slot ∈ (s.join i).scope.seen ↔
    slot ∈ s.scope.seen ∨ slot ∈ (s.sides.getD i {}).first.seen := by
  have sees : ∀ (slots : List String) (scope : Scope),
      slot ∈ (slots.foldl Scope.see scope).seen ↔ slot ∈ scope.seen ∨ slot ∈ slots := by
    intro slots
    induction slots with
    | nil => simp
    | cons x slots ih =>
      intro scope
      rw [List.foldl_cons, ih, mem_seen_see, List.mem_cons, or_assoc]
  have uses : ∀ (entries : List (String × String)) (scope : Scope),
      (entries.foldl (fun sc (e : String × String) => sc.use e.1 e.2) scope).seen = scope.seen := by
    intro entries
    induction entries with
    | nil => exact fun _ => rfl
    | cons e entries ih => exact fun scope => ih (scope.use e.1 e.2)
  simp only [join]
  rw [uses, sees]

theorem mem_seen_joined : slot ∈ (joined regions s p).scope.seen ↔
    slot ∈ s.scope.seen ∨ ∃ (i : Nat) (r : Region) (t : Nat), regions[i]? = some r ∧ r.split? = some t ∧
      r.stop + 1 = p ∧ slot ∈ (s.sides.getD i {}).first.seen := by
  have all : ∀ (xs : List (Nat × Region)) (v : Renaming),
      slot ∈ (xs.foldl (fun s (x : Nat × Region) => s.join x.1) v).scope.seen ↔
        slot ∈ v.scope.seen ∨ ∃ x ∈ xs, slot ∈ (v.sides.getD x.1 {}).first.seen := by
    intro xs
    induction xs with
    | nil => simp
    | cons x xs ih =>
      intro v
      rw [List.foldl_cons, ih, mem_seen_join]
      simp only [List.mem_cons, exists_eq_or_imp, or_assoc]
      rfl
  rw [joined, all]
  refine or_congr_right ?_
  constructor
  · rintro ⟨x, member, seen⟩
    obtain ⟨here, t, split, ends⟩ := mem_ifElses.mp (Sorting.mem_sort.mp member : (x.1, x.2) ∈ _)
    exact ⟨x.1, x.2, t, here, split, by simpa using ends, seen⟩
  · rintro ⟨i, r, t, here, split, ends, seen⟩
    exact ⟨(i, r), Sorting.mem_sort.mpr (mem_ifElses.mpr ⟨here, t, split, by simpa using ends⟩), seen⟩

/-- What is remembered of the sides stays through a definition, names shared for the slot apart. -/
theorem define?_sides (ran : define? units regions s slot p = some (new, s')) (i : Nat) :
    (s'.sides.getD i {}).before = (s.sides.getD i {}).before ∧ (s'.sides.getD i {}).first = (s.sides.getD i {}).first ∧
      ∀ other, other ≠ slot → (s'.sides.getD i {}).shared[other]? = (s.sides.getD i {}).shared[other]? := by
  have same : ∀ t : Renaming, t.sides = s.sides → (t.sides.getD i {}).before = (s.sides.getD i {}).before ∧
      (t.sides.getD i {}).first = (s.sides.getD i {}).first ∧
      ∀ other, other ≠ slot → (t.sides.getD i {}).shared[other]? = (s.sides.getD i {}).shared[other]? :=
    fun t sides => by rw [sides]; exact ⟨rfl, rfl, fun _ _ => rfl⟩
  simp only [define?] at ran
  split at ran
  · cases ran
    exact same _ rfl
  · split at ran
    · cases ran
      exact same _ rfl
    · split at ran
      · split at ran
        · cases ran
        · split at ran <;> cases ran <;> exact same _ rfl
      · cases ran
        exact same _ rfl
      · split at ran
        · split at ran <;> cases ran
          · exact same _ rfl
          · simp only [rename, getD_sides_insert]
            split
            · rename_i here
              subst here
              refine ⟨rfl, rfl, fun other apart => ?_⟩
              simp [Std.TreeMap.getElem?_insert, Std.LawfulEqCmp.compare_eq_iff_eq, Ne.symm apart]
            · exact ⟨rfl, rfl, fun _ _ => rfl⟩
        · cases ran
          exact same _ rfl

theorem define?_seen (ran : define? units regions s slot p = some (new, s')) :
    other ∈ s'.scope.seen ↔ other ∈ s.scope.seen ∨ other = slot := by
  have kept : ∀ t : Renaming, t.scope.seen = s.scope.seen → slot ∈ s.scope.seen →
      (other ∈ t.scope.seen ↔ other ∈ s.scope.seen ∨ other = slot) := by
    intro t same known
    rw [same]
    constructor
    · exact .inl
    · rintro (old | rfl)
      · exact old
      · exact known
  simp only [define?] at ran
  split at ran
  · cases ran
    exact mem_seen_see
  · rename_i known
    have known : slot ∈ s.scope.seen := by simpa using known
    split at ran
    · cases ran
      exact kept _ rfl known
    · split at ran
      · split at ran
        · cases ran
        · split at ran <;> cases ran <;> exact kept _ rfl known
      · cases ran
        exact kept _ rfl known
      · split at ran
        · split at ran <;> cases ran <;> exact kept _ rfl known
        · cases ran
          exact kept _ rfl known

/-- What one statement does to what is seen and remembered. -/
theorem step?_marks (slot : String) (ran : step? units regions s u p = some (u', s')) :
    (slot ∈ s'.scope.seen ↔ slot ∈ (arrive regions s p).scope.seen ∨ u.Defines slot) ∧
      ∀ i, (s'.sides.getD i {}).before = ((arrive regions s p).sides.getD i {}).before ∧
        (s'.sides.getD i {}).first = ((arrive regions s p).sides.getD i {}).first ∧
        (¬u.Defines slot →
          (s'.sides.getD i {}).shared[slot]? = ((arrive regions s p).sides.getD i {}).shared[slot]?) := by
  simp only [step?] at ran
  split at ran
  · rename_i absent
    cases ran
    refine ⟨?_, fun _ => ⟨rfl, rfl, fun _ => rfl⟩⟩
    constructor
    · exact .inl
    · rintro (old | ⟨present, _⟩)
      · exact old
      · rw [absent] at present
        cases present
  · rename_i present
    have present : u.defined.isAbsent = false := by simpa using present
    have marks : ∀ new t, define? units regions (arrive regions s p) u.defined.text p = some (new, t) →
        (slot ∈ t.scope.seen ↔ slot ∈ (arrive regions s p).scope.seen ∨ u.Defines slot) ∧
          ∀ i, (t.sides.getD i {}).before = ((arrive regions s p).sides.getD i {}).before ∧
            (t.sides.getD i {}).first = ((arrive regions s p).sides.getD i {}).first ∧
            (¬u.Defines slot → (t.sides.getD i {}).shared[slot]? =
              ((arrive regions s p).sides.getD i {}).shared[slot]?) := by
      intro new t defined
      refine ⟨?_, fun i => ?_⟩
      · rw [define?_seen defined]
        exact or_congr_right ⟨fun same => ⟨present, same.symm⟩, fun defines => defines.2.symm⟩
      · obtain ⟨before, first, shared⟩ := define?_sides defined i
        exact ⟨before, first, fun other => shared slot fun same => other ⟨present, same.symm⟩⟩
    split at ran
    · cases ran
    · rename_i t defined
      cases ran
      exact marks _ _ defined
    · rename_i n t defined
      cases ran
      exact marks _ _ defined

/-- No if/else ends where a second side starts. -/
theorem joined_split (nests : Nests units regions) (member : r ∈ regions) (split : r.split? = some t) :
    joined regions s t = s := by
  have none : ifElses regions (fun r _ => r.stop + 1 == (t : Int)) = [] := by
    refine List.eq_nil_iff_forall_not_mem.mpr ?_
    rintro ⟨j, r'⟩ among
    obtain ⟨here, t', _, ends⟩ := mem_ifElses.mp among
    exact nests.stop_ne_split (List.mem_of_getElem? here) member split (by simpa using ends)
  rw [joined, none]
  rfl

/-- The names in use where the pass comes to a position. -/
def scopeAt (regions : List Region) (state : Nat → Renaming) (p : Nat) : Scope := (arrive regions (state p) p).scope

variable (trace : Trace units regions us state) (nests : Nests units regions)
include trace nests

namespace Trace

/-- What is remembered of an if/else is what was known where its sides start and end. -/
theorem remembers (inside : p ≤ units.length) (here : regions[i]? = some r) (split : r.split? = some t) :
    (r.start < p → ((state p).sides.getD i {}).before = scopeAt regions state r.start.toNat) ∧
      (t < p → ((state p).sides.getD i {}).first = (state t).scope) := by
  induction p with
  | zero =>
    have start := nests.start_pos (List.mem_of_getElem? here)
    exact ⟨fun before => by omega, fun before => absurd before (Nat.not_lt_zero t)⟩
  | succ p ih =>
    obtain ⟨before, first⟩ := ih (Nat.le_of_lt inside)
    have at_ : units[p]? = some units[p] := List.getElem?_eq_getElem inside
    obtain ⟨u', _, stepped⟩ := trace.step p _ at_
    obtain ⟨before', first', _⟩ := (step?_marks "" stepped).2 i
    have arrives : Arrives regions (state p) (arrive regions (state p) p) p := arrive_arrives nests
    rw [before', first']
    constructor
    · intro entered
      by_cases now : r.start = p
      · have place : r.start.toNat = p := by omega
        rw [place]
        exact arrives.enters i r t here split now
      · rw [arrives.before i r here now]
        exact before (by omega)
    · intro parted
      by_cases now : t = p
      · subst now
        rw [(arrives.second i r here split).2, joined_split nests (List.mem_of_getElem? here) split]
      · rw [arrives.first i r here (by rw [split]; simpa using now)]
        exact first (by omega)

/-- The second side of an if/else starts with the names in use before the first. -/
theorem scopeAt_split (inside : t ≤ units.length) (member : r ∈ regions) (split : r.split? = some t) :
    scopeAt regions state t = scopeAt regions state r.start.toNat := by
  obtain ⟨i, here⟩ := List.mem_iff_getElem?.mp member
  obtain ⟨low, _⟩ := nests.split_spec member split
  have arrives : Arrives regions (state t) (arrive regions (state t) t) t := arrive_arrives nests
  rw [scopeAt, (arrives.second i r here split).1]
  exact (trace.remembers nests inside here split).1 (by omega)

omit nests in
/-- After a statement a slot is seen if it was seen before or is defined there. -/
theorem mem_seen_succ (here : units[p]? = some u) :
    slot ∈ (state (p + 1)).scope.seen ↔ slot ∈ (scopeAt regions state p).seen ∨ DefinedAt units slot p := by
  obtain ⟨u', _, stepped⟩ := trace.step p u here
  rw [(step?_marks slot stepped).1, DefinedAt, here]
  simp [scopeAt]

omit nests in
/-- After a statement, what is seen is what is defined up to it and not on the other side of an if/else from it. -/
theorem mem_seen_after (above : slot ∈ (scopeAt regions state p).seen ↔ DefinedAbove units regions slot p)
    (inside : p < units.length) : slot ∈ (state (p + 1)).scope.seen ↔
      ∃ q ≤ p, DefinedAt units slot q ∧ ∀ r ∈ regions, r.apart q p = false := by
  rw [trace.mem_seen_succ (List.getElem?_eq_getElem inside), above]
  constructor
  · rintro (⟨q, above, defined, near⟩ | defined)
    · exact ⟨q, above.le, defined, near⟩
    · refine ⟨p, Nat.le_refl p, defined, fun r _ => Bool.eq_false_iff.mpr fun apart => ?_⟩
      obtain ⟨t, _, _, low, high, _⟩ := Region.apart_iff.mp apart
      omega
  · rintro ⟨q, above, defined, near⟩
    rcases Nat.lt_or_eq_of_le above with above | rfl
    · exact .inl ⟨q, above, defined, near⟩
    · exact .inr defined

/-- What is seen where the pass comes to a position is what is defined above it and not on the other side of an
if/else. -/
theorem mem_seen_iff (inside : p ≤ units.length) :
    slot ∈ (scopeAt regions state p).seen ↔ DefinedAbove units regions slot p := by
  induction p using Nat.strongRecOn with
  | ind p ih =>
    have succ : ∀ k < p, slot ∈ (state (k + 1)).scope.seen ↔
        ∃ q ≤ k, DefinedAt units slot q ∧ ∀ r ∈ regions, r.apart q k = false :=
      fun k before => trace.mem_seen_after (ih k before (by omega)) (by omega)
    by_cases parts : ∃ r ∈ regions, r.split? = some p
    · obtain ⟨r, member, split⟩ := parts
      obtain ⟨low, high, _⟩ := nests.split_spec member split
      have start := nests.start_pos member
      rw [trace.scopeAt_split nests inside member split, ih _ (by omega) (by omega)]
      exact nests.definedAbove_split member split
    · have parts : ∀ r ∈ regions, r.split? ≠ some p := fun r member split => parts ⟨r, member, split⟩
      have arrives : Arrives regions (state p) (arrive regions (state p) p) p := arrive_arrives nests
      rw [scopeAt, arrives.straight parts, mem_seen_joined]
      cases p with
      | zero =>
        rw [trace.start]
        constructor
        · rintro (old | ⟨i, r, t, here, _, ends, _⟩)
          · cases old
          · have := nests.start_pos (List.mem_of_getElem? here)
            omega
        · rintro ⟨q, above, _⟩
          omega
      | succ k =>
        rw [succ k (Nat.lt_succ_self k)]
        refine Iff.trans (or_congr_right ?_) (nests.definedAbove_succ parts)
        constructor
        · rintro ⟨i, r, t, here, split, ends, seen⟩
          obtain ⟨low, high, _⟩ := nests.split_spec (List.mem_of_getElem? here) split
          rw [(trace.remembers nests inside here split).2 (by omega)] at seen
          obtain ⟨j, rfl⟩ : ∃ j, t = j + 1 := ⟨t - 1, by have := nests.start_pos (List.mem_of_getElem? here); omega⟩
          exact ⟨r, List.mem_of_getElem? here, j, split, by omega, (succ j (by omega)).mp seen⟩
        · rintro ⟨r, member, j, split, ends, known⟩
          obtain ⟨i, here⟩ := List.mem_iff_getElem?.mp member
          obtain ⟨low, high, _⟩ := nests.split_spec member split
          refine ⟨i, r, j + 1, here, split, by omega, ?_⟩
          rw [(trace.remembers nests inside here split).2 (by omega)]
          exact (succ j (by omega)).mpr known

end Trace

end Renaming

end MisuseSlice
