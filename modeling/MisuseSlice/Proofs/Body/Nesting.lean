import MisuseSlice.Proofs.Body.Links

/-! Nested branches. In a body whose branches nest, an if/else is remembered while the pass is in it, and what the
pass knows at the start of a side and after the join follows from what it knew where the if/else starts. -/
namespace MisuseSlice

namespace Region

variable {units rest : List Statement} {regions : List Region} {r r' : Region} {u : Statement} {i j : Nat}

/-- What a region of a forward branch is: it starts below the branch and ends above its target, or above the target
of the jump that ends the first side. -/
structure Spans (units : List Statement) (r : Region) (i : Nat) (u : Statement) : Prop where
  branch : u.kind = .branchIf
  start : r.start = i + 1
  skips : (i : Int) + 1 < u.target
  sides : (r.kind = .oneSided ∧ r.stop = u.target - 1 ∧
      ∀ last ∈ units[u.target.toNat - 1]?, last.kind = .goto → last.target ≤ u.target) ∨
    ∃ both, ∃ last ∈ units[u.target.toNat - 1]?, r.kind = .ifElse u.target.toNat both ∧ last.kind = .goto ∧
      u.target < last.target ∧ r.stop = last.target - 1

theorem ofStatement_spans (forward : u.kind = .branchIf ∨ u.kind = .goto → (i : Int) < u.target)
    (made : ofStatement units i u = some (some r)) : r.Spans units i u := by
  simp only [ofStatement] at made
  split at made
  · rename_i kind
    have ahead := forward (.inl kind)
    rw [if_neg (by omega)] at made
    split at made
    · cases made
    · rename_i far
      have skips : (i : Int) + 1 < u.target := by omega
      split at made
      · cases made
      · rename_i last here
        split at made
        · rename_i jumps
          simp only [Bool.and_eq_true, beq_iff_eq, decide_eq_true_eq] at jumps
          split at made
          · cases made
          · cases made
            refine ⟨kind, rfl, skips, .inr ⟨_, last, here, rfl, jumps.1, by omega, ?_⟩⟩
            simp only
            omega
        · rename_i stays
          simp only [Bool.and_eq_true, beq_iff_eq, decide_eq_true_eq, not_and] at stays
          cases made
          refine ⟨kind, rfl, skips, .inl ⟨rfl, by simp only; omega, ?_⟩⟩
          intro last' here' jump
          cases Option.mem_unique here here'
          have := stays jump
          omega
  · rename_i kind
    have ahead := forward (.inr kind)
    rw [if_neg (by omega)] at made
    cases made
  · cases made

/-- The regions of a body come from its statements in order. -/
theorem ofStatements_spans {pos : Nat} (forward : ∀ (i : Nat) (u : Statement), rest[i]? = some u →
      u.kind = .branchIf ∨ u.kind = .goto → ((pos + i : Nat) : Int) < u.target)
    (found : ofStatements units pos rest = some regions) :
    (∀ r ∈ regions, ∃ i u, rest[i]? = some u ∧ r.Spans units (pos + i) u) ∧
      regions.Pairwise (·.start < ·.start) ∧
      ∀ (i : Nat) (u : Statement), rest[i]? = some u → ∃ made, ofStatement units (pos + i) u = some made ∧
        ∀ r ∈ made, r ∈ regions := by
  induction rest generalizing pos regions with
  | nil =>
    cases found
    exact ⟨fun _ member => absurd member List.not_mem_nil, .nil, fun _ _ here => by simp at here⟩
  | cons u rest ih =>
    simp only [ofStatements] at found
    split at found
    · rename_i made more first others
      cases found
      have place : ∀ i, pos + (i + 1) = pos + 1 + i := fun i => by omega
      obtain ⟨spans, ascending, all⟩ := ih (fun i u here kind => place i ▸ forward (i + 1) u here kind) others
      have head : ∀ r ∈ made, r.Spans units pos u := by
        rintro r rfl
        exact ofStatement_spans (forward 0 u rfl) first
      refine ⟨?_, ?_, ?_⟩
      · intro r member
        rcases List.mem_append.mp member with here | later
        · exact ⟨0, u, rfl, head r (Option.mem_toList.mp here)⟩
        · obtain ⟨i, v, here, span⟩ := spans r later
          exact ⟨i + 1, v, here, place i ▸ span⟩
      · refine List.pairwise_append.mpr ⟨?_, ascending, ?_⟩
        · cases made <;> simp
        · intro r here r' later
          obtain ⟨i, v, _, span⟩ := spans r' later
          rw [(head r (Option.mem_toList.mp here)).start, span.start]
          omega
      · intro i v here
        cases i with
        | zero =>
          cases here
          exact ⟨made, first, fun r member => List.mem_append_left _ (Option.mem_toList.mpr member)⟩
        | succ i =>
          obtain ⟨made', made_eq, members⟩ := all i v here
          exact ⟨made', place i ▸ made_eq, fun r member => List.mem_append_right _ (members r member)⟩
    · cases found

/-- Where the second side of an if/else starts. -/
def split? (r : Region) : Option Nat :=
  match r.kind with
  | .ifElse split _ => some split
  | _ => none

/-- One region lies in one side of another, before the jump that ends it. -/
def IsWithin (inner outer : Region) : Prop :=
  match outer.split? with
  | some split => inner.stop + 2 ≤ split ∨ ((split : Int) ≤ inner.start ∧ inner.stop ≤ outer.stop)
  | none => inner.stop ≤ outer.stop

instance (inner outer : Region) : Decidable (inner.IsWithin outer) := by
  unfold IsWithin
  split <;> infer_instance

theorem contains_iff {p : Int} : r.contains p = true ↔ r.start ≤ p ∧ p ≤ r.stop := by
  simp [contains]

/-- The innermost region of a position is a region of the body that holds it. -/
theorem innermost?_mem {pos : Nat} (inner : innermost? regions pos = some (i, r)) :
    regions[i]? = some r ∧ r.contains pos = true := by
  have held : ∀ e ∈ regions.zipIdx.filter fun e => e.1.contains pos,
      regions[e.2]? = some e.1 ∧ e.1.contains pos = true := by
    intro e member
    obtain ⟨among, holds⟩ := List.mem_filter.mp member
    exact ⟨List.mem_zipIdx_iff_getElem?.mp among, holds⟩
  simp only [innermost?] at inner
  split at inner
  · rename_i e loop
    cases inner
    exact held _ (List.mem_of_find?_eq_some loop)
  · refine List.foldlRecOn
      (motive := fun best : Option (Nat × Region) =>
        ∀ b ∈ best, regions[b.1]? = some b.2 ∧ b.2.contains pos = true)
      _ _ (by simp) (fun best known e member b chosen => ?_) (i, r) inner
    split at chosen
    · split at chosen
      · cases chosen
        exact held e member
      · exact known b chosen
    · cases chosen
      exact held e member

end Region

/-- The branches of a body go forward and nest: a jump ends the first side of an if/else, and regions that overlap
lie one in a side of the other. -/
structure Nests (units : List Statement) (regions : List Region) : Prop where
  found : Region.all units = some regions
  forward : ∀ i < units.length, ∀ u ∈ units[i]?, u.kind = .branchIf ∨ u.kind = .goto → (i : Int) < u.target
  plain : ∀ u ∈ units, u.kind ≠ .switch
  skips : ∀ i < units.length, ∀ u ∈ units[i]?, u.kind = .goto →
    ∃ r ∈ regions, r.split? = some (i + 1) ∧ u.target = r.stop + 1
  within : ∀ r ∈ regions, ∀ r' ∈ regions, r.start < r'.start → r'.start ≤ r.stop → r'.IsWithin r

namespace Nests

variable {units : List Statement} {regions : List Region} {r r' : Region} {u : Statement} {i j t p : Nat}

theorem ahead (nests : Nests units regions) (i : Nat) (u : Statement) (here : units[i]? = some u)
    (kind : u.kind = .branchIf ∨ u.kind = .goto) : ((0 + i : Nat) : Int) < u.target := by
  rw [Nat.zero_add]
  exact nests.forward i (List.getElem?_eq_some_iff.mp here).1 u here kind

theorem spans (nests : Nests units regions) (member : r ∈ regions) :
    ∃ i u, units[i]? = some u ∧ r.Spans units i u := by
  obtain ⟨i, u, here, span⟩ := (Region.ofStatements_spans nests.ahead nests.found).1 r member
  exact ⟨i, u, here, Nat.zero_add i ▸ span⟩

theorem ascending (nests : Nests units regions) : regions.Pairwise (·.start < ·.start) :=
  (Region.ofStatements_spans nests.ahead nests.found).2.1

/-- A statement makes the region that stands in the list. -/
theorem region_of (nests : Nests units regions) (here : units[i]? = some u) :
    ∃ made, Region.ofStatement units i u = some made ∧ ∀ r ∈ made, r ∈ regions ∧ r.Spans units i u := by
  obtain ⟨made, made_eq, members⟩ := (Region.ofStatements_spans nests.ahead nests.found).2.2 i u here
  rw [Nat.zero_add] at made_eq
  refine ⟨made, made_eq, fun r member => ⟨members r member, ?_⟩⟩
  cases member
  exact Region.ofStatement_spans (fun kind => Nat.zero_add i ▸ nests.ahead i u here kind) made_eq

/-- A branch that skips statements makes a region. -/
theorem region_of_branch (nests : Nests units regions) (here : units[i]? = some u) (kind : u.kind = .branchIf)
    (far : (i : Int) + 1 < u.target) : ∃ r ∈ regions, r.Spans units i u := by
  obtain ⟨made, made_eq, members⟩ := nests.region_of here
  cases made with
  | some r => exact ⟨r, members r rfl⟩
  | none =>
    simp only [Region.ofStatement, kind] at made_eq
    rw [if_neg (by omega), if_neg (by omega)] at made_eq
    split at made_eq
    · cases made_eq
    · split at made_eq
      · split at made_eq <;> cases made_eq
      · cases made_eq

/-- No two regions start at one position. -/
theorem index_unique (nests : Nests units regions) (atI : regions[i]? = some r) (atJ : regions[j]? = some r')
    (start : r.start = r'.start) : i = j := by
  have ordered := List.pairwise_iff_getElem.mp nests.ascending
  obtain ⟨insideI, hereI⟩ := List.getElem?_eq_some_iff.mp atI
  obtain ⟨insideJ, hereJ⟩ := List.getElem?_eq_some_iff.mp atJ
  subst hereI hereJ
  rcases Nat.lt_trichotomy i j with before | same | after
  · have := ordered i j insideI insideJ before
    omega
  · exact same
  · have := ordered j i insideJ insideI after
    omega

theorem eq_of_start (nests : Nests units regions) (member : r ∈ regions) (member' : r' ∈ regions)
    (start : r.start = r'.start) : r = r' := by
  obtain ⟨i, atI⟩ := List.mem_iff_getElem?.mp member
  obtain ⟨j, atJ⟩ := List.mem_iff_getElem?.mp member'
  have same := nests.index_unique atI atJ start
  subst same
  exact Option.some.inj (atI.symm.trans atJ)

/-- The second side of an if/else is not empty and starts below a jump to its end. -/
theorem split_spec (nests : Nests units regions) (member : r ∈ regions) (split : r.split? = some t) :
    r.start + 1 ≤ t ∧ (t : Int) ≤ r.stop ∧ ∃ last ∈ units[t - 1]?, last.kind = .goto := by
  obtain ⟨i, u, _, span⟩ := nests.spans member
  have start := span.start
  have skips := span.skips
  rcases span.sides with ⟨kind, _⟩ | ⟨both, last, here, kind, jump, further, stop⟩
  · simp [Region.split?, kind] at split
  · simp only [Region.split?, kind, Option.some.injEq] at split
    subst split
    exact ⟨by omega, by omega, last, here, jump⟩

theorem start_pos (nests : Nests units regions) (member : r ∈ regions) : 1 ≤ r.start ∧ r.start ≤ r.stop := by
  obtain ⟨i, u, _, span⟩ := nests.spans member
  have start := span.start
  have skips := span.skips
  rcases span.sides with ⟨_, stop, _⟩ | ⟨both, last, _, _, _, further, stop⟩ <;> omega

/-- The kinds of regions of a nested body. -/
theorem kind_cases (nests : Nests units regions) (member : r ∈ regions) :
    (r.kind = .oneSided ∧ r.split? = none) ∨ ∃ t both, r.kind = .ifElse t both ∧ r.split? = some t := by
  obtain ⟨i, u, _, span⟩ := nests.spans member
  rcases span.sides with ⟨kind, _⟩ | ⟨both, last, _, kind, _⟩
  · exact .inl ⟨kind, by simp [Region.split?, kind]⟩
  · exact .inr ⟨_, both, kind, by simp [Region.split?, kind]⟩

theorem no_loop (nests : Nests units regions) : ∀ r ∈ regions, r.kind ≠ .loop := by
  intro r member loop
  rcases nests.kind_cases member with ⟨kind, _⟩ | ⟨t, both, kind, _⟩
  · rw [kind] at loop
    cases loop
  · rw [kind] at loop
    cases loop

/-- Of two regions that hold a position, one lies in a side of the other. -/
theorem within_cases (nests : Nests units regions) (member : r ∈ regions) (member' : r' ∈ regions) {p : Int}
    (holds : r.start ≤ p ∧ p ≤ r.stop) (holds' : r'.start ≤ p ∧ p ≤ r'.stop) :
    r = r' ∨ (r.start < r'.start ∧ r'.IsWithin r) ∨ (r'.start < r.start ∧ r.IsWithin r') := by
  rcases Int.lt_trichotomy r.start r'.start with before | same | after
  · exact .inr (.inl ⟨before, nests.within r member r' member' before (by omega)⟩)
  · exact .inl (nests.eq_of_start member member' same)
  · exact .inr (.inr ⟨after, nests.within r' member' r member after (by omega)⟩)

/-- No two second sides start at one position. -/
theorem eq_of_split (nests : Nests units regions) (member : r ∈ regions) (member' : r' ∈ regions)
    (split : r.split? = some t) (split' : r'.split? = some t) : r = r' := by
  have sides := nests.split_spec member split
  have sides' := nests.split_spec member' split'
  rcases nests.within_cases member member' (p := t) (by omega) (by omega) with same | ⟨_, within⟩ | ⟨_, within⟩
  · exact same
  · simp only [Region.IsWithin, split] at within
    omega
  · simp only [Region.IsWithin, split'] at within
    omega

end Nests

namespace Renaming

variable {units : List Statement} {regions : List Region} {r r' : Region} {i j t pos : Nat} {s : Renaming}
  {p : Region → Nat → Bool}

theorem mem_ifElses : (i, r) ∈ ifElses regions p ↔ regions[i]? = some r ∧ ∃ t, r.split? = some t ∧ p r t = true := by
  simp only [ifElses, List.mem_filterMap]
  constructor
  · rintro ⟨⟨r', j⟩, member, chosen⟩
    have here := List.mem_zipIdx_iff_getElem?.mp member
    simp only at chosen here
    split at chosen
    · rename_i t both kind
      split at chosen
      · rename_i holds
        cases chosen
        exact ⟨here, t, by simp [Region.split?, kind], holds⟩
      · cases chosen
    · cases chosen
  · rintro ⟨here, t, split, holds⟩
    refine ⟨(r, i), List.mem_zipIdx_iff_getElem?.mpr here, ?_⟩
    simp only [Region.split?] at split
    split at split
    · rename_i t' both kind
      cases split
      simp only [kind, holds, ↓reduceIte]
    · cases split

theorem ifElses_nodup : ((ifElses regions p).map (·.1)).Nodup := by
  have part : ((ifElses regions p).map (·.1)).Sublist (regions.zipIdx.map (·.2)) := by
    unfold ifElses
    rw [List.map_filterMap]
    rw [← List.filterMap_eq_map]
    generalize regions.zipIdx = es
    induction es with
    | nil => exact .slnil
    | cons e es ih =>
      obtain ⟨r, i⟩ := e
      rw [List.filterMap_cons, List.filterMap_cons]
      cases kind : r.kind with
      | ifElse t both =>
        by_cases holds : p r t
        · simpa [kind, holds] using ih
        · simpa [kind, holds] using ih.cons i
      | loop => simpa [kind] using ih.cons i
      | oneSided => simpa [kind] using ih.cons i
  refine part.nodup ?_
  rw [List.zipIdx_map_snd]
  exact List.nodup_range'

/-- If at most one if/else satisfies a property, it is the only one found. -/
theorem ifElses_cases (regions : List Region) (p : Region → Nat → Bool)
    (unique : ∀ (i j : Nat) (r r' : Region) (t t' : Nat), regions[i]? = some r → r.split? = some t →
      p r t = true → regions[j]? = some r' → r'.split? = some t' → p r' t' = true → i = j) :
    (ifElses regions p = [] ∧
        ∀ (i : Nat) (r : Region) (t : Nat), regions[i]? = some r → r.split? = some t → p r t = false) ∨
      ∃ i r t, ifElses regions p = [(i, r)] ∧ regions[i]? = some r ∧ r.split? = some t ∧ p r t = true := by
  cases found : ifElses regions p with
  | nil =>
    refine .inl ⟨rfl, fun i r t here split => Bool.eq_false_iff.mpr fun holds => ?_⟩
    have := mem_ifElses.mpr ⟨here, t, split, holds⟩
    simp [found] at this
  | cons e es =>
    obtain ⟨i, r⟩ := e
    obtain ⟨here, t, split, holds⟩ := mem_ifElses.mp (found ▸ List.mem_cons_self : (i, r) ∈ ifElses regions p)
    refine .inr ⟨i, r, t, ?_, here, split, holds⟩
    have nodup : ((ifElses regions p).map (·.1)).Nodup := ifElses_nodup
    rw [found, List.map_cons, List.nodup_cons] at nodup
    cases es with
    | nil => rfl
    | cons e' es =>
      obtain ⟨j, r'⟩ := e'
      obtain ⟨here', t', split', holds'⟩ :=
        mem_ifElses.mp (found ▸ List.mem_cons_of_mem _ List.mem_cons_self : (j, r') ∈ ifElses regions p)
      have same := unique i j r r' t t' here split holds here' split' holds'
      exact absurd (by simp [same]) nodup.1

/-- The pass after the joins at a position. -/
def joined (regions : List Region) (s : Renaming) (pos : Nat) : Renaming :=
  (Sorting.sort (fun a b => decide (b.2.start ≤ a.2.start)) (ifElses regions fun r _ => r.stop + 1 == pos)).foldl
    (fun s (x : Nat × Region) => s.join x.1) s

/-- What every join at a position keeps, if what is remembered is as it was, holds after all of them. -/
theorem joined_induction {P : Scope → Prop} (start : P s.scope)
    (keeps : ∀ (i : Nat) (r : Region) (t : Nat) (v : Renaming), regions[i]? = some r → r.split? = some t →
      r.stop + 1 = pos → v.sides = s.sides → P v.scope → P (v.join i).scope) :
    P (joined regions s pos).scope ∧ (joined regions s pos).sides = s.sides := by
  have all : ∀ (xs : List (Nat × Region)) (v : Renaming), (∀ x ∈ xs, x ∈ ifElses regions fun r _ => r.stop + 1 == pos) →
      v.sides = s.sides → P v.scope →
      P (xs.foldl (fun s (x : Nat × Region) => s.join x.1) v).scope ∧
        (xs.foldl (fun s (x : Nat × Region) => s.join x.1) v).sides = s.sides := by
    intro xs
    induction xs with
    | nil => exact fun _ _ same holds => ⟨holds, same⟩
    | cons x xs ih =>
      intro v among same holds
      obtain ⟨here, t, split, ends⟩ := mem_ifElses.mp (among x List.mem_cons_self : (x.1, x.2) ∈ _)
      exact ih (v.join x.1) (fun y member => among y (List.mem_cons_of_mem _ member)) same
        (keeps x.1 x.2 t v here split (by simpa using ends) same holds)
  exact all _ s (fun x member => Sorting.mem_sort.mp member) rfl start

/-- What coming to a position does: the joins first, then the second side that starts there, then the first. -/
structure Arrives (regions : List Region) (s s' : Renaming) (pos : Nat) : Prop where
  second : ∀ (i : Nat) (r : Region), regions[i]? = some r → r.split? = some pos →
    s'.scope = (s.sides.getD i {}).before ∧ (s'.sides.getD i {}).first = (joined regions s pos).scope
  straight : (∀ r ∈ regions, r.split? ≠ some pos) → s'.scope = (joined regions s pos).scope
  enters : ∀ (i : Nat) (r : Region) (t : Nat), regions[i]? = some r → r.split? = some t → r.start = pos →
    (s'.sides.getD i {}).before = s'.scope
  before : ∀ (i : Nat) (r : Region), regions[i]? = some r → r.start ≠ pos →
    (s'.sides.getD i {}).before = (s.sides.getD i {}).before
  first : ∀ (i : Nat) (r : Region), regions[i]? = some r → r.split? ≠ some pos →
    (s'.sides.getD i {}).first = (s.sides.getD i {}).first
  shared : ∀ i, (s'.sides.getD i {}).shared = (s.sides.getD i {}).shared

/-- Where first sides start, what is known is remembered. -/
theorem enters_spec (pos : Nat) (nests : Nests units regions) {v w : Renaming}
    (entered : w = (ifElses regions fun r _ => r.start == pos).foldl (fun s (x : Nat × Region) => s.enter x.1) v) :
    w.scope = v.scope ∧
      (∀ (i : Nat) (r : Region) (t : Nat), regions[i]? = some r → r.split? = some t → r.start = pos →
        (w.sides.getD i {}).before = v.scope) ∧
      (∀ (i : Nat) (r : Region), regions[i]? = some r → r.start ≠ pos →
        (w.sides.getD i {}).before = (v.sides.getD i {}).before) ∧
      ∀ i, (w.sides.getD i {}).first = (v.sides.getD i {}).first ∧
        (w.sides.getD i {}).shared = (v.sides.getD i {}).shared := by
  subst entered
  rcases ifElses_cases regions (fun r _ => r.start == pos) (by
    intro i j r r' t t' atI _ here atJ _ here'
    exact nests.index_unique atI atJ (by rw [eq_of_beq here, eq_of_beq here'])) with
    ⟨none, never⟩ | ⟨i, r, t, one, atI, split, starts⟩
  · rw [none]
    refine ⟨rfl, ?_, fun _ _ _ _ => rfl, fun _ => ⟨rfl, rfl⟩⟩
    intro i r t here split start
    exact absurd start (by simpa using never i r t here split)
  · rw [one]
    have sides : ∀ j, ((v.enter i).sides.getD j {}) = if i = j then { v.sides.getD i {} with before := v.scope }
        else v.sides.getD j {} := fun j => getD_sides_insert
    refine ⟨rfl, ?_, ?_, ?_⟩
    · intro j r' t' atJ split' start
      have same := nests.index_unique atI atJ (by rw [eq_of_beq starts, start])
      subst same
      simp only [List.foldl_cons, List.foldl_nil, sides, ↓reduceIte]
    · intro j r' atJ other
      have apart : i ≠ j := by
        rintro rfl
        cases atI.symm.trans atJ
        exact other (eq_of_beq starts)
      simp only [List.foldl_cons, List.foldl_nil, sides, apart, ↓reduceIte]
    · intro j
      simp only [List.foldl_cons, List.foldl_nil, sides]
      split <;> simp_all

/-- Where a second side starts, what was known before the first side is known again. -/
theorem splits_spec (pos : Nat) (nests : Nests units regions) {v w : Renaming}
    (parted : w = (ifElses regions fun _ t => t == pos).foldl (fun s (x : Nat × Region) => s.split x.1) v) :
    (∀ (i : Nat) (r : Region), regions[i]? = some r → r.split? = some pos →
      w.scope = (v.sides.getD i {}).before ∧ (w.sides.getD i {}).first = v.scope) ∧
      ((∀ r ∈ regions, r.split? ≠ some pos) → w.scope = v.scope) ∧
      (∀ (i : Nat) (r : Region), regions[i]? = some r → r.split? ≠ some pos →
        (w.sides.getD i {}).first = (v.sides.getD i {}).first) ∧
      ∀ i, (w.sides.getD i {}).before = (v.sides.getD i {}).before ∧
        (w.sides.getD i {}).shared = (v.sides.getD i {}).shared := by
  subst parted
  rcases ifElses_cases regions (fun _ t => t == pos) (by
    intro i j r r' t t' atI split here atJ split' here'
    have same := nests.eq_of_split (List.mem_of_getElem? atI) (List.mem_of_getElem? atJ) split
      (by rw [split', eq_of_beq here, eq_of_beq here'])
    exact nests.index_unique atI atJ (by rw [same])) with ⟨none, never⟩ | ⟨i, r, t, one, atI, split, here⟩
  · rw [none]
    refine ⟨?_, fun _ => rfl, fun _ _ _ _ => rfl, fun _ => ⟨rfl, rfl⟩⟩
    intro i r atI split
    have := never i r pos atI split
    simp at this
  · rw [one]
    have place : t = pos := eq_of_beq here
    subst place
    have sides : ∀ j, ((v.split i).sides.getD j {}) = if i = j then { v.sides.getD i {} with first := v.scope }
        else v.sides.getD j {} := fun j => getD_sides_insert
    refine ⟨?_, ?_, ?_, ?_⟩
    · intro j r' atJ split'
      have same := nests.eq_of_split (List.mem_of_getElem? atI) (List.mem_of_getElem? atJ) split split'
      have index := nests.index_unique atI atJ (by rw [same])
      subst index
      exact ⟨rfl, by simp only [List.foldl_cons, List.foldl_nil, sides, ↓reduceIte]⟩
    · intro never
      exact absurd split (never r (List.mem_of_getElem? atI))
    · intro j r' atJ other
      have apart : i ≠ j := by
        rintro rfl
        cases atI.symm.trans atJ
        exact other split
      simp only [List.foldl_cons, List.foldl_nil, sides, apart, ↓reduceIte]
    · intro j
      simp only [List.foldl_cons, List.foldl_nil, sides]
      split <;> simp_all

theorem arrive_arrives (nests : Nests units regions) : Arrives regions s (arrive regions s pos) pos := by
  have joins : (joined regions s pos).sides = s.sides :=
    (joined_induction (P := fun _ => True) trivial fun _ _ _ _ _ _ _ _ _ => trivial).2
  obtain ⟨second, straight, first, kept⟩ := splits_spec pos (v := joined regions s pos) nests rfl
  obtain ⟨scope, enters, before, kept'⟩ := enters_spec pos nests (w := arrive regions s pos) rfl
  rw [joins] at second first kept
  refine ⟨?_, ?_, ?_, ?_, ?_, ?_⟩
  · intro i r here split
    obtain ⟨scope', first'⟩ := second i r here split
    exact ⟨scope.trans scope', (kept' i).1.trans first'⟩
  · exact fun never => scope.trans (straight never)
  · exact fun i r t here split start => (enters i r t here split start).trans scope.symm
  · exact fun i r here other => (before i r here other).trans (kept i).1
  · exact fun i r here other => (kept' i).1.trans (first i r here other)
  · exact fun i => (kept' i).2.trans (kept i).2

end Renaming

end MisuseSlice
