import MisuseSlice.Proofs.Body.Names
import MisuseSlice.Proofs.Maps

/-! Who owns a name. Through the whole pass every name that is in use, or remembered for the sides of an
if/else, stands for one slot: a slot's own name, or a fresh name that was made for it. -/
namespace MisuseSlice

/-- A statement that defines a variable assigns it. -/
theorem Statement.defined_eq_left {u : Statement} (defines : u.defined.isAbsent = false) :
    u.left = u.defined ∧ u.kind.definesLocal = true ∧ u.defined.isVariable = true := by
  revert defines
  simp only [Statement.defined]
  split
  · rename_i both
    obtain ⟨kind, variable_⟩ := Bool.and_eq_true_iff.mp both
    exact fun _ => ⟨rfl, kind, variable_⟩
  · intro absent
    cases absent

/-- What a statement defines is one of its operands. -/
theorem Statement.defined_mem_operands {u : Statement} (defines : u.defined.isAbsent = false) :
    u.defined ∈ u.operands := by
  simp only [Statement.operands, List.mem_filter, List.mem_append]
  refine ⟨.inl (.inl (.inl ?_)), by simp [defines]⟩
  rw [(defined_eq_left defines).1]
  split <;> simp

/-- Every name in use is owned by the slot that it is used for. -/
def Scope.Owned (owns : String → String → Prop) (scope : Scope) : Prop :=
  ∀ slot n, scope.names[slot]? = some n → owns n slot

namespace Scope

variable {owns : String → String → Prop} {scope : Scope} {slot name other : String}

@[simp] theorem names_see : (scope.see slot).names = scope.names := by
  unfold see
  split <;> rfl

theorem names_foldl_see {slots : List String} : (slots.foldl see scope).names = scope.names := by
  induction slots generalizing scope with
  | nil => rfl
  | cons s slots ih => rw [List.foldl_cons, ih, names_see]

theorem getElem?_names_use :
    (scope.use slot name).names[other]? = if slot = other then some name else scope.names[other]? := by
  simp only [use, Std.TreeMap.getElem?_insert, Std.LawfulEqCmp.compare_eq_iff_eq]

/-- Using names in order leaves the last for each slot; here there is at most one. -/
theorem getElem?_names_foldl_use {entries : List (String × String)} (distinct : entries.Pairwise fun a b => a.1 ≠ b.1) :
    (entries.foldl (fun sc (e : String × String) => sc.use e.1 e.2) scope).names[slot]? =
      ((entries.find? (·.1 == slot)).map (·.2)).or scope.names[slot]? := by
  induction entries generalizing scope with
  | nil => rfl
  | cons e entries ih =>
    obtain ⟨others, distinct⟩ := List.pairwise_cons.mp distinct
    rw [List.foldl_cons, ih distinct, getElem?_names_use]
    by_cases same : e.1 = slot
    · have none : entries.find? (·.1 == slot) = none := by
        refine List.find?_eq_none.mpr fun x member => ?_
        simpa using fun key => others x member (same.trans key.symm)
      simp [same, none]
    · simp [same]

/-- Adding what is absent keeps what is present. -/
theorem getElem?_foldl_absent {entries : List (String × String)} {names : Std.TreeMap String String} :
    (entries.foldl (fun ns (e : String × String) => if ns.contains e.1 then ns else ns.insert e.1 e.2) names)[slot]? =
      names[slot]?.or ((entries.find? (·.1 == slot)).map (·.2)) := by
  induction entries generalizing names with
  | nil => simp
  | cons e entries ih =>
    rw [List.foldl_cons, ih]
    by_cases present : names.contains e.1
    · simp only [present, ↓reduceIte]
      by_cases same : e.1 = slot
      · obtain ⟨v, here⟩ := Maps.contains_iff.mp present
        rw [same] at here
        simp [here]
      · simp [same]
    · simp only [present, Bool.false_eq_true, ↓reduceIte, Std.TreeMap.getElem?_insert]
      by_cases same : e.1 = slot
      · have absent : names[slot]? = none :=
          Maps.getElem?_eq_none_iff.mpr (by rw [← same]; exact Bool.eq_false_iff.mpr present)
        simp [same, absent]
      · simp [same, Std.LawfulEqCmp.compare_eq_iff_eq]

theorem Owned.use (owned : scope.Owned owns) (new : owns name slot) : (scope.use slot name).Owned owns := by
  intro other n here
  rw [getElem?_names_use] at here
  split at here
  · rename_i same
    cases here
    exact same ▸ new
  · exact owned other n here

theorem Owned.see (owned : scope.Owned owns) : (scope.see slot).Owned owns := by
  intro other n here
  rw [names_see] at here
  exact owned other n here

end Scope

/-- The names remembered for the sides of an if/else are owned. -/
structure Sides.Owned (owns : String → String → Prop) (m : Sides) : Prop where
  before : m.before.Owned owns
  first : m.first.Owned owns
  shared : ∀ slot n, m.shared[slot]? = some n → owns n slot

namespace Renaming

/-- The names of the pass are owned; they are names of slots, noted, and each is owned by one slot. -/
structure Owned (owns : String → String → Prop) (k : Int) (s : Renaming) : Prop where
  scope : s.scope.Owned owns
  sides : ∀ i, (s.sides.getD i {}).Owned owns
  noted : ∀ n slot, owns n slot → s.counters.Covers n
  named : ∀ n slot, owns n slot → IsSlotName n
  single : ∀ n a b, owns n a → owns n b → a = b
  within : s.counters.Within k

variable {owns : String → String → Prop} {k : Int} {s s' : Renaming} {units rest us : List Statement}
  {regions : List Region} {u u' : Statement} {pos : Nat} {slot : String} {new : Option String}

theorem getD_sides_insert {m : Sides} {i j : Nat} :
    (s.sides.insert i m).getD j {} = if i = j then m else s.sides.getD j {} := by
  rw [Std.TreeMap.getD_insert]
  simp [Std.LawfulEqCmp.compare_eq_iff_eq]

/-- Where two sides join, a slot has the name that they share, else that in use, else that of the first side. -/
theorem getElem?_names_join (s : Renaming) (slot : String) (i : Nat) : (s.join i).scope.names[slot]? =
    (s.sides.getD i {}).shared[slot]?.or
      (s.scope.names[slot]?.or (s.sides.getD i {}).first.names[slot]?) := by
  have distinct : (s.sides.getD i {}).shared.toList.Pairwise fun a b => a.1 ≠ b.1 := by
    have apart := Std.TreeMap.distinct_keys_toList (t := (s.sides.getD i {}).shared)
    exact apart.imp fun other same => other (by rw [same]; exact Std.ReflCmp.compare_self)
  simp only [join]
  rw [Scope.getElem?_names_foldl_use distinct, Maps.find?_toList, Scope.names_foldl_see,
    Scope.getElem?_foldl_absent, Maps.find?_toList]

theorem Owned.setSides {m : Sides} {i : Nat} (owned : s.Owned owns k) (ofSides : m.Owned owns) :
    ({ s with sides := s.sides.insert i m } : Renaming).Owned owns k := by
  refine { owned with sides := fun j => ?_ }
  rw [getD_sides_insert]
  split
  · exact ofSides
  · exact owned.sides j

theorem Owned.setScope {scope : Scope} (owned : s.Owned owns k) (ofScope : scope.Owned owns) :
    ({ s with scope } : Renaming).Owned owns k :=
  { owned with scope := ofScope }

theorem Owned.join {i : Nat} (owned : s.Owned owns k) : (s.join i).Owned owns k := by
  obtain ⟨_, first, shared⟩ := owned.sides i
  have ofScope : (s.join i).scope.Owned owns := by
    intro slot n here
    rw [Renaming.getElem?_names_join] at here
    rcases Option.or_eq_some_iff.mp here with share | ⟨-, other⟩
    · exact shared slot n share
    · rcases Option.or_eq_some_iff.mp other with current | ⟨-, added⟩
      · exact owned.scope slot n current
      · exact first slot n added
  exact owned.setScope ofScope

theorem Owned.split {i : Nat} (owned : s.Owned owns k) : (s.split i).Owned owns k := by
  have sides := owned.sides i
  have left : ({ s.sides.getD i {} with first := s.scope } : Sides).Owned owns :=
    ⟨sides.before, owned.scope, sides.shared⟩
  exact (owned.setSides left).setScope sides.before

theorem Owned.enter {i : Nat} (owned : s.Owned owns k) : (s.enter i).Owned owns k := by
  have sides := owned.sides i
  have entered : ({ s.sides.getD i {} with before := s.scope } : Sides).Owned owns :=
    ⟨owned.scope, sides.first, sides.shared⟩
  exact owned.setSides entered

/-- Coming to a position keeps what each of its parts keeps. -/
theorem arrive_induction {P : Renaming → Prop} (join : ∀ s i, P s → P (s.join i)) (split : ∀ s i, P s → P (s.split i))
    (enter : ∀ s i, P s → P (s.enter i)) (start : P s) : P (arrive regions s pos) := by
  have all : ∀ (xs : List (Nat × Region)) (f : Renaming → Nat → Renaming), (∀ s i, P s → P (f s i)) → ∀ s, P s →
      P (xs.foldl (fun s (x : Nat × Region) => f s x.1) s) := by
    intro xs f keeps
    induction xs with
    | nil => exact fun _ start => start
    | cons x xs ih => exact fun s start => ih _ (keeps s x.1 start)
  unfold arrive
  exact all _ Renaming.enter enter _ (all _ Renaming.split split _ (all _ Renaming.join join _ start))

/-- Coming to a position keeps the names owned. -/
theorem Owned.arrive (owned : s.Owned owns k) : (arrive regions s pos).Owned owns k :=
  arrive_induction (fun _ _ owned => owned.join) (fun _ _ owned => owned.split) (fun _ _ owned => owned.enter) owned

/-- More slots own names, and more numbers are in use. -/
theorem Owned.mono {more : Int} (owned : s.Owned owns k) (le : k ≤ more) : s.Owned owns more :=
  { owned with within := fun l => ⟨(owned.within l).1, Int.le_trans (owned.within l).2 le⟩ }

/-- The name in use for a slot is the one that is entered for it, else its own. -/
theorem Owned.nameOf (owned : s.Owned owns k) (own : owns slot slot) : owns (s.scope.nameOf slot) slot := by
  simp only [Scope.nameOf]
  split
  · rename_i n here
    split
    · exact own
    · exact owned.scope slot n here
  · exact own

/-- After a fresh name is made for a slot, the slot owns it as well. -/
theorem Owned.fresh (owned : s.Owned owns k) (slotName : IsSlotName slot) (room : k + 1 < 2 ^ 63) :
    ({ s with counters := (s.counters.fresh slot).2 } : Renaming).Owned
      (fun n a => owns n a ∨ (n = (s.counters.fresh slot).1 ∧ a = slot)) (k + 1) := by
  obtain ⟨named, unnoted, noted, grows, within⟩ := Counters.fresh_spec slotName owned.within room
  have sides := owned.sides
  refine ⟨fun slot n here => .inl (owned.scope slot n here), fun i => ⟨?_, ?_, ?_⟩, ?_, ?_, ?_, within⟩
  · exact fun slot n here => .inl ((sides i).before slot n here)
  · exact fun slot n here => .inl ((sides i).first slot n here)
  · exact fun slot n here => .inl ((sides i).shared slot n here)
  · rintro n a (old | ⟨rfl, -⟩)
    · exact (owned.noted n a old).mono grows
    · exact noted
  · rintro n a (old | ⟨rfl, -⟩)
    · exact owned.named n a old
    · exact named
  · rintro n a c (old | ⟨rfl, rfl⟩) (older | ⟨same, rfl⟩)
    · exact owned.single n a c old older
    · exact absurd (owned.noted n a old) (same ▸ unnoted)
    · exact absurd (owned.noted _ c older) unnoted
    · rfl

theorem Owned.rename {name : String} (owned : s.Owned owns k) (own : owns name slot) :
    (s.rename slot name).Owned owns k := by
  have used : (s.scope.use slot name).Owned owns := owned.scope.use own
  exact { owned.setScope used with }

/-- The name that a definition gets is owned by the slot that it defines. -/
theorem define?_owned (owned : s.Owned owns k) (own : owns slot slot) (room : k + 1 < 2 ^ 63)
    (ran : define? units regions s slot pos = some (new, s')) :
    ∃ more : String → String → Prop, (∀ n a, owns n a → more n a) ∧ s'.Owned more (k + 1) ∧
      more (new.getD slot) slot := by
  have slotName := owned.named slot slot own
  have le : k ≤ k + 1 := by omega
  have keeps : ∀ a : Std.TreeMap String Value, ({ s with aliases := a } : Renaming).Owned owns k :=
    fun a => { owned with }
  have makes : ∀ t : Renaming, t.Owned (fun n a => owns n a ∨ (n = (s.counters.fresh slot).1 ∧ a = slot)) (k + 1) →
      ∃ more : String → String → Prop, (∀ n a, owns n a → more n a) ∧
        (t.rename slot (s.counters.fresh slot).1).Owned more (k + 1) ∧ more (s.counters.fresh slot).1 slot :=
    fun t made => ⟨_, fun n a => .inl, made.rename (.inr ⟨rfl, rfl⟩), .inr ⟨rfl, rfl⟩⟩
  simp only [define?] at ran
  split at ran
  · cases ran
    refine ⟨owns, fun _ _ => id, Owned.mono ?_ le, own⟩
    exact owned.setScope (owned.scope.see.use own)
  · split at ran
    · cases ran
      exact makes _ (owned.fresh slotName room)
    · rename_i i r _
      split at ran
      · split at ran
        · cases ran
        · split at ran
          · cases ran
            exact makes _ (owned.fresh slotName room)
          · cases ran
            exact ⟨owns, fun _ _ => id, (keeps _).mono le, owned.nameOf own⟩
      · cases ran
        exact ⟨owns, fun _ _ => id, (keeps _).mono le, owned.nameOf own⟩
      · split at ran
        · split at ran
          · rename_i n shared
            cases ran
            have mine : owns n slot := (owned.sides i).shared slot n shared
            exact ⟨owns, fun _ _ => id, (owned.rename mine).mono le, mine⟩
          · cases ran
            have made := owned.fresh slotName room
            have sides := made.sides i
            refine makes _ (made.setSides ⟨sides.before, sides.first, ?_⟩)
            intro other n here
            rcases Maps.getElem?_insert_eq_some.mp here with ⟨rfl, rfl⟩ | ⟨-, here⟩
            · exact .inr ⟨rfl, rfl⟩
            · exact sides.shared other n here
        · cases ran
          exact ⟨owns, fun _ _ => id, (keeps _).mono le, owned.nameOf own⟩

theorem step?_owned (owned : s.Owned owns k) (own : u.defined.isAbsent = false → owns u.defined.text u.defined.text)
    (room : k + 1 < 2 ^ 63) (ran : step? units regions s u pos = some (u', s')) :
    ∃ more : String → String → Prop, (∀ n a, owns n a → more n a) ∧ s'.Owned more (k + 1) ∧
      (u.defined.isAbsent = false → more u'.left.text u.defined.text) := by
  simp only [step?] at ran
  have arrived : (arrive regions s pos).Owned owns k := owned.arrive
  split at ran
  · rename_i absent
    cases ran
    exact ⟨owns, fun _ _ => id, arrived.mono (by omega), fun defines => by simp [absent] at defines⟩
  · rename_i defines
    have defines : u.defined.isAbsent = false := by simpa using defines
    obtain ⟨left, defining, _⟩ := Statement.defined_eq_left defines
    split at ran
    · cases ran
    · rename_i t defined
      cases ran
      obtain ⟨more, extends_, owned', mine⟩ := define?_owned arrived (own defines) room defined
      refine ⟨more, extends_, owned', fun _ => ?_⟩
      simpa [Statement.renameReads, left, defining] using mine
    · rename_i n t defined
      cases ran
      obtain ⟨more, extends_, owned', mine⟩ := define?_owned arrived (own defines) room defined
      refine ⟨more, extends_, owned', fun _ => ?_⟩
      rw [Value.text_renamed (owned'.named n _ mine)]
      exact mine

/-- The names of a well-named body belong to its slots at the start. -/
theorem owned_start (named : ∀ u ∈ units, u.WellNamed) :
    ({ counters := .ofStatements units } : Renaming).Owned
      (fun n a => n = a ∧ ∃ u ∈ units, u.defined.isAbsent = false ∧ u.defined.text = a) 99999 := by
  have operand : ∀ u ∈ units, u.defined.isAbsent = false → u.defined ∈ u.operands ∧ u.defined.isVariable = true := by
    intro u _ defines
    exact ⟨Statement.defined_mem_operands defines, (Statement.defined_eq_left defines).2.2⟩
  have noSides : ∀ i : Nat, (({ counters := .ofStatements units } : Renaming).sides.getD i {}) = ({} : Sides) :=
    fun i => Std.TreeMap.getD_emptyc
  refine ⟨fun slot n here => ?_, fun i => ?_, ?_, ?_, ?_, Counters.ofStatements_within named⟩
  · simp at here
  · rw [noSides]
    exact ⟨fun slot n here => by simp at here, fun slot n here => by simp at here, fun slot n here => by simp at here⟩
  · rintro n a ⟨rfl, u, member, defines, rfl⟩
    exact Counters.ofStatements_covers member (operand u member defines).1
  · rintro n a ⟨rfl, u, member, defines, rfl⟩
    obtain ⟨among, variable_⟩ := operand u member defines
    exact (named u member _ among (.inl variable_)).isSlotName
  · rintro n a c ⟨rfl, -⟩ ⟨rfl, -⟩
    rfl

end Renaming

end MisuseSlice
