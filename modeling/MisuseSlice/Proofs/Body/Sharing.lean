import Mathlib.Data.List.Chain
import MisuseSlice.Program.Basic
import MisuseSlice.Proofs.Body.Scopes
import MisuseSlice.Statement.Build

/-! Definition-use links of a nested body. A redefinition is renamed on straight-line code, and where its innermost
branch is an if/else both sides of which define the slot; every other one keeps the name in use. Links hold where
the last renamed redefinition of each side of a branch is one that the branch itself renames: then both sides end
with the name that they share. -/
namespace MisuseSlice

namespace Region

variable {regions : List Region} {r r' : Region} {i pos : Nat}

/-- The slots that both sides define. -/
def both (r : Region) : List String :=
  match r.kind with
  | .ifElse _ both => both
  | _ => []

/-- A fold that takes the smaller of the best so far and the next ends with one no larger than any that it sees. -/
theorem span_foldl_le {f : Option (Nat × Region) → Region × Nat → Option (Nat × Region)}
    (picks : ∀ best e, ∃ b, f best e = some b ∧ b.2.span ≤ e.1.span ∧ ∀ b' ∈ best, b.2.span ≤ b'.2.span)
    (es : List (Region × Nat)) {best : Option (Nat × Region)} (found : es.foldl f best = some (i, r)) :
    (∀ b ∈ best, r.span ≤ b.2.span) ∧ ∀ e ∈ es, r.span ≤ e.1.span := by
  induction es generalizing best with
  | nil =>
    cases found
    refine ⟨?_, fun e member => absurd member List.not_mem_nil⟩
    rintro b ⟨⟩
    exact Int.le_refl _
  | cons e es ih =>
    obtain ⟨b, picked, le, below⟩ := picks best e
    rw [List.foldl_cons, picked] at found
    obtain ⟨here, later⟩ := ih found
    have small : r.span ≤ b.2.span := here b rfl
    refine ⟨fun b' member => Int.le_trans small (below b' member), fun e' member => ?_⟩
    rcases List.mem_cons.mp member with rfl | member
    · exact Int.le_trans small le
    · exact later e' member

/-- Without loops, the innermost region of a position is the smallest that holds it. -/
theorem span_innermost?_le (plain : ∀ r ∈ regions, r.kind ≠ .loop) (inner : innermost? regions pos = some (i, r))
    (member : r' ∈ regions) (holds : r'.contains pos = true) : r.span ≤ r'.span := by
  have noLoop : (regions.zipIdx.filter fun e => e.1.contains pos).find? (·.1.isLoop) = none := by
    refine List.find?_eq_none.mpr fun e among => ?_
    have member := List.mem_of_getElem? (List.mem_zipIdx_iff_getElem?.mp (List.mem_filter.mp among).1)
    simpa [isLoop] using plain e.1 member
  simp only [innermost?] at inner
  rw [noLoop] at inner
  obtain ⟨j, here⟩ := List.mem_iff_getElem?.mp member
  refine (span_foldl_le (fun best e => ?_) _ inner).2 (r', j)
    (List.mem_filter.mpr ⟨List.mem_zipIdx_iff_getElem?.mpr here, holds⟩)
  cases best with
  | none => exact ⟨(e.2, e.1), rfl, Int.le_refl _, by simp⟩
  | some b =>
    by_cases smaller : e.1.span < b.2.span
    · exact ⟨(e.2, e.1), by simp [smaller], Int.le_refl _, by simp; omega⟩
    · exact ⟨b, by simp [smaller], by omega, by simp⟩

/-- The positions from `a` to before `b` are those of a one-sided branch or of one side of an if/else. -/
def IsSide (r : Region) (a b : Nat) : Prop :=
  match r.split? with
  | some split => ((a : Int) = r.start ∧ b = split) ∨ (a = split ∧ (b : Int) = r.stop + 1)
  | none => (a : Int) = r.start ∧ (b : Int) = r.stop + 1

theorem isSide_first {t a : Nat} (split : r.split? = some t) (start : (a : Int) = r.start) : r.IsSide a t := by
  rw [IsSide, split]
  exact .inl ⟨start, rfl⟩

theorem isSide_second {t b : Nat} (split : r.split? = some t) (stop : (b : Int) = r.stop + 1) : r.IsSide t b := by
  rw [IsSide, split]
  exact .inr ⟨rfl, stop⟩

theorem isSide_only {a b : Nat} (split : r.split? = none) (start : (a : Int) = r.start)
    (stop : (b : Int) = r.stop + 1) : r.IsSide a b := by
  rw [IsSide, split]
  exact ⟨start, stop⟩

end Region

namespace Nests

variable {units : List Statement} {regions : List Region} {r r' : Region} {a b p : Nat}

/-- A side lies in its branch. -/
theorem side_within (nests : Nests units regions) (member : r ∈ regions) (side : r.IsSide a b) :
    r.start ≤ a ∧ (b : Int) ≤ r.stop + 1 := by
  simp only [Region.IsSide] at side
  split at side
  · rename_i t split
    have := nests.split_spec member split
    omega
  · omega

/-- A side that starts before the second side of an if/else and ends behind its start is one of a larger branch, and
all of the if/else is in it. -/
theorem side_around (nests : Nests units regions) (member : r ∈ regions) (member' : r' ∈ regions)
    (side : r.IsSide a b) (split' : r'.split? = some (p + 1)) (low : a ≤ p) (high : p + 1 < b) :
    (a : Int) ≤ r'.start ∧ r'.span < r.span := by
  have other : r ≠ r' := by
    rintro rfl
    simp only [Region.IsSide, split'] at side
    omega
  have bounds := nests.side_within member side
  have sides' := nests.split_spec member' split'
  rcases nests.within_cases member member' (p := (p + 1 : Nat)) (by omega) (by omega) with
    same | ⟨before, within⟩ | ⟨before, within⟩
  · exact absurd same other
  · simp only [Region.IsWithin] at within
    simp only [Region.IsSide] at side
    simp only [Region.span]
    split at within
    · rename_i t split
      rw [split] at side
      have := nests.split_spec member split
      omega
    · rename_i split
      rw [split] at side
      simp only at side
      omega
  · simp only [Region.IsWithin, split'] at within
    omega

end Nests

/-- The redefinition of the slot at a position gets a name of its own, or one that two sides share. -/
def Renamed (units : List Statement) (regions : List Region) (slot : String) (p : Nat) : Prop :=
  DefinedAt units slot p ∧ DefinedAbove units regions slot p ∧
    ∀ e ∈ Region.innermost? regions p, slot ∈ e.2.both

/-- The redefinition of the slot at a position gets the name that the two sides of an if/else share. -/
def RenamedBy (units : List Statement) (regions : List Region) (slot : String) (r : Region) (p : Nat) : Prop :=
  Renamed units regions slot p ∧ ∃ e ∈ Region.innermost? regions p, e.2 = r

/-- The last renamed redefinition in a range of positions gets the name that the sides of the if/else share. -/
def EndsShared (units : List Statement) (regions : List Region) (slot : String) (r : Region) (a b : Nat) : Prop :=
  ∃ p < b, a ≤ p ∧ RenamedBy units regions slot r p ∧ ∀ q < b, p < q → ¬Renamed units regions slot q

/-- A branch in which a redefinition of the slot is renamed is an if/else, and each of its sides ends with the name
that its sides share. -/
def Settles (units : List Statement) (regions : List Region) (slot : String) (r : Region) : Prop :=
  (∀ p < units.length, r.contains p = true → ¬Renamed units regions slot p) ∨
    ∃ t ∈ r.split?, EndsShared units regions slot r r.start.toNat t ∧
      EndsShared units regions slot r t (r.stop + 1).toNat

section Decidable

variable (units : List Statement) (regions : List Region) (slot : String) (r : Region) (a b p : Nat)

instance : Decidable (Renamed units regions slot p) := inferInstanceAs (Decidable (_ ∧ _ ∧ ∀ e ∈ _, _))

instance : Decidable (RenamedBy units regions slot r p) := inferInstanceAs (Decidable (_ ∧ ∃ e ∈ _, _))

instance : Decidable (EndsShared units regions slot r a b) :=
  inferInstanceAs (Decidable (∃ p < b, a ≤ p ∧ _ ∧ ∀ q < b, p < q → _))

instance : Decidable (Settles units regions slot r) :=
  inferInstanceAs (Decidable ((∀ p < units.length, r.contains p = true → _) ∨ ∃ t ∈ r.split?, _ ∧ _))

end Decidable

namespace Renaming

variable {units us : List Statement} {regions : List Region} {state : Nat → Renaming} {s s' : Renaming}
  {u u' : Statement} {i p t : Nat} {r : Region} {slot other : String} {new : Option String}

/-- What a definition makes of the names. -/
theorem define?_cases (ran : define? units regions s slot p = some (new, s')) (filled : new.getD slot ≠ "")
    (plain : ∀ r ∈ regions, r.kind ≠ .loop) :
    (slot ∉ s.scope.seen ∧ s'.scope.nameOf slot = slot ∧ s'.sides = s.sides) ∨
      (slot ∈ s.scope.seen ∧ Region.innermost? regions p = none ∧ s'.sides = s.sides) ∨
      (∃ e, slot ∈ s.scope.seen ∧ Region.innermost? regions p = some e ∧ slot ∉ e.2.both ∧ s'.scope = s.scope ∧
        s'.sides = s.sides) ∨
      ∃ e, slot ∈ s.scope.seen ∧ Region.innermost? regions p = some e ∧ slot ∈ e.2.both ∧
        (s'.sides.getD e.1 {}).shared[slot]? = some (s'.scope.nameOf slot) ∧
        (∀ n, (s.sides.getD e.1 {}).shared[slot]? = some n → n = s'.scope.nameOf slot) ∧
        ∀ i, i ≠ e.1 → (s'.sides.getD i {}).shared[slot]? = (s.sides.getD i {}).shared[slot]? := by
  have inUse := define?_nameOf ran filled
  simp only [define?] at ran
  split at ran
  · rename_i unseen
    cases ran
    exact .inl ⟨by simpa using unseen, inUse, rfl⟩
  · rename_i seen
    have seen : slot ∈ s.scope.seen := by simpa using seen
    split at ran
    · rename_i outer
      cases ran
      exact .inr (.inl ⟨seen, outer, rfl⟩)
    · rename_i i r inner
      split at ran
      · rename_i loop
        exact absurd loop (plain r (List.mem_of_getElem? (Region.innermost?_mem inner).1))
      · rename_i oneSided
        cases ran
        exact .inr (.inr (.inl ⟨(i, r), seen, inner, by simp [Region.both, oneSided], rfl, rfl⟩))
      · rename_i t both ifElse
        have both_eq : r.both = both := by simp only [Region.both, ifElse]
        split at ran
        · rename_i shares
          refine .inr (.inr (.inr ⟨(i, r), seen, inner, by simpa [both_eq] using shares, ?_⟩))
          split at ran
          · rename_i n shared
            cases ran
            rw [inUse]
            exact ⟨shared, fun m here => Option.some.inj (here.symm.trans shared), fun _ _ => rfl⟩
          · rename_i none
            cases ran
            rw [inUse]
            refine ⟨by simp [rename], fun m here => ?_, fun j other => ?_⟩
            · rw [none] at here
              cases here
            · simp [rename, getD_sides_insert, Ne.symm other]
        · rename_i apart
          cases ran
          exact .inr (.inr (.inl ⟨(i, r), seen, inner, by simpa [both_eq] using apart, rfl, rfl⟩))

/-- The name that the sides of an if/else share for the slot. -/
def sharedAt (state : Nat → Renaming) (slot : String) (i p : Nat) : Option String :=
  ((state p).sides.getD i {}).shared[slot]?

/-- What is known of the name in use for the slot after the statements up to `last`, from which the pass knows the
names that are shared at `p`. -/
structure Sound (units : List Statement) (regions : List Region) (state : Nat → Renaming) (slot : String)
    (scope : Scope) (p last : Nat) : Prop where
  /-- No name is shared before a redefinition needs one. -/
  unshared : ∀ (i : Nat) (r : Region), regions[i]? = some r → (∀ d < p, ¬RenamedBy units regions slot r d) →
    sharedAt state slot i p = none
  /-- In a side of a branch the name is the one from before the branch, as long as nothing in it is renamed. -/
  unchanged : ∀ r ∈ regions, ∀ a b : Nat, r.IsSide a b → a ≤ last → last < b →
    (∀ d < p, a ≤ d → ¬Renamed units regions slot d) →
    scope.nameOf slot = (scopeAt regions state r.start.toNat).nameOf slot
  /-- It is the one that the sides share, if the last redefinition in the side that is renamed got that. -/
  shared : ∀ (i : Nat) (r : Region), regions[i]? = some r → ∀ a b : Nat, r.IsSide a b → last < b →
    ∀ d < p, a ≤ d → RenamedBy units regions slot r d → (∀ e < p, d < e → ¬Renamed units regions slot e) →
    sharedAt state slot i p = some (scope.nameOf slot)
  /-- A slot without definition has its own name. -/
  unseen : slot ∉ scope.seen → scope.nameOf slot = slot

theorem eq_empty_of_nameOf {scope : Scope} (empty : scope.nameOf slot = "") : slot = "" := by
  simp only [Scope.nameOf] at empty
  split at empty
  · split at empty
    · exact empty
    · rename_i filled
      exact absurd empty (by simpa using filled)
  · exact empty

/-- A name that is in use somewhere is in use where it is entered. -/
theorem nameOf_of_getElem? {scope scope' : Scope} (here : scope.names[slot]? = some (scope'.nameOf slot)) :
    scope.nameOf slot = scope'.nameOf slot := by
  rw [Scope.nameOf, here]
  by_cases empty : scope'.nameOf slot = ""
  · simp [eq_empty_of_nameOf empty]
  · simp [empty]

/-- A join keeps the name in use, if it is the one that the sides share, or the same at the ends of both. -/
theorem nameOf_join (agrees : (s.sides.getD i {}).shared[slot]? = some (s.scope.nameOf slot) ∨
      ((s.sides.getD i {}).shared[slot]? = none ∧ (s.sides.getD i {}).first.nameOf slot = s.scope.nameOf slot)) :
    (s.join i).scope.nameOf slot = s.scope.nameOf slot := by
  rcases agrees with shared | ⟨none, first⟩
  · exact nameOf_of_getElem? (by rw [getElem?_names_join, shared, Option.some_or])
  · have names := getElem?_names_join s slot i
    rw [none, Option.none_or] at names
    cases here : s.scope.names[slot]? with
    | some n =>
      rw [here, Option.some_or] at names
      simp only [Scope.nameOf, names, here]
    | none =>
      rw [here, Option.none_or] at names
      rw [← first]
      simp only [Scope.nameOf, names]

namespace Trace

variable (trace : Trace units regions us state) (nests : Nests units regions) (named : ∀ u ∈ units, u.WellNamed)
  (short : units.length < 2 ^ 62)
include trace nests

/-- Where a side of a branch starts, the name in use is the one from before the branch. -/
theorem nameOf_sideStart {b : Nat} (inside : p ≤ units.length) (member : r ∈ regions) (side : r.IsSide p b) :
    (scopeAt regions state p).nameOf slot = (scopeAt regions state r.start.toNat).nameOf slot := by
  simp only [Region.IsSide] at side
  split at side
  · rename_i t split
    rcases side with ⟨start, _⟩ | ⟨rfl, _⟩
    · rw [← start, Int.toNat_natCast]
    · rw [trace.scopeAt_split nests inside member split]
  · rw [← side.1, Int.toNat_natCast]

include named short

omit nests in
/-- A statement that defines the slot gives it a name from what is known where the pass comes to it. -/
theorem define_ran (inside : p < units.length) (defines : units[p].Defines slot) :
    ∃ new, define? units regions (arrive regions (state p) p) slot p = some (new, state (p + 1)) ∧
      new.getD slot ≠ "" := by
  have here : units[p]? = some units[p] := List.getElem?_eq_getElem inside
  obtain ⟨u', _, stepped⟩ := trace.step p _ here
  obtain ⟨present, rfl⟩ := defines
  simp only [step?, present, Bool.false_eq_true, ↓reduceIte] at stepped
  obtain ⟨new, ran⟩ : ∃ new, define? units regions (arrive regions (state p) p) units[p].defined.text p =
      some (new, state (p + 1)) := by
    split at stepped
    · cases stepped
    · rename_i ran
      cases stepped
      exact ⟨_, ran⟩
    · rename_i ran
      cases stepped
      exact ⟨_, ran⟩
  obtain ⟨owns, owned, own, _⟩ := trace.owned named short (Nat.le_of_lt inside)
  obtain ⟨more, _, owned', mine⟩ :=
    define?_owned owned.arrive (own _ (List.getElem_mem inside) present) (by omega) ran
  exact ⟨new, ran, (owned'.named _ _ mine).ne_empty⟩

/-- What the statement at a position makes of the name in use, and of the names that are shared. -/
theorem step_cases (inside : p < units.length)
    (unseen : slot ∉ (scopeAt regions state p).seen → (scopeAt regions state p).nameOf slot = slot) :
    (¬Renamed units regions slot p ∧
        (state (p + 1)).scope.nameOf slot = (scopeAt regions state p).nameOf slot ∧
        ∀ i, sharedAt state slot i (p + 1) = sharedAt state slot i p) ∨
      (Renamed units regions slot p ∧ Region.innermost? regions p = none ∧
        ∀ i, sharedAt state slot i (p + 1) = sharedAt state slot i p) ∨
      ∃ e, Renamed units regions slot p ∧ Region.innermost? regions p = some e ∧
        sharedAt state slot e.1 (p + 1) = some ((state (p + 1)).scope.nameOf slot) ∧
        (∀ n, sharedAt state slot e.1 p = some n → n = (state (p + 1)).scope.nameOf slot) ∧
        ∀ i, i ≠ e.1 → sharedAt state slot i (p + 1) = sharedAt state slot i p := by
  have here : units[p]? = some units[p] := List.getElem?_eq_getElem inside
  have arrives : Arrives regions (state p) (arrive regions (state p) p) p := arrive_arrives nests
  have above : slot ∈ (scopeAt regions state p).seen ↔ DefinedAbove units regions slot p :=
    trace.mem_seen_iff nests (Nat.le_of_lt inside)
  obtain ⟨u', _, stepped⟩ := trace.step p _ here
  by_cases defines : units[p].Defines slot
  · have defined : DefinedAt units slot p := ⟨_, here, defines⟩
    obtain ⟨new, ran, filled⟩ := trace.define_ran named short inside defines
    have shared : ∀ i, sharedAt state slot i p =
        ((arrive regions (state p) p).sides.getD i {}).shared[slot]? := by
      intro i
      rw [sharedAt, arrives.shared]
    rcases define?_cases ran filled nests.no_loop with ⟨fresh, name, sides⟩ | ⟨seen, outer, sides⟩ |
      ⟨e, seen, inner, apart, scope, sides⟩ | ⟨e, seen, inner, shares, name, before, others⟩
    · refine .inl ⟨fun renamed => fresh (above.mpr renamed.2.1), ?_, fun i => ?_⟩
      · rw [name]
        exact (unseen fresh).symm
      · rw [shared, sharedAt, sides]
    · refine .inr (.inl ⟨⟨defined, above.mp seen, by simp [outer]⟩, outer, fun i => ?_⟩)
      rw [shared, sharedAt, sides]
    · refine .inl ⟨fun renamed => apart (renamed.2.2 e inner), ?_, fun i => ?_⟩
      · rw [scope]
        rfl
      · rw [shared, sharedAt, sides]
    · refine .inr (.inr ⟨e, ⟨defined, above.mp seen, ?_⟩, inner, name, ?_, ?_⟩)
      · intro e' inner'
        cases Option.mem_unique inner inner'
        exact shares
      · intro n known
        rw [shared] at known
        exact before n known
      · intro i other
        rw [shared]
        exact others i other
  · obtain ⟨_, _, _, _, _, keeps⟩ := trace.spec named short here
    refine .inl ⟨?_, keeps slot defines, fun i => ?_⟩
    · rintro ⟨⟨v, here', defines'⟩, _⟩
      cases Option.mem_unique here here'
      exact defines defines'
    · rw [sharedAt, ((step?_marks slot stepped).2 i).2.2 defines, arrives.shared, sharedAt]

/-- A statement keeps what is known of the name in use. -/
theorem sound_succ (inside : p < units.length) (sound : Sound units regions state slot (scopeAt regions state p) p p) :
    Sound units regions state slot (state (p + 1)).scope (p + 1) p := by
  have here : units[p]? = some units[p] := List.getElem?_eq_getElem inside
  have cases_ := trace.step_cases nests named short inside sound.unseen
  refine ⟨?_, ?_, ?_, ?_⟩
  · intro i r atI never
    have before := sound.unshared i r atI fun d earlier => never d (by omega)
    rcases cases_ with ⟨_, _, same⟩ | ⟨_, _, same⟩ | ⟨e, renamed, inner, _, _, others⟩
    · rw [same, before]
    · rw [same, before]
    · rw [others i ?_, before]
      rintro rfl
      have atI' := (Region.innermost?_mem inner).1
      cases atI.symm.trans atI'
      exact never p (Nat.lt_succ_self p) ⟨renamed, e, inner, rfl⟩
  · intro r member a b side low high never
    have still : ¬Renamed units regions slot p := never p (Nat.lt_succ_self p) low
    rcases cases_ with ⟨_, name, _⟩ | ⟨renamed, _⟩ | ⟨e, renamed, _⟩
    · rw [name]
      exact sound.unchanged r member a b side low high fun d earlier => never d (by omega)
    · exact absurd renamed still
    · exact absurd renamed still
  · intro i r atI a b side high d before low renamed never
    rcases Nat.lt_succ_iff_lt_or_eq.mp before with earlier | rfl
    · have still : ¬Renamed units regions slot p := never p (Nat.lt_succ_self p) earlier
      rcases cases_ with ⟨_, name, same⟩ | ⟨renamed, _⟩ | ⟨e, renamed, _⟩
      · rw [name, same]
        exact sound.shared i r atI a b side high d earlier low renamed fun e later => never e (by omega)
      · exact absurd renamed still
      · exact absurd renamed still
    · obtain ⟨renamed, e, inner, rfl⟩ := renamed
      rcases cases_ with ⟨still, _⟩ | ⟨_, outer, _⟩ | ⟨e', _, inner', name, _⟩
      · exact absurd renamed still
      · rw [outer] at inner
        cases inner
      · cases Option.mem_unique inner inner'
        cases nests.index_unique atI (Region.innermost?_mem inner).1 rfl
        exact name
  · intro fresh
    rw [trace.mem_seen_succ here] at fresh
    obtain ⟨fresh, still⟩ := not_or.mp fresh
    rcases cases_ with ⟨_, name, _⟩ | ⟨renamed, _⟩ | ⟨e, renamed, _⟩
    · rw [name, sound.unseen fresh]
    · exact absurd renamed.1 still
    · exact absurd renamed.1 still

/-- A name that is shared stays so. -/
theorem sharedAt_mono {q : Nat} {n : String} (inside : q ≤ units.length) (le : p ≤ q)
    (sound : ∀ k < q, Sound units regions state slot (scopeAt regions state k) k k)
    (here : sharedAt state slot i p = some n) : sharedAt state slot i q = some n := by
  induction q, le using Nat.le_induction with
  | base => exact here
  | succ q le ih =>
    have known := ih (by omega) fun k before => sound k (by omega)
    rcases trace.step_cases nests named short inside (sound q (by omega)).unseen with
      ⟨_, _, same⟩ | ⟨_, _, same⟩ | ⟨e, _, _, name, before, others⟩
    · rw [same, known]
    · rw [same, known]
    · by_cases this_ : i = e.1
      · subst this_
        rw [name, before n known]
      · rw [others i this_, known]

variable (settles : ∀ r ∈ regions, Settles units regions slot r)
include settles

/-- Where no second side starts the name in use stays: the sides of what ends there end with the same name. -/
theorem nameOf_arrive (inside : p ≤ units.length) (parts : ∀ r ∈ regions, r.split? ≠ some p)
    (sound : ∀ k < p, Sound units regions state slot (scopeAt regions state k) k k) :
    (scopeAt regions state p).nameOf slot = (state p).scope.nameOf slot := by
  have arrives : Arrives regions (state p) (arrive regions (state p) p) p := arrive_arrives nests
  rw [scopeAt, arrives.straight parts]
  refine (joined_induction (P := fun scope => scope.nameOf slot = (state p).scope.nameOf slot) rfl ?_).1
  intro i r t v atI split ends sides inUse
  have member := List.mem_of_getElem? atI
  obtain ⟨low, high, _⟩ := nests.split_spec member split
  have start := nests.start_pos member
  obtain ⟨k, rfl⟩ : ∃ k, p = k + 1 := ⟨p - 1, by omega⟩
  obtain ⟨j, rfl⟩ : ∃ j, t = j + 1 := ⟨t - 1, by omega⟩
  have firstSide : r.IsSide r.start.toNat (j + 1) := Region.isSide_first split (by omega)
  have secondSide : r.IsSide (j + 1) (k + 1) := Region.isSide_second split (by omega)
  have after := trace.sound_succ nests named short (by omega) (sound k (by omega))
  have afterFirst := trace.sound_succ nests named short (by omega) (sound j (by omega))
  rw [nameOf_join, inUse]
  rw [sides, inUse]
  rcases settles r member with never | ⟨t, isSplit, _, d, before, from_, renamed, last_⟩
  · have quiet : ∀ d < k + 1, r.start ≤ d → ¬Renamed units regions slot d :=
      fun d before from_ => never d (by omega) (Region.contains_iff.mpr ⟨from_, by omega⟩)
    refine .inr ⟨?_, ?_⟩
    · refine after.unshared i r atI fun d before renamed => ?_
      obtain ⟨renamed, e, inner, rfl⟩ := renamed
      have holds := Region.contains_iff.mp (Region.innermost?_mem inner).2
      exact quiet d before holds.1 renamed
    · rw [(trace.remembers nests inside atI split).2 (by omega),
        afterFirst.unchanged r member _ _ firstSide (by omega) (Nat.lt_succ_self j)
          fun d before _ => quiet d (by omega) (by omega),
        after.unchanged r member _ _ secondSide (by omega) (Nat.lt_succ_self k)
          fun d before _ => quiet d before (by omega)]
  · cases Option.mem_unique isSplit split
    have place : (r.stop + 1).toNat = k + 1 := by omega
    rw [place] at before last_
    exact .inl (after.shared i r atI _ _ secondSide (Nat.lt_succ_self k) d before from_ renamed last_)

/-- What is known of the name in use holds at the first position. -/
theorem sound_zero : Sound units regions state slot (scopeAt regions state 0) 0 0 := by
  have noneEnds : ∀ r ∈ regions, r.split? ≠ some 0 := fun r member split => by
    have := nests.split_spec member split
    have := nests.start_pos member
    omega
  have inUse := trace.nameOf_arrive nests named short settles (Nat.zero_le _) noneEnds
    fun k before => absurd before (Nat.not_lt_zero k)
  have empty : (state 0).scope.nameOf slot = slot := by
    rw [trace.start]
    simp [Scope.nameOf]
  refine ⟨?_, ?_, ?_, ?_⟩
  · intro i r _ _
    rw [sharedAt, trace.start]
    simp
  · intro r member a b side low _ _
    obtain rfl : a = 0 := by omega
    exact trace.nameOf_sideStart nests (Nat.zero_le _) member side
  · intro i r _ a b _ _ d before
    omega
  · exact fun _ => inUse.trans empty

omit settles in
/-- Where the second side of an if/else starts, the names are those from before the if/else, so that all that is
known of them there is known again. -/
theorem sound_second (inside : p + 1 ≤ units.length) (member : r ∈ regions) (split : r.split? = some (p + 1))
    (earlier : ∀ k < p + 1, Sound units regions state slot (scopeAt regions state k) k k) :
    Sound units regions state slot (scopeAt regions state (p + 1)) (p + 1) (p + 1) := by
  have after := trace.sound_succ nests named short inside (earlier p (Nat.lt_succ_self p))
  have again := trace.scopeAt_split nests inside member split
  have sides := nests.split_spec member split
  have start := nests.start_pos member
  have before := earlier r.start.toNat (by omega)
  refine ⟨after.unshared, ?_, ?_, ?_⟩
  · intro r' member' a b side low high never
    rcases Nat.lt_or_eq_of_le low with low | rfl
    · obtain ⟨inner, _⟩ := nests.side_around member' member side split (by omega) high
      rw [again]
      exact before.unchanged r' member' a b side (by omega) (by omega) fun d earlier => never d (by omega)
    · exact trace.nameOf_sideStart nests inside member' side
  · intro i r' atI a b side high d earlier' low renamed never
    obtain ⟨inner, smaller⟩ := nests.side_around (List.mem_of_getElem? atI) member side split (by omega) high
    obtain ⟨isRenamed, e, isInner, rfl⟩ := renamed
    -- the redefinition is not in the if/else, which is the smaller branch
    have above : (d : Int) < r.start := by
      by_contra within
      have holds : r.contains d = true := Region.contains_iff.mpr ⟨by omega, by omega⟩
      have := Region.span_innermost?_le nests.no_loop isInner member holds
      omega
    have known := before.shared i _ atI a b side (by omega) d (by omega) low ⟨isRenamed, e, isInner, rfl⟩
      fun x between => never x (by omega)
    rw [again]
    exact trace.sharedAt_mono nests named short inside (by omega) earlier known
  · intro fresh
    rw [again] at fresh ⊢
    exact before.unseen fresh

/-- Where no second side starts, what is known after the statement before is known. -/
theorem sound_between (inside : p + 1 ≤ units.length) (parts : ∀ r ∈ regions, r.split? ≠ some (p + 1))
    (earlier : ∀ k < p + 1, Sound units regions state slot (scopeAt regions state k) k k) :
    Sound units regions state slot (scopeAt regions state (p + 1)) (p + 1) (p + 1) := by
  have after := trace.sound_succ nests named short inside (earlier p (Nat.lt_succ_self p))
  have inUse := trace.nameOf_arrive nests named short settles inside parts earlier
  have arrives : Arrives regions (state (p + 1)) (arrive regions (state (p + 1)) (p + 1)) (p + 1) :=
    arrive_arrives nests
  refine ⟨after.unshared, ?_, ?_, ?_⟩
  · intro r member a b side low high never
    rcases Nat.lt_or_eq_of_le low with low | rfl
    · rw [inUse]
      exact after.unchanged r member a b side (by omega) (by omega) never
    · exact trace.nameOf_sideStart nests inside member side
  · intro i r atI a b side high d before low renamed never
    rw [inUse]
    exact after.shared i r atI a b side (by omega) d before low renamed never
  · intro fresh
    rw [inUse]
    refine after.unseen fun seen => fresh ?_
    rw [scopeAt, arrives.straight parts]
    exact mem_seen_joined.mpr (.inl seen)

/-- What is known of the name in use holds where the pass comes to every position. -/
theorem sound (inside : p ≤ units.length) : Sound units regions state slot (scopeAt regions state p) p p := by
  induction p using Nat.strongRecOn with
  | ind p ih =>
    have earlier : ∀ k < p, Sound units regions state slot (scopeAt regions state k) k k :=
      fun k before => ih k before (by omega)
    cases p with
    | zero => exact trace.sound_zero nests named short settles
    | succ k =>
      by_cases parts : ∃ r ∈ regions, r.split? = some (k + 1)
      · obtain ⟨r, member, split⟩ := parts
        exact trace.sound_second nests named short inside member split earlier
      · exact trace.sound_between nests named short settles inside
          (fun r member split => parts ⟨r, member, split⟩) earlier

/-- After every statement of a side of a branch in which nothing is renamed, the name in use is the one from before
the branch. -/
theorem nameOf_quiet {k a b : Nat} (inside : k < units.length) (member : r ∈ regions) (side : r.IsSide a b)
    (low : a ≤ k) (high : k < b) (quiet : ∀ d < k + 1, a ≤ d → ¬Renamed units regions slot d) :
    (state (k + 1)).scope.nameOf slot = (scopeAt regions state r.start.toNat).nameOf slot :=
  (trace.sound_succ nests named short inside (trace.sound nests named short settles (Nat.le_of_lt inside))).unchanged
    r member a b side low high quiet

/-- At the end of a side that ends with the name that is shared, the name in use is that one. -/
theorem sharedAt_end {k a : Nat} (inside : k < units.length) (atI : regions[i]? = some r) (side : r.IsSide a (k + 1))
    (ends : EndsShared units regions slot r a (k + 1)) :
    sharedAt state slot i (k + 1) = some ((state (k + 1)).scope.nameOf slot) := by
  obtain ⟨d, before, low, renamed, last_⟩ := ends
  exact (trace.sound_succ nests named short inside (trace.sound nests named short settles (Nat.le_of_lt inside))).shared
    i r atI a (k + 1) side (Nat.lt_succ_self k) d before low renamed last_

/-- At the end of each side of an if/else the name in use is the same. -/
theorem nameOf_sides {j k : Nat} (inside : k < units.length) (member : r ∈ regions) (split : r.split? = some (j + 1))
    (stop : r.stop = k) : (state (j + 1)).scope.nameOf slot = (state (k + 1)).scope.nameOf slot := by
  obtain ⟨low, high, _⟩ := nests.split_spec member split
  have start := nests.start_pos member
  have firstSide : r.IsSide r.start.toNat (j + 1) := Region.isSide_first split (by omega)
  have secondSide : r.IsSide (j + 1) (k + 1) := Region.isSide_second split (by omega)
  rcases settles r member with never | ⟨t, isSplit, first, second⟩
  · have quiet : ∀ d < k + 1, r.start ≤ d → ¬Renamed units regions slot d :=
      fun d before from_ => never d (by omega) (Region.contains_iff.mpr ⟨from_, by omega⟩)
    rw [trace.nameOf_quiet nests named short settles (by omega) member firstSide (by omega) (Nat.lt_succ_self j)
        fun d before _ => quiet d (by omega) (by omega),
      trace.nameOf_quiet nests named short settles inside member secondSide (by omega) (Nat.lt_succ_self k)
        fun d before _ => quiet d before (by omega)]
  · cases Option.mem_unique isSplit split
    obtain ⟨i, atI⟩ := List.mem_iff_getElem?.mp member
    have place : (r.stop + 1).toNat = k + 1 := by omega
    rw [place] at second
    have atSplit := trace.sharedAt_end nests named short settles (by omega) atI firstSide first
    have atStop := trace.sharedAt_end nests named short settles inside atI secondSide second
    have kept := trace.sharedAt_mono nests named short (q := k + 1) (by omega) (by omega)
      (fun k' _ => trace.sound nests named short settles (by omega)) atSplit
    exact Option.some.inj (kept.symm.trans atStop)

/-- Control falls through to the name in use after the statement: a jump stands before every second side. -/
theorem nameOf_falls {u : Statement} (here : units[p]? = some u) (kind : u.kind ≠ .goto)
    (inside : p + 1 < units.length) :
    (scopeAt regions state (p + 1)).nameOf slot = (state (p + 1)).scope.nameOf slot := by
  refine trace.nameOf_arrive nests named short settles (Nat.le_of_lt inside) ?_
    fun k before => trace.sound nests named short settles (by omega)
  intro r member split
  obtain ⟨_, _, last_, there, jump⟩ := nests.split_spec member split
  cases Option.mem_unique here there
  exact kind jump

/-- Behind a branch the name in use is the one after its last statement. -/
theorem nameOf_behind (inside : p < units.length) (member : r ∈ regions) (stop : r.stop + 1 = p) :
    (scopeAt regions state p).nameOf slot = (state p).scope.nameOf slot :=
  trace.nameOf_arrive nests named short settles (Nat.le_of_lt inside)
    (fun _ member' split => nests.stop_ne_split member member' split stop)
    fun k before => trace.sound nests named short settles (by omega)

/-- A test that jumps takes the name in use with it: to the second side, or past a branch that renames nothing. -/
theorem nameOf_jumps {q : Nat} {u : Statement} (here : units[p]? = some u) (kind : u.kind = .branchIf)
    (inside : q < units.length) (target : (q : Int) = u.target) (far : p + 1 < q) :
    (state (p + 1)).scope.nameOf slot = (scopeAt regions state q).nameOf slot := by
  obtain ⟨r, member, span⟩ := nests.region_of_branch here kind (by omega)
  have start := span.start
  have before : (scopeAt regions state (p + 1)).nameOf slot = (state (p + 1)).scope.nameOf slot :=
    trace.nameOf_falls nests named short settles here (by simp [kind]) (by omega)
  have place : r.start.toNat = p + 1 := by omega
  rcases span.sides with ⟨oneSided, stop, _⟩ | ⟨both, _, _, ifElse, _⟩
  · have split : r.split? = none := by simp [Region.split?, oneSided]
    have never : ∀ d < units.length, r.contains d = true → ¬Renamed units regions slot d := by
      rcases settles r member with never | ⟨t, isSplit, _⟩
      · exact never
      · rw [split] at isSplit
        cases isSplit
    obtain ⟨k, rfl⟩ : ∃ k, q = k + 1 := ⟨q - 1, by omega⟩
    have onlySide : r.IsSide (p + 1) (k + 1) := Region.isSide_only split (by omega) (by omega)
    rw [trace.nameOf_behind nests named short settles inside member (by omega), ← before, ← place]
    refine (trace.nameOf_quiet nests named short settles (by omega) member onlySide (by omega) (by omega) ?_).symm
    exact fun d before from_ => never d (by omega) (Region.contains_iff.mpr ⟨by omega, by omega⟩)
  · have split : r.split? = some q := by
      simp only [Region.split?, ifElse, Option.some.injEq]
      omega
    rw [trace.scopeAt_split nests (Nat.le_of_lt inside) member split, place, before]

/-- The name in use for the slot is the same at both ends of every step that control takes. -/
theorem nameOf_flows {q : Nat} (flows : Flows units p q) (inside : q < units.length) :
    (state (p + 1)).scope.nameOf slot = (scopeAt regions state q).nameOf slot := by
  obtain ⟨u, here, successor⟩ := flows
  have insideP := (List.getElem?_eq_some_iff.mp here).1
  have next : u.kind ≠ .goto → (q : Int) = p + 1 →
      (state (p + 1)).scope.nameOf slot = (scopeAt regions state q).nameOf slot := by
    intro kind place
    obtain rfl : q = p + 1 := by omega
    exact (trace.nameOf_falls nests named short settles here kind inside).symm
  cases kind : u.kind with
  | branchIf =>
    simp only [Statement.successors, kind, List.mem_cons, List.not_mem_nil, or_false] at successor
    rcases successor with fallen | jumped
    · exact next (by simp [kind]) fallen
    · have ahead := nests.forward p insideP u here (.inl kind)
      by_cases far : p + 1 < q
      · exact trace.nameOf_jumps nests named short settles here kind inside jumped far
      · exact next (by simp [kind]) (by omega)
  | goto =>
    simp only [Statement.successors, kind, List.mem_cons, List.not_mem_nil, or_false] at successor
    obtain ⟨r, member, split, target⟩ := nests.skips p insideP u here kind
    obtain ⟨k, rfl⟩ : ∃ k, q = k + 1 := ⟨q - 1, by have := nests.start_pos member; omega⟩
    rw [trace.nameOf_behind nests named short settles inside member (by omega)]
    exact trace.nameOf_sides nests named short settles (by omega) member split (by omega)
  | «switch» => exact absurd kind (nests.plain u (List.mem_of_getElem? here))
  | returnValue | returnVoid | throwValue => simp [Statement.successors, kind] at successor
  | _ => exact next (by simp [kind]) (by simpa [Statement.successors, kind] using successor)

end Trace

/-- Every read is linked to the last definition of its slot on a path, in a body whose branches nest, if in every
branch that renames the slot both sides end with the name that they share. -/
theorem read_linked {aliases : Std.TreeMap String Value} {q k : Nat} {mid : List Nat} {v : Value}
    (ran : renameBody? units = some (us, aliases)) (named : ∀ u ∈ units, u.WellNamed) (short : units.length < 2 ^ 62)
    (nests : Nests units regions) (settles : ∀ r ∈ regions, Settles units regions slot r)
    (path : IsPath units (q :: mid ++ [p])) (defines : DefinedAt units slot q)
    (clear : ∀ m ∈ mid, ¬DefinedAt units slot m) (here : units[p]? = some u) (read : u.readOperands[k]? = some v)
    (slots : v.slot? = some slot) : Linked us q mid p k := by
  obtain ⟨regions', state, found, trace⟩ := exists_trace ran
  cases nests.found.symm.trans found
  have starts : ∀ m ∈ mid, ∃ w, units[m]? = some w ∧ ¬w.Defines slot := by
    intro m member
    have flows : ∃ n, Flows units m n := by
      obtain ⟨front, back, rfl⟩ := List.append_of_mem member
      have chain : IsPath units ((q :: front) ++ m :: (back ++ [p])) := by simpa using path
      have rest := chain.right_of_append
      cases back with
      | nil => exact ⟨p, (List.isChain_cons_cons.mp rest).1⟩
      | cons n back => exact ⟨n, (List.isChain_cons_cons.mp rest).1⟩
    obtain ⟨n, w, atM, _⟩ := flows
    exact ⟨w, atM, fun defines => clear m member ⟨w, atM, defines⟩⟩
  have inside : ∀ m ∈ mid ++ [p], m < units.length := by
    intro m member
    rcases List.mem_append.mp member with among | final
    · obtain ⟨w, atM, _⟩ := starts m among
      exact (List.getElem?_eq_some_iff.mp atM).1
    · rw [List.mem_singleton.mp final]
      exact (List.getElem?_eq_some_iff.mp here).1
  refine trace.linked_of_agrees named short ?_ defines starts here read slots
  have agrees : ∀ (xs : List Nat) (a : Nat), (∀ x ∈ xs, x < units.length) → IsPath units (a :: xs) →
      (a :: xs).IsChain fun a b =>
        (state (a + 1)).scope.nameOf slot = (arrive regions (state b) b).scope.nameOf slot := by
    intro xs
    induction xs with
    | nil => exact fun a _ _ => .singleton a
    | cons b xs ih =>
      intro a inside path
      obtain ⟨flows, rest⟩ := List.isChain_cons_cons.mp path
      exact .cons_cons (trace.nameOf_flows nests named short settles flows (inside b List.mem_cons_self))
        (ih b (fun x member => inside x (List.mem_cons_of_mem _ member)) rest)
  exact agrees (mid ++ [p]) q inside path

/-- The statements of a method as they are when a program is finalized. -/
private def finalStatements (units : List Statement) : List Statement :=
  let (m, problem) := Method.finalized { signature := "<a.B: void m(int)>", units := units.map some }
  if problem.isNone then m.units.filterMap id else []

/-- A redefinition under a condition in one side of an if/else. -/
private def refining : List Statement := finalStatements
  [.param "i0" 0 "int", .assign "i1" "1", .branch "i0" "==" "0" 8, .assign "i1" "2", .branch "i0" "==" "1" 6,
    .assign "i1" "3", .call "" "<lib.X: void x(int)>" ["i1"], .jump 9, .assign "i1" "4",
    .call "" "<lib.Y: void y(int)>" ["i1"], .retVoid]

/-- One of three values, chosen by two conditions in a chain. -/
private def chaining : List Statement := finalStatements
  [.param "i0" 0 "int", .assign "i1" "1", .branch "i0" "==" "0" 5, .assign "i1" "2", .jump 9,
    .branch "i0" "==" "1" 8, .assign "i1" "3", .jump 9, .assign "i1" "4", .call "" "<lib.Y: void y(int)>" ["i1"],
    .retVoid]

/-- The regions of a body, none if it has none. -/
private def regionsOf (units : List Statement) : List Region := (Region.all units).getD []

set_option maxRecDepth 100000 in
private theorem refining_named : ∀ u ∈ refining, u.WellNamed := by decide +kernel

set_option maxRecDepth 100000 in
private theorem refining_nests : Nests refining (regionsOf refining) :=
  ⟨by decide +kernel, by decide +kernel, by decide +kernel, by decide +kernel, by decide +kernel⟩

set_option maxRecDepth 100000 in
private theorem refining_settles : ∀ r ∈ regionsOf refining, Settles refining (regionsOf refining) "i1" r := by
  decide +kernel

set_option maxRecDepth 100000 in
private theorem refining_reads : DefinedAt refining "i1" 5 ∧ (∀ m ∈ [6, 7], ¬DefinedAt refining "i1" m) ∧
    IsPath refining [5, 6, 7, 9] ∧ ∃ u ∈ refining[9]?, ∃ v ∈ u.readOperands[4]?, v.slot? = some "i1" := by
  decide +kernel

set_option maxRecDepth 100000 in
private theorem refining_renamed : (renameBody? refining).isSome = true ∧ refining.length = 11 := by
  decide +kernel

/-- The call below the if/else reads the value from under the condition. -/
theorem refining_read_linked : ∃ x ∈ renameBody? refining, Linked x.1 5 [6, 7] 9 4 := by
  obtain ⟨renamed, size⟩ := refining_renamed
  obtain ⟨⟨us, aliases⟩, ran⟩ := Option.isSome_iff_exists.mp renamed
  obtain ⟨defines, clear, path, u, here, v, read, slots⟩ := refining_reads
  exact ⟨(us, aliases), ran, read_linked ran refining_named (by rw [size]; decide) refining_nests refining_settles path
    defines clear here read slots⟩

set_option maxRecDepth 100000 in
/-- The value of the middle case of a chain of conditions is not the one that is read below the chain, though its
branches nest. -/
theorem chaining_read_unlinked :
    (∀ u ∈ chaining, u.WellNamed ∧ u.IsForward ∧ u.kind ≠ .switch) ∧ IsPath chaining [0, 1, 2, 5, 6, 7, 9] ∧
      DefinedAt chaining "i1" 6 ∧ ¬DefinedAt chaining "i1" 7 ∧
      (∃ u ∈ chaining[9]?, ∃ v ∈ u.readOperands[4]?, v.slot? = some "i1") ∧
      ∃ x ∈ renameBody? chaining, ¬Linked x.1 6 [7] 9 4 := by
  decide +kernel

end Renaming

end MisuseSlice
