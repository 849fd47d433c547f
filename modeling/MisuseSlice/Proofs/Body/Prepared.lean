import Mathlib
import MisuseSlice.Workspace

/-! Prepared bodies. No pass moves a statement: every statement of a prepared body carries its own
position, and a statement is dead only below an `if` that is not dead itself. A statement keeps its kind, unless
a constant takes the place of what a field or a call gives. -/
namespace MisuseSlice

namespace Statement

/-- The later statement stands where the earlier one stood. It has the same kind and branches to the same
positions, or it assigns a constant in place of a read field or of the result of a call. -/
structure Replaces (later earlier : Statement) : Prop where
  pos : later.pos = earlier.pos
  shape : (later.kind = earlier.kind ∧ later.target = earlier.target ∧ later.targets = earlier.targets) ∨
    (later.kind = .assignVariableConstant ∧ (earlier.kind = .assignVariableField ∨ earlier.kind = .assignInvoke))

variable {first second third : Statement}

theorem Replaces.refl (u : Statement) : u.Replaces u := ⟨rfl, .inl ⟨rfl, rfl, rfl⟩⟩

theorem Replaces.trans (upper : third.Replaces second) (lower : second.Replaces first) : third.Replaces first := by
  refine ⟨upper.pos.trans lower.pos, ?_⟩
  rcases upper.shape with ⟨kind, target, targets⟩ | ⟨kind, was⟩
  · rcases lower.shape with ⟨kind', target', targets'⟩ | ⟨kind', was'⟩
    · exact .inl ⟨kind.trans kind', target.trans target', targets.trans targets'⟩
    · exact .inr ⟨kind.trans kind', was'⟩
  · rcases lower.shape with ⟨kind', _, _⟩ | ⟨kind', _⟩
    · exact .inr ⟨kind, kind' ▸ was⟩
    · rw [kind'] at was
      rcases was with was | was <;> cases was

theorem Replaces.forall₂_trans {later middle earlier : List Statement} (upper : List.Forall₂ Replaces later middle)
    (lower : List.Forall₂ Replaces middle earlier) : List.Forall₂ Replaces later earlier := by
  induction upper generalizing earlier with
  | nil => exact lower
  | cons above _ ih =>
    cases lower with
    | cons below rest => exact .cons (above.trans below) (ih rest)

/-- A branch stays a branch, and nothing becomes one. -/
theorem Replaces.branch (replaces : second.Replaces first) : second.kind = .branchIf ↔ first.kind = .branchIf := by
  rcases replaces.shape with ⟨kind, _⟩ | ⟨kind, was⟩
  · rw [kind]
  · rw [kind]
    rcases was with was | was <;> simp [was]

/-- The statement jumps where it jumped. -/
theorem Replaces.jumps (replaces : second.Replaces first) : second.jumps = first.jumps := by
  rcases replaces.shape with ⟨kind, target, targets⟩ | ⟨kind, was⟩
  · simp only [Statement.jumps, kind, target, targets]
  · rcases was with was | was <;> simp [Statement.jumps, kind, was]

end Statement

namespace Renaming

variable {units rest renamed : List Statement} {regions : List Region} {s after : Renaming}
  {u u' : Statement} {pos : Nat}

theorem step?_replaces (stepped : step? units regions s u pos = some (u', after)) : u'.Replaces u := by
  simp only [step?] at stepped
  split at stepped
  · cases stepped
    exact ⟨rfl, .inl ⟨rfl, rfl, rfl⟩⟩
  · split at stepped
    · cases stepped
    · cases stepped
      exact ⟨rfl, .inl ⟨rfl, rfl, rfl⟩⟩
    · cases stepped
      exact ⟨rfl, .inl ⟨rfl, rfl, rfl⟩⟩

theorem run?_replaces (ran : run? units regions pos rest s = some (renamed, after)) :
    List.Forall₂ Statement.Replaces renamed rest := by
  induction rest generalizing pos s renamed after with
  | nil =>
    cases ran
    exact .nil
  | cons u rest ih =>
    simp only [run?] at ran
    split at ran
    · cases ran
    · rename_i u' middle stepped
      split at ran
      · cases ran
      · rename_i us final tail
        cases ran
        exact .cons (step?_replaces stepped) (ih tail)

end Renaming

/-- Renaming moves no statement. -/
theorem renameBody?_replaces {units renamed : List Statement} {aliases : Std.TreeMap String Value}
    (ran : renameBody? units = some (renamed, aliases)) :
    List.Forall₂ Statement.Replaces renamed units := by
  simp only [renameBody?] at ran
  split at ran
  · cases ran
  · rename_i regions _
    obtain ⟨⟨us, s⟩, passed, same⟩ := Option.map_eq_some_iff.mp ran
    cases same
    exact Renaming.run?_replaces passed

namespace Folding

variable {live : Bool} {method : String} {units rest : List Statement} {targets : List Int}
  {s : State} {u : Statement} {pos : Nat}

theorem call?_replaces {cs : Constants} {folded : Statement} (kind : u.kind = .assignInvoke)
    (ran : call? cs u = some folded) : folded.Replaces u := by
  simp only [call?] at ran
  split at ran
  · cases ran
  · split at ran
    · obtain ⟨v, _, same⟩ := Option.map_eq_some_iff.mp ran
      subst same
      exact ⟨rfl, .inr ⟨rfl, .inr kind⟩⟩
    · cases ran

theorem step_replaces : (step live method units s u pos).1.Replaces u := by
  simp only [step]
  split
  · exact .refl u
  · split <;> exact .refl u
  · split <;> exact .refl u
  · rename_i kind
    split
    · rename_i folded ran
      exact call?_replaces kind ran
    · exact .refl u
  · exact .refl u
  · exact .refl u

theorem mem_mark {dead more : List Nat} {p : Nat} : p ∈ mark dead more ↔ p ∈ dead ∨ p ∈ more := by
  induction more generalizing dead with
  | nil => simp [mark]
  | cons q more ih =>
    have step : mark dead (q :: more) = mark (if dead.contains q then dead else dead ++ [q]) more := rfl
    rw [step, ih]
    by_cases known : q ∈ dead
    · simp only [List.contains_iff_mem, known, ↓reduceIte, List.mem_cons]
      constructor
      · rintro (old | new)
        · exact .inl old
        · exact .inr (.inr new)
      · rintro (old | rfl | new)
        · exact .inl old
        · exact .inl known
        · exact .inr new
    · simp [known, or_assoc]

theorem mem_range {first last : Int} {p : Nat} (member : p ∈ range first last) : first.toNat ≤ p := by
  obtain ⟨k, _, rfl⟩ := List.mem_map.mp member
  exact Nat.le_add_left _ _

/-- A verdict rules out positions after the branch only. -/
theorem ruledOut_after {v : Verdict} {p : Nat} (member : p ∈ ruledOut units u pos v) : pos < p := by
  cases v with
  | unknown => simp [ruledOut] at member
  | holds =>
    have bound : (pos + 1 : Int).toNat ≤ p := by
      simp only [ruledOut] at member
      split at member
      · split at member <;> exact mem_range member
      · exact mem_range member
    omega
  | fails =>
    simp only [ruledOut] at member
    split at member
    · simp at member
    · split at member
      · split at member
        · have bound := mem_range member
          omega
        · simp at member
      · simp at member

/-- What one statement adds to the dead positions lies after it, and only an `if` adds any. -/
theorem step_dead {p : Nat} (member : p ∈ (step live method units s u pos).2.dead) :
    p ∈ s.dead ∨ (u.kind = .branchIf ∧ pos < p) := by
  revert member
  simp only [step]
  split
  · exact .inl
  · split
    · exact .inl
    · split <;> exact .inl
  · split
    · exact .inl
    · split <;> exact .inl
  · split
    · exact .inl
    · split <;> exact .inl
  · rename_i kind
    intro member
    rcases mem_mark.mp member with old | new
    · exact .inl old
    · exact .inr ⟨kind, ruledOut_after new⟩
  · split <;> exact .inl

theorem run_replaces :
    List.Forall₂ Statement.Replaces (run live method units targets pos rest s).1 rest := by
  induction rest generalizing pos s with
  | nil => exact .nil
  | cons u rest ih =>
    simp only [run]
    split
    · exact .cons (.refl u) ih
    · exact .cons step_replaces ih

/-- A position that the pass finds dead has a cause: an `if` before it that the pass looked at and that is
not dead. -/
theorem run_dead {p : Nat} (member : p ∈ (run live method units targets pos rest s).2.dead) :
    p ∈ s.dead ∨ ∃ q < rest.length, pos + q < p ∧ pos + q ∉ (run live method units targets pos rest s).2.dead ∧
      ∃ u, (run live method units targets pos rest s).1[q]? = some u ∧ u.kind = .branchIf := by
  induction rest generalizing pos s p with
  | nil => exact .inl member
  | cons u rest ih =>
    simp only [run] at member ⊢
    split at member
    · rename_i dead
      simp only [dead, ↓reduceIte]
      rcases ih member with old | ⟨q, inside, before, alive, v, found, kind⟩
      · exact .inl old
      · refine .inr ⟨q + 1, by simpa using inside, by omega, ?_, v, by simpa using found, kind⟩
        rwa [show pos + (q + 1) = pos + 1 + q from by omega]
    · rename_i alive
      simp only [alive, Bool.false_eq_true, ↓reduceIte]
      rcases ih member with old | ⟨q, inside, before, unmarked, v, found, kind⟩
      · rcases step_dead old with older | ⟨kind, before⟩
        · left
          split at older <;> exact older
        · refine .inr ⟨0, by simp, by simpa using before, ?_, _, rfl, step_replaces.branch.mpr kind⟩
          -- every later mark lies behind the statement that makes it, so this `if` stays alive
          intro marked
          rcases ih marked with known | ⟨r, _, above, _⟩
          · rcases step_dead known with older | ⟨_, above⟩
            · have : pos ∈ s.dead := by split at older <;> exact older
              exact alive (by simpa using this)
            · simp at above
          · omega
      · refine .inr ⟨q + 1, by simpa using inside, by omega, ?_, v, by simpa using found, kind⟩
        rwa [show pos + (q + 1) = pos + 1 + q from by omega]

end Folding

namespace Body

variable {b : Body}

/-- Every statement carries its own position. -/
def Placed (b : Body) : Prop := ∀ (i : Nat) (u : Statement), b.source[i]? = some u → u.pos = i

/-- What preparation guarantees of a body. -/
structure Prepared (b : Body) : Prop where
  placed : b.Placed
  /-- A dead position has a live `if` before it. -/
  cause : ∀ p ∈ b.dead, ∃ q < p, q ∉ b.dead ∧ ∃ u, b.source[q]? = some u ∧ u.kind = .branchIf

@[simp] theorem length_whole : b.whole.length = b.size := by simp [whole, size]

@[simp] theorem length_reversed : b.reversed.length = b.size := by simp [reversed]

theorem whole_getElem? {i : Nat} :
    b.whole[i]? = b.source[i]?.map fun u => if b.dead.contains i then Statement.nopAt i else u := by
  simp [whole, List.getElem?_mapIdx]

/-- Where nothing is dead the whole body is the source. -/
theorem whole_of_live {i : Nat} (alive : i ∉ b.dead) : b.whole[i]? = b.source[i]? := by
  rw [whole_getElem?]
  simp [alive]

theorem Placed.whole (placed : b.Placed) {i : Nat} {u : Statement} (found : b.whole[i]? = some u) :
    u.pos = i := by
  rw [whole_getElem?] at found
  obtain ⟨v, source, same⟩ := Option.map_eq_some_iff.mp found
  split at same
  · exact same ▸ rfl
  · exact same ▸ placed i v source

/-- The statement at a place of the reversed body. -/
theorem reversed_getElem? {i : Nat} (inside : i < b.size) : b.reversed[i]? = b.whole[b.size - 1 - i]? := by
  rw [reversed, List.getElem?_reverse (by simpa using inside), length_whole]

end Body

private theorem forall₂_placed {later earlier : List Statement}
    (same : List.Forall₂ Statement.Replaces later earlier)
    (placed : ∀ (i : Nat) u, earlier[i]? = some u → u.pos = i) (i : Nat) (u : Statement)
    (found : later[i]? = some u) : u.pos = i := by
  obtain ⟨inside, here⟩ := List.getElem?_eq_some_iff.mp found
  have below : i < earlier.length := same.length_eq ▸ inside
  have kept := same.get inside below
  rw [List.get_eq_getElem, List.get_eq_getElem, here] at kept
  exact kept.pos.trans (placed i _ (List.getElem?_eq_getElem below))

/-- Preparation places every statement and marks nothing dead without a cause. -/
theorem Body.prepare?_prepared {constants : String → Option Value} {live : Bool} {method : String}
    {units : List (Option Statement)} {b : Body} {log : Log}
    (ran : Body.prepare? constants live method units = some (b, log)) : b.Prepared := by
  simp only [Body.prepare?] at ran
  split at ran
  · cases ran
  · split at ran
    · cases ran
    · rename_i renamed aliases names
      obtain ⟨rfl, _⟩ := Prod.mk.injEq .. ▸ Option.some.inj ran
      have substituted : ∀ (i : Nat) u, (((units.filterMap id).mapIdx fun i u => { u with pos := i }).map
          (Body.substitute constants))[i]? = some u → u.pos = i := by
        intro i u found
        rw [List.getElem?_map, List.getElem?_mapIdx, Option.map_map] at found
        obtain ⟨v, _, rfl⟩ := Option.map_eq_some_iff.mp found
        simp only [Function.comp, Body.substitute]
        split
        · split <;> rfl
        · rfl
      have placed := forall₂_placed (renameBody?_replaces names) substituted
      refine ⟨forall₂_placed Folding.run_replaces placed, ?_⟩
      intro p dead
      rcases Folding.run_dead dead with none | ⟨q, _, before, alive, u, found, kind⟩
      · simp at none
      · rw [Nat.zero_add] at before alive
        exact ⟨q, before, alive, u, found, kind⟩

namespace Workspace

/-- The bodies of a workspace are prepared. -/
theorem body?_prepared {p : Program} {settings : Settings} {live : Bool} {model : CallModel}
    {method : String} {b : Body} (found : (ofModel p settings live model).body? method = some b) :
    b.Prepared := by
  obtain ⟨x, here, rfl⟩ := Option.map_eq_some_iff.mp found
  let known (bs : Std.TreeMap String (Body × Log)) : Prop :=
    ∀ (m : String) (x : Body × Log), bs[m]? = some x → x.1.Prepared
  have all : known (ofModel p settings live model).bodies := by
    refine List.foldlRecOn (motive := known) p.methods _ (by simp [known]) fun bs known m _ name x here => ?_
    split at here
    · exact known name x here
    · split at here
      · rename_i y prepared
        rw [Std.TreeMap.getElem?_insert] at here
        split at here
        · cases here
          exact Body.prepare?_prepared prepared
        · exact known name x here
      · exact known name x here
  exact all method x here

/-- The statements of all bodies carry their positions. -/
def Placed (w : Workspace) : Prop := ∀ method b, w.body? method = some b → b.Placed

theorem ofModel_placed {p : Program} {settings : Settings} {live : Bool} {model : CallModel} :
    (ofModel p settings live model).Placed :=
  fun _ _ found => (body?_prepared found).placed

end Workspace

end MisuseSlice
