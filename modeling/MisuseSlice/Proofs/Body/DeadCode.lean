import Mathlib.Logic.Relation
import MisuseSlice.Proofs.Body.Flow
import MisuseSlice.Proofs.Body.Prepared

/-! Dead code against control flow. Folding marks ranges of positions as dead when it decides an `if`. A
range is left to itself as far as statements go that run one after the other: control cannot run into it
from above. It can be jumped into, and then the marks are wrong. -/
namespace MisuseSlice

namespace Folding

variable {live : Bool} {method : String} {units rest : List Statement} {targets : List Int} {s : State}
  {u : Statement} {pos p q : Nat} {v : Verdict}

/-- The pass over two parts of a body is the pass over the first and then over the second. -/
theorem run_append {first second : List Statement} :
    run live method units targets pos (first ++ second) s =
      let (us, s₁) := run live method units targets pos first s
      let (vs, s₂) := run live method units targets (pos + first.length) second s₁
      (us ++ vs, s₂) := by
  induction first generalizing pos s with
  | nil => rfl
  | cons u first ih =>
    have place : pos + (first.length + 1) = pos + 1 + first.length := by omega
    simp only [List.cons_append, run, List.length_cons, place]
    split <;> simp only [ih, List.cons_append]

/-- The state of the pass when it comes to a position. -/
def before (live : Bool) (method : String) (units : List Statement) (pos : Nat) : State :=
  (run live method units (branchTargets units) 0 (units.take pos) {}).2

/-- The constants that the pass knows at a position. Where paths join, there are none. -/
def known (live : Bool) (method : String) (units : List Statement) (pos : Nat) : Constants :=
  if (branchTargets units).contains (pos : Int) then {} else (before live method units pos).constants

/-- The verdict of the pass on the statement at a position; only an `if` that is not dead gets one. -/
def decided (live : Bool) (method : String) (units : List Statement) (pos : Nat) : Verdict :=
  match units[pos]? with
  | some u =>
    if u.kind = .branchIf ∧ pos ∉ (before live method units pos).dead then
      verdict live (known live method units pos).resolve? u pos
    else .unknown
  | none => .unknown

/-- Only an `if` changes what is dead. -/
theorem step_dead_of_plain (plain : u.kind ≠ .branchIf) :
    (step live method units s u pos).2.dead = s.dead := by
  simp only [step]
  split
  · rfl
  · split
    · rfl
    · split <;> rfl
  · split
    · rfl
    · split <;> rfl
  · split
    · rfl
    · split <;> rfl
  · rename_i branch
    exact absurd branch plain
  · split <;> rfl

/-- At a position that is not dead the pass goes on with what it knows there. -/
theorem joined_eq : (if (branchTargets units).contains (pos : Int) = true
    then { before live method units pos with constants := {} } else before live method units pos) =
      { before live method units pos with constants := known live method units pos } := by
  unfold known
  split <;> rfl

/-- The state of the pass after a position: a dead one is passed over, and at any other the pass takes its step with
what it knows there. -/
theorem before_succ (here : units[pos]? = some u) :
    before live method units (pos + 1) =
      if pos ∈ (before live method units pos).dead then before live method units pos
      else (step live method units
        { before live method units pos with constants := known live method units pos } u pos).2 := by
  have inside : pos < units.length := (List.getElem?_eq_some_iff.mp here).1
  have parts : units.take (pos + 1) = units.take pos ++ [u] := by
    rw [List.take_add_one, here]
    rfl
  have length : 0 + (units.take pos).length = pos := by
    rw [List.length_take, Nat.zero_add, Nat.min_eq_left (Nat.le_of_lt inside)]
  have unfolded : before live method units (pos + 1) =
      (run live method units (branchTargets units) pos [u] (before live method units pos)).2 := by
    unfold before
    rw [parts, run_append, length]
  rw [unfolded]
  simp only [run, List.contains_iff_mem, ← joined_eq]
  split <;> rfl

/-- What the pass marks at one position is what its verdict there rules out. -/
theorem mem_before_succ (here : units[pos]? = some u) :
    p ∈ (before live method units (pos + 1)).dead ↔
      p ∈ (before live method units pos).dead ∨
        p ∈ ruledOut units u pos (decided live method units pos) := by
  rw [before_succ here]
  simp only [decided, here]
  by_cases dead : pos ∈ (before live method units pos).dead
  · simp [dead, ruledOut]
  by_cases branch : u.kind = .branchIf
  · simp only [dead, ↓reduceIte, not_false_eq_true, and_true, step, branch]
    rw [mem_mark]
  · simp only [dead, ↓reduceIte, branch, false_and, ruledOut, List.not_mem_nil, or_false]
    rw [step_dead_of_plain branch]

/-- A position is dead when the pass has left some statements behind exactly if the verdict on one of
them rules it out. -/
theorem mem_before {n : Nat} (inside : n ≤ units.length) :
    p ∈ (before live method units n).dead ↔
      ∃ q < n, ∃ u ∈ units[q]?, p ∈ ruledOut units u q (decided live method units q) := by
  induction n with
  | zero => simp [before, run]
  | succ n ih =>
    have here : units[n]? = some (units.get ⟨n, inside⟩) := List.getElem?_eq_getElem inside
    rw [mem_before_succ here, ih (Nat.le_of_lt inside)]
    constructor
    · rintro (⟨q, earlier, u, found, ruled⟩ | ruled)
      · exact ⟨q, Nat.lt_succ_of_lt earlier, u, found, ruled⟩
      · exact ⟨n, Nat.lt_succ_self n, _, here, ruled⟩
    · rintro ⟨q, earlier, u, found, ruled⟩
      rcases Nat.lt_succ_iff_lt_or_eq.mp earlier with before | rfl
      · exact .inl ⟨q, before, u, found, ruled⟩
      · rw [here, Option.mem_some_iff] at found
        exact .inr (found ▸ ruled)

/-- The dead positions are those that some verdict rules out. -/
theorem mem_body_dead :
    p ∈ (body live method units).2.1 ↔
      ∃ q, ∃ u ∈ units[q]?, p ∈ ruledOut units u q (decided live method units q) := by
  have all : (body live method units).2.1 = (before live method units units.length).dead := by
    simp only [body, before, List.take_length]
  rw [all, mem_before (Nat.le_refl _)]
  constructor
  · rintro ⟨q, -, ruled⟩
    exact ⟨q, ruled⟩
  · rintro ⟨q, u, found, ruled⟩
    exact ⟨q, (List.getElem?_eq_some_iff.mp found).1, u, found, ruled⟩

theorem mem_range_iff {first last : Int} : p ∈ range first last ↔ first.toNat ≤ p ∧ p < (last + 1).toNat := by
  simp only [range, List.mem_map, List.mem_range]
  constructor
  · rintro ⟨k, below, rfl⟩
    omega
  · rintro ⟨low, high⟩
    exact ⟨p - first.toNat, by omega, by omega⟩

/-- Control runs into a ruled out range from above only at its own `if`, or past a jump. -/
theorem ruledOut_pred (ruled : p + 1 ∈ ruledOut units u q v) :
    p ∈ ruledOut units u q v ∨ (v = .holds ∧ p = q) ∨ ∃ w ∈ units[p]?, w.kind = .goto := by
  cases v with
  | unknown => simp [ruledOut] at ruled
  | holds =>
    -- the range starts right below the `if`
    have start : ∀ last : Int, p + 1 ∈ range (q + 1) last → p ∈ range (q + 1) last ∨ p = q := by
      intro last member
      rw [mem_range_iff] at member ⊢
      omega
    simp only [ruledOut] at ruled ⊢
    split at ruled
    · rename_i last found
      split at ruled
      · rename_i jumps
        simp only [jumps, ↓reduceIte]
        exact (start _ ruled).imp_right fun same => .inl ⟨trivial, same⟩
      · rename_i stays
        simp only [stays, Bool.false_eq_true, ↓reduceIte]
        exact (start _ ruled).imp_right fun same => .inl ⟨trivial, same⟩
    · exact (start _ ruled).imp_right fun same => .inl ⟨trivial, same⟩
  | fails =>
    simp only [ruledOut] at ruled ⊢
    split at ruled
    · simp at ruled
    · rename_i below
      simp only [below, ↓reduceIte]
      split at ruled
      · rename_i last found
        split at ruled
        · rename_i jumps
          simp only [jumps, ↓reduceIte]
          rw [Bool.and_eq_true, beq_iff_eq] at jumps
          rw [mem_range_iff] at ruled
          by_cases first : p + 1 = u.target.toNat
          · refine .inr (.inr ⟨last, ?_, jumps.1⟩)
            rwa [← first, Nat.add_sub_cancel] at found
          · left
            rw [mem_range_iff]
            omega
        · simp at ruled
      · simp at ruled

theorem step_kept : (step live method units s u pos).1 = u ∨
    u.kind = .assignInvoke ∧ (step live method units s u pos).1.kind = .assignVariableConstant := by
  simp only [step]
  split
  · exact .inl rfl
  · split <;> exact .inl rfl
  · split <;> exact .inl rfl
  · rename_i kind
    split
    · rename_i folded ran
      simp only [call?] at ran
      split at ran
      · cases ran
      · split at ran
        · obtain ⟨c, _, rfl⟩ := Option.map_eq_some_iff.mp ran
          exact .inr ⟨kind, rfl⟩
        · cases ran
    · exact .inl rfl
  · exact .inl rfl
  · exact .inl rfl

/-- Folding replaces nothing but calls, and those by assignments. -/
theorem run_kept {i : Nat} {w : Statement} (found : (run live method units targets pos rest s).1[i]? = some w) :
    ∃ u ∈ rest[i]?, w = u ∨ u.kind = .assignInvoke ∧ w.kind = .assignVariableConstant := by
  induction rest generalizing pos s i with
  | nil => simp [run] at found
  | cons u rest ih =>
    simp only [run] at found
    split at found
    · cases i with
      | zero => exact ⟨u, rfl, .inl (Option.some.inj found).symm⟩
      | succ i => exact ih found
    · cases i with
      | zero =>
        cases Option.some.inj found
        exact ⟨u, rfl, step_kept⟩
      | succ i => exact ih found

end Folding

/-- The positions that control can go to after a statement with a verdict: a decided `if` keeps the side
that its verdict chooses. -/
def Statement.decidedSuccessors (u : Statement) (pos : Nat) : Verdict → List Int
  | .holds => [u.target]
  | .fails => [(pos : Int) + 1]
  | .unknown => u.successors pos

/-- Control can go from one position to another under the verdicts. -/
def DecidedFlow (units : List Statement) (verdicts : Nat → Verdict) (p q : Nat) : Prop :=
  ∃ u ∈ units[p]?, (q : Int) ∈ u.decidedSuccessors p (verdicts p)

/-- Control can come to the position from the start of the body under the verdicts. -/
def DecidedReach (units : List Statement) (verdicts : Nat → Verdict) (p : Nat) : Prop :=
  Relation.ReflTransGen (DecidedFlow units verdicts) 0 p

/-- After a statement control goes on below or to where the statement jumps. -/
theorem Statement.mem_successors {u : Statement} {p q : Nat} (goes : (q : Int) ∈ u.successors p) :
    (q : Int) ∈ u.jumps ∨ (u.kind ≠ .goto ∧ q = p + 1) := by
  simp only [successors] at goes
  split at goes
  · simp at goes
  · simp at goes
  · simp at goes
  · rename_i kind
    exact .inl (by simpa [jumps, kind] using goes)
  · rename_i kind
    rcases List.mem_cons.mp goes with below | jump
    · exact .inr ⟨by simp [kind], by omega⟩
    · exact .inl (by simpa [jumps, kind] using jump)
  · rename_i kind
    exact .inl (by simpa [jumps, kind] using goes)
  · have below := List.mem_singleton.mp goes
    exact .inr ⟨by assumption, by omega⟩

/-- Control can go where a statement jumps. -/
theorem Statement.jumps_subset_successors (u : Statement) (p : Nat) : u.jumps ⊆ u.successors p := by
  intro e jump
  simp only [jumps] at jump
  split at jump
  · rename_i kind
    simp_all [successors]
  · rename_i kind
    simp_all [successors]
  · rename_i kind
    simp_all [successors]
  · simp at jump

theorem Statement.mem_decidedSuccessors {u : Statement} {p q : Nat} {v : Verdict}
    (branch : v ≠ .unknown → u.kind = .branchIf) (goes : (q : Int) ∈ u.decidedSuccessors p v) :
    (v ≠ .fails ∧ (q : Int) ∈ u.jumps) ∨ (v ≠ .holds ∧ u.kind ≠ .goto ∧ q = p + 1) := by
  cases v with
  | holds => exact .inl ⟨by decide, by simpa [jumps, branch (by decide), decidedSuccessors] using goes⟩
  | fails =>
    have below := List.mem_singleton.mp goes
    exact .inr ⟨by decide, by simp [branch (by decide)], by omega⟩
  | unknown => exact (mem_successors goes).imp (⟨by decide, ·⟩) (⟨by decide, ·⟩)

/-- A statement jumps unless its verdict goes against it. -/
theorem Statement.jumps_subset_decidedSuccessors {u : Statement} {v : Verdict}
    (branch : v ≠ .unknown → u.kind = .branchIf) (taken : v ≠ .fails) (p : Nat) :
    u.jumps ⊆ u.decidedSuccessors p v := by
  cases v with
  | holds => simp [jumps, branch (by decide), decidedSuccessors]
  | fails => exact absurd rfl taken
  | unknown => exact u.jumps_subset_successors p

namespace Folding

variable {live : Bool} {method : String} {units : List Statement} {w : Statement} {p q : Nat}

/-- Only an `if` is decided. -/
theorem branch_of_decided (found : (body live method units).1[p]? = some w)
    (settled : decided live method units p ≠ .unknown) : w.kind = .branchIf := by
  obtain ⟨u, here, same⟩ := run_kept found
  have branch : u.kind = .branchIf := by
    by_contra other
    exact settled (by simp [decided, Option.mem_def.mp here, other])
  rcases same with rfl | ⟨call, _⟩
  · exact branch
  · simp [branch] at call

/-- Nothing but a jump goes from a live position to a dead one. -/
theorem jumps_of_flow_dead (flow : DecidedFlow (body live method units).1 (decided live method units) p q)
    (alive : p ∉ (body live method units).2.1) (dead : q ∈ (body live method units).2.1) :
    decided live method units p ≠ .fails ∧ ∃ w ∈ (body live method units).1[p]?, (q : Int) ∈ w.jumps := by
  obtain ⟨w, found, goes⟩ := flow
  rcases Statement.mem_decidedSuccessors (branch_of_decided found) goes with ⟨taken, jump⟩ | ⟨falls, stays, rfl⟩
  · exact ⟨taken, w, found, jump⟩
  · obtain ⟨r, u, cause, ruled⟩ := mem_body_dead.mp dead
    rcases ruledOut_pred ruled with inside | ⟨holds, rfl⟩ | ⟨v, here, jump⟩
    · exact absurd (mem_body_dead.mpr ⟨r, u, cause, inside⟩) alive
    · exact absurd holds falls
    · obtain ⟨v', there, same⟩ := run_kept found
      cases Option.mem_unique here there
      rcases same with rfl | ⟨call, _⟩
      · exact absurd jump stays
      · simp [jump] at call

/-- The dead positions cannot be reached exactly if no statement that runs jumps to one. -/
theorem dead_unreachable_iff :
    (∀ d ∈ (body live method units).2.1, ¬DecidedReach (body live method units).1 (decided live method units) d) ↔
      ∀ p, DecidedReach (body live method units).1 (decided live method units) p → p ∉ (body live method units).2.1 →
        decided live method units p ≠ .fails → ∀ w ∈ (body live method units).1[p]?,
          ∀ d ∈ (body live method units).2.1, (d : Int) ∉ w.jumps := by
  constructor
  · intro unreachable p reach _ taken w found d dead jump
    have goes := Statement.jumps_subset_decidedSuccessors (branch_of_decided found) taken p jump
    exact unreachable d dead (.tail reach ⟨w, found, goes⟩)
  · intro clear d dead reach
    -- along the way from the start, control stays on live positions
    have alive : ∀ p, DecidedReach (body live method units).1 (decided live method units) p →
        p ∉ (body live method units).2.1 := by
      intro p reach
      induction reach with
      | refl =>
        intro dead
        obtain ⟨q, u, _, ruled⟩ := mem_body_dead.mp dead
        exact Nat.not_lt_zero _ (ruledOut_after ruled)
      | tail reach flow ih =>
        intro dead
        obtain ⟨taken, w, found, jump⟩ := jumps_of_flow_dead flow ih dead
        exact clear _ reach ih taken w found _ dead jump
    exact alive d reach dead

end Folding

namespace Body

/-- The statements that folding gets when a body is prepared. -/
def renamed? (constants : String → Option Value) (units : List (Option Statement)) : Option (List Statement) :=
  (renameBody? (((units.filterMap id).mapIdx fun i u => { u with pos := i }).map (substitute constants))).map (·.1)

/-- The verdicts of folding on the statements of a body when it is prepared. -/
def verdicts (constants : String → Option Value) (live : Bool) (method : String) (units : List (Option Statement))
    (pos : Nat) : Verdict :=
  match renamed? constants units with
  | some renamed => Folding.decided live method renamed pos
  | none => .unknown

variable {constants : String → Option Value} {live : Bool} {method : String} {units : List (Option Statement)}
  {b : Body} {log : Log}

/-- A prepared body holds what folding makes of the renamed statements. -/
theorem prepare?_folded (prepared : prepare? constants live method units = some (b, log)) :
    ∃ renamed, renamed? constants units = some renamed ∧ b.source = (Folding.body live method renamed).1 ∧
      b.dead = (Folding.body live method renamed).2.1 := by
  simp only [prepare?] at prepared
  split at prepared
  · cases prepared
  · split at prepared
    · cases prepared
    · rename_i renamed aliases names
      obtain ⟨rfl, _⟩ := Prod.mk.injEq .. ▸ Option.some.inj prepared
      exact ⟨renamed, by rw [renamed?, names, Option.map_some], rfl, rfl⟩

/-- The dead statements of a body never run, where decided branches go where folding decided, exactly if no
live statement that runs jumps to a dead one. -/
theorem dead_never_runs_iff (prepared : prepare? constants live method units = some (b, log)) :
    (∀ d ∈ b.dead, ¬DecidedReach b.source (verdicts constants live method units) d) ↔
      ∀ p, DecidedReach b.source (verdicts constants live method units) p → p ∉ b.dead →
        verdicts constants live method units p ≠ .fails → ∀ u ∈ b.source[p]?, ∀ d ∈ b.dead, (d : Int) ∉ u.jumps := by
  obtain ⟨renamed, names, source, dead⟩ := prepare?_folded prepared
  have same : verdicts constants live method units = Folding.decided live method renamed := by
    funext p
    simp only [verdicts, names]
  rw [same, source, dead]
  exact Folding.dead_unreachable_iff

/-- The statements of a method as they are when a program is finalized, if they have no defect. -/
private def finalUnits (units : List Statement) : List (Option Statement) :=
  let (m, problem) := Method.finalized { signature := "<a.B: void m(int)>", units := units.map some }
  if problem.isNone then m.units else []

/-- A branch that is not taken, between one that is undecided and its end. -/
private def choosing : List (Option Statement) := finalUnits
  [.param "i0" 0 "int", .assign "i1" "1", .branch "i0" "==" "0" 7, .branch "i1" "==" "0" 6,
    .call "" "<lib.X: void x()>" [], .jump 7, .call "" "<lib.Y: void y()>" [], .retVoid]

/-- A decided branch over the other side of an undecided one. -/
private def crossing : List (Option Statement) := finalUnits
  [.param "i0" 0 "int", .branch "i0" "==" "0" 3, .branch "1" "==" "1" 4, .call "" "<lib.X: void x()>" [], .retVoid]

private def preparedOf (units : List (Option Statement)) : Option (Body × Log) :=
  prepare? (fun _ => none) true "<a.B: void m(int)>" units

private def verdictsOf (units : List (Option Statement)) : Nat → Verdict :=
  verdicts (fun _ => none) true "<a.B: void m(int)>" units

set_option maxRecDepth 100000 in
private theorem choosing_unentered :
    ∃ x ∈ preparedOf choosing, x.1.dead = [6] ∧ x.1.source.length = 8 ∧
      ∀ p ∈ List.range 8, verdictsOf choosing p ≠ .fails → ∀ u ∈ x.1.source[p]?, (6 : Int) ∉ u.jumps := by
  decide +kernel

/-- The call on the other side of a decided branch does not run. -/
theorem choosing_dead_never_runs :
    ∃ b log, preparedOf choosing = some (b, log) ∧ b.dead = [6] ∧ ¬DecidedReach b.source (verdictsOf choosing) 6 := by
  obtain ⟨⟨b, log⟩, prepared, dead, size, unentered⟩ := choosing_unentered
  have marked : 6 ∈ b.dead := by
    rw [dead]
    exact List.mem_singleton_self 6
  refine ⟨b, log, prepared, dead, (dead_never_runs_iff prepared).mpr ?_ 6 marked⟩
  intro p _ _ taken u found d member
  rw [dead, List.mem_singleton] at member
  subst member
  have inside := (List.getElem?_eq_some_iff.mp found).1
  rw [size] at inside
  exact unentered p (List.mem_range.mpr inside) taken u found

set_option maxRecDepth 100000 in
private theorem crossing_flows :
    ∃ x ∈ preparedOf crossing, 3 ∈ x.1.dead ∧ ∀ e ∈ [(0, 1), (1, 3)], ∃ u ∈ x.1.source[e.1]?,
      ((e.2 : Nat) : Int) ∈ u.decidedSuccessors e.1 (verdictsOf crossing e.1) := by
  decide +kernel

/-- A call can be dead and run: a branch above the decided one goes to it. -/
theorem crossing_dead_runs :
    ∃ b log, preparedOf crossing = some (b, log) ∧ 3 ∈ b.dead ∧ DecidedReach b.source (verdictsOf crossing) 3 := by
  obtain ⟨⟨b, log⟩, prepared, dead, flows⟩ := crossing_flows
  have enters : DecidedFlow b.source (verdictsOf crossing) 0 1 := flows (0, 1) (by simp)
  have jumps : DecidedFlow b.source (verdictsOf crossing) 1 3 := flows (1, 3) (by simp)
  exact ⟨b, log, prepared, dead, .tail (.single enters) jumps⟩

end Body

end MisuseSlice
