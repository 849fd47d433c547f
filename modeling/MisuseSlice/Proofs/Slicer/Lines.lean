import MisuseSlice.Proofs.Slicer.Scans

/-! The lines of a scan. A scan goes up its body, so its lines are statements of the body between the place where it
stands and the seed, in the order of the body, and each parameter that it notes is bound by one of its lines. -/
namespace MisuseSlice

/-- Statements of the kind can be lines: they do something and control goes on after them. -/
def Kind.Matters (k : Kind) : Prop := k ∉ [.nop, .returnVoid, .returnValue, .throwValue]

/-- What holds of the lines of a scan. -/
structure Scan.Lined (st : Scan) : Prop where
  line : ∀ l ∈ st.lines, l.caller = st.criterion.caller ∧ st.body.whole[l.pos]? = some l.statement ∧
    l.pos < st.criterion.pos ∧ l.statement.kind.Matters
  /-- The lines stand below what the scan looks at next. -/
  below : ∀ l ∈ st.lines, st.body.size ≤ l.pos + st.next
  ascending : st.lines.Pairwise (·.pos < ·.pos)
  params : ∀ i ∈ st.params, ∃ l ∈ st.lines, l.statement.kind = .parameter ∧ l.statement.paramIndex = i
  /-- What the scan looks at next stands above the seed. -/
  above : st.body.size ≤ st.next + st.criterion.pos

namespace Scan

variable {w : Workspace} {rules : List CallRule} {st st' : Scan} {u : Statement} {c : Criterion} {b : Body}

theorem start_lined (seeded : c.SeededIn b) : (start c b).Lined := by
  have inside := seeded.inside
  have mirrored := seeded.mirrored
  simp only [Body.mirror] at mirrored
  refine ⟨by simp [start, track], by simp [start, track], .nil, by simp [start, track], ?_⟩
  simp only [start, track]
  omega

/-- Other values of interest leave the lines as they are. -/
theorem Lined.setTargets {targets : ValueSet} (lined : st.Lined) : ({ st with targets } : Scan).Lined :=
  ⟨lined.line, lined.below, lined.ascending, lined.params, lined.above⟩

/-- The parameters of the scan are those of the other one, with the one that the statement binds. -/
def Binds (u : Statement) (st st' : Scan) : Prop :=
  ∀ i ∈ st'.params, i ∈ st.params ∨ (u.kind = .parameter ∧ u.paramIndex = i)

theorem binds_of_eq (same : st'.params = st.params) : Binds u st st' := fun _ bound => .inl (same ▸ bound)

theorem Moves.binds (moves : st.Moves w rules u st') : Binds u st st' := by
  cases moves with
  | branch _ retained =>
    unfold atIf at retained
    split at retained
    · split at retained <;> cases retained
      exact binds_of_eq rfl
    · split at retained <;> cases retained
      exact binds_of_eq rfl
  | jump _ retained =>
    unfold atJump at retained
    dsimp only at retained
    split at retained
    · cases retained
    · split at retained
      · cases retained
        split <;> exact binds_of_eq rfl
      · cases retained
        exact binds_of_eq rfl
  | switch => exact binds_of_eq rfl
  | plain _ retained =>
    unfold atPlain at retained
    split at retained
    case h_1 kind =>
      cases retained
      intro i bound
      rcases List.mem_cons.mp bound with rfl | old
      · exact .inr ⟨kind, rfl⟩
      · exact .inl old
    case h_4 | h_5 | h_6 =>
      split at retained <;> cases retained
      exact binds_of_eq rfl
    all_goals
      cases retained
      exact binds_of_eq rfl
  | call => exact binds_of_eq rfl

/-- The scan after a statement that it looked at and retained. -/
theorem Lined.retain {v : Visit} (lined : st.Lined) (here : st.body.whole[u.pos]? = some u)
    (place : u.pos + (st.next + 1) = st.body.size) (matters : u.kind.Matters)
    (advances : ({ st with next := st.next + 1 } : Scan).Advances st') (binds : Binds u st st') :
    (v.settle u st').Lined := by
  obtain ⟨⟨next, targets, jumps, params, rfl⟩, grows⟩ := advances
  have above := lined.above
  dsimp only at grows
  refine ⟨?_, ?_, ?_, ?_, ?_⟩
  · intro l member
    rcases List.mem_cons.mp member with rfl | old
    · refine ⟨rfl, here, ?_, matters⟩
      simp only [SliceLine.pos, Visit.settle, Scan.retain]
      omega
    · exact lined.line l old
  · intro l member
    rcases List.mem_cons.mp member with rfl | old
    · simp only [SliceLine.pos, Visit.settle, Scan.retain]
      omega
    · have := lined.below l old
      simp only [Visit.settle, Scan.retain]
      omega
  · refine .cons (fun l old => ?_) lined.ascending
    have := lined.below l old
    simp only [SliceLine.pos] at this ⊢
    omega
  · intro i bound
    rcases binds i bound with old | ⟨kind, rfl⟩
    · obtain ⟨l, member, parameter⟩ := lined.params i old
      exact ⟨l, List.mem_cons_of_mem _ member, parameter⟩
    · exact ⟨⟨st.criterion.caller, u⟩, List.mem_cons_self, kind, rfl⟩
  · simp only [Visit.settle, Scan.retain]
    omega

theorem Lined.skip (lined : st.Lined) : ({ st with next := st.next + 1 } : Scan).Lined := by
  refine ⟨lined.line, fun l member => ?_, lined.ascending, lined.params, ?_⟩
  · have := lined.below l member
    dsimp only
    omega
  · have := lined.above
    dsimp only
    omega

end Scan

namespace SlicerState

open Scan

variable {s : SlicerState} {w : Workspace} {rules : List CallRule} {st st' : Scan} {u : Statement} {d : Suspension}

/-- A statement that does not matter is passed over. -/
theorem matters_of_visit (s : SlicerState) (w : Workspace) (rules : List CallRule) (st : Scan) (u : Statement)
    (noticed : (s.visit w rules st u).1 ≠ {}) : u.kind.Matters := by
  intro kind
  simp only [List.mem_cons, List.not_mem_nil, or_false] at kind
  rcases kind with kind | kind | kind | kind <;> simp [visit, kind] at noticed

/-- What a visit retains has the parameters of the scan, with the one that the statement binds. -/
theorem visit_binds (s : SlicerState) (w : Workspace) (rules : List CallRule) (st : Scan) (u : Statement) :
    (∀ st', (s.visit w rules st u).1.retained = some st' → Binds u st st') ∧
      ∀ d, (s.visit w rules st u).1.suspension = some d → Binds u st d.scan := by
  have visited := visit_visited s w rules st u
  generalize s.visit w rules st u = result at visited ⊢
  cases visited with
  | passed => exact ⟨by simp, by simp⟩
  | retained moves =>
    refine ⟨fun st' same => ?_, by simp⟩
    cases same
    exact moves.binds
  | ascended =>
    refine ⟨fun st' same => ?_, by simp⟩
    cases same
    exact binds_of_eq rfl
  | descended =>
    rename_i ts _ _
    have descended := descend_descended s w { st with targets := ts } u st.targets
    generalize s.descend w { st with targets := ts } u st.targets = result at descended ⊢
    cases descended with
    | ignored =>
      refine ⟨fun st' same => ?_, by simp⟩
      cases same
      exact binds_of_eq rfl
    | narrowed _ scan =>
      refine ⟨fun st' same => ?_, by simp⟩
      cases same
      rw [Suspension.narrow, scan]
      exact binds_of_eq rfl
    | suspended _ _ awaits =>
      refine ⟨fun st' same => ?_, fun d same => ?_⟩
      · cases same
        exact binds_of_eq rfl
      · cases same
        rw [awaits.scan]
        exact binds_of_eq rfl

/-- What a scan gives is lined: the scan at the top of its body, or the scan that waits at a call. -/
def ScanEnd.Lined : ScanEnd → Prop
  | .complete st => st.Lined
  | .suspended d => d.scan.Lined

/-- The lines of a scan stay in order however far it goes. -/
theorem scanFrom_lined (fuel : Nat) (known : w.body? st.criterion.caller = some st.body) (placed : st.body.Placed)
    (lined : st.Lined) (children : List Criterion) : (scanFrom w rules fuel s st children).2.1.Lined := by
  induction fuel generalizing s st children with
  | zero => exact lined
  | succ fuel ih =>
    cases found : st.body.reversed[st.next]? with
    | none =>
      rw [scanFrom_top found]
      exact lined
    | some u =>
      obtain ⟨member, place⟩ := place_of_next placed found
      obtain ⟨i, at_⟩ := List.mem_iff_getElem?.mp member
      have here : st.body.whole[u.pos]? = some u := by rw [placed.whole at_, at_]
      obtain ⟨retains, suspends⟩ := visit_binds s w rules { st with next := st.next + 1 } u
      have matters := matters_of_visit s w rules { st with next := st.next + 1 } u
      rcases look_spec s rules known placed found with goes | ⟨d, stops⟩
      · obtain ⟨criterion, body, _, _⟩ := goes.onward u
        rw [scanFrom_onward found goes.free]
        refine ih (by rw [criterion, body, known]) (by rw [body]; exact placed) ?_ _
        unfold Visit.onward
        split
        · rename_i st' retained
          exact lined.retain here place (matters fun passed => by simp [look, passed] at retained)
            (goes.advances st' retained) (retains st' retained)
        · exact lined.skip
      · rw [scanFrom_suspended found stops.suspension]
        have noticed : u.kind.Matters := by
          refine matters fun passed => ?_
          have waits := stops.suspension
          simp [look, passed] at waits
        exact lined.retain here place noticed stops.advances (suspends d stops.suspension)

end SlicerState

end MisuseSlice
