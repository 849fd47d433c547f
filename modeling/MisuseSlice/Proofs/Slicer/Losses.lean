import MisuseSlice.Proofs.Slicer.Roots

/-! Runs of a slicer after runs that returned early. The scans of a queue that was lost stay among the criteria under
way. What holds between two turns holds of the queue with these scans as further tasks, which no turn comes to; so
a run ends as if it were the first. -/
namespace MisuseSlice

open Criterion Phase

theorem Playing.perm {w : Workspace} {scans scans' : List Scan} {ended : Option Criterion} {s : SlicerState}
    (perm : scans.Perm scans') (playing : Playing w scans ended s) : Playing w scans' ended s := by
  obtain ⟨once, alive, active, held, known, knownHeld, unsliced, gone⟩ := playing
  have all : (scans ++ s.ready).Perm (scans' ++ s.ready) := perm.append_right s.ready
  have names : (Scan.names (scans ++ s.ready)).Perm (Scan.names (scans' ++ s.ready)) := all.map _
  refine ⟨names.nodup_iff.mp once, alive, fun id => ?_, fun id d found => ?_, fun st member => ?_, knownHeld, unsliced,
    gone⟩
  · rw [active id, names.mem_iff]
  · rw [← names.mem_iff]
    exact held id d found
  · exact known st (all.mem_iff.mpr member)

namespace Worklist

variable {w : Workspace} {rules : List CallRule} {A : Criterion → Prop} {l : Leftover} {x y : Worklist}
  {lost : List Scan}

/-- What holds between two turns does not depend on the order of the tasks. -/
theorem SoundAfter.perm (perm : x.queue.Perm y.queue) (same : x.state = y.state) (sound : x.SoundAfter w A l) :
    y.SoundAfter w A l := by
  obtain ⟨queue, s⟩ := x
  obtain ⟨queue', _⟩ := y
  dsimp only at perm same
  subst same
  have scans : (queue.filterMap Task.scan?).Perm (queue'.filterMap Task.scan?) := perm.filterMap _
  obtain ⟨plays, ⟨⟨tickets, pending, due, ending, origin, held, retracted, params⟩, ticketed, awaiting⟩, ready⟩ := sound
  refine ⟨Playing.perm scans plays, ⟨⟨tickets, pending, due, ending, fun st member => origin st ?_, held, retracted,
    params⟩, fun id t queued => ?_, awaiting.congr rfl rfl fun _ _ _ coming => coming⟩, ready⟩
  · exact (scans.append_right s.ready).mem_iff.mpr member
  · obtain ⟨task, ticket⟩ := ticketed id t queued
    exact ⟨task.imp_left perm.mem_iff.mp, ticket⟩

/-- What is left to do does not depend on the order of the tasks. -/
theorem left_perm (perm : x.queue.Perm y.queue) (same : x.state = y.state) : x.phase.left w = y.phase.left w := by
  simp only [left, phase, started, same, (perm.map (Task.weight w)).sum_eq]

/-- A run with the scans that earlier runs lost as tasks at the end. -/
def beside (x : Worklist) (lost : List Scan) : Worklist := ⟨x.queue ++ lost.map .resume, x.state⟩

theorem beside_scans : (x.beside lost).phase.scans = x.phase.scans ++ lost := by
  simp only [phase, Phase.scans, beside, List.filterMap_append, Task.filterMap_resume, Option.toList, List.nil_append]

/-- A turn does not come to the lost scans. -/
theorem next_beside (w : Workspace) (rules : List CallRule) (lost : List Scan) (nonempty : x.queue ≠ []) :
    (next w rules (x.beside lost)).state = (next w rules x).state ∧
      (next w rules (x.beside lost)).queue.Perm ((next w rules x).beside lost).queue := by
  obtain ⟨task, rest, queue⟩ := List.exists_cons_of_ne_nil nonempty
  have swap : ∀ more : List Task,
      (rest ++ lost.map Task.resume ++ more).Perm (rest ++ more ++ lost.map Task.resume) := by
    intro more
    rw [List.append_assoc, List.append_assoc]
    exact List.perm_append_comm.append_left rest
  simp only [next, beside, queue, List.cons_append]
  split <;> exact ⟨rfl, swap _⟩

theorem next_beside_sound (closed : Closed w A) (placed : w.Placed) (rules : List CallRule)
    (sound : (x.beside lost).SoundAfter w A l) : ((next w rules x).beside lost).SoundAfter w A l := by
  by_cases nonempty : x.queue = []
  · rw [next_of_empty nonempty]
    exact sound
  · obtain ⟨state, perm⟩ := next_beside w rules lost nonempty
    exact (next_sound closed placed sound rules).perm perm state

/-- What holds between two turns of the scans in play, those that were lost among them, and of the store. -/
structure Orderly (w : Workspace) (lost : List Scan) (x : Worklist) : Prop where
  plays : (x.beside lost).phase.Plays w
  ordered : x.phase.Ordered
  ready : x.state.ready = []

theorem SoundAfter.orderly (sound : (x.beside lost).SoundAfter w A l) (ordered : x.phase.Ordered) :
    Orderly w lost x :=
  ⟨sound.plays, ordered, sound.ready⟩

theorem Orderly.next (placed : w.Placed) (rules : List CallRule) (orderly : Orderly w lost x) :
    Orderly w lost (next w rules x) := by
  by_cases nonempty : x.queue = []
  · rw [next_of_empty nonempty]
    exact orderly
  · obtain ⟨state, perm⟩ := next_beside w rules lost nonempty
    have before : (x.beside lost).phase.Ordered := orderly.ordered.congr rfl rfl
    have after := after_invariant rules placed (fun turn _ => Turn.ordered turn) orderly.plays before 1
    refine ⟨?_, after.2.congr (congrArg SlicerState.active state.symm) (congrArg SlicerState.store state.symm),
      next_ready rules orderly.ready⟩
    have plays : Playing w (Worklist.next w rules (x.beside lost)).phase.scans none
        (Worklist.next w rules (x.beside lost)).state := after.1
    rw [state] at plays
    exact Playing.perm (perm.filterMap _) plays

theorem next_beside_ordered (placed : w.Placed) (rules : List CallRule) (sound : (x.beside lost).SoundAfter w A l)
    (ordered : x.phase.Ordered) : (next w rules x).phase.Ordered :=
  (Orderly.next placed rules (sound.orderly ordered)).ordered

theorem after_beside (rules : List CallRule) (closed : Closed w A) (placed : w.Placed)
    (sound : (x.beside lost).SoundAfter w A l) (ordered : x.phase.Ordered) (n : Nat) :
    ((after w rules x n).beside lost).SoundAfter w A l ∧ (after w rules x n).phase.Ordered := by
  induction n with
  | zero => exact ⟨sound, ordered⟩
  | succ n ih =>
    rw [after_succ]
    exact ⟨next_beside_sound closed placed rules ih.1, next_beside_ordered placed rules ih.1 ih.2⟩

/-- What the lost scans would take. -/
def idleWeight (w : Workspace) (lost : List Scan) : Nat := (lost.map (Scan.weight w)).sum

theorem left_beside : (x.beside lost).phase.left w = x.phase.left w + idleWeight w lost := by
  have scans : ((lost.map Task.resume).map (Task.weight w)).sum = idleWeight w lost := by
    rw [List.map_map]
    rfl
  simp only [left, phase, beside, started, List.map_append, List.sum_append, scans]
  omega

/-- A turn leaves less to do. -/
theorem Orderly.left_lt (placed : w.Placed) (rules : List CallRule) (orderly : Orderly w lost x)
    (nonempty : x.queue ≠ []) : (Worklist.next w rules x).phase.left w < x.phase.left w := by
  obtain ⟨state, perm⟩ := next_beside w rules lost nonempty
  have some : (x.beside lost).queue ≠ [] := by simp [beside, nonempty]
  have less := next_left_lt rules placed orderly.plays (orderly.ordered.congr rfl rfl) some
  rw [left_perm perm state, left_beside, left_beside] at less
  omega

/-- Turns come to an empty queue, and are no more until then than there is left to do. -/
theorem Orderly.exists_empty {z : Nat → Worklist} (start : Orderly w lost (z 0))
    (turns : ∀ i, Orderly w lost (z i) → Orderly w lost (z (i + 1)) ∧
      ((z i).queue ≠ [] → (z (i + 1)).phase.left w < (z i).phase.left w)) :
    ∃ n ≤ (z 0).phase.left w, (z n).queue = [] := by
  by_contra never
  have nonempty : ∀ n ≤ (z 0).phase.left w, (z n).queue ≠ [] := fun n le empty => never ⟨n, le, empty⟩
  have used : ∀ i ≤ (z 0).phase.left w + 1, Orderly w lost (z i) ∧ (z i).phase.left w + i ≤ (z 0).phase.left w := by
    intro i
    induction i with
    | zero => exact fun _ => ⟨start, Nat.le_refl _⟩
    | succ i ih =>
      intro le
      obtain ⟨orderly, enough⟩ := ih (by omega)
      obtain ⟨later, less⟩ := turns i orderly
      have step := less (nonempty i (by omega))
      exact ⟨later, by omega⟩
  have spent := (used _ (Nat.le_refl _)).2
  omega

/-- A criterion that was started stays so. -/
theorem started_next_beside {id : String} (closed : Closed w A) (placed : w.Placed) (rules : List CallRule)
    (sound : (x.beside lost).SoundAfter w A l) (started : x.Started id) : (next w rules x).Started id := by
  by_cases nonempty : x.queue = []
  · rw [next_of_empty nonempty]
    exact started
  · obtain ⟨state, _⟩ := next_beside w rules lost nonempty
    have later : (next w rules (x.beside lost)).Started id := sound.started_next closed placed started
    unfold Started Stored at later ⊢
    rwa [state] at later

theorem started_after_beside {id : String} (closed : Closed w A) (placed : w.Placed) (rules : List CallRule)
    (sound : (x.beside lost).SoundAfter w A l) (ordered : x.phase.Ordered) {i j : Nat} (le : i ≤ j)
    (started : (after w rules x i).Started id) : (after w rules x j).Started id := by
  obtain ⟨m, rfl⟩ := Nat.exists_eq_add_of_le' le
  induction m with
  | zero => rwa [Nat.zero_add]
  | succ m ih =>
    rw [Nat.succ_add, after_succ]
    exact started_next_beside closed placed rules (after_beside rules closed placed sound ordered _).1
      (ih (Nat.le_add_left _ _))

/-- A queued criterion of a call is started in its turn, and before that a criterion that covers it is
queued. -/
theorem queued_next_beside (closed : Closed w A) (distinct : Distinct A) (placed : w.Placed) (rules : List CallRule)
    (sound : (x.beside lost).SoundAfter w A l) {r : Criterion} (arises : A r) (call : r.AtCall)
    (queued : x.Queued r.id) : (next w rules x).Started r.id ∨ (next w rules x).phase.Covered A r := by
  by_cases nonempty : x.queue = []
  · rw [next_of_empty nonempty]
    exact .inr ⟨r, arises, call, .refl r, queued⟩
  · obtain ⟨state, _⟩ := next_beside w rules lost nonempty
    have later : (next w rules (x.beside lost)).Started r.id ∨ (next w rules (x.beside lost)).phase.Covered A r :=
      sound.queued_next closed distinct placed arises call queued
    unfold Started Stored Covered phase at later ⊢
    rwa [state] at later

end Worklist

end MisuseSlice
