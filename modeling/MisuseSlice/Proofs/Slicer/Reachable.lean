import MisuseSlice.Proofs.Slicer.Slices

/-! Every state that runs go through. A run starts from what the runs before it left, whether they were complete,
cancelled or limited, and all slices that it ever stores are well formed. -/
namespace MisuseSlice

/-- Settings that are normal bound the levels on both sides of the first one. -/
theorem Settings.normalize_levels {given settings : Settings} (valid : given.normalize = .ok settings) :
    settings.lowerLevel < 0 ∧ 0 < settings.upperLevel := by
  have low : orElse (decide (given.lowerLevel < 0)) given.lowerLevel (-5) < 0 := by
    unfold orElse
    split
    · rename_i negative
      exact of_decide_eq_true negative
    · decide
  have high : 0 < orElse (decide (0 < given.upperLevel)) given.upperLevel 5 := by
    unfold orElse
    split
    · rename_i positive
      exact of_decide_eq_true positive
    · decide
  simp only [normalize] at valid
  split at valid
  · cases valid
  · split at valid
    · cases valid
    · cases valid
      exact ⟨low, high⟩

theorem Settings.normalize_default : ({} : Settings).normalize = .ok {} := rfl

/-- The criterion was asked for on the first level. -/
def Criterion.IsSeed (w : Workspace) (r : Criterion) : Prop :=
  ∃ caller target kind positions, r ∈ created w caller target kind positions 0

/-- The scans of the tasks and of the state are as they should be, and so are its criteria and slices. -/
structure Worklist.Formed (w : Workspace) (x : Worklist) : Prop where
  queue : ∀ task ∈ x.queue, ∀ st, task.scan? = some st → st.Formed w
  state : x.state.Formed w

/-- The states of a slicer that runs go through. Whether the analysis was cancelled may differ from turn to turn. -/
inductive Reachable (w : Workspace) (rules : List CallRule) : Worklist → Prop where
  | new (ledger : Ledger) : Reachable w rules ⟨[], { ledger }⟩
  /-- A run starts; the queue of the run before it is lost. -/
  | roots {x : Worklist} {roots : List Criterion} (reachable : Reachable w rules x)
      (seeds : ∀ r ∈ roots, r.IsSeed w) : Reachable w rules (.append [] (x.state.addRoots roots))
  | turn {x : Worklist} (reachable : Reachable w rules x) (live : Bool) :
      Reachable w rules (.next { w with live } rules x)
  /-- A whole run, however it ends. -/
  | run {x : Worklist} {roots : List Criterion} {ended : SlicerState.RunEnd} {s : SlicerState}
      (reachable : Reachable w rules x) (seeds : ∀ r ∈ roots, r.IsSeed w) (live : Bool)
      (ran : x.state.run { w with live } rules roots = (ended, s)) : Reachable w rules ⟨[], s⟩

section Live

variable {w : Workspace} {live : Bool}

theorem PartialSlice.wellFormed_live {p : PartialSlice} : p.WellFormed { w with live } ↔ p.WellFormed w :=
  ⟨fun h => ⟨h.ascending, h.lines, h.sorted, h.params, h.infeasible, h.low, h.high⟩,
    fun h => ⟨h.ascending, h.lines, h.sorted, h.params, h.infeasible, h.low, h.high⟩⟩

theorem Criterion.fits_live {c : Criterion} : c.Fits { w with live } ↔ c.Fits w :=
  ⟨fun h => ⟨h.seeded, h.low, h.high⟩, fun h => ⟨h.seeded, h.low, h.high⟩⟩

theorem Scan.formed_live {st : Scan} : st.Formed { w with live } ↔ st.Formed w :=
  ⟨fun h => ⟨Criterion.fits_live.mp h.fits, h.known, h.lined⟩,
    fun h => ⟨Criterion.fits_live.mpr h.fits, h.known, h.lined⟩⟩

/-- What is as it should be does not depend on whether the analysis was cancelled. -/
theorem Worklist.formed_live {x : Worklist} : x.Formed { w with live } ↔ x.Formed w := by
  constructor
  · rintro ⟨queue, tickets, held, ready, stored⟩
    exact ⟨fun task member st same => Scan.formed_live.mp (queue task member st same),
      fun c member => Criterion.fits_live.mp (tickets c member), fun id d here => Scan.formed_live.mp (held id d here),
      fun st member => Scan.formed_live.mp (ready st member),
      fun id p here => PartialSlice.wellFormed_live.mp (stored id p here)⟩
  · rintro ⟨queue, tickets, held, ready, stored⟩
    exact ⟨fun task member st same => Scan.formed_live.mpr (queue task member st same),
      fun c member => Criterion.fits_live.mpr (tickets c member),
      fun id d here => Scan.formed_live.mpr (held id d here), fun st member => Scan.formed_live.mpr (ready st member),
      fun id p here => PartialSlice.wellFormed_live.mpr (stored id p here)⟩

end Live

namespace SlicerState

/-- What a turn starts with is as it should be. -/
def Turn.Formed (w : Workspace) : Turn → Prop
  | .over s => s.Formed w
  | .criterion c s => c.Fits w ∧ s.Formed w
  | .scan _ => True

variable {w : Workspace} {s : SlicerState}

theorem Formed.turn (formed : s.Formed w) (task : Task) : (s.turn task).Formed w := by
  cases task with
  | resume st => trivial
  | start t =>
    simp only [SlicerState.turn]
    split
    · exact formed
    · rename_i c ticket
      split
      · exact formed
      · split
        · exact Formed.release (formed.congr rfl rfl rfl rfl)
        · exact ⟨formed.tickets c (List.mem_of_getElem? ticket), formed.congr rfl rfl rfl rfl⟩

theorem turn_scan {task : Task} {st : Scan} (turn : s.turn task = .scan st) : task.scan? = some st := by
  cases task with
  | resume st' => simpa [SlicerState.turn, Task.scan?] using turn
  | start t =>
    simp only [SlicerState.turn] at turn
    repeat' split at turn
    all_goals cases turn

end SlicerState

namespace Worklist

open SlicerState

variable {w : Workspace} {rules : List CallRule} {x : Worklist} {queue : List Task} {s : SlicerState}
  {y : List Task × SlicerState}

theorem Formed.append (scans : ∀ task ∈ queue, ∀ st, task.scan? = some st → st.Formed w)
    (formed : Formed w ⟨y.1, y.2⟩) : Formed w (append queue y) := by
  refine ⟨fun task member => ?_, formed.state⟩
  rcases List.mem_append.mp member with old | new
  · exact scans task old
  · exact formed.queue task new

/-- Queueing a criterion that fits. -/
theorem Formed.enqueueOne {c : Criterion} (formed : Formed w ⟨y.1, y.2⟩) (fits : c.Fits w) :
    Formed w ⟨(enqueueOne y c).1, (enqueueOne y c).2⟩ := by
  refine ⟨fun task member st same => ?_, formed.state.enqueue fits⟩
  rcases List.mem_append.mp member with old | new
  · exact formed.queue task old st same
  · rw [List.mem_singleton.mp new] at same
    cases same

/-- Queueing criteria one after the other. -/
theorem Formed.foldl {α : Type} {f : List Task × SlicerState → α → List Task × SlicerState} {xs : List α}
    (formed : Formed w ⟨y.1, y.2⟩)
    (keeps : ∀ a ∈ xs, ∀ y : List Task × SlicerState, Formed w ⟨y.1, y.2⟩ → Formed w ⟨(f y a).1, (f y a).2⟩) :
    Formed w ⟨(xs.foldl f y).1, (xs.foldl f y).2⟩ := by
  induction xs generalizing y with
  | nil => exact formed
  | cons a xs ih =>
    exact ih (keeps a List.mem_cons_self y formed) fun b member => keeps b (List.mem_cons_of_mem _ member)

theorem takeReady_formed (formed : s.Formed w) : Formed w ⟨s.takeReady.1, s.takeReady.2⟩ := by
  refine ⟨fun task member st same => ?_, { formed with ready := by simp [takeReady] }⟩
  obtain ⟨st', ready, rfl⟩ := List.mem_map.mp member
  cases same
  exact formed.ready _ ready

/-- Taking over what a step gives. -/
theorem absorb_formed {r : StepResult × SlicerState} (steps : Steps w r) :
    Formed w ⟨(absorb r).1, (absorb r).2⟩ := by
  obtain ⟨res, s⟩ := r
  have counted : Formed w ⟨[], { s with stats := { s.stats with spawned := s.stats.spawned + res.children.length } }⟩ :=
    ⟨by simp, steps.state.congr rfl rfl rfl rfl⟩
  have queued : Formed w ⟨_, _⟩ :=
    counted.foldl (y := (_, _)) fun c member y formed => formed.enqueueOne (steps.children c member)
  unfold absorb
  dsimp only
  unfold enqueueAll
  generalize res.children.foldl SlicerState.enqueueOne _ = result at queued ⊢
  obtain ⟨tasks, s'⟩ := result
  dsimp only at queued ⊢
  cases slice : res.slice with
  | none => exact (takeReady_formed queued.state).append queued.queue
  | some p => exact (takeReady_formed (queued.state.put (steps.slice p slice))).append queued.queue

/-- A turn keeps everything as it should be. -/
theorem Formed.next (rules : List CallRule) (prepared : ∀ method b, w.body? method = some b → b.Prepared)
    (formed : x.Formed w) : (next w rules x).Formed w := by
  obtain ⟨scans, state⟩ := formed
  unfold Worklist.next
  split
  · exact ⟨scans, state⟩
  · rename_i task queue here
    rw [here] at scans
    have rest : ∀ task ∈ queue, ∀ st, task.scan? = some st → st.Formed w :=
      fun task member => scans task (List.mem_cons_of_mem _ member)
    have taken := state.turn task
    split
    · rename_i turn
      rw [turn] at taken
      exact (takeReady_formed taken).append rest
    · rename_i turn
      rw [turn] at taken
      exact (absorb_formed (begin_steps rules prepared taken.2 taken.1)).append rest
    · rename_i st turn
      have scan : st.Formed w := scans task List.mem_cons_self st (turn_scan turn)
      exact (absorb_formed (resume_steps rules prepared state scan)).append rest

/-- A run starts with roots that fit. -/
theorem addRoots_formed {roots : List Criterion} (formed : s.Formed w) (fits : ∀ r ∈ roots, r.Fits w) :
    Formed w ⟨(s.addRoots roots).1, (s.addRoots roots).2⟩ := by
  have start : Formed w ⟨[], s⟩ := ⟨by simp, formed⟩
  refine start.foldl (y := ([], s)) fun r member y formed => ?_
  unfold addRoot
  split
  · exact ⟨formed.queue, formed.state.congr rfl rfl rfl rfl⟩
  · have added : Formed w ⟨y.1, { y.2 with tree := (y.2.tree.add r.id r.level).2 }⟩ :=
      ⟨formed.queue, formed.state.congr rfl rfl rfl rfl⟩
    exact added.enqueueOne (y := (_, _)) (fits r member)

/-- A run keeps everything as it should be, however it ends. -/
theorem Returns.formed {fuel : Nat} {ended : RunEnd} (returns : Returns w rules fuel x ended s)
    (prepared : ∀ method b, w.body? method = some b → b.Prepared) (formed : x.Formed w) : s.Formed w := by
  induction returns with
  | complete => exact formed.state.congr rfl rfl rfl rfl
  | exhausted => exact formed.state
  | cancelled => exact formed.state
  | @limited _ x task _ _ _ _ _ _ turn =>
    have taken := formed.state.turn task
    rw [turn] at taken
    exact taken.2.congr rfl rfl rfl rfl
  | turn _ _ ih => exact ih (formed.next rules prepared)

theorem run_formed {roots : List Criterion} (rules : List CallRule)
    (prepared : ∀ method b, w.body? method = some b → b.Prepared) (formed : s.Formed w)
    (fits : ∀ r ∈ roots, r.Fits w) : (s.run w rules roots).2.Formed w := by
  have ran : s.run w rules roots = ((s.run w rules roots).1, (s.run w rules roots).2) := Prod.mk.eta.symm
  exact (returns_run ran).formed prepared (addRoots_formed formed fits)

end Worklist

namespace Reachable

open Worklist

variable {w : Workspace} {rules : List CallRule} {x : Worklist}

theorem formed (prepared : ∀ method b, w.body? method = some b → b.Prepared) (low : w.settings.lowerLevel < 0)
    (high : 0 < w.settings.upperLevel) (reachable : Reachable w rules x) : x.Formed w := by
  have fits : ∀ r : Criterion, r.IsSeed w → r.Fits w := by
    rintro r ⟨caller, target, kind, positions, here⟩
    exact Criterion.fits_of_created prepared (Int.le_of_lt low) (Int.le_of_lt high) here
  induction reachable with
  | new ledger => exact ⟨by simp, by simp, by simp, by simp, by simp [SliceStore.get?]⟩
  | roots _ seeds ih => exact (addRoots_formed ih.state fun r given => fits r (seeds r given)).append (by simp)
  | turn _ live ih => exact formed_live.mp (Formed.next rules prepared (formed_live.mpr ih))
  | @run x roots ended s _ seeds live ran ih =>
    have before : x.state.Formed { w with live } := (formed_live.mpr ih).state
    have seated : ∀ r ∈ roots, r.Fits { w with live } := fun r given =>
      Criterion.fits_live.mpr (fits r (seeds r given))
    have after := run_formed (w := { w with live }) rules prepared before seated
    rw [ran] at after
    have whole : Worklist.Formed { w with live } ⟨[], s⟩ := ⟨by simp, after⟩
    exact formed_live.mp whole

end Reachable

/-- Every slice that runs store is well formed. -/
theorem stored_slice_wellFormed {p : Program} {given settings : Settings} {live : Bool} {rules : List CallRule}
    {x : Worklist} {id : String} {slice : PartialSlice} (valid : given.normalize = .ok settings)
    (reachable : Reachable (.ofProgram p.finalize.1 settings live) rules x)
    (stored : x.state.store.get? id = some slice) : slice.WellFormed (.ofProgram p.finalize.1 settings live) := by
  obtain ⟨low, high⟩ := Settings.normalize_levels valid
  exact (reachable.formed (fun _ _ => Workspace.body?_prepared) low high).state.stored id slice stored

/-- A method that hashes a copy of its argument. -/
private def forwarding : Program :=
  { package := "a"
    classes := [some { name := "a.B", methods := [
      some { signature := "<a.B: void m(int)>", isStatic := true, units := [
        some (.param "i0" 0 "int"), some (.assign "i1" "i0"), some (.call "" "<lib.X: void x(int)>" ["i1"]),
        some .retVoid] }] }] }

private def forwarded : Workspace := .ofProgram forwarding.finalize.1 {} true

/-- The call of the hash. -/
private def forwardingRoots : List Criterion :=
  Criterion.created forwarded "<a.B: void m(int)>" "<lib.X: void x(int)>" .invoke [0] 0

set_option maxRecDepth 100000 in
private theorem forwarding_stored :
    ∃ c ∈ forwardingRoots,
      ∃ slice ∈ (({} : SlicerState).run forwarded CallRule.standard forwardingRoots).2.store.get? c.id,
        slice.lines.map (·.number) = [1, 2] ∧ slice.params = [0] := by
  decide +kernel

/-- The slice of the hash call has the copy and the parameter. -/
theorem forwarding_slice_wellFormed :
    ∃ x, Reachable forwarded CallRule.standard x ∧ ∃ id slice, x.state.store.get? id = some slice ∧
      slice.lines.map (·.number) = [1, 2] ∧ slice.params = [0] ∧ slice.WellFormed forwarded := by
  obtain ⟨c, given, slice, stored, numbers, params⟩ := forwarding_stored
  obtain ⟨⟨ended, s⟩, ran⟩ : ∃ outcome,
      ({} : SlicerState).run forwarded CallRule.standard forwardingRoots = outcome := ⟨_, rfl⟩
  rw [ran] at stored
  have reachable : Reachable forwarded CallRule.standard ⟨[], s⟩ :=
    .run (.new {}) (fun r given => ⟨_, _, _, _, given⟩) true ran
  exact ⟨_, reachable, c.id, slice, stored, numbers, params,
    stored_slice_wellFormed Settings.normalize_default reachable stored⟩

end MisuseSlice
