import MisuseSlice.Proofs.Slicer.Origins
import MisuseSlice.Proofs.Slicer.Termination

/-! What a run leaves behind. At an empty queue no scan is under way and nobody waits: the youngest active
criterion would have to wait for a younger one. On the way a suspended scan stays active until a task goes
on with it, and going on either suspends it again or stores its slice.

A root stays in the queue until its turn comes, with one exception. A criterion of a call that is merged
with another one leaves the queue, and a root leaves with it if the two have the same name. -/
namespace MisuseSlice

namespace Phase

open Criterion SlicerState

variable {w : Workspace} {A : Criterion → Prop} {p p' : Phase} {id : String}

/-- What taking a task changes. -/
structure Opened (task : Task) (p p' : Phase) : Prop where
  active : p'.state.active = p.state.active
  store : p'.state.store = p.state.store
  ending : p'.ending = none
  busy : ∀ st, p'.busy = some st → task = .resume st
  due : ∀ c, p'.due = some c → ∃ t, task = .start t ∧ p.state.tickets[t]? = some c ∧
    p.state.queued[c.id]? = some t ∧ p'.state.queued = p.state.queued.erase c.id
  queued : p'.due = none → p'.state.queued = p.state.queued

theorem Opens.opened {task : Task} (opens : Opens task p p') : Opened task p p' := by
  cases opens with
  | drop => exact ⟨rfl, rfl, rfl, by simp, by simp, fun _ => rfl⟩
  | take ticket queued => exact ⟨rfl, rfl, rfl, by simp, by rintro c ⟨⟩; exact ⟨_, rfl, ticket, queued, rfl⟩, by simp⟩
  | pick => exact ⟨rfl, rfl, rfl, by rintro st ⟨⟩; rfl, by simp, fun _ => rfl⟩

/-- The criterion is under way, and the turn does not work on its scan. -/
def Away (id : String) (p : Phase) : Prop :=
  id ∈ p.state.active ∧ ∀ st, p.busy = some st → st.criterion.id ≠ id

theorem Move.away (move : Move w p p') (away : p.Away id) : p'.Away id := by
  obtain ⟨active, other⟩ := away
  rcases move with spends | keeps
  · cases spends with
    | suspend suspends =>
      obtain ⟨ledger, tree, descents, rfl⟩ := suspends.state
      exact ⟨active, by simp⟩
    | close => exact ⟨by simpa using ⟨active, (other _ rfl).symm⟩, by simp⟩
  · cases keeps with
    | report reports =>
      obtain ⟨ledger, tree, stats, retainedParams, rfl⟩ := reports
      exact ⟨active, other⟩
    | release | forgive | keepAll => exact ⟨by simpa using active, other⟩
    | start _ _ _ _ inactive _ =>
      refine ⟨List.mem_cons_of_mem _ active, ?_⟩
      rintro st ⟨⟩ same
      exact inactive (same ▸ active)
    | complete completes =>
      obtain ⟨ledger, tree, rfl⟩ := completes.recorded
      refine ⟨active, ?_⟩
      rintro st ⟨⟩
      rw [completes.criterion]
      exact other _ rfl
    | skip | merge | bring | put | enqueue | ready => exact ⟨active, other⟩

/-- Nothing happened to the criterion: it is not under way and has no slice, and it is not its turn. -/
structure Untouched (id : String) (p : Phase) : Prop where
  unstored : p.state.store.contains id = false
  inactive : id ∉ p.state.active
  due : ∀ c, p.due = some c → c.id ≠ id
  ending : ∀ c, p.ending = some c → c.id ≠ id

theorem Move.untouched (move : Move w p p') (plays : p.Plays w) (untouched : p.Untouched id) :
    p'.Untouched id := by
  obtain ⟨unstored, inactive, due, ending⟩ := untouched
  rcases move with spends | keeps
  · cases spends with
    | suspend suspends =>
      obtain ⟨ledger, tree, descents, rfl⟩ := suspends.state
      exact ⟨unstored, inactive, by simp, by simp⟩
    | @close queue s st pending ids _ =>
      have other : st.criterion.id ≠ id := by
        rintro rfl
        exact inactive ((plays.active _).mpr (.inl List.mem_cons_self))
      refine ⟨by simpa using unstored, ?_, by simp [other], by simp [other]⟩
      rw [retract_active]
      exact fun member => inactive (List.mem_filter.mp member).1
  · cases keeps with
    | report reports =>
      obtain ⟨ledger, tree, stats, retainedParams, rfl⟩ := reports
      exact ⟨unstored, inactive, due, ending⟩
    | release | forgive => exact ⟨by simpa using unstored, by simpa using inactive, by simp, ending⟩
    | keepAll => exact ⟨by simpa using unstored, by simpa using inactive, due, ending⟩
    | @start _ c b isDue _ _ _ _ _ =>
      refine ⟨unstored, ?_, by simp, ending⟩
      rw [List.mem_cons, not_or]
      exact ⟨(due c isDue).symm, inactive⟩
    | skip isDue =>
      refine ⟨unstored, inactive, due, ?_⟩
      rintro c ⟨⟩
      exact due _ isDue
    | complete completes =>
      obtain ⟨ledger, tree, rfl⟩ := completes.recorded
      exact ⟨unstored, inactive, due, ending⟩
    | @put _ c slice isEnding _ named =>
      have other : slice.id ≠ id := named ▸ ending c isEnding
      exact ⟨SliceStore.contains_put_eq_false.mpr ⟨other, unstored⟩, inactive, due, by simp⟩
    | merge | bring | enqueue | ready => exact ⟨unstored, inactive, due, ending⟩

/-- A slice that is stored stays. -/
theorem Move.stored (move : Move w p p') (stored : p.state.store.contains id = true) :
    p'.state.store.contains id = true := by
  rcases move with spends | keeps
  · cases spends with
    | suspend suspends =>
      obtain ⟨ledger, tree, descents, rfl⟩ := suspends.state
      exact stored
    | close => simpa using stored
  · cases keeps with
    | report reports =>
      obtain ⟨ledger, tree, stats, retainedParams, rfl⟩ := reports
      exact stored
    | release | forgive | keepAll => simpa using stored
    | complete completes =>
      obtain ⟨ledger, tree, rfl⟩ := completes.recorded
      exact stored
    | put => exact SliceStore.contains_put.mpr (.inr stored)
    | start | skip | merge | bring | enqueue | ready => exact stored

/-- A criterion of the call that tracks what the criterion tracks is in the queue. -/
def Covered (A : Criterion → Prop) (r : Criterion) (p : Phase) : Prop :=
  ∃ m, A m ∧ m.AtCall ∧ m.Covers r ∧ p.state.queued.contains m.id = true

/-- Merging leaves a criterion in the queue that covers the merged ones. -/
theorem Move.covered {r : Criterion} (closed : Closed w A) (distinct : Distinct A) (move : Move w p p')
    (arising : Arising A p) (covered : p.Covered A r) : p'.Covered A r := by
  obtain ⟨m, arises, call, covers, queued⟩ := covered
  have stays : p'.state.queued = p.state.queued → p'.Covered A r :=
    fun same => ⟨m, arises, call, covers, same ▸ queued⟩
  rcases move with spends | keeps
  · cases spends with
    | suspend suspends =>
      obtain ⟨ledger, tree, descents, rfl⟩ := suspends.state
      exact stays rfl
    | close => exact stays (by simp)
  · cases keeps with
    | report reports =>
      obtain ⟨ledger, tree, stats, retainedParams, rfl⟩ := reports
      exact stays rfl
    | release | forgive | keepAll => exact stays (by simp)
    | complete completes =>
      obtain ⟨ledger, tree, rfl⟩ := completes.recorded
      exact stays rfl
    | @merge _ c k old t isEnding called param ticket _ _ =>
      obtain ⟨c', same, kind, key⟩ := arising.params _ t param
      obtain rfl : c' = old := Option.some.inj (same.symm.trans ticket)
      have here : A c' := arising.tickets _ (List.mem_of_getElem? ticket)
      have queues : ∀ name, (p.state.replaceTicket t c' (SlicerState.merged c' k)).queued.contains name = true ↔
          (SlicerState.merged c' k).id = name ∨ c'.id ≠ name ∧ p.state.queued.contains name = true := by
        intro name
        show ((p.state.queued.erase c'.id).insert (SlicerState.merged c' k).id t).contains name = true ↔ _
        simp [Std.TreeMap.contains_insert, Std.TreeMap.contains_erase]
      by_cases leaves : c'.id = m.id
      · -- the merged criterion takes the place of the one that leaves
        have whole := closed.merged c' k here (closed.called c k (arising.ending c isEnding) called) kind
          called.kind key
        refine ⟨_, whole, .inr kind, ?_, (queues _).mpr (.inl rfl)⟩
        exact ((merged_covers c' k).trans (distinct c' m here arises leaves).covers).trans covers
      · exact ⟨m, arises, call, covers, (queues m.id).mpr (.inr ⟨leaves, queued⟩)⟩
    | enqueue =>
      refine ⟨m, arises, call, covers, ?_⟩
      simp only [SlicerState.enqueue, Std.TreeMap.contains_insert, Bool.or_eq_true]
      exact .inr queued
    | start | skip | bring | put | ready => exact stays rfl

/-- What each move keeps is kept by any number of them. -/
theorem Moves.keep {I : Phase → Prop} (kept : ∀ {p p'}, Move w p p' → p.Plays w → I p → I p')
    (moves : Moves w p p') (plays : p.Plays w) (first : I p) : I p' := by
  induction moves with
  | refl => exact first
  | tail before move ih => exact kept move (Moves.plays before plays) ih

end Phase

namespace SlicerState

variable {w : Workspace} {rules : List CallRule} {s : SlicerState}

/-- The slice of a criterion is stored, or its scan waits. -/
def Stopped (s : SlicerState) (id : String) : Prop :=
  s.store.contains id = true ∨ s.suspensions.contains id = true

theorem stopped_of_slice {r : StepResult × SlicerState} {p : PartialSlice} (given : r.1.slice = some p) :
    (absorb r).2.Stopped p.id := by
  have stored := absorb_get? given
  exact .inl (Maps.contains_of_getElem? stored)

/-- Going on with a scan ends with its slice or suspends it again. -/
theorem resume_stopped (s : SlicerState) (rules : List CallRule) (st : Scan)
    (known : w.body? st.criterion.caller = some st.body) (placed : st.body.Placed) :
    (absorb (s.resume w rules st)).2.Stopped st.criterion.id := by
  rcases scan_spec s rules known placed with ⟨more, st', s', ran, completes⟩ | ⟨more, d, s', ran, suspends⟩
  · have stopped := stopped_of_slice (resume_slice ran)
    rwa [finish_id, completes.criterion] at stopped
  · refine .inr ?_
    simp only [resume, ran]
    rw [(absorb_frame _ _).1]
    simp

/-- A criterion that ends without a scan has a slice. -/
theorem close_stopped (s : SlicerState) (w : Workspace) (c : Criterion) (infeasible : Bool) :
    (absorb (s.close w c infeasible)).2.Stopped c.id := by
  have given : (s.close w c infeasible).1.slice = some { emptySlice c with infeasible } :=
    congrArg some settle_slice
  exact stopped_of_slice given

/-- Starting a new criterion ends with its slice or suspends its scan. -/
theorem begin_stopped (s : SlicerState) (rules : List CallRule) (placed : w.Placed) {c : Criterion}
    (unknown : s.store.contains c.id = false) (inactive : c.id ∉ s.active) :
    (absorb (s.begin w rules c)).2.Stopped c.id := by
  have begun := s.begin_begun w rules c
  generalize s.begin w rules c = result at begun ⊢
  cases begun with
  | passed known =>
    rw [unknown] at known
    exact absurd (known.resolve_left Bool.false_ne_true) inactive
  | closed infeasible => exact close_stopped _ w c infeasible
  | @scanned b begins => exact resume_stopped _ rules (.start c b) begins.found (placed _ b begins.found)

end SlicerState

namespace Worklist

open Criterion Phase

variable {w : Workspace} {rules : List CallRule} {A : Criterion → Prop} {l : Leftover} {x : Worklist} {id : String}

/-- What holds between two turns of a run that comes after others. -/
structure SoundAfter (w : Workspace) (A : Criterion → Prop) (l : Leftover) (x : Worklist) : Prop where
  plays : x.phase.Plays w
  settled : Settled A l x.phase
  ready : x.state.ready = []

/-- What holds between two turns of the first run of a slicer. -/
abbrev Sound (w : Workspace) (A : Criterion → Prop) (x : Worklist) : Prop := x.SoundAfter w A .nothing

/-- The slice of the criterion is stored. -/
def Stored (x : Worklist) (id : String) : Prop := x.state.store.contains id = true

/-- The scan of the criterion waits for return criteria. -/
def Suspended (x : Worklist) (id : String) : Prop := x.state.suspensions.contains id = true

/-- The criterion is in the queue. -/
def Queued (x : Worklist) (id : String) : Prop := x.state.queued.contains id = true

/-- The criterion was started: its slice is stored or its scan under way. -/
def Started (x : Worklist) (id : String) : Prop := x.Stored id ∨ id ∈ x.state.active

/-- The next task goes on with the scan of the criterion. -/
def Resumes (x : Worklist) (id : String) : Prop :=
  ∃ st rest, x.queue = .resume st :: rest ∧ st.criterion.id = id

/-- A task goes on with the scan of the criterion. -/
def Scheduled (x : Worklist) (id : String) : Prop := id ∈ Scan.names (x.queue.filterMap Task.scan?)

/-- After a turn no scan is left to be made a task. -/
theorem next_ready (rules : List CallRule) (ready : x.state.ready = []) : (next w rules x).state.ready = [] := by
  unfold next
  split
  · exact ready
  · split
    · rfl
    · exact (SlicerState.absorb_frame _ _).2.2
    · exact (SlicerState.absorb_frame _ _).2.2

theorem next_sound (closed : Closed w A) (placed : w.Placed) (sound : x.SoundAfter w A l) (rules : List CallRule) :
    (next w rules x).SoundAfter w A l := by
  have ready := next_ready (w := w) rules sound.ready
  cases queue : x.queue with
  | nil =>
    rw [next_of_empty queue]
    exact sound
  | cons task rest =>
    have turn := next_turn_of_plays rules placed sound.plays queue
    exact ⟨turn.plays sound.plays, turn.settled closed sound.plays sound.settled, ready⟩

theorem after_sound (rules : List CallRule) (closed : Closed w A) (placed : w.Placed) (sound : x.SoundAfter w A l)
    (n : Nat) :
    (after w rules x n).SoundAfter w A l := by
  induction n with
  | zero => exact sound
  | succ n ih =>
    rw [after_succ]
    exact next_sound closed placed ih rules

/-- The criteria under way are those of the tasks and the suspended ones. -/
theorem SoundAfter.active_iff (sound : x.SoundAfter w A l) : id ∈ x.state.active ↔ x.Scheduled id ∨ x.Suspended id := by
  have active := sound.plays.active id
  have scans : x.phase.scans ++ x.phase.state.ready = x.queue.filterMap Task.scan? := by
    simp [Phase.scans, phase, sound.ready]
  rw [scans] at active
  exact active

/-- A criterion does not wait and have a task at once. -/
theorem SoundAfter.not_scheduled (sound : x.SoundAfter w A l) (suspended : x.Suspended id) : ¬x.Scheduled id := by
  intro scheduled
  obtain ⟨d, found⟩ := Maps.contains_iff.mp suspended
  refine (sound.plays.held id d found).2 ?_
  simpa [Phase.scans, phase, sound.ready, Scheduled] using scheduled

theorem Resumes.scheduled (resumes : x.Resumes id) : x.Scheduled id := by
  obtain ⟨st, rest, queue, rfl⟩ := resumes
  simp [Scheduled, queue, Task.scan?]

/-- At an empty queue nothing is queued and no scan is under way. -/
theorem SoundAfter.quiet (sound : x.SoundAfter w A .nothing) (empty : x.queue = []) :
    x.state.queued.isEmpty = true ∧ x.state.active = [] ∧ x.state.suspensions.isEmpty = true ∧
      x.state.descents.isEmpty = true := by
  have plays := sound.plays
  obtain ⟨_, ticketed, awaits, awaited⟩ := sound.settled
  have idle : ∀ id, ¬x.Scheduled id := by simp [Scheduled, empty, Scan.names]
  have active : x.state.active = [] := by
    by_contra some
    obtain ⟨id, rest, youngest⟩ := List.exists_cons_of_ne_nil some
    have suspended : x.Suspended id :=
      (sound.active_iff.mp (youngest ▸ List.mem_cons_self)).resolve_left (idle id)
    obtain ⟨d, found⟩ := Maps.contains_iff.mp suspended
    obtain ⟨waits, descents⟩ := awaits id d not_false found
    obtain ⟨r, _, waiting⟩ := List.exists_cons_of_ne_nil waits
    have alone : id ∉ rest := (List.nodup_cons.mp (youngest ▸ plays.alive)).1
    rcases (awaited r id (descents r (waiting ▸ List.mem_cons_self))).2.2 not_false with
      queued | ⟨_, ⟨⟩, _⟩ | ⟨_, ⟨⟩, _⟩ | younger
    · obtain ⟨t, here⟩ := Maps.contains_iff.mp queued
      have task := (ticketed r t here).1
      simp [phase, empty, Leftover.nothing] at task
    · -- the youngest one would wait for a younger one
      have below : List.Sublist [r, id] (id :: rest) := youngest ▸ younger
      cases below with
      | cons _ inside => exact alone (inside.subset (by simp))
      | cons_cons _ inside => exact alone (inside.subset (by simp))
  have unsuspended : ∀ id, x.state.suspensions.contains id = false := by
    intro id
    by_contra present
    have here : id ∈ x.state.active := sound.active_iff.mpr (.inr (by simpa [Suspended] using present))
    rw [active] at here
    cases here
  refine ⟨?_, active, ?_, ?_⟩
  · refine Std.TreeMap.isEmpty_iff_forall_contains.mpr fun id => ?_
    by_contra present
    obtain ⟨t, here⟩ := Maps.contains_iff.mp (Bool.not_eq_false _ ▸ present)
    have task := (ticketed id t here).1
    simp [phase, empty, Leftover.nothing] at task
  · exact Std.TreeMap.isEmpty_iff_forall_contains.mpr unsuspended
  · refine Std.TreeMap.isEmpty_iff_forall_contains.mpr fun r => ?_
    by_contra present
    obtain ⟨id, here⟩ := Maps.contains_iff.mp (Bool.not_eq_false _ ▸ present)
    obtain ⟨_, ⟨d, found, _⟩, _⟩ := awaited r id here
    exact absurd (Maps.contains_of_getElem? found) (Bool.not_eq_true _ ▸ unsuspended id)

/-- A turn takes the first task and adds others behind the rest. -/
theorem next_queue {task : Task} {rest : List Task} (queue : x.queue = task :: rest) :
    ∃ more, (next w rules x).queue = rest ++ more := by
  simp only [next, queue]
  split <;> exact ⟨_, rfl⟩

/-- A criterion under way stays so unless the task goes on with its scan. -/
theorem SoundAfter.active_next (sound : x.SoundAfter w A l) (placed : w.Placed) (active : id ∈ x.state.active)
    (other : ¬x.Resumes id) : id ∈ (next w rules x).state.active := by
  cases queue : x.queue with
  | nil =>
    rw [next_of_empty queue]
    exact active
  | cons task rest =>
    obtain ⟨p, opens, moves, _⟩ := next_turn_of_plays rules placed sound.plays queue
    have away : p.Away id := by
      refine ⟨opens.opened.active ▸ active, ?_⟩
      intro st busy named
      exact other ⟨st, rest, opens.opened.busy st busy ▸ queue, named⟩
    exact (Moves.keep (fun move _ => move.away) moves (opens.plays sound.plays) away).1

/-- A slice that is stored stays. -/
theorem SoundAfter.stored_next (sound : x.SoundAfter w A l) (placed : w.Placed) (stored : x.Stored id) :
    (next w rules x).Stored id := by
  cases queue : x.queue with
  | nil =>
    rw [next_of_empty queue]
    exact stored
  | cons task rest =>
    obtain ⟨p, opens, moves, _⟩ := next_turn_of_plays rules placed sound.plays queue
    have here : p.state.store.contains id = true := opens.opened.store ▸ stored
    exact Moves.keep (fun move _ => move.stored) moves (opens.plays sound.plays) here

/-- Going on with a scan ends with its slice or suspends it again. -/
theorem SoundAfter.resumes_next (sound : x.SoundAfter w A l) (placed : w.Placed) (resumes : x.Resumes id) :
    (next w rules x).Stored id ∨ (next w rules x).Suspended id := by
  obtain ⟨st, rest, queue, rfl⟩ := resumes
  have known : w.body? st.criterion.caller = some st.body := by
    refine sound.plays.known st (List.mem_append_left _ ?_)
    simp [phase, Phase.scans, queue, Task.scan?]
  have stopped := SlicerState.resume_stopped x.state rules st known (placed _ _ known)
  have turn : next w rules x = append rest (SlicerState.absorb (x.state.resume w rules st)) := by
    simp only [next, queue, SlicerState.turn]
  rw [turn]
  exact stopped

/-- A criterion that has its slice or waits was started. -/
theorem SoundAfter.started (sound : x.SoundAfter w A l) (stopped : x.Stored id ∨ x.Suspended id) : x.Started id :=
  stopped.imp_right fun suspended => sound.active_iff.mpr (.inr suspended)

/-- A criterion that was started stays so. -/
theorem SoundAfter.started_next (sound : x.SoundAfter w A l) (closed : Closed w A) (placed : w.Placed)
    (started : x.Started id) : (next w rules x).Started id := by
  rcases started with stored | active
  · exact .inl (sound.stored_next placed stored)
  · by_cases resumes : x.Resumes id
    · exact (next_sound closed placed sound rules).started (sound.resumes_next placed resumes)
    · exact .inr (sound.active_next placed active resumes)

/-- The turn takes the ticket of the criterion. -/
def Takes (x : Worklist) (id : String) : Prop :=
  ∃ t rest c, x.queue = .start t :: rest ∧ x.state.tickets[t]? = some c ∧ x.state.queued[c.id]? = some t ∧ c.id = id

/-- Only the turn that takes its ticket starts a criterion. -/
theorem SoundAfter.unstarted_next (sound : x.SoundAfter w A l) (placed : w.Placed) (unstarted : ¬x.Started id)
    (other : ¬x.Takes id) : ¬(next w rules x).Started id := by
  obtain ⟨unstored, inactive⟩ := not_or.mp unstarted
  cases queue : x.queue with
  | nil =>
    rw [next_of_empty queue]
    exact unstarted
  | cons task rest =>
    obtain ⟨p, opens, moves, _⟩ := next_turn_of_plays rules placed sound.plays queue
    have opened := opens.opened
    have untouched : p.Untouched id := by
      refine ⟨?_, opened.active ▸ inactive, ?_, by simp [opened.ending]⟩
      · rw [opened.store]
        exact Bool.not_eq_true _ ▸ unstored
      · rintro c due named
        obtain ⟨t, rfl, ticket, queued, _⟩ := opened.due c due
        exact other ⟨t, rest, c, queue, ticket, queued, named⟩
    have after := Moves.keep (fun move plays => move.untouched plays) moves (opens.plays sound.plays) untouched
    rintro (stored | active)
    · exact absurd stored (Bool.not_eq_true _ ▸ after.unstored)
    · exact after.inactive active

theorem Takes.queued (takes : x.Takes id) : x.Queued id := by
  obtain ⟨t, rest, c, _, _, queued, rfl⟩ := takes
  exact Maps.contains_of_getElem? queued

/-- A queued criterion that was not dropped is sliced in its turn, or its scan suspended. -/
theorem Takes.stopped_next (placed : w.Placed) (takes : x.Takes id)
    (kept : id ∉ x.state.retracted) (unstarted : ¬x.Started id) :
    (next w rules x).Stored id ∨ (next w rules x).Suspended id := by
  obtain ⟨unstored, inactive⟩ := not_or.mp unstarted
  obtain ⟨t, rest, c, queue, ticket, queued, rfl⟩ := takes
  have turn : next w rules x = append rest
      (SlicerState.absorb ({ x.state with queued := x.state.queued.erase c.id }.begin w rules c)) := by
    simp only [next, queue, SlicerState.turn, ticket, queued, bne_self_eq_false, Bool.false_eq_true, ↓reduceIte,
      List.contains_eq_mem, kept, decide_false]
  rw [turn]
  exact SlicerState.begin_stopped { x.state with queued := x.state.queued.erase c.id } rules placed
    (by simpa [Stored] using unstored) inactive

/-- A dropped criterion is not started in its turn. -/
theorem Takes.inactive_next (takes : x.Takes id) (dropped : id ∈ x.state.retracted)
    (inactive : id ∉ x.state.active) : id ∉ (next w rules x).state.active := by
  obtain ⟨t, rest, c, queue, ticket, queued, rfl⟩ := takes
  simp only [next, queue, SlicerState.turn, ticket, queued, bne_self_eq_false, Bool.false_eq_true, ↓reduceIte,
    List.contains_eq_mem, dropped, decide_true, append, SlicerState.takeReady, SlicerState.release_active]
  exact inactive

/-- A queued criterion of a call is started in its turn, and before that a criterion that covers it is
queued. -/
theorem SoundAfter.queued_next (sound : x.SoundAfter w A l) (closed : Closed w A) (distinct : Distinct A)
    (placed : w.Placed) {r : Criterion} (arises : A r) (call : r.AtCall) (queued : x.Queued r.id) :
    (next w rules x).Started r.id ∨ (next w rules x).phase.Covered A r := by
  by_cases known : x.Started r.id
  · exact .inl (sound.started_next closed placed known)
  cases queue : x.queue with
  | nil =>
    rw [next_of_empty queue]
    exact .inr ⟨r, arises, call, .refl r, queued⟩
  | cons task rest =>
    have turn := next_turn_of_plays rules placed sound.plays queue
    obtain ⟨p, opens, moves, _⟩ := turn
    have origin := opens.arising sound.settled.arising
    have covered : p.Covered A r → (next w rules x).phase.Covered A r := by
      intro covered
      have both := Moves.keep (I := fun p => Arising A p ∧ p.Covered A r)
        (fun move plays here => ⟨Moves.arising closed (.single move) here.1,
          move.covered closed distinct here.1 here.2⟩) moves (opens.plays sound.plays) ⟨origin, covered⟩
      exact both.2
    have opened := opens.opened
    cases due : p.due with
    | none =>
      refine .inr (covered ⟨r, arises, call, .refl r, ?_⟩)
      rw [opened.queued due]
      exact queued
    | some c =>
      obtain ⟨t, rfl, ticket, taken, queued'⟩ := opened.due c due
      by_cases same : c.id = r.id
      · -- a criterion of a call is never dropped, so its turn starts it
        have kept : c.id ∉ x.state.retracted := by
          intro dropped
          exact (sound.settled.arising.retracted c.id dropped).ne closed arises call same.symm
        have takes : x.Takes r.id := ⟨t, rest, c, queue, ticket, taken, same⟩
        exact .inl ((next_sound closed placed sound rules).started
          (takes.stopped_next placed (same ▸ kept) known))
      · refine .inr (covered ⟨r, arises, call, .refl r, ?_⟩)
        rw [queued', Std.TreeMap.contains_erase, Bool.and_eq_true]
        exact ⟨by simpa using same, queued⟩

/-- A scan with a task keeps it until the task comes. -/
theorem Scheduled.next (scheduled : x.Scheduled id) (other : ¬x.Resumes id) :
    (next w rules x).Scheduled id := by
  unfold Scheduled at scheduled ⊢
  cases queue : x.queue with
  | nil => simp [queue, Scan.names] at scheduled
  | cons task rest =>
    obtain ⟨more, queue'⟩ : ∃ more, (Worklist.next w rules x).queue = rest ++ more := next_queue queue
    rw [queue] at scheduled
    rw [queue', List.filterMap_append, Playing.names_append]
    refine List.mem_append_left _ ?_
    cases task with
    | start t => exact scheduled
    | resume st =>
      rcases List.mem_cons.mp scheduled with rfl | later
      · exact absurd ⟨st, rest, queue, rfl⟩ other
      · exact later

/-- A scan gets a task only after it was suspended. -/
theorem SoundAfter.scheduled_before (sound : x.SoundAfter w A l) (closed : Closed w A) (placed : w.Placed)
    (scheduled : (next w rules x).Scheduled id) : x.Scheduled id ∧ ¬x.Resumes id ∨ x.Suspended id := by
  have later := next_sound closed placed sound rules
  have waits : ¬(next w rules x).Suspended id := fun suspended => later.not_scheduled suspended scheduled
  have active : id ∈ (next w rules x).state.active := later.active_iff.mpr (.inl scheduled)
  have unstored : ¬(next w rules x).Stored id := Bool.not_eq_true _ ▸ later.plays.unsliced id active
  by_cases known : id ∈ x.state.active
  · rcases sound.active_iff.mp known with task | suspended
    · refine .inl ⟨task, fun resumes => ?_⟩
      have stopped : (next w rules x).Stored id ∨ (next w rules x).Suspended id :=
        sound.resumes_next placed resumes
      exact stopped.elim unstored waits
    · exact .inr suspended
  · have fresh : ¬x.Started id := by
      rintro (stored | here)
      · exact unstored (sound.stored_next placed stored)
      · exact known here
    have takes : x.Takes id := by
      by_contra other
      exact sound.unstarted_next placed fresh other (.inr active)
    by_cases dropped : id ∈ x.state.retracted
    · exact absurd active (takes.inactive_next dropped known)
    · have stopped : (next w rules x).Stored id ∨ (next w rules x).Suspended id :=
        takes.stopped_next placed dropped fresh
      exact (stopped.elim unstored waits).elim

/-- What turns keep holds at all later times. -/
theorem Sound.persists (sound : x.Sound w A) (closed : Closed w A) (placed : w.Placed) {P : Worklist → Prop}
    (kept : ∀ y : Worklist, y.Sound w A → P y → P (next w rules y)) {i j : Nat} (le : i ≤ j)
    (first : P (after w rules x i)) : P (after w rules x j) := by
  obtain ⟨m, rfl⟩ := Nat.exists_eq_add_of_le' le
  induction m with
  | zero => rwa [Nat.zero_add]
  | succ m ih =>
    rw [Nat.succ_add, after_succ]
    exact kept _ (after_sound rules closed placed sound _) (ih (Nat.le_add_left _ _))

/-- In its `i`-th turn a run suspends the scan of the criterion. -/
def SuspendsAt (w : Workspace) (rules : List CallRule) (x : Worklist) (id : String) (i : Nat) : Prop :=
  ¬(after w rules x i).Suspended id ∧ (after w rules x (i + 1)).Suspended id

/-- In its `i`-th turn a run goes on with the scan of the criterion. -/
def ResumesAt (w : Workspace) (rules : List CallRule) (x : Worklist) (id : String) (i : Nat) : Prop :=
  (after w rules x i).Resumes id

section

variable {n : Nat} (sound : x.Sound w A) (closed : Closed w A) (placed : w.Placed)
include sound closed placed

/-- After its end a run stays as it is, so what was started is stored. -/
theorem stored_of_started {i : Nat} (empty : (after w rules x n).queue = [])
    (started : (after w rules x i).Started id) : (after w rules x n).Stored id := by
  have still : (after w rules x (max i n)).Started id :=
    sound.persists closed placed (fun _ sound' => sound'.started_next closed placed) (Nat.le_max_left i n)
      started
  rw [after_of_le empty (Nat.le_max_right i n)] at still
  refine still.resolve_right ?_
  rw [((after_sound rules closed placed sound n).quiet empty).2.1]
  exact List.not_mem_nil

/-- A task goes on with every suspended scan, and until then the scan is suspended just once. -/
theorem exists_resumes {i : Nat} (empty : (after w rules x n).queue = [])
    (suspended : (after w rules x i).Suspended id) :
    ∃ k, i ≤ k ∧ ResumesAt w rules x id k ∧ ∀ j, i ≤ j → j < k → ¬SuspendsAt w rules x id j := by
  classical
  have active : id ∈ (after w rules x i).state.active :=
    (after_sound rules closed placed sound i).active_iff.mpr (.inr suspended)
  -- as long as no task goes on with it, the criterion stays active
  have stays : ∀ k, i ≤ k → (∀ j, i ≤ j → j < k → ¬ResumesAt w rules x id j) →
      id ∈ (after w rules x k).state.active := by
    intro k later
    obtain ⟨m, rfl⟩ := Nat.exists_eq_add_of_le later
    induction m with
    | zero => exact fun _ => active
    | succ m ih =>
      intro other
      rw [← Nat.add_assoc, after_succ]
      exact (after_sound rules closed placed sound (i + m)).active_next placed
        (ih (Nat.le_add_right i m) fun j le lt => other j le (by omega)) (other (i + m) (by omega) (by omega))
  have eventually : ∃ k, i ≤ k ∧ ResumesAt w rules x id k := by
    by_contra never
    have there := stays (max i n) (Nat.le_max_left i n) fun j le _ here => never ⟨j, le, here⟩
    rw [after_of_le empty (Nat.le_max_right i n), ((after_sound rules closed placed sound n).quiet empty).2.1] at there
    cases there
  obtain ⟨later, resumes⟩ := Nat.find_spec eventually
  have earlier : ∀ j, i ≤ j → j < Nat.find eventually → ¬ResumesAt w rules x id j :=
    fun j le lt here => Nat.find_min eventually lt ⟨le, here⟩
  refine ⟨Nat.find eventually, later, resumes, ?_⟩
  rintro j le lt ⟨unsuspended, again⟩
  have here := stays j le fun j' le' lt' => earlier j' le' (by omega)
  have scheduled := ((after_sound rules closed placed sound j).active_iff.mp here).resolve_right unsuspended
  rw [after_succ] at again
  exact (next_sound closed placed (after_sound rules closed placed sound j) rules).not_scheduled again
    (scheduled.next (earlier j le lt))

/-- Two tasks go on with a scan only if it is suspended again between them. -/
theorem resumes_unique {i k k' : Nat} (first : ResumesAt w rules x id k) (second : ResumesAt w rules x id k')
    (before : i ≤ k) (lt : k < k') (once : ∀ j, i ≤ j → j < k' → ¬SuspendsAt w rules x id j) : False := by
  have here := after_sound rules closed placed sound k
  have there := after_sound rules closed placed sound k'
  have stopped : (after w rules x (k + 1)).Stored id ∨ (after w rules x (k + 1)).Suspended id := by
    rw [after_succ]
    exact here.resumes_next placed first
  rcases stopped with stored | suspended
  · have still : (after w rules x k').Stored id :=
      sound.persists closed placed (fun _ sound' => sound'.stored_next placed) lt stored
    have active : id ∈ (after w rules x k').state.active := there.active_iff.mpr (.inl second.scheduled)
    have never := there.plays.unsliced id active
    exact absurd still (Bool.not_eq_true _ ▸ never)
  · exact once k before lt ⟨fun waits => here.not_scheduled waits first.scheduled, suspended⟩

/-- Every suspension is followed by exactly one task that goes on with the scan, before the scan is
suspended again. -/
theorem resumed_once {i : Nat} (empty : (after w rules x n).queue = [])
    (suspends : SuspendsAt w rules x id i) :
    ∃! k, i < k ∧ ResumesAt w rules x id k ∧ ∀ j, i < j → j < k → ¬SuspendsAt w rules x id j := by
  obtain ⟨k, later, resumes, once⟩ := exists_resumes sound closed placed empty suspends.2
  refine ⟨k, ⟨later, resumes, fun j => once j⟩, ?_⟩
  rintro k' ⟨later', resumes', once'⟩
  rcases Nat.lt_trichotomy k k' with lt | rfl | lt
  · exact (resumes_unique sound closed placed resumes resumes' later lt fun j => once' j).elim
  · rfl
  · exact (resumes_unique sound closed placed resumes' resumes later' lt fun j => once j).elim

/-- A task goes on with a scan only after the scan was suspended, and only once. -/
theorem exists_suspends (unscheduled : ¬x.Scheduled id) (unsuspended : ¬x.Suspended id) {k : Nat}
    (away : (after w rules x k).Scheduled id ∨ (after w rules x k).Suspended id) :
    ∃ i, i < k ∧ SuspendsAt w rules x id i ∧ ∀ j, i < j → j < k → ¬ResumesAt w rules x id j := by
  induction k with
  | zero => exact (away.elim unscheduled unsuspended).elim
  | succ k ih =>
    have here := after_sound rules closed placed sound k
    have extend : (after w rules x k).Scheduled id ∨ (after w rules x k).Suspended id →
        ¬ResumesAt w rules x id k →
        ∃ i, i < k + 1 ∧ SuspendsAt w rules x id i ∧ ∀ j, i < j → j < k + 1 → ¬ResumesAt w rules x id j := by
      intro before other
      obtain ⟨i, lt, suspends, once⟩ := ih before
      refine ⟨i, by omega, suspends, fun j later le => ?_⟩
      rcases Nat.lt_succ_iff_lt_or_eq.mp le with lt' | rfl
      · exact once j later lt'
      · exact other
    by_cases waits : (after w rules x k).Suspended id
    · exact extend (.inr waits) fun resumes => here.not_scheduled waits resumes.scheduled
    · rcases away with scheduled | suspended
      · rw [after_succ] at scheduled
        obtain ⟨before, other⟩ := (here.scheduled_before closed placed scheduled).resolve_right waits
        exact extend (.inl before) other
      · exact ⟨k, Nat.lt_succ_self k, ⟨waits, suspended⟩, fun j later le => by omega⟩

end

end Worklist

end MisuseSlice
