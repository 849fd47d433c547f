import Mathlib.Logic.Function.Iterate
import MisuseSlice.Slicer.Run

/-! Runs as sequences of turns. A run that is neither cancelled nor limited takes one task after the other;
the state between two tasks is a queue with the state of the slicer. What a run gives is what stands at
the first empty queue. -/
namespace MisuseSlice

/-- A run between two tasks. -/
structure Worklist where
  queue : List Task
  state : SlicerState

/-- The scan that a task goes on with. -/
def Task.scan? : Task → Option Scan
  | .start _ => none
  | .resume st => some st

/-- Tasks that go on with scans hold these scans. -/
theorem Task.filterMap_resume (scans : List Scan) : (scans.map Task.resume).filterMap Task.scan? = scans := by
  rw [List.filterMap_map]
  exact List.filterMap_some

namespace SlicerState

variable {w : Workspace} {rules : List CallRule} {s : SlicerState}

/-- Queueing criteria concerns the queue only. -/
theorem enqueueAll_frame (s : SlicerState) (cs : List Criterion) :
    ∃ tickets queued retracted pendingParams,
      (s.enqueueAll cs).2 = { s with tickets, queued, retracted, pendingParams } := by
  have fold : ∀ (tasks : List Task) (s : SlicerState), ∃ tickets queued retracted pendingParams,
      (cs.foldl enqueueOne (tasks, s)).2 = { s with tickets, queued, retracted, pendingParams } := by
    induction cs with
    | nil => exact fun _ s => ⟨s.tickets, s.queued, s.retracted, s.pendingParams, rfl⟩
    | cons c cs ih =>
      intro tasks s
      obtain ⟨tickets, queued, retracted, pendingParams, same⟩ := ih (tasks ++ [(s.enqueue c).1]) (s.enqueue c).2
      exact ⟨tickets, queued, retracted, pendingParams, same⟩
  exact fold [] s

/-- The slice that a step gives is in the store afterwards. -/
theorem absorb_get? {r : StepResult × SlicerState} {p : PartialSlice} (given : r.1.slice = some p) :
    (absorb r).2.store.get? p.id = some p := by
  obtain ⟨res, s⟩ := r
  dsimp only at given
  simp [absorb, takeReady, given, SliceStore.get?_put]

/-- Taking over the result of a step leaves the scans under way as they are, and none ready. -/
theorem absorb_frame (res : StepResult) (s : SlicerState) :
    (absorb (res, s)).2.suspensions = s.suspensions ∧ (absorb (res, s)).2.active = s.active ∧
      (absorb (res, s)).2.ready = [] := by
  obtain ⟨tickets, queued, retracted, pendingParams, same⟩ := enqueueAll_frame
    { s with stats := { s.stats with spawned := s.stats.spawned + res.children.length } } res.children
  simp only [absorb, takeReady, same, and_true]
  cases res.slice <;> exact ⟨rfl, rfl⟩

/-- A scan that goes on to the top of its body gives a slice. -/
theorem resume_slice {st last : Scan} {children : List Criterion} {s' : SlicerState}
    (ran : s.scan w rules st = (children, .complete last, s')) :
    (s.resume w rules st).1.slice = some (s'.finish w last).1 := by
  simp only [resume, ran]

end SlicerState

namespace Worklist

/-- Adds tasks to the end of what is left of a queue. -/
def append (queue : List Task) (x : List Task × SlicerState) : Worklist := ⟨queue ++ x.1, x.2⟩

/-- One turn of a run. -/
def next (w : Workspace) (rules : List CallRule) (x : Worklist) : Worklist :=
  match x.queue with
  | [] => x
  | task :: queue =>
    match x.state.turn task with
    | .over s => append queue s.takeReady
    | .criterion c s => append queue (SlicerState.absorb (s.begin w rules c))
    | .scan st => append queue (SlicerState.absorb (x.state.resume w rules st))

/-- A run after a number of turns. -/
def after (w : Workspace) (rules : List CallRule) (x : Worklist) (n : Nat) : Worklist :=
  (next w rules)^[n] x

/-- A run of a new slicer before its first turn. -/
def ofRoots (ledger : Ledger) (roots : List Criterion) : Worklist :=
  append [] (({ ledger } : SlicerState).addRoots roots)

variable {w : Workspace} {rules : List CallRule}

theorem after_succ (x : Worklist) (n : Nat) :
    after w rules x (n + 1) = next w rules (after w rules x n) :=
  Function.iterate_succ_apply' _ _ _

theorem after_succ' (x : Worklist) (n : Nat) :
    after w rules x (n + 1) = after w rules (next w rules x) n :=
  Function.iterate_succ_apply _ _ _

theorem next_of_empty {x : Worklist} (empty : x.queue = []) : next w rules x = x := by
  simp only [next, empty]

theorem after_of_empty {x : Worklist} (empty : x.queue = []) (n : Nat) : after w rules x n = x := by
  induction n with
  | zero => rfl
  | succ n ih => rw [after_succ, ih, next_of_empty empty]

/-- An empty queue stays empty. -/
theorem after_of_le {x : Worklist} {n k : Nat} (empty : (after w rules x n).queue = []) (later : n ≤ k) :
    after w rules x k = after w rules x n := by
  obtain ⟨m, rfl⟩ := Nat.exists_eq_add_of_le' later
  induction m with
  | zero => rw [Nat.zero_add]
  | succ m ih =>
    rw [Nat.succ_add, after_succ, ih (Nat.le_add_left _ _), next_of_empty empty]

/-- What a run with some fuel returns, one turn after the other. -/
inductive Returns (w : Workspace) (rules : List CallRule) :
    Nat → Worklist → SlicerState.RunEnd → SlicerState → Prop where
  | complete {fuel : Nat} {x : Worklist} (message : String) (empty : x.queue = []) :
      Returns w rules fuel x .complete (x.state.note .debug message)
  | exhausted {x : Worklist} (left : x.queue ≠ []) : Returns w rules 0 x .limited x.state
  | cancelled {fuel : Nat} {x : Worklist} (stopped : w.live = false) : Returns w rules fuel x .cancelled x.state
  /-- The criterion at which the limit is reached has left the queue. -/
  | limited {fuel : Nat} {x : Worklist} {task : Task} {queue : List Task} {c : Criterion} {s : SlicerState}
      (message : String) (limit : 0 < w.settings.maxCriteria) (first : x.queue = task :: queue)
      (turn : x.state.turn task = .criterion c s) : Returns w rules fuel x .limited (s.note .warn message)
  | turn {fuel : Nat} {x : Worklist} {ended : SlicerState.RunEnd} {s : SlicerState} (left : x.queue ≠ [])
      (later : Returns w rules fuel (next w rules x) ended s) : Returns w rules (fuel + 1) x ended s

/-- A run returns between two turns. -/
theorem returns_runFrom {ended : SlicerState.RunEnd} {s : SlicerState} : ∀ {fuel done : Nat} {x : Worklist},
    SlicerState.runFrom w rules fuel done x.queue x.state = (ended, s) → Returns w rules fuel x ended s := by
  intro fuel
  induction fuel with
  | zero =>
    intro done x ran
    cases queue : x.queue with
    | nil =>
      simp only [queue, SlicerState.runFrom, Prod.mk.injEq] at ran
      obtain ⟨rfl, rfl⟩ := ran
      exact .complete _ queue
    | cons task rest =>
      simp only [queue, SlicerState.runFrom, Prod.mk.injEq] at ran
      obtain ⟨rfl, rfl⟩ := ran
      exact .exhausted (by simp [queue])
  | succ fuel ih =>
    intro done x ran
    cases queue : x.queue with
    | nil =>
      simp only [queue, SlicerState.runFrom, Prod.mk.injEq] at ran
      obtain ⟨rfl, rfl⟩ := ran
      exact .complete _ queue
    | cons task rest =>
      have left : x.queue ≠ [] := by simp [queue]
      have onward : ∀ {done : Nat} {y : Worklist}, next w rules x = y →
          SlicerState.runFrom w rules fuel done y.queue y.state = (ended, s) →
          Returns w rules (fuel + 1) x ended s := by
        rintro done _ rfl ran
        exact .turn left (ih ran)
      simp only [queue, SlicerState.runFrom] at ran
      split at ran
      · rename_i stopped
        simp only [Prod.mk.injEq] at ran
        obtain ⟨rfl, rfl⟩ := ran
        exact .cancelled (by simpa using stopped)
      · split at ran
        · rename_i turn
          exact onward (by simp only [next, queue, turn]; rfl) ran
        · rename_i turn
          split at ran
          · rename_i limit
            simp only [Prod.mk.injEq] at ran
            obtain ⟨rfl, rfl⟩ := ran
            simp only [Bool.and_eq_true, decide_eq_true_eq] at limit
            exact .limited _ limit.1 queue turn
          · exact onward (by simp only [next, queue, turn]; rfl) ran
        · rename_i turn
          exact onward (by simp only [next, queue, turn]; rfl) ran

theorem returns_run {ended : SlicerState.RunEnd} {s s' : SlicerState} {roots : List Criterion}
    (ran : s.run w rules roots = (ended, s')) :
    Returns w rules (SlicerState.taskBound w roots.length) (append [] (s.addRoots roots)) ended s' :=
  returns_runFrom (x := append [] (s.addRoots roots)) ran

/-- A run that is neither cancelled nor limited returns what stands at an empty queue that its fuel reaches. -/
theorem Returns.of_empty {fuel n : Nat} {x : Worklist} {ended : SlicerState.RunEnd} {s : SlicerState}
    (returns : Returns w rules fuel x ended s) (live : w.live = true) (unlimited : w.settings.maxCriteria ≤ 0)
    (enough : n ≤ fuel) (empty : (after w rules x n).queue = []) :
    ended = .complete ∧ ∃ message, s = (after w rules x n).state.note .debug message := by
  induction returns generalizing n with
  | complete message here =>
    rw [after_of_empty here]
    exact ⟨rfl, message, rfl⟩
  | exhausted left =>
    obtain rfl : n = 0 := by omega
    exact absurd empty left
  | cancelled stopped => rw [live] at stopped; cases stopped
  | limited message limit => omega
  | turn left later ih =>
    cases n with
    | zero => exact absurd empty left
    | succ n =>
      rw [after_succ'] at empty ⊢
      exact ih (by omega) empty

/-- What a run gives is what stands at an empty queue that its fuel reaches. -/
theorem runFrom_of_empty (live : w.live = true) (unlimited : w.settings.maxCriteria ≤ 0) {fuel done n : Nat}
    {x : Worklist} (enough : n ≤ fuel) (empty : (after w rules x n).queue = []) :
    ∃ message, SlicerState.runFrom w rules fuel done x.queue x.state =
      (.complete, (after w rules x n).state.note .debug message) := by
  obtain ⟨ended, message, same⟩ := (returns_runFrom rfl).of_empty live unlimited enough empty
  exact ⟨message, Prod.ext ended same⟩

/-- A run of a new slicer is what its turns give, once they come to an empty queue within the bound on
tasks. -/
theorem run_of_empty (live : w.live = true) (unlimited : w.settings.maxCriteria ≤ 0) {ledger : Ledger}
    {roots : List Criterion} {n : Nat} (enough : n ≤ SlicerState.taskBound w roots.length)
    (empty : (after w rules (ofRoots ledger roots) n).queue = []) :
    ∃ message, ({ ledger } : SlicerState).run w rules roots =
      (.complete, (after w rules (ofRoots ledger roots) n).state.note .debug message) :=
  runFrom_of_empty live unlimited enough empty

end Worklist

end MisuseSlice
