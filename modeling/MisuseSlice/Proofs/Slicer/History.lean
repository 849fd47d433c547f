import MisuseSlice.Proofs.Slicer.Interruption
import MisuseSlice.Slicer.Merge

/-! The histories of a slicer. It runs any roots, again and again. A run takes one task after the other; it may find
the analysis cancelled or the limit on criteria reached and return early, which loses its queue. Between two turns the
combined slices of a root may be asked for, and the ledger may be looked at and written to. Whatever happened before, a
run that has no limit comes to an empty queue. -/
namespace MisuseSlice

open Criterion Phase

namespace Worklist

/-- A new slicer that has nothing to do. -/
def fresh (ledger : Ledger) : Worklist := ⟨[], { ledger }⟩

/-- The criterion that the next turn starts to slice. -/
def begins (x : Worklist) : List String :=
  match x.queue with
  | [] => []
  | task :: _ =>
    match x.state.turn task with
    | .criterion c s => if s.store.contains c.id || s.isActive c.id then [] else [c.id]
    | _ => []

/-- The slice that the next turn gives. -/
def gives (w : Workspace) (rules : List CallRule) (x : Worklist) : List PartialSlice :=
  match x.queue with
  | [] => []
  | task :: _ =>
    match x.state.turn task with
    | .over _ => []
    | .criterion c s => (s.begin w rules c).1.slice.toList
    | .scan st => (x.state.resume w rules st).1.slice.toList

/-- What can happen to a slicer, with the criteria that it starts to slice and the slices that it stores. -/
inductive Event (w : Workspace) (rules : List CallRule) :
    Worklist → List String → List PartialSlice → Worklist → Prop where
  | turn (x : Worklist) (live : Bool) (limit : Int) :
      Event w rules x x.begins (x.gives (w.under live limit) rules) (next (w.under live limit) rules x)
  /-- The run under way has returned, and another one starts. -/
  | run {x : Worklist} {s : SlicerState} (stops : x.Stops s) (roots : List Criterion) :
      Event w rules x [] [] (append [] (s.addRoots roots))
  | merge (x : Worklist) (live : Bool) (limit : Int) (root : String) :
      Event w rules x [] [] ⟨x.queue, (x.state.merge (w.under live limit) root).2⟩
  /-- Criteria are created, bodies opened, messages added. -/
  | write (x : Worklist) (ledger : Ledger) : Event w rules x [] [] ⟨x.queue, { x.state with ledger }⟩

/-- What happened to a slicer from one moment to another one. -/
inductive History (w : Workspace) (rules : List CallRule) (x : Worklist) :
    List String → List PartialSlice → Worklist → Prop where
  | start : History w rules x [] [] x
  | event {begun begun' : List String} {given given' : List PartialSlice} {y z : Worklist}
      (before : History w rules x begun given y) (event : Event w rules y begun' given' z) :
      History w rules x (begun ++ begun') (given ++ given') z

variable {w : Workspace} {rules : List CallRule} {x y z : Worklist} {lost : List Scan} {s s' : SlicerState}
  {begun begun' : List String} {given given' : List PartialSlice} {live : Bool} {limit : Int}

theorem Event.history (event : Event w rules x begun given y) : History w rules x begun given y :=
  .event .start event

theorem History.trans (first : History w rules x begun given y) (second : History w rules y begun' given' z) :
    History w rules x (begun ++ begun') (given ++ given') z := by
  induction second with
  | start => simpa using first
  | event _ event ih => simpa only [List.append_assoc] using ih.event event

/-- A run goes on from a worklist to one between whose turns it returns. -/
theorem Returns.history {fuel : Nat} {ended : SlicerState.RunEnd}
    (returns : Returns (w.under live limit) rules fuel x ended s) :
    ∃ begun given y, History w rules x begun given y ∧ y.Stops s := by
  induction returns with
  | @complete _ x message =>
    exact ⟨[], [], ⟨x.queue, x.state.note .debug message⟩, (Event.write x _).history, .cancelled⟩
  | @exhausted x => exact ⟨[], [], x, .start, .cancelled⟩
  | @cancelled _ x => exact ⟨[], [], x, .start, .cancelled⟩
  | @limited _ x _ _ _ _ message _ first turn => exact ⟨[], [], x, .start, .limited message first turn⟩
  | @turn _ x _ _ _ _ ih =>
    obtain ⟨begun, given, y, later, stops⟩ := ih
    exact ⟨_, _, y, (Event.turn x live limit).history.trans later, stops⟩

/-- Whatever a run returns, there is a history that it stops. -/
theorem run_history {ended : SlicerState.RunEnd} {roots : List Criterion} (stops : x.Stops s)
    (ran : s.run (w.under live limit) rules roots = (ended, s')) :
    ∃ begun given y, History w rules x begun given y ∧ y.Stops s' := by
  obtain ⟨begun, given, y, later, stops'⟩ := (returns_run ran).history
  exact ⟨_, _, y, (Event.run stops roots).history.trans later, stops'⟩

theorem orderly_under_iff : Orderly (w.under live limit) lost x ↔ Orderly w lost x := by
  constructor <;>
  · rintro ⟨⟨once, alive, active, held, known, knownHeld, unsliced, gone⟩, ordered, ready⟩
    exact ⟨⟨once, alive, active, held, known, knownHeld, unsliced, gone⟩, ordered, ready⟩

theorem fresh_orderly (ledger : Ledger) : Orderly w [] (fresh ledger) := by
  refine ⟨?_, ?_, rfl⟩
  · constructor <;> simp [fresh, beside, phase, Phase.scans, Scan.names]
  · constructor <;> simp [fresh, phase, SliceStore.contains]

/-- The scans of a run that stops are lost to those after it. -/
theorem Stops.orderly (stops : x.Stops s) (orderly : Orderly w lost x) : ∃ lost', Orderly w lost' ⟨[], s⟩ := by
  obtain ⟨plays, ordered, ready⟩ := orderly
  have leave : ∀ p : Phase, p.Plays w → p.ending = none → (beside ⟨[], p.state⟩ p.scans).phase.Plays w := by
    intro p plays ended
    unfold Plays at plays ⊢
    rw [ended] at plays
    rw [beside_scans]
    exact plays
  cases stops with
  | cancelled => exact ⟨_, leave _ plays rfl, ordered.congr rfl rfl, ready⟩
  | @limited task queue c s message first turn =>
    have opens : Opens task (x.beside lost).phase { queue := queue ++ lost.map .resume, state := s, due := some c } := by
      have here := turn_criterion (queue ++ lost.map .resume) turn
      simpa only [phase, beside, first, List.cons_append] using here
    have noted : Keeps w { queue := queue ++ lost.map .resume, state := s, due := some c } _ :=
      .report (s := s.note .warn message) ⟨_, _, _, _, rfl⟩
    refine ⟨_, leave _ (noted.plays (opens.plays plays)) rfl,
      ordered.congr opens.opened.active opens.opened.store, ?_⟩
    cases turn_criterion queue turn
    exact ready

/-- A run starts with what holds between two turns. -/
theorem Orderly.again (roots : List Criterion) (orderly : Orderly w lost ⟨[], s⟩) :
    Orderly w lost (append [] (s.addRoots roots)) := by
  have rooted := rooted_addRoots s roots
  refine ⟨?_, again_ordered roots orderly.ordered, rooted.ready.trans orderly.ready⟩
  have plays := orderly.plays
  unfold Plays at plays ⊢
  rw [beside_scans] at plays ⊢
  have scans : (append [] (s.addRoots roots)).phase.scans = [] := rooted.scanless
  rw [scans]
  exact plays.congr rooted.ready rooted.active rooted.suspensions rooted.store

theorem Orderly.merge {root : String} (orderly : Orderly w lost x) :
    Orderly w lost ⟨x.queue, (x.state.merge (w.under live limit) root).2⟩ := by
  unfold SlicerState.merge
  split
  · exact orderly
  · obtain ⟨⟨once, alive, active, held, known, knownHeld, unsliced, gone⟩, ⟨nodup, stored, named⟩, ready⟩ := orderly
    exact ⟨⟨once, alive, active, held, known, knownHeld, unsliced, gone⟩, ⟨nodup, stored, named⟩, ready⟩

theorem Event.orderly (placed : w.Placed) (event : Event w rules x begun given y) (orderly : Orderly w lost x) :
    ∃ lost', Orderly w lost' y := by
  cases event with
  | turn live limit =>
    have before : Orderly (w.under live limit) lost x := orderly_under_iff.mpr orderly
    exact ⟨lost, orderly_under_iff.mp (Orderly.next (w := w.under live limit) placed rules before)⟩
  | run stops roots =>
    obtain ⟨lost', left⟩ := stops.orderly orderly
    exact ⟨lost', left.again roots⟩
  | merge => exact ⟨lost, orderly.merge⟩
  | write ledger => exact ⟨lost, ⟨orderly.plays.congr rfl rfl rfl rfl, orderly.ordered.congr rfl rfl, orderly.ready⟩⟩

theorem History.orderly {ledger : Ledger} (placed : w.Placed) (history : History w rules (fresh ledger) begun given x) :
    ∃ lost, Orderly w lost x := by
  induction history with
  | start => exact ⟨[], fresh_orderly ledger⟩
  | event _ event ih =>
    obtain ⟨_, orderly⟩ := ih
    exact event.orderly placed orderly

/-- Turns after each of which the analysis may be cancelled come to an empty queue within the bound on tasks. -/
theorem Orderly.again_empties {z : Nat → Worklist} {roots : List Criterion} (placed : w.Placed)
    (orderly : Orderly w lost (append [] (s.addRoots roots))) (start : z 0 = append [] (s.addRoots roots))
    (turns : ∀ i, ∃ live limit, z (i + 1) = Worklist.next (w.under live limit) rules (z i)) :
    ∃ n ≤ SlicerState.taskBound w roots.length, (z n).queue = [] := by
  have step : ∀ i, Orderly w lost (z i) → Orderly w lost (z (i + 1)) ∧
      ((z i).queue ≠ [] → (z (i + 1)).phase.left w < (z i).phase.left w) := by
    intro i here
    obtain ⟨live, limit, same⟩ := turns i
    have before : Orderly (w.under live limit) lost (z i) := orderly_under_iff.mpr here
    rw [same]
    exact ⟨orderly_under_iff.mp (Orderly.next (w := w.under live limit) placed rules before),
      Orderly.left_lt (w := w.under live limit) placed rules before⟩
  obtain ⟨n, le, empty⟩ := Orderly.exists_empty (start ▸ orderly) step
  exact ⟨n, le.trans (start ▸ again_left orderly), empty⟩

/-- Whatever happened to a slicer before, the turns of a run come to an empty queue within the bound on tasks, also if
the analysis is cancelled between two of them. A run that is neither cancelled nor limited is complete, with the state
that stands there. The scans that the turns go on with end by themselves: more fuel would change nothing. -/
theorem run_terminates (p : Program) (settings : Settings) (rules : List CallRule) (ledger : Ledger)
    (roots : List Criterion) (unlimited : settings.maxCriteria ≤ 0)
    (history : History (.ofProgram p.finalize.1 settings true) rules (fresh ledger) begun given x)
    (stops : x.Stops s) :
    let w := Workspace.ofProgram p.finalize.1 settings true
    let y := append [] (s.addRoots roots)
    (∀ z : Nat → Worklist, z 0 = y → (∀ i, ∃ live limit, z (i + 1) = next (w.under live limit) rules (z i)) →
      ∃ n ≤ SlicerState.taskBound w roots.length, (z n).queue = []) ∧
    ∃ n ≤ SlicerState.taskBound w roots.length, (after w rules y n).queue = [] ∧
      (∃ message, s.run w rules roots = (.complete, (after w rules y n).state.note .debug message)) ∧
    ∀ (t : SlicerState) (st : Scan) (extra : Nat), w.body? st.criterion.caller = some st.body →
      SlicerState.scanFrom w rules (st.body.size + 1 + extra) t st [] = t.scan w rules st := by
  intro w y
  have placed : w.Placed := Workspace.ofModel_placed
  obtain ⟨lost, orderly⟩ := history.orderly placed
  obtain ⟨lost', left⟩ := stops.orderly orderly
  have again : Orderly w lost' y := left.again roots
  have ends : ∀ z : Nat → Worklist, z 0 = y →
      (∀ i, ∃ live limit, z (i + 1) = next (w.under live limit) rules (z i)) →
      ∃ n ≤ SlicerState.taskBound w roots.length, (z n).queue = [] :=
    fun z start turns => again.again_empties placed start turns
  obtain ⟨n, enough, empty⟩ := ends (after w rules y) rfl fun i => ⟨true, settings.maxCriteria, after_succ y i⟩
  exact ⟨ends, n, enough, empty, runFrom_of_empty rfl unlimited enough empty, fun t st extra known =>
    SlicerState.scanFrom_add extra _ known (placed _ _ known) (by omega) []⟩

/-- Two methods that call each other, and one that hashes what the first of them returns. -/
def echoing : Program :=
  { package := "a"
    classes := [some { name := "a.B", methods := [
      some { signature := "<a.B: void m()>", isStatic := true, units := [
        some (.assign "i0" "5"), some (.callAssign "i1" "" "<a.B: int f(int)>" ["i0"]),
        some (.call "" "<lib.X: void x(int)>" ["i1"]), some .retVoid] },
      some { signature := "<a.B: int f(int)>", isStatic := true, units := [
        some (.param "i0" 0 "int"), some (.callAssign "i1" "" "<a.B: int g(int)>" ["i0"]), some (.ret "i1")] },
      some { signature := "<a.B: int g(int)>", isStatic := true, units := [
        some (.param "i0" 0 "int"), some (.callAssign "i1" "" "<a.B: int f(int)>" ["i0"]), some (.ret "i1")] }] }] }

/-- The program made ready. -/
def echoed : Workspace := .ofProgram echoing.finalize.1 {} true

/-- The call of the hash. -/
def echoingRoots : List Criterion := created echoed "<a.B: void m()>" "<lib.X: void x(int)>" .invoke [0] 0

set_option maxRecDepth 100000 in
private theorem echoing_limited :
    (({} : SlicerState).run (echoed.under true 2) CallRule.standard echoingRoots).1 = .limited ∧
      (({} : SlicerState).run (echoed.under true 2) CallRule.standard echoingRoots).2.active.length = 2 := by
  decide +kernel

/-- A run with a limit of two criteria leaves two scans suspended, each of which waits for a method that calls the
other one. The run after it ends. -/
theorem echoing_rerun_complete :
    ∃ s, ({} : SlicerState).run (echoed.under true 2) CallRule.standard echoingRoots = (.limited, s) ∧
      s.active.length = 2 ∧ ∃ s', s.run echoed CallRule.standard echoingRoots = (.complete, s') := by
  obtain ⟨limited, suspended⟩ := echoing_limited
  obtain ⟨⟨ended, s⟩, ran⟩ : ∃ outcome,
      ({} : SlicerState).run (echoed.under true 2) CallRule.standard echoingRoots = outcome := ⟨_, rfl⟩
  obtain ⟨begun, given, x, history, stops⟩ := run_history (x := fresh {}) .cancelled ran
  obtain ⟨-, n, -, -, ⟨message, complete⟩, -⟩ :=
    run_terminates echoing {} CallRule.standard {} echoingRoots (by decide) history stops
  rw [ran] at limited suspended
  exact ⟨s, by rw [ran, ← limited], suspended, _, complete⟩

end Worklist

end MisuseSlice
