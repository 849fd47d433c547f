import MisuseSlice.Proofs.Slicer.Losses

/-! Runs that return early, because the analysis was cancelled or the limit on criteria was reached, and the run after
them. The queue of a run that returns early is lost, but the criteria in it stay queued for the books of the slicer,
and those whose scans it held stay under way. A later run does not come to them again. -/
namespace MisuseSlice

open Criterion Phase

/-- The workspace of a run that may be cancelled and may have a limit on its criteria. -/
def Workspace.under (w : Workspace) (live : Bool) (limit : Int) : Workspace :=
  { w with live, settings := { w.settings with maxCriteria := limit } }

/-- The places in the queue and the criteria under way that a slicer is left with. -/
def SlicerState.leftover (s : SlicerState) : Leftover :=
  ⟨fun t => ∃ id : String, s.queued[id]? = some t, fun id => id ∈ s.active⟩

namespace Worklist

variable {w : Workspace} {rules : List CallRule} {A : Criterion → Prop} {l : Leftover} {x : Worklist}
  {lost : List Scan} {roots : List Criterion} {s : SlicerState} {live : Bool} {limit : Int}

/-- How a run returns early between two turns. -/
inductive Stops (x : Worklist) : SlicerState → Prop where
  | cancelled : Stops x x.state
  /-- The criterion at which the limit is reached has left the queue. -/
  | limited {task : Task} {queue : List Task} {c : Criterion} {s : SlicerState} (message : String)
      (first : x.queue = task :: queue) (turn : x.state.turn task = .criterion c s) : Stops x (s.note .warn message)

/-- The worklists that a slicer comes to when it runs the roots, and runs them again each time that it returns
early. -/
inductive Visited (w : Workspace) (rules : List CallRule) (roots : List Criterion) : Worklist → Prop where
  | first (ledger : Ledger) : Visited w rules roots (ofRoots ledger roots)
  | turn {x : Worklist} (visited : Visited w rules roots x) (live : Bool) (limit : Int) :
      Visited w rules roots (next (w.under live limit) rules x)
  | again {x : Worklist} {s : SlicerState} (visited : Visited w rules roots x) (stops : x.Stops s) :
      Visited w rules roots (append [] (s.addRoots roots))

/-- A run that does not come to its end returns early between two turns. -/
theorem Returns.stops {fuel : Nat} {ended : SlicerState.RunEnd}
    (returns : Returns (w.under live limit) rules fuel x ended s) (early : ended ≠ .complete)
    (visited : Visited w rules roots x) : ∃ y, Visited w rules roots y ∧ y.Stops s := by
  induction returns with
  | complete => exact absurd rfl early
  | @exhausted x => exact ⟨x, visited, .cancelled⟩
  | @cancelled _ x => exact ⟨x, visited, .cancelled⟩
  | @limited _ x _ _ _ _ message _ first turn => exact ⟨x, visited, .limited message first turn⟩
  | turn _ _ ih => exact ih early (visited.turn live limit)

theorem run_stops {ledger : Ledger} {ended : SlicerState.RunEnd}
    (ran : ({ ledger } : SlicerState).run (w.under live limit) rules roots = (ended, s)) (early : ended ≠ .complete) :
    ∃ x, Visited w rules roots x ∧ x.Stops s := (returns_run ran).stops early (.first ledger)

theorem closed_under (closed : Closed w A) : Closed (w.under live limit) A := by
  refine ⟨fun c k here spawned => closed.spawned c k here ?_, closed.called, closed.merged, closed.apart⟩
  cases spawned with
  | returned found calls call low here => exact .returned found calls call low here
  | written found reads read high accesses here => exact .written found reads read high accesses here

theorem soundAfter_under_iff : x.SoundAfter (w.under live limit) A l ↔ x.SoundAfter w A l := by
  constructor <;>
  · rintro ⟨⟨once, alive, active, held, known, knownHeld, unsliced, gone⟩, settled, ready⟩
    exact ⟨⟨once, alive, active, held, known, knownHeld, unsliced, gone⟩, settled, ready⟩

/-- A run that is in the middle of a turn leaves the scans in play to those after it. -/
theorem leave_sound {p : Phase} (plays : p.Plays w) (arising : Arising A p) (ticketed : Ticketed l p)
    (awaiting : Awaiting A l p) (ended : p.ending = none) (ready : p.state.ready = []) :
    (beside ⟨[], p.state⟩ p.scans).SoundAfter w A p.state.leftover := by
  have scans : (beside ⟨[], p.state⟩ p.scans).phase.scans = p.scans := by
    rw [beside_scans]
    rfl
  have playing : Playing w p.scans none p.state := by
    have here := plays
    unfold Plays at here
    rwa [ended] at here
  have waits : ∀ (id : String) d, p.state.suspensions[id]? = some d → id ∈ p.state.active :=
    fun id d found => (playing.active id).mpr (.inr (Maps.contains_of_getElem? found))
  refine ⟨?_, ⟨⟨arising.tickets, by simp [phase], by simp [phase], by simp [phase], ?_, arising.held,
    arising.retracted, arising.params⟩, ?_, ?_, ?_⟩, ready⟩
  · unfold Plays
    rw [scans]
    exact playing
  · rw [scans]
    exact arising.scans
  · exact fun id t queued => ⟨.inr ⟨id, queued⟩, (ticketed id t queued).2⟩
  · exact fun id d answered found => absurd (waits id d found) answered
  · intro r id found
    obtain ⟨elsewhere, ⟨d, held, waiting⟩, _⟩ := awaiting.awaited r id found
    exact ⟨elsewhere, ⟨d, held, waiting⟩, fun answered => absurd (waits id d held) answered⟩

/-- The turn of a criterion takes its ticket from the queue. -/
theorem turn_criterion {task : Task} {s s' : SlicerState} {c : Criterion} (queue : List Task)
    (turn : s.turn task = .criterion c s') :
    Opens task { queue := task :: queue, state := s } { queue, state := s', due := some c } := by
  cases task with
  | resume st => cases turn
  | start t =>
    simp only [SlicerState.turn] at turn
    split at turn
    · cases turn
    · rename_i c' ticket
      split at turn
      · cases turn
      · rename_i place
        split at turn
        · cases turn
        · cases turn
          exact .take ticket (by simpa using place)

/-- A run that returns early leaves its scans to the runs after it. -/
theorem Stops.sound (closed : Closed w A) (stops : x.Stops s) (sound : (x.beside lost).SoundAfter w A l)
    (ordered : x.phase.Ordered) :
    ∃ lost', (beside ⟨[], s⟩ lost').SoundAfter w A s.leftover ∧ (phase ⟨[], s⟩).Ordered ∧
      ∀ st ∈ lost', st.criterion.id ∈ s.active := by
  have alive : ∀ (p : Phase), p.Plays w → ∀ st ∈ p.scans, st.criterion.id ∈ p.state.active :=
    fun p plays st member => (plays.active _).mpr
      (.inl (List.mem_map_of_mem (f := fun st : Scan => st.criterion.id) (List.mem_append_left _ member)))
  obtain ⟨plays, ⟨arising, ticketed, awaiting⟩, ready⟩ := sound
  cases stops with
  | cancelled =>
    exact ⟨_, leave_sound plays arising ticketed awaiting rfl ready, ordered.congr rfl rfl, alive _ plays⟩
  | @limited task queue c s message first turn =>
    have opens : Opens task (x.beside lost).phase
        { queue := queue ++ lost.map .resume, state := s, due := some c } := by
      have here := turn_criterion (queue ++ lost.map .resume) turn
      simpa only [phase, beside, first, List.cons_append] using here
    have noted : Keeps w { queue := queue ++ lost.map .resume, state := s, due := some c } _ :=
      .report (s := s.note .warn message) ⟨_, _, _, _, rfl⟩
    have opened := opens.plays plays
    have origin := opens.arising arising
    have plays' := noted.plays opened
    refine ⟨_, leave_sound plays' (noted.arising closed origin) (noted.ticketed (opens.ticketed ticketed))
      (noted.awaiting closed opened origin (opens.awaiting awaiting)) rfl ?_, ?_, alive _ plays'⟩
    · cases turn_criterion queue turn
      exact ready
    · exact ordered.congr opens.opened.active opens.opened.store

/-- Queueing roots behind other tasks. -/
theorem addRoots_behind (queue : List Task) (s : SlicerState) (roots : List Criterion) :
    roots.foldl SlicerState.addRoot (queue, s) = (queue ++ (s.addRoots roots).1, (s.addRoots roots).2) := by
  have fold : ∀ (roots : List Criterion) (tasks : List Task) (s : SlicerState),
      roots.foldl SlicerState.addRoot (queue ++ tasks, s) =
        (queue ++ (roots.foldl SlicerState.addRoot (tasks, s)).1, (roots.foldl SlicerState.addRoot (tasks, s)).2) := by
    intro roots
    induction roots with
    | nil => exact fun _ _ => rfl
    | cons r roots ih =>
      intro tasks s
      have one : SlicerState.addRoot (queue ++ tasks, s) r =
          (queue ++ (SlicerState.addRoot (tasks, s) r).1, (SlicerState.addRoot (tasks, s) r).2) := by
        unfold SlicerState.addRoot
        split
        · rfl
        · simp only [SlicerState.enqueueOne, List.append_assoc]
      rw [List.foldl_cons, one, ih]
      rfl
  have all := fold roots [] s
  rwa [List.append_nil] at all

/-- A later run starts with what holds between two turns. -/
theorem again_sound (roots : List Criterion) (closed : Closed w A) (arise : ∀ r ∈ roots, A r)
    (sound : (beside ⟨[], s⟩ lost).SoundAfter w A l) :
    ((append [] (s.addRoots roots)).beside lost).SoundAfter w A l := by
  have behind := addRoots_sound (lost.map .resume) closed arise sound
  rw [addRoots_behind] at behind
  refine SoundAfter.perm ?_ ?_ behind
  · exact List.perm_append_comm
  · rfl

theorem again_ordered (roots : List Criterion) (ordered : (phase ⟨[], s⟩).Ordered) :
    (append [] (s.addRoots roots)).phase.Ordered := by
  have rooted := rooted_addRoots s roots
  exact ordered.congr rooted.active rooted.store

/-- At all times the scans that were lost can be told from those that the run works on. -/
theorem Visited.sound (closed : Closed w A) (placed : w.Placed) (arise : ∀ r ∈ roots, A r)
    (visited : Visited w rules roots x) : ∃ l lost, (x.beside lost).SoundAfter w A l ∧ x.phase.Ordered := by
  induction visited with
  | first ledger =>
    refine ⟨.nothing, [], SoundAfter.perm ?_ ?_ (ofRoots_sound closed ledger arise), ofRoots_ordered⟩
    · simp [beside]
    · rfl
  | turn _ live limit ih =>
    obtain ⟨l, lost, sound, ordered⟩ := ih
    have before : (beside _ lost).SoundAfter (w.under live limit) A l := soundAfter_under_iff.mpr sound
    have after := next_beside_sound (w := w.under live limit) (closed_under closed) placed rules before
    exact ⟨l, lost, (soundAfter_under_iff (w := w)).mp after,
      next_beside_ordered (w := w.under live limit) placed rules before ordered⟩
  | again _ stops ih =>
    obtain ⟨_, _, sound, ordered⟩ := ih
    obtain ⟨lost, sound', ordered', _⟩ := stops.sound closed sound ordered
    exact ⟨_, lost, again_sound roots closed arise sound', again_ordered roots ordered'⟩

/-- The suspended scans are no more than the criteria under way, and none takes more than a criterion may. -/
theorem held_total_le {p : Phase} (plays : p.Plays w) :
    Maps.total (fun d => d.scan.weight w) p.state.suspensions ≤ p.started.length * share w := by
  have each : ∀ (id : String) d, p.state.suspensions[id]? = some d → d.scan.weight w ≤ share w := by
    intro id d found
    have size : d.scan.body.size ≤ w.size := Workspace.size_le (plays.knownHeld id d found)
    exact Nat.mul_le_mul_right _ (by omega)
  have few : p.state.suspensions.keys.length ≤ p.started.length := by
    refine Std.TreeMap.nodup_keys.length_le_of_subset fun id member => List.mem_append_left _ ?_
    exact (plays.active id).mpr (.inr (Std.TreeMap.contains_iff_mem.mpr (Std.TreeMap.mem_keys.mp member)))
  exact (Maps.total_le _ each).trans (Nat.mul_le_mul_right _ few)

/-- A later run has no more left to do than its fuel. -/
theorem again_left (orderly : Orderly w lost (append [] (s.addRoots roots))) :
    (append [] (s.addRoots roots)).phase.left w ≤ SlicerState.taskBound w roots.length := by
  have rooted := rooted_addRoots s roots
  have ready : (s.addRoots roots).2.ready = [] := orderly.ready
  have held := held_total_le orderly.plays
  have room := length_started_le orderly.plays (orderly.ordered.congr rfl rfl)
  simp only [phase, beside, append] at held room
  generalize s.addRoots roots = y at rooted ready held room ⊢
  simp only [left, phase, append, List.nil_append, weight_scanless rooted.scanless, ready, Option.toList, List.map_nil,
    List.sum_nil, List.length_nil, Nat.add_zero]
  have few := rooted.few
  have whole : ∀ n m k t : Nat, n ≤ m → t ≤ n * k → t + (m - n) * k ≤ m * k := by
    intro n m k t le less
    calc t + (m - n) * k
      _ ≤ n * k + (m - n) * k := Nat.add_le_add_right less _
      _ = m * k := by rw [← Nat.add_mul, Nat.add_sub_cancel' le]
  have budget := whole _ _ _ _ room held
  rw [Nat.add_assoc]
  exact Nat.add_le_add few budget

/-- A later run that is neither cancelled nor limited ends with an empty queue. -/
theorem again_ends (live : w.live = true) (unlimited : w.settings.maxCriteria ≤ 0) (placed : w.Placed)
    (rules : List CallRule) (orderly : Orderly w lost (append [] (s.addRoots roots))) :
    ∃ n message, (after w rules (append [] (s.addRoots roots)) n).queue = [] ∧
      s.run w rules roots =
        (.complete, (after w rules (append [] (s.addRoots roots)) n).state.note .debug message) := by
  obtain ⟨n, enough, empty⟩ := orderly.exists_empty (z := after w rules (append [] (s.addRoots roots))) fun i here => by
    rw [after_succ]
    exact ⟨here.next placed rules, here.left_lt placed rules⟩
  obtain ⟨message, ran⟩ := runFrom_of_empty live unlimited (enough.trans (again_left orderly)) empty
  exact ⟨n, message, empty, ran⟩

end Worklist

namespace SlicerState

/-- The scan of the first criterion is suspended until the second one is sliced. -/
def WaitsFor (s : SlicerState) (id k : String) : Prop := ∃ d, s.suspensions[id]? = some d ∧ k ∈ d.waiting

/-- A slicer that was left with the state `s` has left the criterion under way, or at a place in the queue where it
still is in the state `s'`. -/
def Strands (s s' : SlicerState) (id : String) : Prop :=
  id ∈ s.active ∨ ∃ t, s'.queued[id]? = some t ∧ ∃ k : String, s.queued[k]? = some t

end SlicerState

namespace Worklist

variable {w : Workspace} {rules : List CallRule} {A : Criterion → Prop} {x : Worklist} {lost : List Scan}
  {roots : List Criterion} {s : SlicerState} {id : String}

/-- What stands before an entry that occurs once is in the part before it. -/
theorem mem_of_sublist_pair {a b : String} {first second : List String} (nodup : (first ++ b :: second).Nodup)
    (part : List.Sublist [a, b] (first ++ b :: second)) : a ∈ first := by
  obtain ⟨here, there, same, inFirst, inSecond⟩ := List.sublist_append_iff.mp part
  cases here with
  | cons c rest =>
    obtain rfl : a = c := (List.cons.inj same).1
    exact inFirst.subset List.mem_cons_self
  | nil =>
    obtain rfl : [a, b] = there := same
    have once : b ∉ second := (List.nodup_cons.mp (List.nodup_append.mp nodup).2.1).1
    refine (once ?_).elim
    cases inSecond with
    | cons _ inside => exact inside.subset (by simp)
    | cons_cons _ inside => exact inside.subset (by simp)

/-- At an empty queue only criteria that were left there are queued. -/
theorem stranded_of_queued (sound : (x.beside lost).SoundAfter w A s.leftover) (empty : x.queue = [])
    (queued : x.Queued id) : s.Strands x.state id := by
  obtain ⟨t, here⟩ := Maps.contains_iff.mp queued
  refine .inr ⟨t, here, ((sound.settled.ticketed id t here).1).resolve_left ?_⟩
  simp [phase, beside, empty]

/-- At an empty queue every criterion under way waits for one that was left queued or under way. -/
theorem stranded_of_active (sound : (x.beside lost).SoundAfter w A s.leftover) (empty : x.queue = [])
    (lostActive : ∀ st ∈ lost, st.criterion.id ∈ s.active) (active : id ∈ x.state.active) :
    ∃ k, Relation.ReflTransGen x.state.WaitsFor id k ∧ s.Strands x.state k := by
  have plays := sound.plays
  have scans : (x.beside lost).phase.scans ++ (x.beside lost).phase.state.ready = lost := by
    have ready : (x.beside lost).phase.state.ready = [] := sound.ready
    rw [beside_scans, ready]
    simp [phase, Phase.scans, empty]
  -- the criteria that a suspended one waits for stand above it
  have above : ∀ (n : Nat) (above below : List String) (id : String), above.length = n →
      x.state.active = above ++ id :: below →
      ∃ k, Relation.ReflTransGen x.state.WaitsFor id k ∧ s.Strands x.state k := by
    intro n
    induction n using Nat.strong_induction_on with
    | _ n ih =>
      intro above below id length order
      by_cases old : id ∈ s.active
      · exact ⟨id, .refl, .inl old⟩
      have active : id ∈ x.state.active := by simp [order]
      have suspended : x.Suspended id := by
        refine ((plays.active id).mp active).resolve_left ?_
        rw [scans]
        intro member
        obtain ⟨st, here, rfl⟩ := List.mem_map.mp member
        exact old (lostActive st here)
      obtain ⟨d, found⟩ := Maps.contains_iff.mp suspended
      obtain ⟨some, descents⟩ := sound.settled.awaiting.awaits id d old found
      obtain ⟨r, rest, waiting⟩ := List.exists_cons_of_ne_nil some
      have waits : x.state.WaitsFor id r := ⟨d, found, waiting ▸ List.mem_cons_self⟩
      rcases (sound.settled.awaiting.awaited r id (descents r (waiting ▸ List.mem_cons_self))).2.2 old with
        queued | ⟨_, ⟨⟩, _⟩ | ⟨_, ⟨⟩, _⟩ | younger
      · exact ⟨r, .single waits, stranded_of_queued sound empty queued⟩
      · have before : r ∈ above := by
          have nodup : (above ++ id :: below).Nodup := order ▸ plays.alive
          have part : List.Sublist [r, id] (above ++ id :: below) := order ▸ younger
          exact mem_of_sublist_pair nodup part
        obtain ⟨first, second, split⟩ := List.append_of_mem before
        obtain ⟨k, chain, stranded⟩ := ih first.length (by simp [← length, split]) first (second ++ id :: below) r rfl
          (by simp [order, split])
        exact ⟨k, .head waits chain, stranded⟩
  obtain ⟨first, second, split⟩ := List.append_of_mem active
  exact above first.length first second id rfl split

/-- What becomes of a root in a later run. -/
theorem again_stored {n : Nat} (closed : Closed w A) (distinct : Distinct A) (placed : w.Placed)
    (sound : ((append [] (s.addRoots roots)).beside lost).SoundAfter w A s.leftover)
    (ordered : (append [] (s.addRoots roots)).phase.Ordered) (lostActive : ∀ st ∈ lost, st.criterion.id ∈ s.active)
    (empty : (after w rules (append [] (s.addRoots roots)) n).queue = []) {r : Criterion} (given : r ∈ roots)
    (arises : A r) (call : r.AtCall) :
    (after w rules (append [] (s.addRoots roots)) n).Stored r.id ∨
      (∃ k, Relation.ReflTransGen (after w rules (append [] (s.addRoots roots)) n).state.WaitsFor r.id k ∧
        s.Strands (after w rules (append [] (s.addRoots roots)) n).state k) ∨
      ∃ i, GivesWay A r (after w rules (append [] (s.addRoots roots)) i)
          (after w rules (append [] (s.addRoots roots)) (i + 1)) ∧
        ∀ j, i < j → ¬(after w rules (append [] (s.addRoots roots)) j).Queued r.id := by
  have known := addRoots_known s given
  generalize append [] (s.addRoots roots) = y at known sound ordered empty ⊢
  have last := (after_beside rules closed placed sound ordered n).1
  by_cases stranded : ∃ k, Relation.ReflTransGen (after w rules y n).state.WaitsFor r.id k ∧
      s.Strands (after w rules y n).state k
  · exact .inr (.inl stranded)
  by_cases stored : (after w rules y n).Stored r.id
  · exact .inl stored
  have inactive : r.id ∉ (after w rules y n).state.active :=
    fun active => stranded (stranded_of_active last empty lostActive active)
  have unqueued : ¬(after w rules y n).Queued r.id :=
    fun queued => stranded ⟨r.id, .refl, stranded_of_queued last empty queued⟩
  have unstarted : ∀ i, ¬(after w rules y i).Started r.id := by
    intro i started
    have still := started_after_beside closed placed rules sound ordered (Nat.le_max_left i n) started
    rw [after_of_le empty (Nat.le_max_right i n)] at still
    exact still.elim stored inactive
  refine .inr (.inr (exists_givesWay (n := n) ?_ (fun j later => ?_) unstarted fun i queued => ?_))
  · exact known.resolve_left fun here => unstarted 0 (.inl here)
  · rwa [after_of_le empty later]
  · rw [after_succ]
    exact queued_next_beside closed distinct placed rules (after_beside rules closed placed sound ordered i).1 arises
      call queued

/-- After any number of runs that returned early, a run that is neither cancelled nor limited comes to its end. Every
root has its slice then unless the runs before left it queued or under way, or its scan waits for a criterion that they
left so, or it gave way to a criterion of its call and did not come back to the queue. -/
theorem rerun_outcome (p : Program) (settings : Settings) (rules : List CallRule) (roots : List Criterion)
    (unlimited : settings.maxCriteria ≤ 0) (asked : ∀ r ∈ roots, IsRoot (.ofProgram p settings true) r)
    (distinct : Distinct (Arises (.ofProgram p settings true) roots))
    (visited : Visited (.ofProgram p settings true) rules roots x) (stops : x.Stops s) :
    let w := Workspace.ofProgram p settings true
    let y := append [] (s.addRoots roots)
    ∃ s', s.run w rules roots = (.complete, s') ∧ ∀ r ∈ roots,
      s'.store.contains r.id = true ∨
        (∃ k, Relation.ReflTransGen s'.WaitsFor r.id k ∧ s.Strands s' k) ∨
        ∃ i, GivesWay (Arises w roots) r (after w rules y i) (after w rules y (i + 1)) ∧
          ∀ j, i < j → ¬(after w rules y j).Queued r.id := by
  intro w y
  have prepared : ∀ method b, w.body? method = some b → b.Prepared := fun _ _ => Workspace.body?_prepared
  have placed : w.Placed := fun method b found => (prepared method b found).placed
  have closed : Closed w (Arises w roots) := Arises.closed prepared asked distinct
  have arise : ∀ r ∈ roots, Arises w roots r := fun _ => .root
  obtain ⟨_, _, before, ordered⟩ := visited.sound closed placed arise
  obtain ⟨lost, left, ordered', lostActive⟩ := stops.sound closed before ordered
  have sound := again_sound roots closed arise left
  have start := again_ordered roots ordered'
  obtain ⟨n, message, empty, ran⟩ := again_ends rfl unlimited placed rules (sound.orderly start)
  refine ⟨_, ran, fun r given => ?_⟩
  exact again_stored closed distinct placed sound start lostActive empty given (arise r given) (asked r given).atCall

/-- A method that hashes four numbers. -/
private def quartet : Program :=
  { package := "a"
    classes := [some { name := "a.B", methods := [
      some { signature := "<a.B: void m()>", isStatic := true, units := [
        some (.assign "i0" "1"), some (.assign "i1" "2"), some (.assign "i2" "3"), some (.assign "i3" "4"),
        some (.call "" "<lib.X: void x(int)>" ["i0"]), some (.call "" "<lib.X: void x(int)>" ["i1"]),
        some (.call "" "<lib.X: void x(int)>" ["i2"]), some (.call "" "<lib.X: void x(int)>" ["i3"]),
        some .retVoid] }] }] }

private def hashed : Workspace := .ofProgram quartet.finalize.1 {} true

/-- The calls of the hash, the last one first. -/
private def quartetRoots : List Criterion :=
  created hashed "<a.B: void m()>" "<lib.X: void x(int)>" .invoke [0] 0

/-- Which roots have their slices after a run that is cancelled at once or limited, and one that is not. -/
private def storedLater (live : Bool) (limit : Int) : SlicerState.RunEnd × SlicerState.RunEnd × List Bool :=
  let first := ({} : SlicerState).run (hashed.under live limit) CallRule.standard quartetRoots
  let second := first.2.run hashed CallRule.standard quartetRoots
  (first.1, second.1, quartetRoots.map fun r => second.2.store.contains r.id)

set_option maxRecDepth 100000 in
/-- A later run does not come to the roots that a run left in its queue. A run with a limit of two criteria takes the
third root from the queue and leaves the fourth one there; a run that is cancelled at once leaves them all. -/
theorem stranded_root_unstored :
    storedLater true 2 = (.limited, .complete, [true, true, true, false]) ∧
      storedLater false 0 = (.cancelled, .complete, [false, false, false, false]) := by
  decide +kernel

set_option maxRecDepth 100000 in
/-- What is computed for the program: what its roots bring about, that they have names of their own, and what a run with
a limit of three criteria leaves. -/
private theorem quartet_facts :
    (∀ c ∈ quartetRoots, c.kind = .invoke ∧ SlicerState.callSites hashed c.caller = [] ∧
      ∀ u ∈ ((hashed.body? c.caller).map Body.whole).getD [], u.kind ≠ .assignVariableField ∧
        (u.kind.isInvoke = true → created hashed u.signature u.signature .returned [] (c.level - 1) = [])) ∧
    (∀ c ∈ quartetRoots, ∀ k ∈ quartetRoots, (c.id = k.id ∨ c.start = k.start) → c = k) ∧
    (({} : SlicerState).run (hashed.under true 3) CallRule.standard quartetRoots).1 = .limited ∧
    (({} : SlicerState).run (hashed.under true 3) CallRule.standard quartetRoots).2.active = [] ∧
    (({} : SlicerState).run (hashed.under true 3) CallRule.standard quartetRoots).2.queued.isEmpty = true := by
  decide +kernel

/-- Slicing the roots brings about no other criteria. -/
private theorem quartet_arises {c : Criterion} (arises : Arises hashed quartetRoots c) : c ∈ quartetRoots := by
  refine arises.holds_of_fieldless (fun _ => id) (fun c given u visited => ?_) (fun c given site inside => ?_)
    fun c _ given _ kind => ?_
  · obtain ⟨reads, calls⟩ := (quartet_facts.1 c given).2.2 u visited
    exact ⟨reads, fun call k here => by rw [calls call] at here; cases here⟩
  · rw [(quartet_facts.1 c given).2.1] at inside
    cases inside
  · rw [(quartet_facts.1 c given).1] at kind
    cases kind

/-- The limit of three criteria leaves nothing in the queue: a later run slices the fourth root. -/
theorem quartet_rerun_stored :
    ∃ s s', ({} : SlicerState).run (hashed.under true 3) CallRule.standard quartetRoots = (.limited, s) ∧
      s.run hashed CallRule.standard quartetRoots = (.complete, s') ∧
      ∀ r ∈ quartetRoots, s'.store.contains r.id = true := by
  have asked : ∀ r ∈ quartetRoots, IsRoot hashed r := fun r given => ⟨_, _, _, given⟩
  have distinct : Distinct (Arises hashed quartetRoots) := by
    intro c k arises arises' name
    obtain rfl := quartet_facts.2.1 c (quartet_arises arises) k (quartet_arises arises') (.inl name)
    exact ⟨rfl, rfl, rfl, rfl⟩
  obtain ⟨-, -, limited, inactive, unqueued⟩ := quartet_facts
  obtain ⟨⟨ended, s⟩, ran⟩ : ∃ outcome,
      ({} : SlicerState).run (hashed.under true 3) CallRule.standard quartetRoots = outcome := ⟨_, rfl⟩
  rw [ran] at limited inactive unqueued
  dsimp only at limited inactive unqueued
  subst limited
  obtain ⟨x, visited, stops⟩ := run_stops ran (by decide)
  obtain ⟨s', rerun, outcome⟩ :=
    rerun_outcome quartet.finalize.1 {} CallRule.standard quartetRoots (by decide) asked distinct visited stops
  refine ⟨s, s', ran, rerun, fun r given => ?_⟩
  rcases outcome r given with stored | ⟨k, _, active | ⟨t, _, name, queued⟩⟩ | ⟨i, way, gone⟩
  · exact stored
  · rw [inactive] at active
    cases active
  · rw [Std.TreeMap.isEmpty_iff_forall_contains] at unqueued
    exact absurd (Maps.contains_of_getElem? queued) (Bool.not_eq_true _ ▸ unqueued name)
  · obtain ⟨m, arises, _, covers, queued⟩ := way.covered
    obtain rfl := quartet_facts.2.1 m (quartet_arises arises) r given (.inr covers.start)
    exact absurd queued way.gone

end Worklist

end MisuseSlice
