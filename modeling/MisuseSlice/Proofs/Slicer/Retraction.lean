import MisuseSlice.Proofs.Slicer.Narrowing
import MisuseSlice.Proofs.Slicer.Precedence
import MisuseSlice.Proofs.Slicer.Roots

/-! What dropping criteria does to a run: nothing. When a scan ends, the criteria that it drops are not in the queue. Those
that it brought about in the same turn are queued right after it ended, and queueing takes every mark away; the turns of the
others came before it went on. So every criterion that a scan brings about is sliced, whether or not its statement is
dropped. -/
namespace MisuseSlice

namespace SlicerState

variable {s : SlicerState}

/-- The criteria of a step are in the queue afterwards. -/
theorem absorb_queued {res : StepResult} {k : Criterion} (member : k ∈ res.children) :
    (absorb (res, s)).2.queued.contains k.id = true := by
  have fold : ∀ (cs : List Criterion) (x : List Task × SlicerState),
      (k ∈ cs ∨ x.2.queued.contains k.id = true) → (cs.foldl enqueueOne x).2.queued.contains k.id = true := by
    intro cs
    induction cs with
    | nil => exact fun x here => here.resolve_left List.not_mem_nil
    | cons c cs ih =>
      intro x here
      refine ih _ ?_
      simp only [enqueueOne, enqueue, Std.TreeMap.contains_insert, Bool.or_eq_true, beq_iff_eq, Std.compare_eq_iff_eq]
      rcases here with here | queued
      · rcases List.mem_cons.mp here with rfl | later
        · exact .inr (.inl rfl)
        · exact .inl later
      · exact .inr (.inr queued)
  have queued := fold res.children
    ([], { s with stats := { s.stats with spawned := s.stats.spawned + res.children.length } }) (.inl member)
  simp only [absorb, takeReady, enqueueAll]
  cases res.slice <;> exact queued

/-- A scan that ends brings about what the step leaves to be queued. -/
theorem resume_children {w : Workspace} {rules : List CallRule} {s' : SlicerState} {st last : Scan}
    {children : List Criterion} (ran : s.scan w rules st = (children, .complete last, s')) {k : Criterion}
    (member : k ∈ children) : k ∈ (s.resume w rules st).1.children := by
  simp only [resume, ran]
  exact List.mem_append_left _ member

end SlicerState

namespace Worklist

open Criterion Phase SlicerState

variable {w : Workspace} {rules : List CallRule} {A : Criterion → Prop} {x : Worklist} {roots : List Criterion}
  {id : String}

/-- Between two turns a criterion is met if it is started or in the queue. -/
theorem met_phase : x.phase.Met id ↔ x.Started id ∨ x.Queued id := by
  constructor
  · rintro ((stored | (active | ⟨_, ⟨⟩, _⟩) | ⟨_, ⟨⟩, _⟩) | ⟨t, here⟩)
    · exact .inl (.inl stored)
    · exact .inl (.inr active)
    · exact .inr (Maps.contains_of_getElem? here)
  · rintro ((stored | active) | queued)
    · exact .inl (.inl stored)
    · exact .inl (.inr (.inl (.inl active)))
    · exact .inr (Maps.contains_iff.mp queued)

/-- Roots are queued in the order of their tickets, without marks. -/
theorem addRoots_numbered (w : Workspace) {s : SlicerState} (roots : List Criterion) (unmarked : s.retracted = []) :
    (append [] (s.addRoots roots)).phase.Numbered ∧ (append [] (s.addRoots roots)).state.retracted = [] := by
  have fold : ∀ (rs : List Criterion) (q : List Task × SlicerState),
      ({ queue := q.1, state := q.2 } : Phase).Numbered ∧ q.2.retracted = [] →
      ({ queue := (rs.foldl addRoot q).1, state := (rs.foldl addRoot q).2 } : Phase).Numbered ∧
        (rs.foldl addRoot q).2.retracted = [] := by
    intro rs
    induction rs with
    | nil => exact fun q here => here
    | cons r rs ih =>
      rintro q ⟨numbered, none⟩
      refine ih _ ?_
      unfold addRoot
      split
      · exact ⟨⟨numbered.ascending, numbered.given⟩, none⟩
      · have queues : Queues w
            { queue := q.1, state := { q.2 with tree := (q.2.tree.add r.id r.level).2 }, pending := [r] }
            { queue := q.1 ++ [({ q.2 with tree := (q.2.tree.add r.id r.level).2 }.enqueue r).1]
              state := ({ q.2 with tree := (q.2.tree.add r.id r.level).2 }.enqueue r).2 } :=
          .enqueues rfl rfl rfl rfl rfl
        exact ⟨queues.numbered ⟨numbered.ascending, numbered.given⟩, queues.unmarked none (by simp)⟩
  exact fold roots ([], s) ⟨⟨List.Pairwise.nil, by simp⟩, unmarked⟩

theorem ofRoots_timely (closed : Closed w A) (ledger : Ledger) (arise : ∀ r ∈ roots, A r) :
    Timely A (ofRoots ledger roots).phase := by
  have sound := ofRoots_sound closed ledger arise
  obtain ⟨scanless, _, active, ready, suspensions, _, _⟩ := addRoots_rooted ledger roots
  obtain ⟨numbered, unmarked⟩ := addRoots_numbered w (s := { ledger }) roots rfl
  have rest : (ofRoots ledger roots).phase.resting = [] := by
    simp [ofRoots, append, phase, resting, scanless, ready]
  have held : ∀ (parent : String) d, (ofRoots ledger roots).phase.state.suspensions[parent]? ≠ some d := by
    simp [ofRoots, append, phase, suspensions]
  refine ⟨sound.settled.arising, sound.settled.awaiting, unmarked, numbered, ?_, ?_, ?_, ?_, ?_⟩
  · rintro id (⟨st, ⟨⟨⟩⟩ | rests, _⟩ | ⟨parent, d, found, _⟩)
    · rw [rest] at rests
      cases rests
    · exact absurd found (held parent d)
  · rintro id _ (here | ⟨_, ⟨⟩, _⟩)
    simp [ofRoots, append, phase, active] at here
  · rw [rest]
    simp
  · simp [phase]
  · exact fun parent d found => absurd found (held parent d)

theorem next_timely (rules : List CallRule) (closed : Closed w A) (placed : w.Placed) (sound : x.Sound w A)
    (timely : Timely A x.phase) : Timely A (next w rules x).phase := by
  cases queue : x.queue with
  | nil =>
    rw [next_of_empty queue]
    exact timely
  | cons task rest =>
    exact (next_turn_of_plays rules placed sound.plays queue).timely closed sound.plays sound.settled.ticketed timely

theorem after_timely (rules : List CallRule) (closed : Closed w A) (placed : w.Placed) (sound : x.Sound w A)
    (timely : Timely A x.phase) (n : Nat) : Timely A (after w rules x n).phase := by
  induction n with
  | zero => exact timely
  | succ n ih =>
    rw [after_succ]
    exact next_timely rules closed placed (after_sound rules closed placed sound n) ih

/-- A criterion that was started or queued is so from then on. -/
theorem met_next (rules : List CallRule) (closed : Closed w A) (placed : w.Placed) (sound : x.Sound w A)
    (timely : Timely A x.phase) (elsewhere : Elsewhere A id) (met : x.phase.Met id) : (next w rules x).phase.Met id := by
  cases queue : x.queue with
  | nil =>
    rw [next_of_empty queue]
    exact met
  | cons task rest =>
    exact (next_turn_of_plays rules placed sound.plays queue).met closed sound.plays sound.settled.ticketed timely
      elsewhere met

/-- The body of a scan is that of its method. -/
theorem Scans.known {s : SlicerState} {st : Scan} (scans : Scans w x s st) (plays : x.phase.Plays w) :
    w.body? st.criterion.caller = some st.body := by
  cases scans with
  | @resumed task rest _ queue turn =>
    refine plays.known st (List.mem_append_left _ ?_)
    simp [phase, Phase.scans, queue, turn_scan turn]
  | started _ _ begins => exact begins.found

/-- The criterion of a scan comes from where the others come from. -/
theorem Scans.arises {s : SlicerState} {st : Scan} (scans : Scans w x s st) (arising : Arising A x.phase) :
    A st.criterion := by
  cases scans with
  | @resumed task rest _ queue turn =>
    refine (arising.scans st (List.mem_append_left _ ?_)).1
    simp [phase, Phase.scans, queue, turn_scan turn]
  | @started task rest c _ _ queue turn _ =>
    have before : Arising A { queue := task :: rest, state := x.state } := queue ▸ arising
    exact ((turn_criterion rest turn).arising before).due c rfl

/-- A turn that goes on with a scan or starts one absorbs what that gives. -/
theorem Scans.next_eq {s : SlicerState} {st : Scan} (rules : List CallRule) (scans : Scans w x s st) :
    ∃ rest, next w rules x = append rest (absorb (s.resume w rules st)) := by
  cases scans with
  | @resumed task rest _ queue turn => exact ⟨rest, by simp only [next, queue, turn]⟩
  | @started task rest c s₀ b queue turn begins => exact ⟨rest, by simp only [next, queue, turn, begins.begin_eq]⟩

section

variable (sound : x.Sound w A) (closed : Closed w A) (placed : w.Placed) (timely : Timely A x.phase)
include sound closed placed timely

/-- When a scan ends, the criteria that it brought about are not in the queue. After the turn they are started or in the
queue. -/
theorem Scans.spawned {s s' : SlicerState} {st last : Scan} {children : List Criterion} (scans : Scans w x s st)
    (ran : s.scan w rules st = (children, .complete last, s')) :
    ∀ e ∈ last.spawned, Elsewhere A e.2 ∧ s'.queued[e.2]? = none ∧ (next w rules x).phase.Met e.2 := by
  have known := scans.known sound.plays
  have arises := scans.arises timely.arising
  obtain ⟨rest, turn⟩ := scans.next_eq rules
  have completes : s.Completes w st children last s' := by
    rcases scan_spec s rules known (placed _ _ known) with ⟨_, _, _, ran', completes⟩ | ⟨_, _, _, ran', _⟩
    · obtain ⟨rfl, ⟨⟩, rfl⟩ := Prod.mk.inj (ran.symm.trans ran')
      exact completes
    · cases ran.symm.trans ran'
  have frame := completes.recorded
  obtain ⟨_, _, rfl⟩ := frame
  intro e member
  rcases completes.origin e member with old | ⟨k, new, same⟩
  · cases scans with
    | @resumed task rest _ queue turn =>
      have rests : st ∈ x.phase.resting := by simp [phase, resting, queue, turn_scan turn]
      have brought : x.phase.Brought e.2 := .inl ⟨st, .inr rests, e, old, rfl⟩
      have elsewhere := timely.arising.brought brought
      exact ⟨elsewhere, timely.prompt.clear st rests e old,
        met_next rules closed placed sound timely elsewhere (timely.prompt.met _ brought)⟩
    | started => simp [Scan.start, Scan.track] at old
  · rw [← same]
    have spawned := completes.spawned k new
    refine ⟨.of_spawned (closed.spawned _ k arises spawned) spawned, Maps.getElem?_eq_none_iff.mpr ?_,
      met_phase.mpr (.inr ?_)⟩
    · exact Bool.not_eq_true _ ▸ fun queued => completes.new k new (.inr (.inr queued))
    · rw [turn]
      exact absorb_queued (resume_children ran new)

end

section

variable (sound : x.Sound w A) (closed : Closed w A) (placed : w.Placed)
include sound closed placed

/-- In the end there is the slice of every criterion that was ever started or queued. -/
theorem stored_of_met {n i : Nat} (timely : Timely A x.phase) (empty : (after w rules x n).queue = [])
    (elsewhere : Elsewhere A id) (met : (after w rules x i).phase.Met id) : (after w rules x n).Stored id := by
  have still : ∀ m, (after w rules x (i + m)).phase.Met id := by
    intro m
    induction m with
    | zero => exact met
    | succ m ih =>
      rw [← Nat.add_assoc, after_succ]
      exact met_next rules closed placed (after_sound rules closed placed sound (i + m))
        (after_timely rules closed placed sound timely (i + m)) elsewhere ih
  have last := still n
  rw [after_of_le empty (Nat.le_add_left n i)] at last
  obtain ⟨queued, active, _⟩ := (after_sound rules closed placed sound n).quiet empty
  rcases met_phase.mp last with (stored | active') | here
  · exact stored
  · rw [active] at active'
    cases active'
  · exact absurd here (not_queued_after sound closed placed empty (Nat.le_refl n) id)

/-- A criterion that is never in the queue is never started. -/
theorem unstarted_of_unqueued (rules : List CallRule) (unstarted : ¬x.Started id)
    (away : ∀ i, ¬(after w rules x i).Queued id) (n : Nat) : ¬(after w rules x n).Started id := by
  induction n with
  | zero => exact unstarted
  | succ n ih =>
    rw [after_succ]
    exact (after_sound rules closed placed sound n).unstarted_next placed ih fun takes => away n takes.queued

end

/-- A complete run stands at an empty queue. -/
theorem Returns.complete_eq {fuel : Nat} {s : SlicerState} (returns : Returns w rules fuel x .complete s) :
    ∃ n message, (after w rules x n).queue = [] ∧ s = (after w rules x n).state.note .debug message := by
  generalize whole : SlicerState.RunEnd.complete = ended at returns
  induction returns with
  | complete message empty => exact ⟨0, message, empty, rfl⟩
  | exhausted => cases whole
  | cancelled => cases whole
  | limited => cases whole
  | turn _ _ ih =>
    obtain ⟨n, message, empty, same⟩ := ih whole
    exact ⟨n + 1, message, by rwa [after_succ'], by rwa [after_succ']⟩

/-- In a complete run of a new slicer, where no two criteria share a name by accident, dropping criteria has no effect; a run
that is neither cancelled nor limited is complete. No criterion is ever marked to be passed over. When a scan ends, none of
the criteria that it brought about is in the queue, so none of those that it drops can be taken out of it, and all of them
are sliced in the end. A field write or a return has its slice in the end exactly if it was ever in the queue. -/
theorem retraction_idle (p : Program) (settings : Settings) (live : Bool) (rules : List CallRule) (ledger : Ledger)
    (roots : List Criterion) (asked : ∀ r ∈ roots, IsRoot (.ofProgram p settings live) r)
    (distinct : Distinct (Arises (.ofProgram p settings live) roots)) :
    let w := Workspace.ofProgram p settings live
    let x := ofRoots ledger roots
    (live = true → settings.maxCriteria ≤ 0 → ∃ s, ({ ledger } : SlicerState).run w rules roots = (.complete, s)) ∧
      ∀ s, ({ ledger } : SlicerState).run w rules roots = (.complete, s) →
        (∀ n, (after w rules x n).state.retracted = []) ∧
        (∀ n s₀ st children last s₁, Scans w (after w rules x n) s₀ st →
          s₀.scan w rules st = (children, .complete last, s₁) →
          ∀ e ∈ last.spawned, s₁.queued[e.2]? = none ∧ s.store.contains e.2 = true) ∧
        ∀ c, Arises w roots c → ¬c.AtCall →
          (s.store.contains c.id = true ↔ ∃ n, (after w rules x n).Queued c.id) := by
  intro w x
  have prepared : ∀ method b, w.body? method = some b → b.Prepared := fun _ _ => Workspace.body?_prepared
  have placed : w.Placed := fun method b found => (prepared method b found).placed
  have closed : Closed w (Arises w roots) := Arises.closed prepared asked distinct
  have sound : x.Sound w (Arises w roots) := ofRoots_sound closed ledger fun _ => .root
  have timely : Timely (Arises w roots) x.phase := ofRoots_timely closed ledger fun _ => .root
  refine ⟨fun running unlimited => ?_, fun s ran => ?_⟩
  · obtain ⟨_, _, _, ran⟩ := run_ends (w := w) running unlimited placed rules ledger roots
    exact ⟨_, ran⟩
  obtain ⟨n, message, empty, rfl⟩ := (returns_run ran).complete_eq
  refine ⟨fun i => (after_timely rules closed placed sound timely i).prompt.unmarked, ?_, ?_⟩
  · intro i s₀ st children last s₁ scans ended e member
    obtain ⟨elsewhere, away, met⟩ := scans.spawned (after_sound rules closed placed sound i) closed placed
      (after_timely rules closed placed sound timely i) ended e member
    rw [← after_succ] at met
    exact ⟨away, stored_of_met sound closed placed timely empty elsewhere met⟩
  · intro c arises away
    constructor
    · intro stored
      by_contra never
      have unstarted : ¬x.Started c.id := by
        obtain ⟨_, _, active, _, _, _, store⟩ := addRoots_rooted ledger roots
        simp [x, Started, Stored, ofRoots, append, active, store, SliceStore.contains]
      exact unstarted_of_unqueued sound closed placed rules unstarted (not_exists.mp never) n (.inl stored)
    · rintro ⟨i, queued⟩
      exact stored_of_met sound closed placed timely empty ⟨c, arises, rfl, away⟩ (met_phase.mpr (.inr queued))

/-- A number is hashed that a method chooses by a test of a field. -/
private def testing : Program :=
  { package := "a"
    classes := [
      some { name := "a.B", methods := [
        some { signature := "<a.B: void m()>", isStatic := true, units := [
          some (.assign "i1" "<a.C: int F>"), some (.branch "i1" "==" "0" 4), some (.assign "i0" "5"),
          some (.call "" "<lib.X: void x(int)>" ["i0"]), some .retVoid] }] },
      some { name := "a.C", fields := [{ signature := "<a.C: int F>", isStatic := true }], methods := [
        some { signature := "<a.C: void set(int)>", isStatic := true, units := [
          some (.param "i0" 0 "int"), some (.assign "<a.C: int F>" "i0"), some .retVoid] }] }] }

private def tested : Workspace := .ofProgram testing.finalize.1 {} true

private def testingRoots : List Criterion :=
  created tested "<a.B: void m()>" "<lib.X: void x(int)>" .invoke [0] 0

private def testedWrites : List Criterion :=
  created tested "<a.C: void set(int)>" "<a.C: int F>" .fieldWrite [] 1

/-- The roots and the writes have names of their own, nobody calls their methods, and they bring about nothing else. -/
private def TestedFacts (c : Criterion) : Prop :=
  c.kind ≠ .parameter ∧ callSites tested c.caller = [] ∧ (∀ k ∈ testingRoots ++ testedWrites, c.id = k.id → c = k) ∧
    ∀ u ∈ ((tested.body? c.caller).map Body.whole).getD [],
      (u.kind = .assignVariableField → c ∈ testingRoots ∧ u.pos = 0) ∧
      (u.kind = .assignVariableField → ∀ method ∈ tested.graph.accessorSignatures u.fieldSignature,
        ∀ k ∈ created tested method u.fieldSignature .fieldWrite [] (c.level + 1), k ∈ testingRoots ++ testedWrites) ∧
      (u.kind.isInvoke = true →
        ∀ k ∈ created tested u.signature u.signature .returned [] (c.level - 1), k ∈ testingRoots ++ testedWrites)

/-- The scan that the first turn starts ends, brings about the writes of the field at its first statement, and drops them. -/
private def dropsWrites (s : SlicerState) (c : Criterion) (b : Body) : Bool :=
  !s.store.contains c.id && !s.isActive c.id && decide (c.pos < b.size) && !b.dead.contains c.pos &&
    match (s.starting tested c).scan tested CallRule.standard (.start c b) with
    | (_, .complete last, _) =>
      last.spawned == testedWrites.map (fun k => (0, k.id)) &&
        (droppedFrom tested last (SliceLine.sort last.lines)).contains 0
    | _ => false

private def testingDrops : Bool :=
  match (ofRoots {} testingRoots).queue, (ofRoots {} testingRoots).state.turn (.start 0) with
  | [.start 0], .criterion c s => ((tested.body? c.caller).map (dropsWrites s c)).getD false
  | _, _ => false

set_option maxRecDepth 100000 in
/-- What is computed for the program: what its criteria bring about, what the first turn drops, and what the run stores. -/
private theorem tested_facts :
    (testedWrites ≠ [] ∧ ∀ c ∈ testingRoots ++ testedWrites, TestedFacts c) ∧ testingDrops = true ∧
      (({} : SlicerState).run tested CallRule.standard testingRoots).1 = .complete ∧
      ∀ k ∈ testedWrites, k.kind = .fieldWrite ∧
        (after tested CallRule.standard (ofRoots {} testingRoots) 1).state.store.contains k.id = false ∧
        (({} : SlicerState).run tested CallRule.standard testingRoots).2.store.contains k.id = true := by
  unfold TestedFacts
  decide +kernel

private theorem tested_arises {c : Criterion} (arises : Arises tested testingRoots c) :
    c ∈ testingRoots ++ testedWrites := by
  refine arises.holds_of (fun r given => List.mem_append_left _ given)
    (fun c here u visited => ((tested_facts.1.2 c here).2.2.2 u visited).2) (fun c here site inside => ?_)
    fun c _ here _ kind => ?_
  · rw [(tested_facts.1.2 c here).2.1] at inside
    cases inside
  · exact absurd kind (tested_facts.1.2 c here).1

private theorem testing_ends :
    ∃ s st children last s', Scans tested (ofRoots {} testingRoots) s st ∧
      s.scan tested CallRule.standard st = (children, .complete last, s') ∧
      last.spawned = testedWrites.map (fun k => (0, k.id)) ∧
      0 ∈ droppedFrom tested last (SliceLine.sort last.lines) := by
  have drops := tested_facts.2.1
  unfold testingDrops at drops
  split at drops
  · rename_i c s first turn
    cases found : tested.body? c.caller with
    | none => simp [found] at drops
    | some b =>
      simp only [found, Option.map_some, Option.getD_some, dropsWrites, Bool.and_eq_true, Bool.not_eq_true',
        decide_eq_true_eq] at drops
      obtain ⟨⟨⟨⟨unknown, idle⟩, inside⟩, alive⟩, drops⟩ := drops
      split at drops
      · rename_i children last s' ran
        simp only [Bool.and_eq_true, beq_iff_eq, List.contains_iff_mem] at drops
        exact ⟨_, _, children, last, s', .started first turn ⟨unknown, idle, found, inside, alive⟩, ran, drops.1, drops.2⟩
      · cases drops
  · cases drops

/-- The writes of the field are brought about at one statement, and dropped with it, before they are sliced; but they are
sliced. -/
theorem testing_retraction_idle :
    ∃ s, ({} : SlicerState).run tested CallRule.standard testingRoots = (.complete, s) ∧
      ∃ s₀ st children last s₁, Scans tested (ofRoots {} testingRoots) s₀ st ∧
        s₀.scan tested CallRule.standard st = (children, .complete last, s₁) ∧
        ∃ e ∈ last.spawned, e.1 ∈ droppedFrom tested last (SliceLine.sort last.lines) ∧ s.store.contains e.2 = true := by
  have asked : ∀ r ∈ testingRoots, IsRoot tested r := fun r given => ⟨_, _, _, given⟩
  have distinct : Distinct (Arises tested testingRoots) := by
    intro c k arises arises' name
    rw [(tested_facts.1.2 c (tested_arises arises)).2.2.1 k (tested_arises arises') name]
    exact ⟨rfl, rfl, rfl, rfl⟩
  obtain ⟨ends, idle⟩ := retraction_idle testing.finalize.1 {} true CallRule.standard {} testingRoots asked distinct
  obtain ⟨s, ran⟩ := ends rfl (by decide)
  obtain ⟨s₀, st, children, last, s₁, scans, ended, spawned, dropped⟩ := testing_ends
  obtain ⟨k, rest, some⟩ := List.exists_cons_of_ne_nil tested_facts.1.1
  have member : (0, k.id) ∈ last.spawned := by
    rw [spawned, some]
    exact List.mem_cons_self
  obtain ⟨_, stored, _⟩ := idle s ran
  exact ⟨s, ran, s₀, st, children, last, s₁, scans, ended, _, member, dropped,
    (stored 0 s₀ st children last s₁ scans ended _ member).2⟩

/-- A field is read at one statement only, which is dropped when the slice that it is part of ends, and until then the writes
of the field are not sliced. They are sliced in the end. -/
theorem testing_dropped_sliced :
    (∀ c, Arises tested testingRoots c → ∀ u ∈ ((tested.body? c.caller).map Body.whole).getD [],
      u.kind = .assignVariableField → c ∈ testingRoots ∧ u.pos = 0) ∧
    (∃ s st children last s', Scans tested (ofRoots {} testingRoots) s st ∧
      s.scan tested CallRule.standard st = (children, .complete last, s') ∧
      last.spawned = testedWrites.map (fun k => (0, k.id)) ∧
      0 ∈ droppedFrom tested last (SliceLine.sort last.lines)) ∧
    (({} : SlicerState).run tested CallRule.standard testingRoots).1 = .complete ∧
    ∃ k ∈ testedWrites, k.kind = .fieldWrite ∧
      (after tested CallRule.standard (ofRoots {} testingRoots) 1).state.store.contains k.id = false ∧
      (({} : SlicerState).run tested CallRule.standard testingRoots).2.store.contains k.id = true := by
  obtain ⟨k, rest, some⟩ := List.exists_cons_of_ne_nil tested_facts.1.1
  have member : k ∈ testedWrites := some ▸ List.mem_cons_self
  refine ⟨fun c arises u visited => ?_, testing_ends, tested_facts.2.2.1, k, member, tested_facts.2.2.2 k member⟩
  exact ((tested_facts.1.2 c (tested_arises arises)).2.2.2 u visited).1

end Worklist

end MisuseSlice
