import Mathlib.Data.List.Flatten
import MisuseSlice.Proofs.Criterion.Seeds
import MisuseSlice.Proofs.ValueSets
import MisuseSlice.Slicer.Run

/-! What looking at one statement can do, said once. A visit passes over the statement, retains it, asks
for the writers of a field, or asks for the returns of a callee. Besides the ledger and the tree of
criteria, only the last one touches the state of the slicer: it notes who waits for the returns. -/
namespace MisuseSlice

namespace Criterion

/-- The criteria that statements of a scan bring about: returns of a called method, or writes of a field
that is read. -/
inductive SpawnedBy (w : Workspace) (c : Criterion) : Criterion → Prop where
  | returned {b : Body} {u : Statement} {r : Criterion} (found : w.body? c.caller = some b)
      (calls : u ∈ b.whole) (call : u.kind.isInvoke = true) (low : w.settings.lowerLevel ≤ c.level - 1)
      (here : r ∈ created w u.signature u.signature .returned [] (c.level - 1)) : SpawnedBy w c r
  | written {b : Body} {u : Statement} {method : String} {k : Criterion} (found : w.body? c.caller = some b)
      (reads : u ∈ b.whole) (read : u.kind = .assignVariableField)
      (high : c.level + 1 ≤ w.settings.upperLevel)
      (accesses : method ∈ w.graph.accessorSignatures u.fieldSignature)
      (here : k ∈ created w method u.fieldSignature .fieldWrite [] (c.level + 1)) : SpawnedBy w c k

end Criterion

namespace Scan

/-- How a scan may go on from a statement that is retained and brings about nothing. -/
inductive Moves (w : Workspace) (rules : List CallRule) (st : Scan) (u : Statement) : Scan → Prop where
  | branch {st' : Scan} (kind : u.kind = .branchIf) (retained : st.atIf u = some st') : Moves w rules st u st'
  | jump {st' : Scan} (kind : u.kind = .goto) (retained : st.atJump w.info u = some st') :
      Moves w rules st u st'
  | switch (kind : u.kind = .switch) : Moves w rules st u st
  | plain {st' : Scan} (touched : st.touches u.operands = true) (retained : st.atPlain u = some st') :
      Moves w rules st u st'
  | call {ts : ValueSet} (kind : u.kind.isInvoke = true)
      (flow : CallFlow.apply rules
        { call := u, seed := st.criterion, targets := st.targets, isDevClass := w.program.isDevClass,
          isTrackedType := w.settings.isTrackedType } = (.retain, ts)) :
      Moves w rules st u { st with targets := ts }

end Scan

namespace Scan

variable {st st' : Scan} {u : Statement}

/-- A plain statement changes the values of interest and the parameters of a scan only. -/
theorem atPlain_frame (retained : st.atPlain u = some st') :
    ∃ targets params, st' = { st with targets, params } := by
  unfold atPlain at retained
  split at retained
  case h_1 => exact ⟨_, _, (Option.some.inj retained).symm⟩
  case h_4 | h_5 | h_6 =>
    split at retained
    · exact ⟨_, _, (Option.some.inj retained).symm⟩
    · cases retained
  all_goals exact ⟨_, _, (Option.some.inj retained).symm⟩

end Scan

namespace SlicerState

/-- What a visit can turn out to be. -/
inductive Visited (s : SlicerState) (w : Workspace) (rules : List CallRule) (st : Scan) (u : Statement) :
    Visit × SlicerState → Prop where
  | passed : Visited s w rules st u ({}, s)
  | retained {st' : Scan} (moves : st.Moves w rules u st') :
      Visited s w rules st u ({ retained := some st' }, s)
  | ascended (kind : u.kind = .assignVariableField) :
      Visited s w rules st u
        ({ retained := some (st.untrack u.left), spawned := (s.ascendField w (st.untrack u.left) u).1 },
          (s.ascendField w (st.untrack u.left) u).2)
  | descended {ts : ValueSet} (kind : u.kind.isInvoke = true)
      (flow : CallFlow.apply rules
        { call := u, seed := st.criterion, targets := st.targets, isDevClass := w.program.isDevClass,
          isTrackedType := w.settings.isTrackedType } = (.descend, ts)) :
      Visited s w rules st u (s.descend w { st with targets := ts } u st.targets)

variable {s : SlicerState} {w : Workspace} {rules : List CallRule} {st : Scan} {u : Statement}

private theorem visitCall_visited (kind : u.kind.isInvoke = true) :
    Visited s w rules st u (s.visitCall w rules st u) := by
  unfold visitCall
  dsimp only
  split
  · exact .passed
  · rename_i ts flow
    exact .retained (.call kind flow)
  · rename_i ts flow
    exact .descended kind flow

private theorem retained_or_passed {found : Option Scan}
    (moves : ∀ st', found = some st' → st.Moves w rules u st') :
    Visited s w rules st u ({ retained := found }, s) := by
  cases found with
  | none => exact .passed
  | some st' => exact .retained (moves st' rfl)

theorem visit_visited (s : SlicerState) (w : Workspace) (rules : List CallRule) (st : Scan)
    (u : Statement) : Visited s w rules st u (s.visit w rules st u) := by
  unfold visit
  split
  case h_5 kind => exact retained_or_passed fun st' retained => .branch kind retained
  case h_6 kind => exact retained_or_passed fun st' retained => .jump kind retained
  case h_7 kind => exact .retained (.switch kind)
  case h_8 =>
    split
    · exact .passed
    · rename_i touched
      have shared : st.touches u.operands = true := by simpa using touched
      split
      · rename_i kind
        exact .ascended kind
      · rename_i kind
        exact visitCall_visited (by simp [kind, Kind.isInvoke])
      · rename_i kind
        exact visitCall_visited (by simp [kind, Kind.isInvoke])
      · exact retained_or_passed fun st' retained => .plain shared retained
  all_goals exact .passed

/-- The states differ in the ledger and in the tree of criteria only. -/
def Recorded (s s' : SlicerState) : Prop := ∃ ledger tree, s' = { s with ledger, tree }

theorem Recorded.refl (s : SlicerState) : s.Recorded s := ⟨s.ledger, s.tree, rfl⟩

theorem Recorded.trans {s₁ s₂ s₃ : SlicerState} (first : s₁.Recorded s₂) (second : s₂.Recorded s₃) :
    s₁.Recorded s₃ := by
  obtain ⟨_, _, rfl⟩ := first
  obtain ⟨ledger, tree, rfl⟩ := second
  exact ⟨ledger, tree, rfl⟩

theorem note_recorded {level : LogLevel} {message : String} : s.Recorded (s.note level message) :=
  ⟨_, s.tree, rfl⟩

@[simp] theorem create_fst {caller target : String} {kind : SeedKind} {positions : List Int} {level : Int} :
    (s.create w caller target kind positions level).1 =
      Criterion.created w caller target kind positions level :=
  Ledger.create_fst

theorem create_recorded {caller target : String} {kind : SeedKind} {positions : List Int} {level : Int} :
    s.Recorded (s.create w caller target kind positions level).2 :=
  ⟨_, s.tree, rfl⟩

theorem link_recorded {child : Criterion} {source target : String} {directed : Bool} :
    s.Recorded (s.link child source target directed).2 := by
  unfold link
  split
  · dsimp only
    split
    · exact ⟨s.ledger, _, rfl⟩
    · exact .refl s
  · exact ⟨s.ledger, _, rfl⟩

theorem linkWriter_spec (node : String) (ks : List Criterion) (x : List Criterion × SlicerState) :
    x.2.Recorded (ks.foldl (linkWriter node) x).2 ∧
      List.Sublist (ks.foldl (linkWriter node) x).1 (x.1 ++ ks) := by
  induction ks generalizing x with
  | nil => exact ⟨.refl _, by simp⟩
  | cons k ks ih =>
    obtain ⟨recorded, part⟩ := ih (linkWriter node x k)
    refine ⟨link_recorded.trans recorded, part.trans ?_⟩
    rw [linkWriter]
    dsimp only
    split
    · simp
    · exact (List.sublist_cons_self k ks).append_left x.1

theorem linkWriters_spec (w : Workspace) (field node : String) (level : Int) (methods : List String)
    (x : List Criterion × SlicerState) :
    x.2.Recorded (methods.foldl (linkWriters w field node level) x).2 ∧
      List.Sublist (methods.foldl (linkWriters w field node level) x).1
        (x.1 ++ methods.flatMap fun m => Criterion.created w m field .fieldWrite [] level) := by
  induction methods generalizing x with
  | nil => exact ⟨.refl _, by simp⟩
  | cons m methods ih =>
    obtain ⟨linked, found⟩ := linkWriter_spec node (x.2.create w m field .fieldWrite [] level).1
      (x.1, (x.2.create w m field .fieldWrite [] level).2)
    have opened : x.2.Recorded (x.2.create w m field .fieldWrite [] level).2 := create_recorded
    have first : x.2.Recorded (linkWriters w field node level x m).2 := opened.trans linked
    have these : List.Sublist (linkWriters w field node level x m).1
        (x.1 ++ (x.2.create w m field .fieldWrite [] level).1) := found
    obtain ⟨recorded, part⟩ := ih (linkWriters w field node level x m)
    refine ⟨first.trans recorded, part.trans ?_⟩
    rw [create_fst] at these
    rw [List.flatMap_cons, ← List.append_assoc]
    exact these.append_right _

/-- Asking for the writers of a field gives some of those that the methods hold that access the field. -/
theorem ascendField_spec (s : SlicerState) (w : Workspace) (st : Scan) (u : Statement) :
    s.Recorded (s.ascendField w st u).2 ∧
      ((s.ascendField w st u).1 = [] ∨ st.criterion.level + 1 ≤ w.settings.upperLevel ∧
        List.Sublist (s.ascendField w st u).1
          ((w.graph.accessorSignatures u.fieldSignature).flatMap fun m =>
            Criterion.created w m u.fieldSignature .fieldWrite [] (st.criterion.level + 1))) := by
  unfold ascendField
  dsimp only
  split
  · exact ⟨.refl s, .inl rfl⟩
  · rename_i condition
    simp only [Bool.or_eq_true, decide_eq_true_eq, not_or, Int.not_lt] at condition
    obtain ⟨recorded, part⟩ := linkWriters_spec w u.fieldSignature ("field:" ++ u.fieldSignature)
      (st.criterion.level + 1)
      ((w.graph.accessorSignatures u.fieldSignature).filter (· != st.criterion.caller)) ([], _)
    refine ⟨Recorded.trans ⟨s.ledger, _, rfl⟩ recorded, .inr ⟨condition.1.1, part.trans ?_⟩⟩
    rw [List.nil_append]
    exact List.filter_sublist.flatMap _

/-- The criterion is sliced, under way or queued. -/
def Knows (s : SlicerState) (id : String) : Prop :=
  s.store.contains id = true ∨ id ∈ s.active ∨ s.queued.contains id = true

theorem Recorded.knows_iff {s' : SlicerState} {id : String} (recorded : s.Recorded s') : s'.Knows id ↔ s.Knows id := by
  obtain ⟨_, _, rfl⟩ := recorded
  exact Iff.rfl

/-- Only a criterion that nothing is known of has to be queued. -/
theorem link_new {child : Criterion} {source target : String} {directed : Bool}
    (fresh : (s.link child source target directed).1 = true) : ¬s.Knows child.id := by
  unfold link at fresh
  split at fresh
  · cases fresh
  · rename_i unstored
    simp only [isActive, isQueued, Bool.and_eq_true, Bool.not_eq_true', List.contains_eq_mem,
      decide_eq_false_iff_not] at fresh
    rintro (stored | active | queued)
    · exact unstored stored
    · exact fresh.1 active
    · rw [fresh.2] at queued
      cases queued

theorem linkWriter_new (node : String) (ks : List Criterion) (x : List Criterion × SlicerState) :
    ∀ k ∈ (ks.foldl (linkWriter node) x).1, k ∈ x.1 ∨ ¬x.2.Knows k.id := by
  induction ks generalizing x with
  | nil => exact fun k member => .inl member
  | cons k ks ih =>
    intro k' member
    have linked : x.2.Recorded (linkWriter node x k).2 := link_recorded
    rcases ih (linkWriter node x k) k' member with here | unknown
    · unfold linkWriter at here
      dsimp only at here
      split at here
      · rename_i fresh
        rcases List.mem_append.mp here with old | new
        · exact .inl old
        · exact .inr (List.mem_singleton.mp new ▸ link_new fresh)
      · exact .inl here
    · exact .inr fun known => unknown (linked.knows_iff.mpr known)

theorem linkWriters_new (w : Workspace) (field node : String) (level : Int) (methods : List String)
    (x : List Criterion × SlicerState) :
    ∀ k ∈ (methods.foldl (linkWriters w field node level) x).1, k ∈ x.1 ∨ ¬x.2.Knows k.id := by
  induction methods generalizing x with
  | nil => exact fun k member => .inl member
  | cons m methods ih =>
    intro k member
    have opened : x.2.Recorded (x.2.create w m field .fieldWrite [] level).2 := create_recorded
    have linked := (linkWriter_spec node (x.2.create w m field .fieldWrite [] level).1
      (x.1, (x.2.create w m field .fieldWrite [] level).2)).1
    have recorded : x.2.Recorded (linkWriters w field node level x m).2 := opened.trans linked
    rcases ih (linkWriters w field node level x m) k member with here | unknown
    · exact (linkWriter_new node _ _ k here).imp_right fun unknown known => unknown (opened.knows_iff.mpr known)
    · exact .inr fun known => unknown (recorded.knows_iff.mpr known)

/-- Nothing is known of the writers of a field that have to be queued. -/
theorem ascendField_new (s : SlicerState) (w : Workspace) (st : Scan) (u : Statement) :
    ∀ k ∈ (s.ascendField w st u).1, ¬s.Knows k.id := by
  unfold ascendField
  dsimp only
  split
  · exact fun _ none => absurd none List.not_mem_nil
  · exact fun k member => (linkWriters_new w _ _ _ _ _ k member).resolve_left List.not_mem_nil

/-- What a suspension knows once return criteria were added to it: those that it waits for were neither
sliced nor under way, and are noted to be waited for. -/
structure Awaits (s : SlicerState) (st : Scan) (args : List (Int × Value)) (returns : List Criterion)
    (d : Suspension) (s' : SlicerState) : Prop where
  scan : d.scan = st
  added : d.added = args
  state : ∃ tree descents, s' = { s with tree, descents }
  noted : ∀ r : String,
    s'.descents[r]? = if r ∈ d.waiting then some st.criterion.id else s.descents[r]?
  quiet : d.waiting = [] → s'.descents = s.descents
  fresh : ∀ r ∈ d.waiting, (∃ k ∈ returns, k.id = r) ∧ s.store.contains r = false ∧ r ∉ s.active ∧
    s.queued.contains r = false

theorem Awaits.addReturn {args : List (Int × Value)} {returns : List Criterion}
    {d : Suspension} {s' : SlicerState} {r : Criterion} (awaits : s.Awaits st args returns d s')
    (member : r ∈ returns) :
    s.Awaits st args returns (s'.addReturn d r).1 (s'.addReturn d r).2 := by
  obtain ⟨tree, descents, rfl⟩ := awaits.state
  unfold SlicerState.addReturn
  dsimp only
  split
  · refine ⟨awaits.scan, awaits.added, ?_, ?_, ?_, awaits.fresh⟩
    · split <;> exact ⟨_, descents, rfl⟩
    · intro name
      rw [← awaits.noted name]
      split <;> rfl
    · intro none
      rw [← awaits.quiet none]
      split <;> rfl
  · rename_i unknown
    split
    · exact ⟨awaits.scan, awaits.added, ⟨_, descents, rfl⟩, awaits.noted, awaits.quiet, awaits.fresh⟩
    · rename_i idle
      simp only [isActive, isQueued, Bool.or_eq_true, not_or, Bool.not_eq_true] at idle
      have absent : s.store.contains r.id = false := by
        rw [SliceStore.contains, Std.TreeMap.contains_eq_isSome_getElem?]
        exact Option.isSome_eq_false_iff.mpr (Option.isNone_iff_eq_none.mpr unknown)
      refine ⟨awaits.scan, awaits.added, ⟨_, _, rfl⟩, ?_, by simp, ?_⟩
      · intro name
        have before := awaits.noted name
        dsimp only at before
        simp only [Std.TreeMap.getElem?_insert, Std.compare_eq_iff_eq, List.mem_append,
          List.mem_singleton, before, awaits.scan]
        by_cases same : r.id = name
        · simp [same]
        · simp [same, Ne.symm same]
      · intro name waiting
        rcases List.mem_append.mp waiting with old | new
        · exact awaits.fresh name old
        · obtain rfl := List.mem_singleton.mp new
          exact ⟨⟨r, member, rfl⟩, absent, by simpa using idle.1, idle.2⟩

theorem Awaits.recorded {args : List (Int × Value)} {returns : List Criterion} {d : Suspension}
    {s' : SlicerState} (awaits : s.Awaits st args returns d s') (none : d.waiting = []) : s.Recorded s' := by
  obtain ⟨tree, descents, rfl⟩ := awaits.state
  obtain rfl := awaits.quiet none
  exact ⟨s.ledger, tree, rfl⟩

theorem addReturns_awaits (s : SlicerState) (st : Scan) (args : List (Int × Value))
    (returns : List Criterion) :
    s.Awaits st args returns (s.addReturns { scan := st, added := args } returns).1
      (s.addReturns { scan := st, added := args } returns).2 := by
  have fold : ∀ (rest : List Criterion) (x : Suspension × SlicerState), (∀ r ∈ rest, r ∈ returns) →
      s.Awaits st args returns x.1 x.2 →
      s.Awaits st args returns (rest.foldl (fun x r => x.2.addReturn x.1 r) x).1
        (rest.foldl (fun x r => x.2.addReturn x.1 r) x).2 := by
    intro rest
    induction rest with
    | nil => exact fun _ _ awaits => awaits
    | cons r rest ih =>
      intro x inside awaits
      exact ih _ (fun r' member => inside r' (List.mem_cons_of_mem _ member))
        (awaits.addReturn (inside r List.mem_cons_self))
  refine fold returns _ (fun _ member => member) ⟨rfl, rfl, ⟨s.tree, s.descents, rfl⟩, ?_, fun _ => rfl, ?_⟩
  · simp
  · simp

/-- What asking for the returns of a callee can turn out to be. -/
inductive Descended (s : SlicerState) (w : Workspace) (st : Scan) (u : Statement) (before : ValueSet) :
    Visit × SlicerState → Prop where
  | ignored {s' : SlicerState} (recorded : s.Recorded s') :
      Descended s w st u before ({ retained := some st }, s')
  | narrowed {d : Suspension} {s' : SlicerState} (recorded : s.Recorded s') (scan : d.scan = st)
      (added : d.added = argsAdded before st.targets u) :
      Descended s w st u before ({ retained := some d.narrow }, s')
  | suspended {d : Suspension} {s₁ s' : SlicerState} (recorded : s.Recorded s₁)
      (low : w.settings.lowerLevel ≤ st.criterion.level - 1)
      (awaits : s₁.Awaits st (argsAdded before st.targets u)
        (Criterion.created w u.signature u.signature .returned [] (st.criterion.level - 1)) d s')
      (waits : d.waiting ≠ []) :
      Descended s w st u before
        ({ retained := some st
           spawned := (Criterion.created w u.signature u.signature .returned []
             (st.criterion.level - 1)).filter fun r => d.waiting.contains r.id
           suspension := some d }, s')

theorem descend_descended (s : SlicerState) (w : Workspace) (st : Scan) (u : Statement)
    (before : ValueSet) : Descended s w st u before (s.descend w st u before) := by
  unfold descend
  dsimp only
  split
  · exact .ignored (.refl s)
  · rename_i condition
    simp only [Bool.or_eq_true, decide_eq_true_eq, not_or, Int.not_lt] at condition
    have opened : s.Recorded (s.create w u.signature u.signature .returned [] (st.criterion.level - 1)).2 :=
      create_recorded
    rw [create_fst]
    generalize (s.create w u.signature u.signature .returned [] (st.criterion.level - 1)).2 = s₁ at opened ⊢
    split
    · exact .ignored opened
    · have awaits := addReturns_awaits s₁ st (argsAdded before st.targets u)
        (Criterion.created w u.signature u.signature .returned [] (st.criterion.level - 1))
      split
      · rename_i none
        exact .narrowed (opened.trans (awaits.recorded (List.isEmpty_iff.mp none))) awaits.scan awaits.added
      · rename_i some
        exact .suspended opened condition.1.1 awaits (by simpa using some)

end SlicerState

namespace Scan

/-- The scan goes on: it may have other values of interest and stands further up in the same body. -/
structure Advances (st st' : Scan) : Prop where
  same : ∃ next targets jumps params, st' = { st with next, targets, jumps, params }
  grows : st.next ≤ st'.next

theorem advances_targets (st : Scan) (targets : ValueSet) : st.Advances { st with targets } :=
  ⟨⟨st.next, targets, st.jumps, st.params, rfl⟩, Nat.le_refl _⟩

theorem Moves.advances {w : Workspace} {rules : List CallRule} {st st' : Scan} {u : Statement}
    (moves : st.Moves w rules u st') (here : u.pos + st.next = st.body.size) : st.Advances st' := by
  cases moves with
  | branch _ retained =>
    unfold atIf at retained
    split at retained
    · split at retained
      · cases retained
        exact advances_targets st _
      · cases retained
    · split at retained
      · cases retained
      · cases retained
        exact advances_targets st _
  | jump _ retained =>
    unfold atJump at retained
    dsimp only at retained
    split at retained
    · cases retained
    · split at retained
      · rename_i p _
        cases retained
        split
        · rename_i before
          refine ⟨⟨_, st.targets, _, st.params, rfl⟩, ?_⟩
          simp only [Body.mirror]
          omega
        · exact ⟨⟨st.next, st.targets, _, st.params, rfl⟩, Nat.le_refl _⟩
      · cases retained
        exact ⟨⟨st.next, st.targets, _, st.params, rfl⟩, Nat.le_refl _⟩
  | switch => exact advances_targets st st.targets
  | plain _ retained =>
    obtain ⟨targets, params, rfl⟩ := atPlain_frame retained
    exact ⟨⟨st.next, targets, st.jumps, params, rfl⟩, Nat.le_refl _⟩
  | call => exact advances_targets st _

end Scan

namespace SlicerState

variable {s : SlicerState} {w : Workspace} {rules : List CallRule} {st : Scan} {u : Statement}

/-- The scan goes on after a visit. -/
structure GoesOn (s : SlicerState) (w : Workspace) (st : Scan) (v : Visit) (s' : SlicerState) : Prop where
  recorded : s.Recorded s'
  free : v.suspension = none
  advances : ∀ st', v.retained = some st' → st.Advances st'
  spawned : ∀ k ∈ v.spawned, Criterion.SpawnedBy w st.criterion k
  few : v.spawned.length ≤ w.spawnBound
  new : ∀ k ∈ v.spawned, ¬s.Knows k.id

/-- The scan is suspended by a visit. The criteria that it waits for are new: they are among those spawned,
and nothing but this suspension is noted to wait for them. -/
structure StopsAt (s : SlicerState) (w : Workspace) (st : Scan) (v : Visit) (d : Suspension)
    (s' : SlicerState) : Prop where
  state : ∃ ledger tree descents, s' = { s with ledger, tree, descents }
  suspension : v.suspension = some d
  advances : st.Advances d.scan
  next : d.scan.next = st.next
  spawned : ∀ k ∈ v.spawned, Criterion.SpawnedBy w st.criterion k
  few : v.spawned.length ≤ w.spawnBound
  noted : ∀ r : String, s'.descents[r]? = if r ∈ d.waiting then some st.criterion.id else s.descents[r]?
  waits : d.waiting ≠ []
  fresh : ∀ r ∈ d.waiting, (∃ k ∈ v.spawned, k.id = r) ∧ s.store.contains r = false ∧ r ∉ s.active ∧
    s.queued.contains r = false
  only : ∀ k ∈ v.spawned, k.id ∈ d.waiting

private theorem one_pass_le : w.size ≤ w.spawnBound :=
  Nat.le_mul_of_pos_left _ (Nat.succ_pos _)

private theorem ascendField_goesOn (found : w.body? st.criterion.caller = some st.body)
    (member : u ∈ st.body.whole) (kind : u.kind = .assignVariableField) :
    s.GoesOn w st
      { retained := some (st.untrack u.left), spawned := (s.ascendField w (st.untrack u.left) u).1 }
      (s.ascendField w (st.untrack u.left) u).2 := by
  obtain ⟨recorded, spawned⟩ := ascendField_spec s w (st.untrack u.left) u
  refine ⟨recorded, rfl, fun st' same => Option.some.inj same ▸ st.advances_targets _, ?_, ?_,
    ascendField_new s w (st.untrack u.left) u⟩
  · intro k here
    rcases spawned with none | ⟨high, part⟩
    · rw [none] at here
      cases here
    · obtain ⟨method, accesses, created⟩ := List.mem_flatMap.mp (part.subset here)
      exact .written found member kind high accesses created
  · rcases spawned with none | ⟨_, part⟩
    · rw [none]
      exact Nat.zero_le _
    · calc (s.ascendField w (st.untrack u.left) u).1.length
        _ ≤ _ := part.length_le
        _ ≤ (w.graph.accessorSignatures u.fieldSignature).length * w.size :=
          Workspace.length_flatMap_le _ _ fun _ _ => Workspace.length_created_le
        _ ≤ (2 * w.links + 1) * w.size := by
          have few : (w.graph.accessorSignatures u.fieldSignature).length ≤ w.links :=
            Workspace.length_accessorSignatures_le
          exact Nat.mul_le_mul_right _ (by omega)

/-- A visit lets the scan go on or suspends it. -/
theorem visit_spec (s : SlicerState) (rules : List CallRule) (st : Scan)
    (found : w.body? st.criterion.caller = some st.body) (member : u ∈ st.body.whole)
    (here : u.pos + st.next = st.body.size) :
    s.GoesOn w st (s.visit w rules st u).1 (s.visit w rules st u).2 ∨
      ∃ d, s.StopsAt w st (s.visit w rules st u).1 d (s.visit w rules st u).2 := by
  have visited := visit_visited s w rules st u
  generalize s.visit w rules st u = result at visited ⊢
  cases visited with
  | passed => exact .inl ⟨.refl s, rfl, by simp, by simp, Nat.zero_le _, by simp⟩
  | retained moves =>
    exact .inl ⟨.refl s, rfl, fun st' same => Option.some.inj same ▸ moves.advances here, by simp,
      Nat.zero_le _, by simp⟩
  | ascended kind => exact .inl (ascendField_goesOn found member kind)
  | descended kind flow =>
    rename_i ts
    have descended := descend_descended s w { st with targets := ts } u st.targets
    generalize s.descend w { st with targets := ts } u st.targets = result at descended ⊢
    cases descended with
    | ignored recorded =>
      exact .inl ⟨recorded, rfl, fun st' same => Option.some.inj same ▸ st.advances_targets ts, by simp,
        Nat.zero_le _, by simp⟩
    | @narrowed d _ recorded scan _ =>
      refine .inl ⟨recorded, rfl, fun st' same => ?_, by simp, Nat.zero_le _, by simp⟩
      obtain rfl := Option.some.inj same
      rw [Suspension.narrow, scan]
      exact st.advances_targets _
    | @suspended d s₁ _ recorded low awaits waits =>
      obtain ⟨_, _, rfl⟩ := recorded
      obtain ⟨tree, descents, rfl⟩ := awaits.state
      refine .inr ⟨d, ⟨_, tree, descents, rfl⟩, rfl, awaits.scan ▸ st.advances_targets ts,
        awaits.scan ▸ rfl, ?_, ?_, awaits.noted, waits, ?_, fun k spawned => by simpa using (List.mem_filter.mp spawned).2⟩
      · intro k spawned
        exact .returned found member kind low (List.mem_filter.mp spawned).1
      · exact (List.length_filter_le _ _).trans (Workspace.length_created_le.trans one_pass_le)
      · intro r waiting
        obtain ⟨⟨k, created, rfl⟩, unknown⟩ := awaits.fresh r waiting
        exact ⟨⟨k, List.mem_filter.mpr ⟨created, by simpa using waiting⟩, rfl⟩, unknown⟩

end SlicerState

end MisuseSlice
