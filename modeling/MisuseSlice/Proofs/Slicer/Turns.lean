import Mathlib.Logic.Relation
import MisuseSlice.Proofs.Slicer.Scans
import MisuseSlice.Proofs.Slicer.Worklist

/-! A turn as a sequence of small moves. Each move says all that it does to the queue and the books of the
slicer, so an invariant of runs is checked move by move and never opens the functions of a turn again. -/
namespace MisuseSlice

namespace Criterion

/-- The criteria of the calls of the method of a criterion. -/
def CalledBy (w : Workspace) (c k : Criterion) : Prop :=
  c.level + 1 ≤ w.settings.upperLevel ∧ ∃ site ∈ SlicerState.callSites w c.caller, ∃ params,
    k ∈ created w site.1 site.2 .parameter params (c.level + 1)

end Criterion

namespace Suspension

variable {d : Suspension} {id r : String} {params : List Int}

/-- Told of a criterion, a suspended scan waits for the others. -/
theorem mem_waiting_release : r ∈ (d.release id params).waiting ↔ r ∈ d.waiting ∧ r ≠ id := by
  simp only [release, List.mem_filter, bne_iff_ne]

/-- A scan that waits for nothing any more waited for nothing else. -/
theorem eq_of_waiting_release (last : (d.release id params).waiting = []) (waiting : r ∈ d.waiting) : r = id := by
  by_contra other
  have kept : r ∈ (d.release id params).waiting := mem_waiting_release.mpr ⟨waiting, other⟩
  rw [last] at kept
  cases kept

end Suspension

/-- A run in the middle of a turn. -/
structure Phase where
  queue : List Task
  state : SlicerState
  /-- The scan that the turn works on. -/
  busy : Option Scan := none
  /-- A criterion that left the queue or ended, while what waits for it is not told. -/
  due : Option Criterion := none
  /-- A criterion that ended and is not stored. -/
  ending : Option Criterion := none
  /-- The criteria brought about that are not queued. -/
  pending : List Criterion := []
  /-- How many criteria the end of a scan may still bring about. -/
  credit : Nat := 0

namespace SlicerState

/-- The states differ in what is reported only. -/
def Reports (s s' : SlicerState) : Prop :=
  ∃ ledger tree stats retainedParams, s' = { s with ledger, tree, stats, retainedParams }

theorem Recorded.reports {s s' : SlicerState} (recorded : s.Recorded s') : s.Reports s' := by
  obtain ⟨ledger, tree, rfl⟩ := recorded
  exact ⟨ledger, tree, s.stats, s.retainedParams, rfl⟩

/-- The scan of a criterion is about to start: its body is open, and the criterion counts. -/
def starting (s : SlicerState) (w : Workspace) (c : Criterion) : SlicerState :=
  { s with
    ledger := (s.ledger.openBody w c.caller).2
    stats := { s.stats with processed := s.stats.processed + 1 }
    active := c.id :: s.active }

/-- A criterion is scanned in its turn: it is neither known nor under way, and its seed can run. -/
structure Begins (s : SlicerState) (w : Workspace) (c : Criterion) (b : Body) : Prop where
  unknown : s.store.contains c.id = false
  idle : s.isActive c.id = false
  found : w.body? c.caller = some b
  inside : c.pos < b.size
  alive : b.dead.contains c.pos = false

theorem Begins.inactive {s : SlicerState} {w : Workspace} {c : Criterion} {b : Body} (begins : s.Begins w c b) :
    c.id ∉ s.active := by
  simpa [isActive] using begins.idle

/-- Beginning with a criterion that is scanned is going on with its scan. -/
theorem Begins.begin_eq {s : SlicerState} {w : Workspace} {rules : List CallRule} {c : Criterion} {b : Body}
    (begins : s.Begins w c b) : s.begin w rules c = (s.starting w c).resume w rules (.start c b) := by
  obtain ⟨unknown, idle, found, inside, alive⟩ := begins
  have opened : (s.ledger.openBody w c.caller).1 = some b := Ledger.openBody_fst.trans found
  unfold begin starting
  simp only [unknown, idle, Bool.or_self, Bool.false_eq_true, ↓reduceIte, opened, Nat.not_le.mpr inside, alive]

/-- What becomes of a criterion whose turn comes. -/
inductive Begun (s : SlicerState) (w : Workspace) (rules : List CallRule) (c : Criterion) :
    StepResult × SlicerState → Prop where
  | passed (known : s.store.contains c.id = true ∨ c.id ∈ s.active) : Begun s w rules c ({}, s.passOver c)
  /-- It ends without a scan. -/
  | closed {ledger : Ledger} {stats : SliceStats} (infeasible : Bool) (unknown : s.store.contains c.id = false)
      (inactive : c.id ∉ s.active) (counted : stats.processed = s.stats.processed + 1) :
      Begun s w rules c (({ s with ledger, stats } : SlicerState).close w c infeasible)
  | scanned {b : Body} (begins : s.Begins w c b) : Begun s w rules c ((s.starting w c).resume w rules (.start c b))

theorem begin_begun (s : SlicerState) (w : Workspace) (rules : List CallRule) (c : Criterion) :
    s.Begun w rules c (s.begin w rules c) := by
  by_cases known : (s.store.contains c.id || s.isActive c.id) = true
  · have passes : s.begin w rules c = ({}, s.passOver c) := by
      unfold begin
      rw [if_pos known]
    rw [passes]
    exact .passed (by simpa [isActive] using known)
  · simp only [Bool.or_eq_true, not_or, Bool.not_eq_true] at known
    obtain ⟨unknown, idle⟩ := known
    have inactive : c.id ∉ s.active := by simpa [isActive] using idle
    have opened : (s.ledger.openBody w c.caller).1 = w.body? c.caller := Ledger.openBody_fst
    cases body : w.body? c.caller with
    | none =>
      simp only [begin, unknown, idle, Bool.or_self, Bool.false_eq_true, ↓reduceIte, opened, body]
      exact .closed false unknown inactive rfl
    | some b =>
      by_cases inside : c.pos < b.size
      · cases dead : b.dead.contains c.pos with
        | false =>
          have begins : s.Begins w c b := ⟨unknown, idle, body, inside, dead⟩
          rw [begins.begin_eq]
          exact .scanned begins
        | true =>
          simp only [begin, unknown, idle, Bool.or_self, Bool.false_eq_true, ↓reduceIte, opened, body,
            Nat.not_le.mpr inside, dead]
          exact .closed true unknown inactive rfl
      · simp only [begin, unknown, idle, Bool.or_self, Bool.false_eq_true, ↓reduceIte, opened, body,
          Nat.not_lt.mp inside]
        exact .closed false unknown inactive rfl

/-- What telling that a criterion ended can do. -/
inductive Released (s : SlicerState) (id : String) (params : List Int) : SlicerState × Bool → Prop where
  | unawaited (nobody : s.descents[id]? = none) : Released s id params (s, false)
  | lost {parent : String} (awaited : s.descents[id]? = some parent)
      (gone : s.suspensions[parent]? = none) :
      Released s id params ({ s with descents := s.descents.erase id }, true)
  | woken {parent : String} {d : Suspension} (awaited : s.descents[id]? = some parent)
      (found : s.suspensions[parent]? = some d) (last : (d.release id params).waiting = []) :
      Released s id params
        ({ s with descents := s.descents.erase id, suspensions := s.suspensions.erase parent
                  ready := s.ready ++ [(d.release id params).narrow] }, true)
  | still {parent : String} {d : Suspension} (awaited : s.descents[id]? = some parent)
      (found : s.suspensions[parent]? = some d) (more : (d.release id params).waiting ≠ []) :
      Released s id params
        ({ s with descents := s.descents.erase id
                  suspensions := s.suspensions.insert parent (d.release id params) }, true)

theorem release_released (s : SlicerState) (id : String) (params : List Int) :
    Released s id params (s.release id params) := by
  unfold release
  split
  · rename_i nobody
    exact .unawaited nobody
  · rename_i parent awaited
    dsimp only
    split
    · rename_i gone
      exact .lost awaited gone
    · rename_i d found
      split
      · rename_i last
        exact .woken awaited found (List.isEmpty_iff.mp last)
      · rename_i more
        exact .still awaited found (by simpa using more)

/-- Keeping all arguments concerns one suspension, and not its scan. -/
theorem keepAll_cases (s : SlicerState) (id : String) :
    s.keepAll id = s ∨ ∃ parent d, s.suspensions[parent]? = some d ∧
      s.keepAll id = { s with suspensions := s.suspensions.insert parent d.keepAll } := by
  unfold keepAll
  split
  · exact .inl rfl
  · split
    · exact .inl rfl
    · rename_i d found
      exact .inr ⟨_, d, found, rfl⟩

/-- Telling that a criterion ended concerns those that wait only. -/
theorem release_frame (s : SlicerState) (id : String) (params : List Int) :
    ∃ descents suspensions ready, (s.release id params).1 = { s with descents, suspensions, ready } := by
  have released := s.release_released id params
  generalize s.release id params = result at released ⊢
  cases released <;> exact ⟨_, _, _, rfl⟩

section

variable (s : SlicerState) (id : String) (params : List Int)

@[simp] theorem release_active : (s.release id params).1.active = s.active := by
  obtain ⟨_, _, _, same⟩ := s.release_frame id params
  rw [same]

@[simp] theorem release_store : (s.release id params).1.store = s.store := by
  obtain ⟨_, _, _, same⟩ := s.release_frame id params
  rw [same]

@[simp] theorem release_queued : (s.release id params).1.queued = s.queued := by
  obtain ⟨_, _, _, same⟩ := s.release_frame id params
  rw [same]

@[simp] theorem keepAll_active : (s.keepAll id).active = s.active := by
  rcases s.keepAll_cases id with same | ⟨_, _, _, same⟩ <;> rw [same]

@[simp] theorem keepAll_store : (s.keepAll id).store = s.store := by
  rcases s.keepAll_cases id with same | ⟨_, _, _, same⟩ <;> rw [same]

@[simp] theorem keepAll_queued : (s.keepAll id).queued = s.queued := by
  rcases s.keepAll_cases id with same | ⟨_, _, _, same⟩ <;> rw [same]

end

/-- Dropping criteria marks some of them as retracted. -/
theorem retract_frame (s : SlicerState) (ids : List String) :
    ∃ tree retracted stats, s.retract ids = { s with tree, retracted, stats } ∧
      ∀ id ∈ retracted, id ∈ s.retracted ∨ id ∈ ids := by
  unfold retract
  induction ids generalizing s with
  | nil => exact ⟨s.tree, s.retracted, s.stats, rfl, fun id member => .inl member⟩
  | cons id ids ih =>
    rw [List.foldl_cons]
    obtain ⟨tree, retracted, stats, same, origin⟩ := ih _
    refine ⟨tree, retracted, stats, same, ?_⟩
    intro name member
    rcases origin name member with earlier | later
    · dsimp only at earlier
      split at earlier
      · rcases List.mem_cons.mp earlier with rfl | kept
        · exact .inr List.mem_cons_self
        · exact .inl (List.mem_filter.mp kept).1
      · exact .inl earlier
    · exact .inr (List.mem_cons_of_mem _ later)

section

variable (s : SlicerState) (ids : List String)

@[simp] theorem retract_active : (s.retract ids).active = s.active := by
  obtain ⟨_, _, _, same, _⟩ := s.retract_frame ids
  rw [same]

@[simp] theorem retract_store : (s.retract ids).store = s.store := by
  obtain ⟨_, _, _, same, _⟩ := s.retract_frame ids
  rw [same]

@[simp] theorem retract_queued : (s.retract ids).queued = s.queued := by
  obtain ⟨_, _, _, same, _⟩ := s.retract_frame ids
  rw [same]

end

end SlicerState

namespace Phase

/-- How a turn opens: a task is taken from the queue. -/
inductive Opens : Task → Phase → Phase → Prop where
  /-- The ticket of a criterion that was queued again or merged stands for nothing. -/
  | drop {t : Nat} {queue : List Task} {s : SlicerState}
      (stale : ∀ c, s.tickets[t]? = some c → s.queued[c.id]? ≠ some t) :
      Opens (.start t) { queue := .start t :: queue, state := s } { queue, state := s }
  | take {t : Nat} {c : Criterion} {queue : List Task} {s : SlicerState}
      (ticket : s.tickets[t]? = some c) (queued : s.queued[c.id]? = some t) :
      Opens (.start t) { queue := .start t :: queue, state := s }
        { queue, state := { s with queued := s.queued.erase c.id }, due := some c }
  | pick {st : Scan} {queue : List Task} {s : SlicerState} :
      Opens (.resume st) { queue := .resume st :: queue, state := s } { queue, state := s, busy := some st }

/-- The moves of a turn that use up a part of a scan. -/
inductive Spends (w : Workspace) : Phase → Phase → Prop where
  | suspend {queue : List Task} {s s' : SlicerState} {st : Scan} {more : List Criterion} {d : Suspension}
      (suspends : s.Suspends w st more d s') :
      Spends w { queue, state := s, busy := some st }
        { queue, pending := more
          state := { s' with suspensions := s'.suspensions.insert st.criterion.id d } }
  /-- A scan ends; criteria that it brought about may be dropped. -/
  | close {queue : List Task} {s : SlicerState} {st : Scan} {pending : List Criterion} {ids : List String}
      (spawned : ∀ id ∈ ids, ∃ e ∈ st.spawned, e.2 = id) :
      Spends w { queue, state := s, busy := some st, pending }
        { queue, pending, due := some st.criterion, ending := some st.criterion, credit := w.spawnBound
          state := { s with active := s.active.filter (· != st.criterion.id) }.retract ids }

/-- The other moves of a turn. -/
inductive Keeps (w : Workspace) : Phase → Phase → Prop where
  | report {p : Phase} {s : SlicerState} (reports : p.state.Reports s) : Keeps w p { p with state := s }
  /-- What waits for a criterion is told that it ended, or is under way. -/
  | release {p : Phase} {c : Criterion} (params : List Int) (due : p.due = some c)
      (answered : p.ending = some c ∨ p.state.store.contains c.id = true ∨ c.id ∈ p.state.active) :
      Keeps w p { p with due := none, state := (p.state.release c.id params).1 }
  | keepAll {p : Phase} {id : String} : Keeps w p { p with state := p.state.keepAll id }
  /-- The turn of a criterion that was dropped comes: what waits for it is told. -/
  | forgive {p : Phase} {c : Criterion} (due : p.due = some c) (retracted : c.id ∈ p.state.retracted) :
      Keeps w p
        { p with
          due := none
          state :=
            ({ p.state with retracted := p.state.retracted.filter (· != c.id) }.release c.id []).1 }
  /-- The scan of a criterion starts. -/
  | start {p : Phase} {c : Criterion} {b : Body} (due : p.due = some c) (idle : p.busy = none)
      (fresh : p.ending = none) (unknown : p.state.store.contains c.id = false)
      (inactive : c.id ∉ p.state.active) (found : w.body? c.caller = some b) :
      Keeps w p
        { p with due := none, busy := some (.start c b)
                 state := { p.state with active := c.id :: p.state.active } }
  /-- A criterion ends without a scan. -/
  | skip {p : Phase} {c : Criterion} (due : p.due = some c) (fresh : p.ending = none)
      (unknown : p.state.store.contains c.id = false) (inactive : c.id ∉ p.state.active) :
      Keeps w p { p with ending := some c }
  | complete {queue : List Task} {s s' : SlicerState} {st st' : Scan} {more : List Criterion}
      (completes : s.Completes w st more st' s') :
      Keeps w { queue, state := s, busy := some st } { queue, state := s', busy := some st', pending := more }
  /-- The ticket of a queued criterion of a call goes to a merged one. -/
  | merge {p : Phase} {c k old : Criterion} {t : Nat} (ending : p.ending = some c)
      (called : Criterion.CalledBy w c k) (param : p.state.pendingParams[SlicerState.callKey k]? = some t)
      (ticket : p.state.tickets[t]? = some old) (queued : p.state.queued[old.id]? = some t)
      (other : (SlicerState.merged old k).id ≠ old.id) :
      Keeps w p { p with state := p.state.replaceTicket t old (SlicerState.merged old k) }
  | bring {p : Phase} {c k : Criterion} {n : Nat} (ending : p.ending = some c) (credit : p.credit = n + 1)
      (called : Criterion.CalledBy w c k) :
      Keeps w p { p with pending := p.pending ++ [k], credit := n }
  | put {p : Phase} {c : Criterion} {slice : PartialSlice} (ending : p.ending = some c) (told : p.due = none)
      (named : slice.id = c.id) :
      Keeps w p
        { p with ending := none, credit := 0, state := { p.state with store := p.state.store.put slice } }
  | enqueue {p : Phase} {c : Criterion} {pending : List Criterion} (first : p.pending = c :: pending)
      (idle : p.busy = none) :
      Keeps w p
        { p with queue := p.queue ++ [(p.state.enqueue c).1], state := (p.state.enqueue c).2, pending }
  | ready {p : Phase} :
      Keeps w p
        { p with queue := p.queue ++ p.state.ready.map .resume, state := { p.state with ready := [] } }

/-- A move of a turn that is open. -/
def Move (w : Workspace) (p p' : Phase) : Prop := Spends w p p' ∨ Keeps w p p'

/-- Any number of moves. -/
abbrev Moves (w : Workspace) : Phase → Phase → Prop := Relation.ReflTransGen (Move w)

/-- Moves of which one uses something up. -/
def Spent (w : Workspace) (p p' : Phase) : Prop :=
  ∃ p₁ p₂, Moves w p p₁ ∧ Spends w p₁ p₂ ∧ Moves w p₂ p'

/-- A whole turn: it takes a task and makes moves; going on with a scan uses up a part of it. -/
def Turn (w : Workspace) (task : Task) (p p' : Phase) : Prop :=
  ∃ p₁, Opens task p p₁ ∧ Moves w p₁ p' ∧ ∀ st, task = .resume st → Spent w p₁ p'

variable {w : Workspace} {p p₁ p' : Phase}

theorem Keeps.moves (keeps : Keeps w p p') : Moves w p p' := .single (.inr keeps)

theorem Spends.moves (spends : Spends w p p') : Moves w p p' := .single (.inl spends)

theorem Spends.spent (spends : Spends w p p₁) (rest : Moves w p₁ p') : Spent w p p' :=
  ⟨p, p₁, .refl, spends, rest⟩

theorem Spent.after (first : Moves w p p₁) (spent : Spent w p₁ p') : Spent w p p' := by
  obtain ⟨p₂, p₃, before, spends, rest⟩ := spent
  exact ⟨p₂, p₃, first.trans before, spends, rest⟩

theorem Spent.moves (spent : Spent w p p') : Moves w p p' := by
  obtain ⟨_, _, before, spends, rest⟩ := spent
  exact (before.trans spends.moves).trans rest

/-- What is reported can be changed at any time. -/
theorem report_moves {s : SlicerState} (reports : p.state.Reports s) : Moves w p { p with state := s } :=
  (Keeps.report reports).moves

end Phase

namespace SlicerState

open Phase

variable {w : Workspace} {rules : List CallRule} {s : SlicerState} {c : Criterion}

/-- Merging a criterion is a change of a ticket. -/
theorem mergePending_moves {p : Phase} {k : Criterion} (ending : p.ending = some c)
    (called : Criterion.CalledBy w c k) :
    Phase.Moves w p { p with state := (p.state.mergePending k c).2 } := by
  have stays : Phase.Moves w p { p with state := p.state } := .refl
  unfold mergePending
  split
  · exact stays
  · rename_i t param
    split
    · exact stays
    · rename_i old ticket
      split
      · exact stays
      · rename_i condition
        simp only [Bool.or_eq_true, bne_iff_ne, ne_eq, beq_iff_eq, not_or, not_not] at condition
        dsimp only
        split
        · exact report_moves ⟨_, _, _, _, rfl⟩
        · rename_i other
          have merges : Keeps w p _ := .merge ending called param ticket condition.1 (by simpa using other)
          exact merges.moves.trans (report_moves ⟨_, _, _, _, rfl⟩)

/-- Taking in the criterion of a call brings at most one about. -/
theorem ascendCall_moves {p : Phase} {n : Nat} {k : Criterion} (found : List Criterion)
    (ending : p.ending = some c) (called : Criterion.CalledBy w c k) (credit : p.credit = n + 1) :
    ∃ left, n ≤ left ∧
      Phase.Moves w { p with pending := p.pending ++ found }
        { p with state := (ascendCall c (found, p.state) k).2
                 pending := p.pending ++ (ascendCall c (found, p.state) k).1, credit := left } := by
  unfold ascendCall
  dsimp only
  have merging : Phase.Moves w { p with pending := p.pending ++ found }
      { p with pending := p.pending ++ found, state := (p.state.mergePending k c).2 } :=
    mergePending_moves ending called
  generalize p.state.mergePending k c = merged at merging ⊢
  obtain ⟨done, s⟩ := merged
  dsimp only at merging ⊢
  split
  · exact ⟨n + 1, Nat.le_succ n, credit ▸ merging⟩
  · have linked : Phase.Moves w { p with pending := p.pending ++ found, state := s }
        { p with pending := p.pending ++ found, state := (s.link k k.id c.id true).2 } :=
      report_moves link_recorded.reports
    split
    · refine ⟨n, Nat.le_refl n, (merging.trans linked).trans ?_⟩
      rw [← List.append_assoc]
      exact (Keeps.bring (p := { p with pending := p.pending ++ found, state := (s.link k k.id c.id true).2 })
        ending credit called).moves
    · exact ⟨n + 1, Nat.le_succ n, credit ▸ merging.trans linked⟩

/-- Taking in the criteria of calls brings no more about than there are. -/
theorem ascendCalls_moves {ks : List Criterion} (called : ∀ k ∈ ks, Criterion.CalledBy w c k) :
    ∀ {p : Phase} {n : Nat} (found : List Criterion), p.ending = some c → p.credit = n + ks.length →
      ∃ left, n ≤ left ∧
        Phase.Moves w { p with pending := p.pending ++ found }
          { p with state := (ks.foldl (ascendCall c) (found, p.state)).2
                   pending := p.pending ++ (ks.foldl (ascendCall c) (found, p.state)).1, credit := left } := by
  induction ks with
  | nil =>
    intro p n found ending credit
    rw [List.length_nil, Nat.add_zero] at credit
    exact ⟨n, Nat.le_refl n, credit ▸ .refl⟩
  | cons k ks ih =>
    intro p n found ending credit
    rw [List.length_cons, ← Nat.add_assoc] at credit
    obtain ⟨left, enough, first⟩ :=
      ascendCall_moves found ending (called k List.mem_cons_self) credit
    obtain ⟨extra, rfl⟩ := Nat.exists_eq_add_of_le' enough
    obtain ⟨rest, still, others⟩ :=
      ih (fun k' member => called k' (List.mem_cons_of_mem _ member))
        (p := { p with state := (ascendCall c (found, p.state) k).2, credit := extra + (n + ks.length) })
        (n := extra + n) (ascendCall c (found, p.state) k).1 ending (Nat.add_assoc _ _ _).symm
    exact ⟨rest, by omega, first.trans others⟩

/-- Taking in the criteria of methods that call a method brings no more about than one pass over all bodies
for each of them. -/
theorem ascendSites_moves {sites : List (String × String)} (params : List Int)
    (high : c.level + 1 ≤ w.settings.upperLevel) (inside : ∀ site ∈ sites, site ∈ callSites w c.caller) :
    ∀ {p : Phase} {n : Nat} (found : List Criterion), p.ending = some c →
      p.credit = n + sites.length * w.size →
      ∃ left, n ≤ left ∧
        Phase.Moves w { p with pending := p.pending ++ found }
          { p with state := (sites.foldl (ascendSite w c params) (found, p.state)).2
                   pending := p.pending ++ (sites.foldl (ascendSite w c params) (found, p.state)).1
                   credit := left } := by
  induction sites with
  | nil =>
    intro p n found ending credit
    rw [List.length_nil, Nat.zero_mul, Nat.add_zero] at credit
    exact ⟨n, Nat.le_refl n, credit ▸ .refl⟩
  | cons site sites ih =>
    intro p n found ending credit
    have called : ∀ k ∈ (p.state.create w site.1 site.2 .parameter params (c.level + 1)).1,
        Criterion.CalledBy w c k := by
      intro k member
      rw [create_fst] at member
      exact ⟨high, site, inside site List.mem_cons_self, params, member⟩
    have few : (p.state.create w site.1 site.2 .parameter params (c.level + 1)).1.length ≤ w.size := by
      rw [create_fst]
      exact Workspace.length_created_le
    have opened : Phase.Moves w { p with pending := p.pending ++ found }
        { p with pending := p.pending ++ found
                 state := (p.state.create w site.1 site.2 .parameter params (c.level + 1)).2 } :=
      report_moves create_recorded.reports
    rw [List.length_cons, Nat.succ_mul] at credit
    rw [List.foldl_cons]
    have step : ascendSite w c params (found, p.state) site =
        (p.state.create w site.1 site.2 .parameter params (c.level + 1)).1.foldl (ascendCall c)
          (found, (p.state.create w site.1 site.2 .parameter params (c.level + 1)).2) := rfl
    rw [step]
    generalize p.state.create w site.1 site.2 .parameter params (c.level + 1) = created at *
    obtain ⟨ks, s⟩ := created
    obtain ⟨left, enough, first⟩ := ascendCalls_moves called (p := { p with state := s })
      (n := n + sites.length * w.size + (w.size - ks.length)) found ending (by dsimp only at few ⊢; omega)
    obtain ⟨extra, rfl⟩ := Nat.exists_eq_add_of_le' enough
    dsimp only at first ⊢
    generalize ks.foldl (ascendCall c) (found, s) = taken at *
    obtain ⟨found', s'⟩ := taken
    obtain ⟨rest, still, others⟩ := ih (fun site' member => inside site' (List.mem_cons_of_mem _ member))
      (p := { p with state := s', credit := extra + (n + sites.length * w.size + (w.size - ks.length)) })
      (n := extra + n + (w.size - ks.length)) found' ending (by dsimp only; omega)
    exact ⟨rest, by omega, (opened.trans first).trans others⟩

theorem length_callSites_le {method : String} : (callSites w method).length ≤ 2 * w.links := by
  have targets : (calledAs w method).length ≤ 2 := by
    unfold calledAs
    split
    · split <;> simp
    · simp
  unfold callSites
  refine (Workspace.length_flatMap_le _ _ ?_).trans (Nat.mul_le_mul_right _ targets)
  intro target _
  rw [List.length_map]
  exact (List.length_filter_le _ _).trans Workspace.length_callerSignatures_le

/-- Looking for the calls of a method stays within the bound on criteria. -/
theorem ascendParams_moves {p : Phase} (params : List Int) (ending : p.ending = some c)
    (credit : p.credit = w.spawnBound) :
    ∃ left, Phase.Moves w p
      { p with state := (p.state.ascendParams w c params).2
               pending := p.pending ++ (p.state.ascendParams w c params).1, credit := left } := by
  unfold ascendParams
  split
  · exact ⟨p.credit, by rw [List.append_nil]⟩
  · rename_i condition
    have few : (callSites w c.caller).length * w.size ≤ w.spawnBound :=
      Nat.mul_le_mul_right _ (length_callSites_le.trans (Nat.le_succ _))
    obtain ⟨left, _, moves⟩ := ascendSites_moves params (Int.not_lt.mp condition)
      (fun _ member => member) (p := p) (n := w.spawnBound - (callSites w c.caller).length * w.size) []
      ending (by omega)
    rw [List.append_nil] at moves
    exact ⟨left, moves⟩

/-- Ending a criterion tells what waits for it, and may bring about the criteria of its callers. -/
theorem settle_moves (s : SlicerState) (c : Criterion) (queue : List Task) (pending : List Criterion)
    {n : Nat} {slice : PartialSlice} (enough : slice.params = [] ∨ n = w.spawnBound) :
    ∃ left, Phase.Moves w { queue, state := s, due := some c, ending := some c, pending, credit := n }
      { queue, state := (s.settle w c slice).2.2, ending := some c
        pending := pending ++ (s.settle w c slice).2.1, credit := left } := by
  have recorded : Phase.Moves w { queue, state := s, due := some c, ending := some c, pending, credit := n }
      { queue, state := s.recordSlice c slice, due := some c, ending := some c, pending, credit := n } :=
    report_moves ⟨_, _, _, _, rfl⟩
  have told : Phase.Moves w
      { queue, state := s.recordSlice c slice, due := some c, ending := some c, pending, credit := n }
      { queue, state := ((s.recordSlice c slice).release c.id slice.params).1, ending := some c, pending
        credit := n } :=
    (Keeps.release _ rfl (.inl rfl)).moves
  unfold settle
  dsimp only
  split
  · exact ⟨n, by rw [List.append_nil]; exact recorded.trans told⟩
  · rename_i condition
    simp only [Bool.or_eq_true, List.isEmpty_iff, not_or] at condition
    obtain ⟨left, moves⟩ := ascendParams_moves slice.params
      (p := { queue, state := ((s.recordSlice c slice).release c.id slice.params).1, ending := some c
              pending, credit := n }) rfl (enough.resolve_left condition.2)
    exact ⟨left, (recorded.trans told).trans moves⟩

@[simp] theorem settle_slice {slice : PartialSlice} : (s.settle w c slice).1 = slice := by
  simp only [settle, apply_ite Prod.fst, ite_self]

/-- Ending a scan uses it up. -/
theorem finish_spent (w : Workspace) (s : SlicerState) (queue : List Task) (st : Scan)
    (pending : List Criterion) :
    ∃ left, Spent w { queue, state := s, busy := some st, pending }
      { queue, state := (s.finish w st).2.2, ending := some st.criterion
        pending := pending ++ (s.finish w st).2.1, credit := left } := by
  unfold finish
  dsimp only
  obtain ⟨left, moves⟩ := settle_moves _ st.criterion queue pending (.inr rfl)
  refine ⟨left, Spends.spent (.close ?_) moves⟩
  intro id member
  obtain ⟨p, _, here⟩ := List.mem_flatMap.mp member
  obtain ⟨e, spawned, rfl⟩ := List.mem_map.mp here
  exact ⟨e, (List.mem_filter.mp spawned).1, rfl⟩

theorem finish_id {st : Scan} : (s.finish w st).1.id = st.criterion.id := by
  simp only [finish, settle_slice]
  rfl

/-- What a step leaves to be absorbed: criteria to queue, and a slice to store for the criterion that
ended. -/
structure Leaves (res : StepResult) (p : Phase) : Prop where
  idle : p.busy = none
  told : p.due = none
  pending : p.pending = res.children
  stored : (res.slice = none ∧ p.ending = none ∧ p.credit = 0) ∨
    ∃ slice c, res.slice = some slice ∧ p.ending = some c ∧ slice.id = c.id

/-- Going on with a scan uses up a part of it. -/
theorem resume_spent (s : SlicerState) (queue : List Task) {st : Scan} (rules : List CallRule)
    (known : w.body? st.criterion.caller = some st.body) (placed : st.body.Placed) :
    ∃ p, Spent w { queue, state := s, busy := some st } p ∧ p.queue = queue ∧
      p.state = (s.resume w rules st).2 ∧ Leaves (s.resume w rules st).1 p := by
  unfold resume
  rcases scan_spec s rules known placed with ⟨more, st', s', ran, completes⟩ | ⟨more, d, s', ran, suspends⟩
  · simp only [ran]
    have completed : Phase.Moves w { queue, state := s, busy := some st }
      { queue, state := s', busy := some st', pending := more } := (Keeps.complete completes).moves
    obtain ⟨left, spent⟩ := finish_spent w s' queue st' more
    exact ⟨_, .after completed spent, rfl, rfl, rfl, rfl, rfl, .inr ⟨_, _, rfl, rfl, finish_id⟩⟩
  · simp only [ran]
    exact ⟨_, (Spends.suspend suspends).spent .refl, rfl, rfl, rfl, rfl, rfl, .inl ⟨rfl, rfl, rfl⟩⟩

/-- Passing over a criterion that is known. -/
theorem passOver_moves {queue : List Task} (known : s.store.contains c.id = true ∨ c.id ∈ s.active) :
    Phase.Moves w { queue, state := s, due := some c } { queue, state := s.passOver c } := by
  unfold passOver
  dsimp only
  have counted : Phase.Moves w { queue, state := s, due := some c }
      { queue, due := some c
        state := { s with stats := { s.stats with memoized := s.stats.memoized + 1 } } } :=
    report_moves ⟨_, _, _, _, rfl⟩
  split
  · exact counted.trans (Keeps.release _ rfl (.inr known)).moves
  · exact (counted.trans Keeps.keepAll.moves).trans (Keeps.release _ rfl (.inr (by simpa using known))).moves

theorem close_moves (queue : List Task) (infeasible : Bool) (unknown : s.store.contains c.id = false)
    (inactive : c.id ∉ s.active) :
    ∃ p, Phase.Moves w { queue, state := s, due := some c } p ∧ p.queue = queue ∧
      p.state = (s.close w c infeasible).2 ∧ Leaves (s.close w c infeasible).1 p := by
  have skipped : Phase.Moves w { queue, state := s, due := some c }
      { queue, state := s, due := some c, ending := some c } :=
    (Keeps.skip (p := { queue, state := s, due := some c }) rfl rfl unknown inactive).moves
  obtain ⟨left, moves⟩ := settle_moves (w := w) s c queue [] (n := 0)
    (show { emptySlice c with infeasible }.params = [] ∨ _ from .inl rfl)
  exact ⟨_, skipped.trans moves, rfl, rfl, rfl, rfl, rfl,
    .inr ⟨_, c, rfl, rfl, congrArg PartialSlice.id settle_slice⟩⟩

/-- Starting a criterion whose turn came. -/
theorem begin_moves (queue : List Task) (rules : List CallRule)
    (placed : w.Placed) :
    ∃ p, Phase.Moves w { queue, state := s, due := some c } p ∧ p.queue = queue ∧
      p.state = (s.begin w rules c).2 ∧ Leaves (s.begin w rules c).1 p := by
  have begun := s.begin_begun w rules c
  generalize s.begin w rules c = result at begun ⊢
  cases begun with
  | passed known => exact ⟨_, passOver_moves known, rfl, rfl, rfl, rfl, rfl, .inl ⟨rfl, rfl, rfl⟩⟩
  | @closed ledger stats infeasible unknown inactive =>
    have reported : Phase.Moves w { queue, state := s, due := some c }
        { queue, state := { s with ledger, stats }, due := some c } := report_moves ⟨_, _, _, _, rfl⟩
    obtain ⟨p, moves, rest⟩ := close_moves (s := { s with ledger, stats }) queue infeasible unknown inactive
    exact ⟨p, reported.trans moves, rest⟩
  | @scanned b begins =>
    let counted : Phase :=
      { queue, due := some c
        state := { s with
          ledger := (s.ledger.openBody w c.caller).2
          stats := { s.stats with processed := s.stats.processed + 1 } } }
    have opened : Phase.Moves w { queue, state := s, due := some c } counted := report_moves ⟨_, _, _, _, rfl⟩
    have started : Phase.Moves w counted { queue, state := s.starting w c, busy := some (.start c b) } :=
      (Keeps.start (p := counted) rfl rfl rfl begins.unknown begins.inactive begins.found).moves
    obtain ⟨p, spent, rest⟩ := resume_spent (s.starting w c) queue rules
      (show w.body? (Scan.start c b).criterion.caller = some (Scan.start c b).body from begins.found)
      (placed _ b begins.found)
    exact ⟨p, (opened.trans started).trans spent.moves, rest⟩

theorem enqueueAll_moves {cs : List Criterion} (tasks : List Task) {p : Phase} (pending : p.pending = cs)
    (idle : p.busy = none) :
    Phase.Moves w { p with queue := p.queue ++ tasks }
      { p with queue := p.queue ++ (cs.foldl enqueueOne (tasks, p.state)).1
               state := (cs.foldl enqueueOne (tasks, p.state)).2, pending := [] } := by
  induction cs generalizing tasks p with
  | nil =>
    rw [pending]
    exact .refl
  | cons c cs ih =>
    have first : Keeps w { p with queue := p.queue ++ tasks } _ := .enqueue pending idle
    rw [List.append_assoc] at first
    exact first.moves.trans
      (ih (tasks ++ [(p.state.enqueue c).1]) (p := { p with state := (p.state.enqueue c).2, pending := cs }) rfl idle)

/-- Taking over the result of a step completes the turn. -/
theorem absorb_moves {res : StepResult} {p : Phase} (leaves : Leaves res p) :
    Phase.Moves w p
      { queue := p.queue ++ (absorb (res, p.state)).1, state := (absorb (res, p.state)).2 } := by
  obtain ⟨queue, s, busy, due, ending, pending, credit⟩ := p
  obtain ⟨rfl, rfl, rfl, stored⟩ := leaves
  have counted : Phase.Moves w { queue, state := s, ending, pending := res.children, credit }
      { queue, ending, pending := res.children, credit
        state := { s with stats := { s.stats with spawned := s.stats.spawned + res.children.length } } } :=
    report_moves ⟨_, _, _, _, rfl⟩
  unfold absorb
  dsimp only
  generalize { s with stats := { s.stats with spawned := s.stats.spawned + res.children.length } } = s₁ at *
  have queued := enqueueAll_moves (w := w) []
    (p := { queue, state := s₁, ending, pending := res.children, credit }) rfl rfl
  rw [List.append_nil] at queued
  have begun := counted.trans queued
  rcases stored with ⟨none, rfl, rfl⟩ | ⟨slice, c, some, rfl, named⟩
  · simp only [none]
    rw [← List.append_assoc]
    exact begun.trans Keeps.ready.moves
  · simp only [some]
    have put : Keeps w
        { queue := queue ++ (s₁.enqueueAll res.children).1, state := (s₁.enqueueAll res.children).2
          ending := .some c, credit } _ := .put rfl rfl named
    rw [← List.append_assoc]
    exact (begun.trans put.moves).trans Keeps.ready.moves

end SlicerState

namespace Worklist

open Phase SlicerState

variable {w : Workspace} {rules : List CallRule}

/-- A run between two turns, as a phase. -/
def phase (x : Worklist) : Phase := { queue := x.queue, state := x.state }

/-- What a run does between two turns is a turn, given that the scans of the tasks are scans of bodies of
the workspace. -/
theorem next_turn {x : Worklist} {task : Task} {queue : List Task} (rules : List CallRule)
    (nonempty : x.queue = task :: queue) (placed : w.Placed)
    (known : ∀ st, task = .resume st → w.body? st.criterion.caller = some st.body) :
    Phase.Turn w task x.phase (next w rules x).phase := by
  obtain ⟨tasks, s⟩ := x
  obtain rfl : tasks = task :: queue := nonempty
  simp only [next, phase]
  cases task with
  | resume st =>
    obtain ⟨p, spent, here, state, leaves⟩ :=
      resume_spent s queue rules (known st rfl) (placed _ _ (known st rfl))
    obtain ⟨p₁, p₂, before, spends, rest⟩ := spent
    subst here
    have absorbed := absorb_moves (w := w) leaves
    rw [state] at absorbed
    have moves := rest.trans absorbed
    exact ⟨_, .pick, (before.trans spends.moves).trans moves, fun _ _ => ⟨p₁, p₂, before, spends, moves⟩⟩
  | start t =>
    cases ticket : s.tickets[t]? with
    | none =>
      simp only [SlicerState.turn, ticket]
      exact ⟨_, .drop (by simp [ticket]), Keeps.ready.moves, by simp⟩
    | some c =>
      by_cases queued : s.queued[c.id]? = some t
      · by_cases retracted : c.id ∈ s.retracted
        · simp only [SlicerState.turn, ticket, queued, bne_self_eq_false, Bool.false_eq_true, ↓reduceIte,
            List.contains_eq_mem, retracted, decide_true]
          have forgiven : Keeps w { queue, state := { s with queued := s.queued.erase c.id }, due := some c } _ :=
            .forgive rfl retracted
          exact ⟨_, .take ticket queued, forgiven.moves.trans Keeps.ready.moves, by simp⟩
        · simp only [SlicerState.turn, ticket, queued, bne_self_eq_false, Bool.false_eq_true, ↓reduceIte,
            List.contains_eq_mem, retracted, decide_false]
          obtain ⟨p, moves, here, state, leaves⟩ :=
            begin_moves (s := { s with queued := s.queued.erase c.id }) (c := c) queue rules placed
          subst here
          have absorbed := absorb_moves (w := w) leaves
          rw [state] at absorbed
          exact ⟨_, .take ticket queued, moves.trans absorbed, by simp⟩
      · simp only [SlicerState.turn, ticket, bne_iff_ne, ne_eq, queued, not_false_eq_true, ↓reduceIte]
        refine ⟨_, .drop ?_, Keeps.ready.moves, by simp⟩
        intro c' same
        obtain rfl := Option.some.inj (ticket.symm.trans same)
        exact queued

end Worklist

end MisuseSlice
