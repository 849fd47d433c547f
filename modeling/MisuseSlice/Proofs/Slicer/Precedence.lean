import MisuseSlice.Proofs.Slicer.Completion

/-! The order in which criteria come to their turn. Queueing gives out ascending tickets, so the queue is worked through in
the order of its tickets. A scan that is suspended queues the criteria that it brought about before, then the return criteria
that it waits for. So when it goes on, none of the former is in the queue any more, and no mark of a dropped criterion
meets one that is queued. -/
namespace MisuseSlice

/-- The ticket of a task that starts a criterion. -/
def Task.ticket? : Task → Option Nat
  | .start t => some t
  | .resume _ => none

namespace Phase

open Criterion SlicerState

/-- The last place of a name where names are queued under the numbers from `n` on, and `t` is its place before. -/
def lastPlace (id : String) : List String → Nat → Option Nat → Option Nat
  | [], _, t => t
  | name :: names, n, t => lastPlace id names (n + 1) (if name = id then some n else t)

section

variable {id : String} {names later : List String} {n : Nat} {t : Option Nat}

theorem lastPlace_of_not_mem (absent : id ∉ names) : lastPlace id names n t = t := by
  induction names generalizing n t with
  | nil => rfl
  | cons name names ih =>
    obtain ⟨other, rest⟩ := List.ne_and_not_mem_of_not_mem_cons absent
    rw [lastPlace, if_neg other.symm, ih rest]

theorem lastPlace_append :
    lastPlace id (names ++ later) n t = lastPlace id later (n + names.length) (lastPlace id names n t) := by
  induction names generalizing n t with
  | nil => rfl
  | cons name names ih =>
    rw [List.cons_append, lastPlace, ih, List.length_cons, Nat.add_assoc, Nat.add_comm 1, lastPlace]

theorem exists_lastPlace (member : id ∈ names) :
    ∃ m, lastPlace id names n t = some m ∧ n ≤ m ∧ m < n + names.length := by
  induction names generalizing n t with
  | nil => cases member
  | cons name names ih =>
    rw [lastPlace, List.length_cons]
    by_cases again : id ∈ names
    · obtain ⟨m, place, low, high⟩ := ih (n := n + 1) (t := if name = id then some n else t) again
      exact ⟨m, place, by omega, by omega⟩
    · rw [lastPlace_of_not_mem again]
      exact ⟨n, if_pos ((List.mem_cons.mp member).resolve_right again).symm, Nat.le_refl n, by omega⟩

/-- What is queued first is before what is queued last. -/
theorem lastPlace_lt {r : String} (t t' : Option Nat) (first : id ∈ names) (only : id ∉ later) (last : r ∈ later) :
    ∃ m m', lastPlace id (names ++ later) n t = some m ∧ lastPlace r (names ++ later) n t' = some m' ∧ m < m' := by
  obtain ⟨m, place, _, high⟩ := exists_lastPlace (n := n) (t := t) first
  obtain ⟨m', place', low, _⟩ := exists_lastPlace (n := n + names.length) (t := lastPlace r names n t') last
  refine ⟨m, m', ?_, ?_, by omega⟩
  · rw [lastPlace_append, lastPlace_of_not_mem only, place]
  · rw [lastPlace_append, place']

end

/-- The ticket under which the criterion comes to its turn, once what is pending is queued. -/
def place (p : Phase) (id : String) : Option Nat :=
  lastPlace id (p.pending.map (·.id)) p.state.tickets.length p.state.queued[id]?

/-- If the criterion is in the queue, another one is behind it. -/
def Before (p : Phase) (id r : String) : Prop := ∀ t, p.place id = some t → ∃ t', p.place r = some t' ∧ t < t'

/-- The criterion is under way, or its turn came. -/
def Underway (p : Phase) (id : String) : Prop := id ∈ p.state.active ∨ ∃ c, p.due = some c ∧ c.id = id

/-- The turn of the criterion came: it is sliced, under way or about to end. -/
def Begun (p : Phase) (id : String) : Prop :=
  p.state.store.contains id = true ∨ p.Underway id ∨ ∃ c, p.ending = some c ∧ c.id = id

/-- The turn of the criterion came, or is to come. -/
def Met (p : Phase) (id : String) : Prop := p.Begun id ∨ ∃ t, p.place id = some t

/-- The scans that do not wait and that the turn does not work on. -/
def resting (p : Phase) : List Scan := p.queue.filterMap Task.scan? ++ p.state.ready

/-- A scan of the phase brought the criterion about. -/
def Brought (p : Phase) (id : String) : Prop :=
  (∃ st, (p.busy = some st ∨ st ∈ p.resting) ∧ ∃ e ∈ st.spawned, e.2 = id) ∨
    ∃ (parent : String) (d : Suspension), p.state.suspensions[parent]? = some d ∧ ∃ e ∈ d.scan.spawned, e.2 = id

/-- The queue is in the order of its tickets. -/
structure Numbered (p : Phase) : Prop where
  ascending : (p.queue.filterMap Task.ticket?).Pairwise (· < ·)
  given : ∀ t ∈ p.queue.filterMap Task.ticket?, t < p.state.tickets.length

/-- No criterion is marked as dropped. What a scan brought about before it was suspended comes to its turn before what it
waits for, and so before the scan goes on. -/
structure Prompt (A : Criterion → Prop) (p : Phase) : Prop where
  unmarked : p.state.retracted = []
  numbered : p.Numbered
  met : ∀ id, p.Brought id → p.Met id
  taken : ∀ id, Elsewhere A id → p.Underway id → p.place id = none
  clear : ∀ st ∈ p.resting, ∀ e ∈ st.spawned, p.place e.2 = none
  working : ∀ st, p.busy = some st → ∀ e ∈ st.spawned, p.state.queued[e.2]? = none
  behind : ∀ (parent : String) d, p.state.suspensions[parent]? = some d → ∀ e ∈ d.scan.spawned, e.2 ∉ d.waiting →
    ∀ r ∈ d.waiting, p.Before e.2 r

/-- What a scan brought about, it brought about before, or it is new and pending. -/
def Brings (p p' : Phase) (st st' : Scan) : Prop :=
  ∀ e ∈ st'.spawned, e ∈ st.spawned ∨ ¬p.state.Knows e.2 ∧ e.2 ∈ p'.pending.map (·.id)

/-- A suspended scan may be told of criteria whose turn came. -/
structure Hears (p : Phase) (d d' : Suspension) : Prop where
  scan : d'.scan = d.scan
  fewer : ∀ r ∈ d'.waiting, r ∈ d.waiting
  told : ∀ r ∈ d.waiting, r ∉ d'.waiting → ∃ c, p.due = some c ∧ c.id = r

/-- The turn suspended its scan. -/
structure Suspended (w : Workspace) (p p' : Phase) (st : Scan) (d : Suspension) : Prop where
  busy : p.busy = some st
  idle : p.pending = []
  suspends : ∃ s, p.state.Suspends w st p'.pending d s
  tickets : p'.state.tickets = p.state.tickets
  queued : p'.state.queued = p.state.queued

variable {w : Workspace} {A : Criterion → Prop} {p p' : Phase} {id r : String}

theorem Hears.refl (d : Suspension) : Hears p d d := ⟨rfl, fun _ here => here, fun _ here away => absurd here away⟩

theorem place_of_idle (none : p.pending = []) : p.place id = p.state.queued[id]? := by
  rw [place, none, List.map_nil, lastPlace]

theorem Before.congr (before : p.Before id r) (same : p'.place id = p.place id)
    (same' : ∀ t, p.place r = some t → p'.place r = p.place r) : p'.Before id r := by
  intro t here
  obtain ⟨t', there, lt⟩ := before t (same ▸ here)
  exact ⟨t', same' t' there ▸ there, lt⟩

/-- The tasks, the tickets and the queued criteria are the same. -/
structure Stays (p p' : Phase) : Prop where
  tasks : p'.queue.filterMap Task.ticket? = p.queue.filterMap Task.ticket?
  tickets : p'.state.tickets.length = p.state.tickets.length
  queued : p'.state.queued = p.state.queued

/-- What a move does to the queue. -/
inductive Queues (w : Workspace) (p p' : Phase) : Prop where
  | stays (stays : Stays p p') (pending : p'.pending = p.pending) (retracted : p'.state.retracted = p.state.retracted)
  /-- A scan brings about criteria of which nothing was known. -/
  | brings (stays : Stays p p') (idle : p.pending = [] ∧ p.due = none ∧ p.ending = none)
      (new : ∀ k ∈ p'.pending, ¬p.state.Knows k.id) (retracted : p'.state.retracted = p.state.retracted)
  /-- A scan ends and drops criteria. -/
  | drops {st : Scan} (stays : Stays p p') (pending : p'.pending = p.pending) (busy : p.busy = some st)
      (retracted : (∀ e ∈ st.spawned, p.state.queued[e.2]? = none) → p'.state.retracted = p.state.retracted)
  | merges {c k old : Criterion} {t : Nat} (tasks : p'.queue = p.queue) (ending : p.ending = some c)
      (called : CalledBy w c k) (param : p.state.pendingParams[callKey k]? = some t)
      (ticket : p.state.tickets[t]? = some old) (state : p'.state = p.state.replaceTicket t old (SlicerState.merged old k)) (pending : p'.pending = p.pending)
  /-- A criterion at a call is brought about. -/
  | calls {c k : Criterion} (stays : Stays p p') (ending : p.ending = some c) (called : CalledBy w c k)
      (pending : p'.pending = p.pending ++ [k]) (retracted : p'.state.retracted = p.state.retracted)
  | enqueues {c : Criterion} {rest : List Criterion} (idle : p'.busy = none) (first : p.pending = c :: rest)
      (pending : p'.pending = rest) (tasks : p'.queue = p.queue ++ [(p.state.enqueue c).1])
      (state : p'.state = (p.state.enqueue c).2)

end Phase

namespace SlicerState

/-- Dropping criteria that are not in the queue marks nothing. -/
theorem retract_unqueued {s : SlicerState} {ids : List String} (away : ∀ id ∈ ids, s.queued[id]? = none) :
    (s.retract ids).retracted = s.retracted := by
  unfold retract
  induction ids generalizing s with
  | nil => rfl
  | cons id ids ih =>
    have unqueued : s.isQueued id = false := Maps.getElem?_eq_none_iff.mp (away id List.mem_cons_self)
    rw [List.foldl_cons, ih]
    · simp [unqueued]
    · exact fun id' member => away id' (List.mem_cons_of_mem _ member)

end SlicerState

namespace Phase

open Criterion SlicerState

variable {w : Workspace} {A : Criterion → Prop} {p p' : Phase} {id r : String}

section

variable (move : Move w p p') (unmarked : p.state.retracted = [])
include move unmarked

theorem Move.queues : Queues w p p' := by
  rcases move with spends | keeps
  · cases spends with
    | suspend suspends =>
      obtain ⟨ledger, tree, descents, rfl⟩ := suspends.state
      exact .brings ⟨rfl, rfl, rfl⟩ ⟨rfl, rfl, rfl⟩ suspends.new rfl
    | @close queue s st pending ids spawned =>
      have away : (∀ e ∈ st.spawned, s.queued[e.2]? = none) →
          ({ s with active := s.active.filter (· != st.criterion.id) }.retract ids).retracted = s.retracted := by
        refine fun unqueued => retract_unqueued fun id member => ?_
        obtain ⟨e, brought, rfl⟩ := spawned id member
        exact unqueued e brought
      obtain ⟨tree, retracted, stats, same, _⟩ :=
        retract_frame { s with active := s.active.filter (· != st.criterion.id) } ids
      rw [same] at away ⊢
      exact .drops ⟨rfl, rfl, rfl⟩ rfl rfl away
  · cases keeps with
    | report reports =>
      obtain ⟨ledger, tree, stats, retainedParams, rfl⟩ := reports
      exact .stays ⟨rfl, rfl, rfl⟩ rfl rfl
    | @release _ c params _ _ =>
      obtain ⟨descents, suspensions, ready, same⟩ := p.state.release_frame c.id params
      rw [same]
      exact .stays ⟨rfl, rfl, rfl⟩ rfl rfl
    | @keepAll _ id =>
      rcases p.state.keepAll_cases id with same | ⟨_, _, _, same⟩ <;> rw [same] <;>
        exact .stays ⟨rfl, rfl, rfl⟩ rfl rfl
    | forgive _ marked =>
      rw [unmarked] at marked
      cases marked
    | complete completes =>
      obtain ⟨ledger, tree, rfl⟩ := completes.recorded
      exact .brings ⟨rfl, rfl, rfl⟩ ⟨rfl, rfl, rfl⟩ completes.new rfl
    | merge ending called param ticket => exact .merges rfl ending called param ticket rfl rfl
    | bring ending _ called => exact .calls ⟨rfl, rfl, rfl⟩ ending called rfl rfl
    | enqueue first idle => exact .enqueues idle first rfl rfl rfl
    | ready =>
      have none : (p.state.ready.map Task.resume).filterMap Task.ticket? = [] := by
        rw [List.filterMap_map]
        exact List.filterMap_eq_nil_iff.mpr fun _ _ => rfl
      refine .stays ⟨?_, rfl, rfl⟩ rfl rfl
      rw [List.filterMap_append, none, List.append_nil]
    | start | skip | put => exact .stays ⟨rfl, rfl, rfl⟩ rfl rfl

/-- A criterion whose turn came is sliced or under way from then on. -/
theorem Move.begun (begun : p.Begun id) : p'.Begun id := by
  rcases begun with stored | known
  · exact .inl (move.stored stored)
  rcases move with spends | keeps
  · cases spends with
    | suspend suspends =>
      obtain ⟨ledger, tree, descents, rfl⟩ := suspends.state
      rcases known with (active | ⟨_, ⟨⟩, _⟩) | ⟨_, ⟨⟩, _⟩
      exact .inr (.inl (.inl active))
    | @close queue s st pending ids _ =>
      rcases known with (active | ⟨_, ⟨⟩, _⟩) | ⟨_, ⟨⟩, _⟩
      by_cases ends : st.criterion.id = id
      · exact .inr (.inl (.inr ⟨_, rfl, ends⟩))
      · exact .inr (.inl (.inl (by simpa [Ne.symm ends] using active)))
  · cases keeps with
    | report reports =>
      obtain ⟨ledger, tree, stats, retainedParams, rfl⟩ := reports
      exact .inr known
    | @release _ c params due answered =>
      rcases known with (active | ⟨c', due', rfl⟩) | ending
      · exact .inr (.inl (.inl (by simpa using active)))
      · obtain rfl := Option.some.inj (due.symm.trans due')
        rcases answered with ending | stored | active
        · exact .inr (.inr ⟨c, ending, rfl⟩)
        · exact .inl (by simpa using stored)
        · exact .inr (.inl (.inl (by simpa using active)))
      · exact .inr (.inr ending)
    | keepAll => exact .inr (by simpa [Underway] using known)
    | forgive _ marked =>
      rw [unmarked] at marked
      cases marked
    | @start _ c b due _ fresh _ _ _ =>
      rcases known with (active | ⟨c', due', same⟩) | ending
      · exact .inr (.inl (.inl (List.mem_cons_of_mem _ active)))
      · rw [due] at due'
        cases due'
        exact .inr (.inl (.inl (same ▸ List.mem_cons_self)))
      · exact .inr (.inr ending)
    | skip _ fresh =>
      rcases known with known | ⟨_, ending, _⟩
      · exact .inr (.inl known)
      · rw [fresh] at ending
        cases ending
    | complete completes =>
      obtain ⟨ledger, tree, rfl⟩ := completes.recorded
      exact .inr known
    | @put _ c slice ending _ named =>
      rcases known with known | ⟨c', ending', same⟩
      · exact .inr (.inl known)
      · rw [ending] at ending'
        cases ending'
        exact .inl (SliceStore.contains_put.mpr (.inl (named.trans same)))
    | merge | bring | enqueue | ready => exact .inr known

/-- Only a criterion whose turn came is under way. -/
theorem Move.underway (plays : p.Plays w) (underway : p'.Underway id) : p.Underway id := by
  rcases move with spends | keeps
  · cases spends with
    | suspend suspends =>
      obtain ⟨ledger, tree, descents, rfl⟩ := suspends.state
      rcases underway with active | ⟨_, ⟨⟩, _⟩
      exact .inl active
    | close =>
      rcases underway with active | ⟨_, ⟨⟩, rfl⟩
      · rw [retract_active] at active
        exact .inl (List.mem_filter.mp active).1
      · exact .inl ((plays.active _).mpr (.inl List.mem_cons_self))
  · cases keeps with
    | report reports =>
      obtain ⟨ledger, tree, stats, retainedParams, rfl⟩ := reports
      exact underway
    | release =>
      rcases underway with active | ⟨_, ⟨⟩, _⟩
      exact .inl (by simpa using active)
    | keepAll => simpa [Underway] using underway
    | forgive _ marked =>
      rw [unmarked] at marked
      cases marked
    | start due =>
      rcases underway with active | ⟨_, ⟨⟩, _⟩
      rcases List.mem_cons.mp active with rfl | old
      · exact .inr ⟨_, due, rfl⟩
      · exact .inl old
    | complete completes =>
      obtain ⟨ledger, tree, rfl⟩ := completes.recorded
      exact underway
    | skip | merge | bring | put | enqueue | ready => exact underway

/-- A scan rests after it rested before, or was told of all that it waited for. -/
theorem Move.resting {st : Scan} (member : st ∈ p'.resting) :
    st ∈ p.resting ∨ ∃ (parent : String) (d : Suspension) (c : Criterion), p.due = some c ∧
      p.state.descents[c.id]? = some parent ∧ p.state.suspensions[parent]? = some d ∧
      (∀ r ∈ d.waiting, r = c.id) ∧ st.spawned = d.scan.spawned := by
  rcases move with spends | keeps
  · cases spends with
    | suspend suspends =>
      obtain ⟨ledger, tree, descents, rfl⟩ := suspends.state
      exact .inl member
    | @close queue s st pending ids _ =>
      obtain ⟨tree, retracted, stats, same, _⟩ :=
        retract_frame { s with active := s.active.filter (· != st.criterion.id) } ids
      rw [same] at member
      exact .inl member
  · cases keeps with
    | report reports =>
      obtain ⟨ledger, tree, stats, retainedParams, rfl⟩ := reports
      exact .inl member
    | @release _ c params due _ =>
      have released := p.state.release_released c.id params
      generalize p.state.release c.id params = result at released member
      cases released with
      | unawaited | lost | still => exact .inl member
      | @woken parent d awaited found last =>
        simp only [Phase.resting, ← List.append_assoc] at member
        rcases List.mem_append.mp member with old | new
        · exact .inl old
        · obtain rfl := List.mem_singleton.mp new
          exact .inr ⟨parent, d, c, due, awaited, found, fun r => Suspension.eq_of_waiting_release last, rfl⟩
    | @keepAll _ id =>
      rcases p.state.keepAll_cases id with same | ⟨_, _, _, same⟩ <;> rw [same] at member <;> exact .inl member
    | forgive _ marked =>
      rw [unmarked] at marked
      cases marked
    | complete completes =>
      obtain ⟨ledger, tree, rfl⟩ := completes.recorded
      exact .inl member
    | enqueue =>
      simp only [Phase.resting, List.filterMap_append, SlicerState.enqueue, List.filterMap_cons, List.filterMap_nil,
        Task.scan?, List.append_nil] at member
      exact .inl member
    | ready =>
      simp only [Phase.resting, List.filterMap_append, Task.filterMap_resume, List.append_nil] at member
      exact .inl member
    | start | skip | merge | bring | put => exact .inl member

/-- The scan that the turn works on starts or goes on. -/
theorem Move.busy {st' : Scan} (busy : p'.busy = some st') :
    st'.spawned = [] ∨ ∃ st, p.busy = some st ∧ Brings p p' st st' := by
  have stays : p.busy = some st' → ∃ st, p.busy = some st ∧ Brings p p' st st' :=
    fun same => ⟨st', same, fun e member => .inl member⟩
  rcases move with spends | keeps
  · cases spends <;> cases busy
  · cases keeps with
    | start =>
      cases busy
      exact .inl (by simp [Scan.start, Scan.track])
    | complete completes =>
      cases busy
      refine .inr ⟨_, rfl, fun e member => ?_⟩
      rcases completes.origin e member with old | ⟨k, new, same⟩
      · exact .inl old
      · exact .inr ⟨same ▸ completes.new k new, List.mem_map.mpr ⟨k, new, same⟩⟩
    | forgive _ marked =>
      rw [unmarked] at marked
      cases marked
    | report | release | keepAll | skip | merge | bring | put | enqueue | ready => exact .inr (stays busy)

/-- A suspended scan was suspended before, or the turn suspended it. -/
theorem Move.suspended {parent : String} {d' : Suspension} (found : p'.state.suspensions[parent]? = some d') :
    (∃ d, p.state.suspensions[parent]? = some d ∧ Hears p d d') ∨ ∃ st, Suspended w p p' st d' := by
  have stays : p.state.suspensions[parent]? = some d' → ∃ d, p.state.suspensions[parent]? = some d ∧ Hears p d d' :=
    fun same => ⟨d', same, .refl d'⟩
  rcases move with spends | keeps
  · cases spends with
    | suspend suspends =>
      have frame := suspends.state
      obtain ⟨ledger, tree, descents, rfl⟩ := frame
      rcases Maps.getElem?_insert_eq_some.mp found with ⟨-, rfl⟩ | ⟨-, found⟩
      · exact .inr ⟨_, rfl, rfl, ⟨_, suspends⟩, rfl, rfl⟩
      · exact .inl (stays found)
    | @close queue s st pending ids _ =>
      obtain ⟨tree, retracted, stats, same, _⟩ :=
        retract_frame { s with active := s.active.filter (· != st.criterion.id) } ids
      rw [same] at found
      exact .inl (stays found)
  · cases keeps with
    | report reports =>
      obtain ⟨ledger, tree, stats, retainedParams, rfl⟩ := reports
      exact .inl (stays found)
    | @release _ c params due _ =>
      have released := p.state.release_released c.id params
      generalize p.state.release c.id params = result at released found
      cases released with
      | unawaited | lost => exact .inl (stays found)
      | woken => exact .inl (stays (Maps.getElem?_erase_eq_some.mp found).2)
      | still _ held _ =>
        rcases Maps.getElem?_insert_eq_some.mp found with ⟨rfl, rfl⟩ | ⟨-, found⟩
        · refine .inl ⟨_, held, rfl, fun r kept => (Suspension.mem_waiting_release.mp kept).1,
            fun r waiting gone => ⟨c, due, ?_⟩⟩
          by_contra other
          exact gone (Suspension.mem_waiting_release.mpr ⟨waiting, Ne.symm other⟩)
        · exact .inl (stays found)
    | @keepAll _ id =>
      rcases p.state.keepAll_cases id with same | ⟨_, _, held, same⟩
      · rw [same] at found
        exact .inl (stays found)
      · rw [same] at found
        rcases Maps.getElem?_insert_eq_some.mp found with ⟨rfl, rfl⟩ | ⟨-, found⟩
        · exact .inl ⟨_, held, rfl, fun _ here => here, fun _ here away => absurd here away⟩
        · exact .inl (stays found)
    | forgive _ marked =>
      rw [unmarked] at marked
      cases marked
    | complete completes =>
      obtain ⟨ledger, tree, rfl⟩ := completes.recorded
      exact .inl (stays found)
    | start | skip | merge | bring | put | enqueue | ready => exact .inl (stays found)

end

theorem Stays.numbered (stays : Stays p p') (numbered : p.Numbered) : p'.Numbered := by
  obtain ⟨tasks, tickets, _⟩ := stays
  exact ⟨tasks ▸ numbered.ascending, tasks ▸ tickets ▸ numbered.given⟩

/-- Queueing goes on in the order of tickets. -/
theorem Queues.numbered (queues : Queues w p p') (numbered : p.Numbered) : p'.Numbered := by
  cases queues with
  | stays stays | brings stays | drops stays | calls stays => exact stays.numbered numbered
  | merges tasks _ _ _ _ state =>
    refine ⟨tasks ▸ numbered.ascending, fun t member => ?_⟩
    rw [state]
    exact (numbered.given t (tasks ▸ member)).trans_eq List.length_set.symm
  | @enqueues c rest _ _ _ tasks state =>
    have numbers : p'.queue.filterMap Task.ticket? = p.queue.filterMap Task.ticket? ++ [p.state.tickets.length] := by
      rw [tasks, List.filterMap_append]
      rfl
    have tickets : p'.state.tickets.length = p.state.tickets.length + 1 := by
      rw [state]
      exact List.length_append
    constructor
    · rw [numbers]
      refine List.pairwise_append.mpr ⟨numbered.ascending, List.pairwise_singleton _ _, fun t member t' last => ?_⟩
      rw [List.mem_singleton.mp last]
      exact numbered.given t member
    · rw [numbers, tickets]
      intro t member
      rcases List.mem_append.mp member with old | new
      · exact Nat.lt_succ_of_lt (numbered.given t old)
      · rw [List.mem_singleton.mp new]
        exact Nat.lt_succ_self _

/-- No mark is left where the criteria that a scan brought about are not in the queue when it ends. -/
theorem Queues.unmarked (queues : Queues w p p') (unmarked : p.state.retracted = [])
    (working : ∀ st, p.busy = some st → ∀ e ∈ st.spawned, p.state.queued[e.2]? = none) : p'.state.retracted = [] := by
  cases queues with
  | stays _ _ retracted | brings _ _ _ retracted | calls _ _ _ _ retracted => exact retracted.trans unmarked
  | drops _ _ busy retracted => exact (retracted (working _ busy)).trans unmarked
  | merges _ _ _ _ _ state =>
    rw [state]
    exact unmarked
  | enqueues _ _ _ _ state =>
    rw [state]
    exact List.filter_eq_nil_iff.mpr (by simp [unmarked])

/-- Merging criteria at calls does not concern others. -/
theorem Arising.merge_queued {c k old : Criterion} {t : Nat} (arising : Arising A p) (closed : Closed w A)
    (ending : p.ending = some c) (called : CalledBy w c k) (param : p.state.pendingParams[callKey k]? = some t)
    (ticket : p.state.tickets[t]? = some old) (elsewhere : Elsewhere A id) :
    (p.state.replaceTicket t old (SlicerState.merged old k)).queued[id]? = p.state.queued[id]? := by
  obtain ⟨c', same, kind, key⟩ := arising.params _ t param
  obtain rfl : c' = old := Option.some.inj (same.symm.trans ticket)
  have here : A c' := arising.tickets _ (List.mem_of_getElem? ticket)
  have whole : A (SlicerState.merged c' k) :=
    closed.merged c' k here (closed.called c k (arising.ending c ending) called) kind called.kind key
  show ((p.state.queued.erase c'.id).insert (SlicerState.merged c' k).id t)[id]? = _
  rw [Std.TreeMap.getElem?_insert, Std.TreeMap.getElem?_erase]
  simp [elsewhere.ne closed here (.inr kind), elsewhere.ne closed whole (.inr kind)]

/-- A criterion that is not at a call changes its place only when a scan brings it about, and then it was not met before. -/
theorem Queues.place (closed : Closed w A) (queues : Queues w p p') (arising : Arising A p) (elsewhere : Elsewhere A id) :
    p'.place id = p.place id ∨ ¬p.Met id := by
  cases queues with
  | stays stays pending | drops stays pending =>
    refine .inl ?_
    rw [Phase.place, pending, stays.tickets, stays.queued]
    rfl
  | brings stays idle new =>
    obtain ⟨none, undue, unended⟩ := idle
    by_cases here : id ∈ p'.pending.map (·.id)
    · obtain ⟨k, member, rfl⟩ := List.mem_map.mp here
      refine .inr ?_
      rintro ((stored | (active | ⟨_, due, _⟩) | ⟨_, ending, _⟩) | ⟨t, found⟩)
      · exact new k member (.inl stored)
      · exact new k member (.inr (.inl active))
      · rw [undue] at due
        cases due
      · rw [unended] at ending
        cases ending
      · rw [place_of_idle none] at found
        exact new k member (.inr (.inr (Maps.contains_of_getElem? found)))
    · refine .inl ?_
      rw [place_of_idle none, Phase.place, lastPlace_of_not_mem here, stays.queued]
  | merges _ ending called param ticket state pending =>
    refine .inl ?_
    rw [Phase.place, pending, state, arising.merge_queued closed ending called param ticket elsewhere]
    exact congrArg (lastPlace id (p.pending.map (·.id)) · _) List.length_set
  | @calls c k stays ending called pending =>
    have other : k.id ≠ id :=
      elsewhere.ne closed (closed.called c k (arising.ending c ending) called) (.inr called.kind)
    refine .inl ?_
    rw [Phase.place, pending, List.map_append, lastPlace_append, List.map_singleton,
      lastPlace_of_not_mem (by simpa using other.symm), stays.tickets, stays.queued]
    rfl
  | enqueues _ first pending _ state =>
    refine .inl ?_
    simp only [Phase.place, pending, first, state, List.map_cons, lastPlace, SlicerState.enqueue, List.length_append,
      List.length_singleton, Std.TreeMap.getElem?_insert, Std.compare_eq_iff_eq]

/-- While the turn works on a scan, no other criteria than those at calls are queued. -/
theorem Queues.queued {st : Scan} (closed : Closed w A) (queues : Queues w p p') (arising : Arising A p)
    (busy : p'.busy = some st) (elsewhere : Elsewhere A id) : p'.state.queued[id]? = p.state.queued[id]? := by
  cases queues with
  | stays stays | brings stays | drops stays | calls stays => rw [stays.queued]
  | merges _ ending called param ticket state =>
    rw [state]
    exact arising.merge_queued closed ending called param ticket elsewhere
  | enqueues idle =>
    rw [idle] at busy
    cases busy

/-- A criterion stays met. -/
theorem Move.met (closed : Closed w A) (move : Move w p p') (unmarked : p.state.retracted = []) (arising : Arising A p)
    (elsewhere : Elsewhere A id) (met : p.Met id) : p'.Met id := by
  rcases met with begun | ⟨t, here⟩
  · exact .inl (move.begun unmarked begun)
  · rcases (move.queues unmarked).place closed arising elsewhere with same | unmet
    · exact .inr ⟨t, same ▸ here⟩
    · exact absurd (.inr ⟨t, here⟩) unmet

/-- A scan brings criteria about by moves that leave them pending. -/
theorem Move.brought (move : Move w p p') (unmarked : p.state.retracted = []) (brought : p'.Brought id) :
    p.Brought id ∨ ∃ t, p'.place id = some t := by
  rcases brought with ⟨st', busy | rests, e, member, rfl⟩ | ⟨parent, d', found, e, member, rfl⟩
  · rcases move.busy unmarked busy with none | ⟨st, before, brings⟩
    · rw [none] at member
      cases member
    · rcases brings e member with old | ⟨_, new⟩
      · exact .inl (.inl ⟨st, .inl before, e, old, rfl⟩)
      · obtain ⟨t, here, _⟩ := exists_lastPlace new
        exact .inr ⟨t, here⟩
  · rcases move.resting unmarked rests with before | ⟨parent, d, _, _, _, found, _, same⟩
    · exact .inl (.inl ⟨st', .inr before, e, member, rfl⟩)
    · exact .inl (.inr ⟨parent, d, found, e, same ▸ member, rfl⟩)
  · rcases move.suspended unmarked found with ⟨d, before, hears⟩ | ⟨st, suspended⟩
    · exact .inl (.inr ⟨parent, d, before, e, hears.scan ▸ member, rfl⟩)
    · obtain ⟨s, suspends⟩ := suspended.suspends
      rcases suspends.origin e member with old | ⟨k, new, same⟩
      · exact .inl (.inl ⟨st, .inl suspended.busy, e, old, rfl⟩)
      · obtain ⟨t, here, _⟩ := exists_lastPlace (List.mem_map.mpr ⟨k, new, same⟩)
        exact .inr ⟨t, here⟩

theorem Arising.brought (arising : Arising A p) (brought : p.Brought id) : Elsewhere A id := by
  rcases brought with ⟨st, here, e, member, rfl⟩ | ⟨parent, d, found, e, member, rfl⟩
  · refine (arising.scans st ?_).2 e member
    rw [Phase.scans, List.append_assoc, List.mem_append, Option.mem_toList]
    exact here
  · exact (arising.held parent d found).2 e member

theorem Awaiting.elsewhere {parent : String} {d : Suspension} (awaiting : Awaiting A .nothing p)
    (found : p.state.suspensions[parent]? = some d) (waiting : r ∈ d.waiting) : Elsewhere A r :=
  (awaiting.awaited r parent ((awaiting.awaits parent d not_false found).2 r waiting)).1

section

variable (closed : Closed w A) (move : Move w p p') (arising : Arising A p) (awaiting : Awaiting A .nothing p)
  (prompt : Prompt A p)
include closed move arising prompt

/-- The place of a criterion that is met stays. -/
theorem Prompt.place (elsewhere : Elsewhere A id) (met : p.Met id) : p'.place id = p.place id :=
  ((move.queues prompt.unmarked).place closed arising elsewhere).resolve_right (not_not_intro met)

/-- A criterion that came to its turn has no place in the queue. -/
theorem Prompt.place_of_underway (elsewhere : Elsewhere A id) (underway : p.Underway id) : p'.place id = none :=
  (prompt.place closed move arising elsewhere (.inl (.inr (.inl underway)))).trans (prompt.taken id elsewhere underway)

/-- The turn does not work on a scan while what it brought about is in the queue. -/
theorem Prompt.working_move {st : Scan} (busy : p'.busy = some st) : ∀ e ∈ st.spawned, p'.state.queued[e.2]? = none := by
  intro e member
  have elsewhere : Elsewhere A e.2 :=
    (Moves.arising closed (.single move) arising).brought (.inl ⟨st, .inl busy, e, member, rfl⟩)
  rw [(move.queues prompt.unmarked).queued closed arising busy elsewhere]
  rcases move.busy prompt.unmarked busy with none | ⟨st₀, before, brings⟩
  · rw [none] at member
    cases member
  · rcases brings e member with old | ⟨unknown, _⟩
    · exact prompt.working st₀ before e old
    · by_contra there
      obtain ⟨t, here⟩ := Option.ne_none_iff_exists'.mp there
      exact unknown (.inr (.inr (Maps.contains_of_getElem? here)))

include awaiting

/-- A scan goes on only after the turns came of all that it brought about before. -/
theorem Prompt.clear_move {st : Scan} (rests : st ∈ p'.resting) : ∀ e ∈ st.spawned, p'.place e.2 = none := by
  intro e member
  rcases move.resting prompt.unmarked rests with before | ⟨parent, d, c, due, awaited, found, last, same⟩
  · have brought : p.Brought e.2 := .inl ⟨st, .inr before, e, member, rfl⟩
    rw [prompt.place closed move arising (arising.brought brought) (prompt.met _ brought)]
    exact prompt.clear st before e member
  · rw [same] at member
    have brought : p.Brought e.2 := .inr ⟨parent, d, found, e, member, rfl⟩
    obtain ⟨elsewhere, ⟨d', found', waits⟩, _⟩ := awaiting.awaited c.id parent awaited
    obtain rfl := Option.some.inj (found.symm.trans found')
    rw [prompt.place closed move arising (arising.brought brought) (prompt.met _ brought)]
    by_cases waited : e.2 ∈ d.waiting
    · exact prompt.taken e.2 (arising.brought brought) (.inr ⟨c, due, (last e.2 waited).symm⟩)
    · -- it would come before the criterion whose turn came
      by_contra there
      obtain ⟨t, here⟩ := Option.ne_none_iff_exists'.mp there
      obtain ⟨t', later, _⟩ := prompt.behind parent d found e member waited c.id waits t here
      rw [prompt.taken c.id elsewhere (.inr ⟨c, due, rfl⟩)] at later
      cases later

/-- What a scan brought about comes to its turn before what the scan waits for. -/
theorem Prompt.behind_move {parent : String} {d : Suspension} (found : p'.state.suspensions[parent]? = some d) :
    ∀ e ∈ d.scan.spawned, e.2 ∉ d.waiting → ∀ r ∈ d.waiting, p'.Before e.2 r := by
  intro e member unwaited r waiting
  rcases move.suspended prompt.unmarked found with ⟨d₀, before, hears⟩ | ⟨st, suspended⟩
  · rw [hears.scan] at member
    have brought : p.Brought e.2 := .inr ⟨parent, d₀, before, e, member, rfl⟩
    have elsewhere := arising.brought brought
    by_cases waited : e.2 ∈ d₀.waiting
    · intro t here
      rw [prompt.place_of_underway closed move arising elsewhere (.inr (hears.told e.2 waited unwaited))] at here
      cases here
    · refine (prompt.behind parent d₀ before e member waited r (hears.fewer r waiting)).congr
        (prompt.place closed move arising elsewhere (prompt.met _ brought)) fun t there => ?_
      exact prompt.place closed move arising (awaiting.elsewhere before (hears.fewer r waiting)) (.inr ⟨t, there⟩)
  · obtain ⟨s, suspends⟩ := suspended.suspends
    intro t here
    rcases suspends.origin e member with old | ⟨k, new, same⟩
    · have brought : p.Brought e.2 := .inl ⟨st, .inl suspended.busy, e, old, rfl⟩
      rw [prompt.place closed move arising (arising.brought brought) (prompt.met _ brought), place_of_idle suspended.idle,
        prompt.working st suspended.busy e old] at here
      cases here
    · obtain ⟨early, returns, split, only, all⟩ := suspends.last
      have last : e.2 ∉ returns.map (·.id) := by
        intro there
        obtain ⟨k', there, same'⟩ := List.mem_map.mp there
        exact unwaited (same' ▸ only k' there)
      have first : e.2 ∈ early.map (·.id) := by
        rw [split] at new
        rcases List.mem_append.mp new with soon | late
        · exact List.mem_map.mpr ⟨k, soon, same⟩
        · exact absurd (List.mem_map.mpr ⟨k, late, same⟩) last
      obtain ⟨m, m', place, place', lt⟩ := lastPlace_lt (n := p'.state.tickets.length) p'.state.queued[e.2]?
        p'.state.queued[r]? first last (List.mem_map.mpr (all r waiting))
      rw [← List.map_append, ← split] at place place'
      obtain rfl := Option.some.inj (place.symm.trans here)
      exact ⟨m', place', lt⟩

theorem Prompt.next (plays : p.Plays w) : Prompt A p' where
  unmarked := (move.queues prompt.unmarked).unmarked prompt.unmarked prompt.working
  numbered := (move.queues prompt.unmarked).numbered prompt.numbered
  met id brought := by
    rcases move.brought prompt.unmarked brought with before | place
    · exact move.met closed prompt.unmarked arising (arising.brought before) (prompt.met id before)
    · exact .inr place
  taken id elsewhere underway :=
    prompt.place_of_underway closed move arising elsewhere (move.underway prompt.unmarked plays underway)
  clear _ rests := prompt.clear_move closed move arising awaiting rests
  working _ busy := prompt.working_move closed move arising busy
  behind _ _ found := prompt.behind_move closed move arising awaiting found

end

/-- What holds between the moves of a turn. -/
structure Timely (A : Criterion → Prop) (p : Phase) : Prop where
  arising : Arising A p
  awaiting : Awaiting A .nothing p
  prompt : Prompt A p

theorem Move.timely (closed : Closed w A) (move : Move w p p') (plays : p.Plays w) (timely : Timely A p) : Timely A p' where
  arising := Moves.arising closed (.single move) timely.arising
  awaiting := Moves.awaiting closed (.single move) plays timely.arising timely.awaiting
  prompt := timely.prompt.next closed move timely.arising timely.awaiting plays

/-- The ticket at the front of the queue is the lowest. -/
theorem Numbered.le {t t' : Nat} {queue : List Task} {s : SlicerState}
    (numbered : ({ queue := .start t :: queue, state := s } : Phase).Numbered) (waits : .start t' ∈ Task.start t :: queue) :
    t ≤ t' := by
  rcases List.mem_cons.mp waits with same | later
  · cases same
    exact Nat.le_refl t
  · exact ((List.pairwise_cons.mp numbered.ascending).1 t' (List.mem_filterMap.mpr ⟨_, later, rfl⟩)).le

theorem Numbered.tail {t : Nat} {queue : List Task} {s : SlicerState}
    (numbered : ({ queue := .start t :: queue, state := s } : Phase).Numbered) :
    ({ queue, state := s } : Phase).Numbered :=
  ⟨(List.pairwise_cons.mp numbered.ascending).2, fun t' member => numbered.given t' (List.mem_cons_of_mem _ member)⟩

/-- Where the turn of a criterion comes, the others keep their places. -/
theorem place_take {c : Criterion} {queue queue' : List Task} {s : SlicerState} (other : c.id ≠ id) :
    ({ queue, state := { s with queued := s.queued.erase c.id }, due := some c } : Phase).place id =
      ({ queue := queue', state := s } : Phase).place id := by
  show (s.queued.erase c.id)[id]? = s.queued[id]?
  simp [Std.TreeMap.getElem?_erase, other]

theorem place_take_self {c : Criterion} {queue : List Task} {s : SlicerState} :
    ({ queue, state := { s with queued := s.queued.erase c.id }, due := some c } : Phase).place c.id = none := by
  show (s.queued.erase c.id)[c.id]? = none
  simp

theorem Opens.met {task : Task} (opens : Opens task p p') (met : p.Met id) : p'.Met id := by
  cases opens with
  | drop | pick => exact met
  | @take t c queue s _ _ =>
    by_cases same : c.id = id
    · exact .inl (.inr (.inl (.inr ⟨c, rfl, same⟩)))
    · rcases met with (stored | (active | ⟨_, ⟨⟩, _⟩) | ⟨_, ⟨⟩, _⟩) | ⟨t', here⟩
      · exact .inl (.inl stored)
      · exact .inl (.inr (.inl (.inl active)))
      · exact .inr ⟨t', (place_take same).trans here⟩

/-- Taking the task at the front of the queue keeps the order of turns. -/
theorem Opens.timely {task : Task} (opens : Opens task p p') (ticketed : Ticketed .nothing p) (timely : Timely A p) :
    Timely A p' := by
  obtain ⟨arising, awaiting, unmarked, numbered, met, taken, clear, working, behind⟩ := timely
  refine ⟨opens.arising arising, opens.awaiting awaiting, ?_⟩
  cases opens with
  | drop =>
    exact ⟨unmarked, numbered.tail, met, taken, clear, working, behind⟩
  | @take t c queue s ticket queued =>
    have still : ∀ id, ({ queue := .start t :: queue, state := s } : Phase).place id = none →
        ({ queue, state := { s with queued := s.queued.erase c.id }, due := some c } : Phase).place id = none := by
      intro id none
      by_cases same : c.id = id
      · exact same ▸ place_take_self
      · exact (place_take same).trans none
    refine ⟨unmarked, ⟨numbered.tail.ascending, numbered.tail.given⟩,
      fun id brought => Opens.met (.take ticket queued) (met id brought), ?_,
      fun st rests e member => still e.2 (clear st rests e member), by simp, ?_⟩
    · rintro id elsewhere (active | ⟨_, ⟨⟩, rfl⟩)
      · exact still id (taken id elsewhere (.inl active))
      · exact place_take_self
    · intro parent d found e member unwaited r waiting t₁ here
      have other : c.id ≠ e.2 := by
        intro same
        rw [← same, place_take_self] at here
        cases here
      rw [place_take other] at here
      obtain ⟨t₂, there, lt⟩ := behind parent d found e member unwaited r waiting t₁ here
      refine ⟨t₂, (place_take ?_).trans there, lt⟩
      -- what comes first in the queue is behind nothing
      rintro rfl
      obtain rfl : t = t₂ := Option.some.inj (queued.symm.trans there)
      have front : Task.start t₁ ∈ Task.start t :: queue := (ticketed e.2 t₁ here).1.resolve_right not_false
      exact absurd lt (Nat.not_lt.mpr (numbered.le front))
  | @pick st queue s =>
    refine ⟨unmarked, ⟨numbered.ascending, numbered.given⟩, ?_, taken,
      fun st' rests => clear st' (List.mem_cons_of_mem _ rests), ?_, behind⟩
    · rintro id (⟨st', here, brought⟩ | held)
      · refine met id (.inl ⟨st', .inr ?_, brought⟩)
        rcases here with ⟨⟨⟩⟩ | rests
        · exact List.mem_cons_self
        · exact List.mem_cons_of_mem _ rests
      · exact met id (.inr held)
    · rintro st' ⟨⟩
      exact clear st List.mem_cons_self

/-- A turn keeps the order of turns. -/
theorem Turn.timely {task : Task} (closed : Closed w A) (turn : Turn w task p p') (plays : p.Plays w)
    (ticketed : Ticketed .nothing p) (timely : Timely A p) : Timely A p' := by
  obtain ⟨p₁, opens, moves, _⟩ := turn
  exact Moves.keep (fun move => move.timely closed) moves (opens.plays plays) (opens.timely ticketed timely)

/-- A criterion that was met stays met in a turn. -/
theorem Turn.met {task : Task} (closed : Closed w A) (turn : Turn w task p p') (plays : p.Plays w)
    (ticketed : Ticketed .nothing p) (timely : Timely A p) (elsewhere : Elsewhere A id) (met : p.Met id) : p'.Met id := by
  obtain ⟨p₁, opens, moves, _⟩ := turn
  have both := Moves.keep (I := fun p => Timely A p ∧ p.Met id)
    (fun move plays here => ⟨move.timely closed plays here.1,
      move.met closed here.1.prompt.unmarked here.1.arising elsewhere here.2⟩)
    moves (opens.plays plays) ⟨opens.timely ticketed timely, opens.met met⟩
  exact both.2

end Phase

end MisuseSlice
