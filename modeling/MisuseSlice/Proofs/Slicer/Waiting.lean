import MisuseSlice.Proofs.Slicer.Playing

/-! Who waits for whom. A suspended scan waits for return criteria that are not sliced yet; each of them is
queued, or its own scan started after the waiting one. So the criteria that wait point to younger and
younger ones, and the youngest cannot wait for anything.

Merging takes criteria out of the queue. It only concerns criteria at calls, and those that are waited for
stand elsewhere, as long as no two criteria share a name by accident. -/
namespace MisuseSlice

namespace Criterion

/-- The criterion stands at a call. -/
def AtCall (c : Criterion) : Prop := c.kind = .invoke ∨ c.kind = .parameter

/-- A set of criteria that slicing does not leave, and in which a name tells whether its criterion stands
at a call. -/
structure Closed (w : Workspace) (A : Criterion → Prop) : Prop where
  spawned : ∀ c k, A c → SpawnedBy w c k → A k
  called : ∀ c k, A c → CalledBy w c k → A k
  merged : ∀ old k, A old → A k → old.kind = .parameter → k.kind = .parameter →
    SlicerState.callKey old = SlicerState.callKey k → A (SlicerState.merged old k)
  apart : ∀ c k, A c → A k → c.id = k.id → c.AtCall → k.AtCall

/-- The name of a criterion that does not stand at a call. -/
def Elsewhere (A : Criterion → Prop) (id : String) : Prop := ∃ c, A c ∧ c.id = id ∧ ¬c.AtCall

theorem SpawnedBy.elsewhere {w : Workspace} {c k : Criterion} (spawned : SpawnedBy w c k) :
    k.kind = .returned ∨ k.kind = .fieldWrite := by
  cases spawned with
  | returned _ _ _ _ here => exact .inl (kind_of_created here)
  | written _ _ _ _ _ here => exact .inr (kind_of_created here)

theorem Elsewhere.of_spawned {w : Workspace} {A : Criterion → Prop} {c k : Criterion} (arises : A k)
    (spawned : SpawnedBy w c k) : Elsewhere A k.id := by
  refine ⟨k, arises, rfl, ?_⟩
  rcases spawned.elsewhere with kind | kind <;> simp [AtCall, kind]

/-- A criterion at a call has another name than one that is not. -/
theorem Elsewhere.ne {w : Workspace} {A : Criterion → Prop} {id : String} {k : Criterion} (elsewhere : Elsewhere A id)
    (closed : Closed w A) (arises : A k) (call : k.AtCall) : k.id ≠ id := by
  obtain ⟨c, here, rfl, away⟩ := elsewhere
  exact fun same => away (closed.apart k c arises here same call)

theorem CalledBy.kind {w : Workspace} {c k : Criterion} (called : CalledBy w c k) : k.kind = .parameter := by
  obtain ⟨_, _, _, _, here⟩ := called
  exact kind_of_created here

end Criterion

namespace Phase

open Criterion

/-- Where the criteria in a phase come from. -/
structure Arising (A : Criterion → Prop) (p : Phase) : Prop where
  tickets : ∀ c ∈ p.state.tickets, A c
  pending : ∀ c ∈ p.pending, A c
  due : ∀ c, p.due = some c → A c
  ending : ∀ c, p.ending = some c → A c
  scans : ∀ st ∈ p.scans ++ p.state.ready, A st.criterion ∧ ∀ e ∈ st.spawned, Elsewhere A e.2
  held : ∀ (id : String) d, p.state.suspensions[id]? = some d →
    A d.scan.criterion ∧ ∀ e ∈ d.scan.spawned, Elsewhere A e.2
  retracted : ∀ id ∈ p.state.retracted, Elsewhere A id
  params : ∀ (key : String) (t : Nat), p.state.pendingParams[key]? = some t →
    ∃ c, p.state.tickets[t]? = some c ∧ c.kind = .parameter ∧ SlicerState.callKey c = key

variable {w : Workspace} {A : Criterion → Prop} {p p' : Phase}

theorem Opens.arising {task : Task} (opens : Opens task p p') (arising : Arising A p) : Arising A p' := by
  obtain ⟨tickets, pending, due, ending, scans, held, retracted, params⟩ := arising
  cases opens with
  | drop | pick => exact ⟨tickets, pending, due, ending, scans, held, retracted, params⟩
  | take ticket =>
    refine ⟨tickets, pending, ?_, ending, scans, held, retracted, params⟩
    rintro c' ⟨⟩
    exact tickets _ (List.mem_of_getElem? ticket)

/-- Telling that a criterion ended brings no new criterion about. -/
theorem Arising.release {id : String} {given : List Int} (arising : Arising A p) :
    Arising A { p with due := none, state := (p.state.release id given).1 } := by
  obtain ⟨tickets, pending, due, ending, scans, held, retracted, params⟩ := arising
  have released := p.state.release_released id given
  generalize p.state.release id given = result at released ⊢
  cases released with
  | unawaited => exact ⟨tickets, pending, by simp, ending, scans, held, retracted, params⟩
  | lost => exact ⟨tickets, pending, by simp, ending, scans, held, retracted, params⟩
  | @woken parent d _ found _ =>
    refine ⟨tickets, pending, by simp, ending, ?_, ?_, retracted, params⟩
    · intro st member
      rw [← List.append_assoc] at member
      rcases List.mem_append.mp member with old | new
      · exact scans st old
      · obtain rfl := List.mem_singleton.mp new
        exact held parent d found
    · exact fun id d' here => held id d' (Maps.getElem?_erase_eq_some.mp here).2
  | @still parent d _ found _ =>
    refine ⟨tickets, pending, by simp, ending, scans, ?_, retracted, params⟩
    intro id d' here
    rcases Maps.getElem?_insert_eq_some.mp here with ⟨rfl, rfl⟩ | ⟨-, here⟩
    · exact held _ d found
    · exact held id d' here

theorem Spends.arising (closed : Closed w A) (spends : Spends w p p') (arising : Arising A p) :
    Arising A p' := by
  obtain ⟨tickets, pending, due, ending, scans, held, retracted, params⟩ := arising
  cases spends with
  | @suspend queue s s' st more d suspends =>
    obtain ⟨ledger, tree, descents, rfl⟩ := suspends.state
    have here := scans st List.mem_cons_self
    have brought : ∀ k ∈ more, A k := fun k member => closed.spawned _ k here.1 (suspends.spawned k member)
    refine ⟨tickets, brought, by simp, by simp, fun st' member => scans st' (List.mem_cons_of_mem _ member),
      ?_, retracted, params⟩
    intro id d' found
    rcases Maps.getElem?_insert_eq_some.mp found with ⟨rfl, rfl⟩ | ⟨-, found⟩
    · refine ⟨suspends.criterion ▸ here.1, ?_⟩
      intro e member
      rcases suspends.origin e member with old | ⟨k, new, same⟩
      · exact here.2 e old
      · exact same ▸ .of_spawned (brought k new) (suspends.spawned k new)
    · exact held id d' found
  | @close queue s st pending' ids spawned =>
    obtain ⟨tree, marked, stats, same, origin⟩ :=
      SlicerState.retract_frame { s with active := s.active.filter (· != st.criterion.id) } ids
    have here := scans st List.mem_cons_self
    rw [same]
    refine ⟨tickets, pending, ?_, ?_, fun st' member => scans st' (List.mem_cons_of_mem _ member), held, ?_, params⟩
    · rintro c ⟨⟩
      exact here.1
    · rintro c ⟨⟩
      exact here.1
    · intro id member
      rcases origin id member with old | dropped
      · exact retracted id old
      · obtain ⟨e, brought, rfl⟩ := spawned id dropped
        exact here.2 e brought

/-- The ticket of a criterion at a call goes to a merged one of the same call. -/
theorem Arising.merge {k old : Criterion} {t : Nat} (closed : Closed w A) (arises : A k)
    (called : k.kind = .parameter) (param : p.state.pendingParams[SlicerState.callKey k]? = some t)
    (ticket : p.state.tickets[t]? = some old) (arising : Arising A p) :
    Arising A { p with state := p.state.replaceTicket t old (SlicerState.merged old k) } := by
  obtain ⟨tickets, pending, due, ending, scans, held, retracted, params⟩ := arising
  obtain ⟨c, same, kind, key⟩ := params _ t param
  obtain rfl : c = old := Option.some.inj (same.symm.trans ticket)
  have inside : t < p.state.tickets.length := (List.getElem?_eq_some_iff.mp ticket).1
  refine ⟨?_, pending, due, ending, scans, held, retracted, ?_⟩
  · intro c' member
    rcases List.mem_or_eq_of_mem_set member with old | rfl
    · exact tickets c' old
    · exact closed.merged c k (tickets _ (List.mem_of_getElem? ticket)) arises kind called key
  · intro key' t' found
    obtain ⟨c', here, kind', key'⟩ := params key' t' found
    show ∃ c₁, (p.state.tickets.set t (SlicerState.merged c k))[t']? = some c₁ ∧ _
    by_cases same : t = t'
    · subst same
      obtain rfl : c' = c := Option.some.inj (here.symm.trans ticket)
      exact ⟨_, List.getElem?_set_self inside, kind', key'⟩
    · exact ⟨c', (List.getElem?_set_ne same).trans here, kind', key'⟩

/-- A criterion brought about takes its place in the queue. -/
theorem Arising.enqueue {c : Criterion} {rest : List Criterion} (first : p.pending = c :: rest)
    (arising : Arising A p) :
    Arising A
      { p with queue := p.queue ++ [(p.state.enqueue c).1], state := (p.state.enqueue c).2, pending := rest } := by
  obtain ⟨tickets, pending, due, ending, scans, held, retracted, params⟩ := arising
  rw [first] at pending
  -- tickets given before are at their places still
  have older : ∀ (key : String) (t : Nat), p.state.pendingParams[key]? = some t →
      ∃ c', (p.state.tickets ++ [c])[t]? = some c' ∧ c'.kind = .parameter ∧ SlicerState.callKey c' = key := by
    intro key t found
    obtain ⟨c', here, facts⟩ := params key t found
    exact ⟨c', (List.getElem?_append_left (List.getElem?_eq_some_iff.mp here).1).trans here, facts⟩
  refine ⟨?_, fun k member => pending k (List.mem_cons_of_mem _ member), due, ending, ?_, held, ?_, ?_⟩
  · intro c' member
    rcases List.mem_append.mp member with old | new
    · exact tickets c' old
    · exact List.mem_singleton.mp new ▸ pending c List.mem_cons_self
  · intro st member
    simp only [Phase.scans, List.filterMap_append, SlicerState.enqueue, List.filterMap_cons,
      List.filterMap_nil, Task.scan?, List.append_nil] at member
    exact scans st member
  · exact fun id member => retracted id (List.mem_filter.mp member).1
  · intro key t found
    simp only [SlicerState.enqueue] at found ⊢
    split at found
    · rename_i kind
      rcases Maps.getElem?_insert_eq_some.mp found with ⟨rfl, rfl⟩ | ⟨-, found⟩
      · exact ⟨c, by simp, by simpa using kind, rfl⟩
      · exact older key t found
    · exact older key t found

theorem Keeps.arising (closed : Closed w A) (keeps : Keeps w p p') (arising : Arising A p) :
    Arising A p' := by
  obtain ⟨tickets, pending, due, ending, scans, held, retracted, params⟩ := arising
  cases keeps with
  | report reports =>
    obtain ⟨ledger, tree, stats, retainedParams, rfl⟩ := reports
    exact ⟨tickets, pending, due, ending, scans, held, retracted, params⟩
  | release => exact Arising.release ⟨tickets, pending, due, ending, scans, held, retracted, params⟩
  | @keepAll _ id =>
    rcases p.state.keepAll_cases id with same | ⟨parent, d, found, same⟩
    · rw [same]
      exact ⟨tickets, pending, due, ending, scans, held, retracted, params⟩
    · rw [same]
      refine ⟨tickets, pending, due, ending, scans, ?_, retracted, params⟩
      intro id d' here
      rcases Maps.getElem?_insert_eq_some.mp here with ⟨rfl, rfl⟩ | ⟨-, here⟩
      · exact held _ d found
      · exact held id d' here
  | @forgive _ c _ _ =>
    exact Arising.release
      (p := { p with state := { p.state with retracted := p.state.retracted.filter (· != c.id) } })
      ⟨tickets, pending, due, ending, scans, held,
        fun id member => retracted id (List.mem_filter.mp member).1, params⟩
  | @start _ c b isDue idle _ _ _ _ =>
    unfold Phase.scans at scans
    rw [idle] at scans
    refine ⟨tickets, pending, by simp, ending, ?_, held, retracted, params⟩
    intro st member
    rcases List.mem_cons.mp member with rfl | other
    · exact ⟨due c isDue, by simp [Scan.start, Scan.track]⟩
    · exact scans st other
  | skip isDue =>
    refine ⟨tickets, pending, due, ?_, scans, held, retracted, params⟩
    rintro c' ⟨⟩
    exact due _ isDue
  | @complete queue s s' st st' more completes =>
    obtain ⟨ledger, tree, rfl⟩ := completes.recorded
    have here := scans st List.mem_cons_self
    have brought : ∀ k ∈ more, A k := fun k member => closed.spawned _ k here.1 (completes.spawned k member)
    refine ⟨tickets, brought, due, ending, ?_, held, retracted, params⟩
    intro st₁ member
    rcases List.mem_cons.mp member with rfl | other
    · refine ⟨completes.criterion ▸ here.1, ?_⟩
      intro e member
      rcases completes.origin e member with old | ⟨k, new, same⟩
      · exact here.2 e old
      · exact same ▸ .of_spawned (brought k new) (completes.spawned k new)
    · exact scans st₁ (List.mem_cons_of_mem _ other)
  | @merge _ c k _ _ isEnding called param ticket _ _ =>
    exact Arising.merge closed (closed.called c k (ending c isEnding) called) called.kind param ticket
      ⟨tickets, pending, due, ending, scans, held, retracted, params⟩
  | bring isEnding _ called =>
    refine ⟨tickets, ?_, due, ending, scans, held, retracted, params⟩
    intro k member
    rcases List.mem_append.mp member with old | new
    · exact pending k old
    · rw [List.mem_singleton.mp new]
      exact closed.called _ _ (ending _ isEnding) called
  | enqueue first =>
    exact Arising.enqueue first ⟨tickets, pending, due, ending, scans, held, retracted, params⟩
  | put => exact ⟨tickets, pending, due, by simp, scans, held, retracted, params⟩
  | ready =>
    refine ⟨tickets, pending, due, ending, ?_, held, retracted, params⟩
    intro st member
    rw [Phase.scans_ready, List.append_nil] at member
    exact scans st member

theorem Moves.arising (closed : Closed w A) (moves : Moves w p p') (arising : Arising A p) :
    Arising A p' := by
  induction moves with
  | refl => exact arising
  | tail _ move ih =>
    rcases move with spends | keeps
    · exact spends.arising closed ih
    · exact keeps.arising closed ih

/-- What earlier runs left behind: tickets whose tasks are lost, and criteria that wait for good. -/
structure Leftover where
  tickets : Nat → Prop
  waiting : String → Prop

/-- Nothing was left behind. -/
def Leftover.nothing : Leftover := ⟨fun _ => False, fun _ => False⟩

variable {l : Leftover}

/-- Every queued criterion has a task, and the ticket of the task is its own. -/
def Ticketed (l : Leftover) (p : Phase) : Prop :=
  ∀ (id : String) (t : Nat), p.state.queued[id]? = some t →
    (.start t ∈ p.queue ∨ l.tickets t) ∧ ∃ c, p.state.tickets[t]? = some c ∧ c.id = id

theorem Opens.ticketed {task : Task} (opens : Opens task p p') (ticketed : Ticketed l p) : Ticketed l p' := by
  cases opens with
  | @drop t queue s stale =>
    intro id t' queued
    obtain ⟨task, c, ticket, named⟩ := ticketed id t' queued
    refine ⟨task.imp_left fun task => ?_, c, ticket, named⟩
    rcases List.mem_cons.mp task with same | later
    · cases same
      exact absurd (named ▸ queued) (stale c ticket)
    · exact later
  | @take t c queue s ticket _ =>
    intro id t' queued
    obtain ⟨other, queued⟩ := Maps.getElem?_erase_eq_some.mp queued
    obtain ⟨task, c', ticket', named⟩ := ticketed id t' queued
    refine ⟨task.imp_left fun task => ?_, c', ticket', named⟩
    rcases List.mem_cons.mp task with same | later
    · cases same
      obtain rfl : c = c' := Option.some.inj (ticket.symm.trans ticket')
      exact absurd named other
    · exact later
  | pick =>
    intro id t queued
    obtain ⟨task, ticket⟩ := ticketed id t queued
    exact ⟨task.imp_left fun task => (List.mem_cons.mp task).resolve_left (by simp), ticket⟩

theorem Spends.ticketed (spends : Spends w p p') (ticketed : Ticketed l p) : Ticketed l p' := by
  cases spends with
  | suspend suspends =>
    obtain ⟨ledger, tree, descents, rfl⟩ := suspends.state
    exact ticketed
  | @close queue s st pending ids =>
    obtain ⟨tree, marked, stats, same, _⟩ :=
      SlicerState.retract_frame { s with active := s.active.filter (· != st.criterion.id) } ids
    rw [same]
    exact ticketed

theorem Keeps.ticketed (keeps : Keeps w p p') (ticketed : Ticketed l p) : Ticketed l p' := by
  cases keeps with
  | report reports =>
    obtain ⟨ledger, tree, stats, retainedParams, rfl⟩ := reports
    exact ticketed
  | @release _ c given _ =>
    have released := p.state.release_released c.id given
    generalize p.state.release c.id given = result at released ⊢
    cases released <;> exact ticketed
  | @forgive _ c _ _ =>
    have released := SlicerState.release_released
      { p.state with retracted := p.state.retracted.filter (· != c.id) } c.id []
    generalize SlicerState.release _ c.id [] = result at released ⊢
    cases released <;> exact ticketed
  | @keepAll _ id =>
    rcases p.state.keepAll_cases id with same | ⟨_, _, _, same⟩ <;> rw [same] <;> exact ticketed
  | complete completes =>
    obtain ⟨ledger, tree, rfl⟩ := completes.recorded
    exact ticketed
  | @merge _ c k old t _ _ _ ticket queued _ =>
    have inside : t < p.state.tickets.length := (List.getElem?_eq_some_iff.mp ticket).1
    intro id t' here
    change ((p.state.queued.erase old.id).insert (SlicerState.merged old k).id t)[id]? = some t' at here
    show _ ∧ ∃ c, (p.state.tickets.set t (SlicerState.merged old k))[t']? = some c ∧ _
    rcases Maps.getElem?_insert_eq_some.mp here with ⟨rfl, rfl⟩ | ⟨-, here⟩
    · exact ⟨(ticketed _ _ queued).1, _, List.getElem?_set_self inside, rfl⟩
    · obtain ⟨other, here⟩ := Maps.getElem?_erase_eq_some.mp here
      obtain ⟨task, c', ticket', named⟩ := ticketed id t' here
      refine ⟨task, c', ?_, named⟩
      refine (List.getElem?_set_ne ?_).trans ticket'
      rintro rfl
      obtain rfl : old = c' := Option.some.inj (ticket.symm.trans ticket')
      exact other named
  | @enqueue _ c rest _ =>
    intro id t queued
    simp only [SlicerState.enqueue] at queued ⊢
    rcases Maps.getElem?_insert_eq_some.mp queued with ⟨rfl, rfl⟩ | ⟨-, queued⟩
    · exact ⟨by simp, c, by simp, rfl⟩
    · obtain ⟨task, c', ticket, named⟩ := ticketed id t queued
      refine ⟨task.imp_left (List.mem_append_left _), c', ?_, named⟩
      rw [List.getElem?_append_left (List.getElem?_eq_some_iff.mp ticket).1, ticket]
  | ready =>
    intro id t queued
    obtain ⟨task, ticket⟩ := ticketed id t queued
    exact ⟨task.imp_left (List.mem_append_left _), ticket⟩
  | start | skip | bring | put => exact ticketed

theorem Moves.ticketed (moves : Moves w p p') (ticketed : Ticketed l p) : Ticketed l p' := by
  induction moves with
  | refl => exact ticketed
  | tail _ move ih =>
    rcases move with spends | keeps
    · exact spends.ticketed ih
    · exact keeps.ticketed ih

/-- The slice of a criterion that another one waits for is still to come: the criterion is queued, or about
to be, or its scan started after that of the waiting one. -/
def Coming (p : Phase) (r id : String) : Prop :=
  p.state.queued.contains r = true ∨ (∃ c, p.due = some c ∧ c.id = r) ∨ (∃ k ∈ p.pending, k.id = r) ∨
    List.Sublist [r, id] p.state.active

/-- What holds of those that wait at every moment. -/
structure Awaiting (A : Criterion → Prop) (l : Leftover) (p : Phase) : Prop where
  awaits : ∀ (id : String) d, ¬l.waiting id → p.state.suspensions[id]? = some d →
    d.waiting ≠ [] ∧ ∀ r ∈ d.waiting, p.state.descents[r]? = some id
  awaited : ∀ r id : String, p.state.descents[r]? = some id →
    Elsewhere A r ∧ (∃ d, p.state.suspensions[id]? = some d ∧ r ∈ d.waiting) ∧ (¬l.waiting id → p.Coming r id)

/-- Those that wait stay so as long as what they wait for is still to come. -/
theorem Awaiting.congr (awaiting : Awaiting A l p) (suspensions : p'.state.suspensions = p.state.suspensions)
    (descents : p'.state.descents = p.state.descents)
    (coming : ∀ r id, p.state.descents[r]? = some id → p.Coming r id → p'.Coming r id) : Awaiting A l p' := by
  obtain ⟨awaits, awaited⟩ := awaiting
  constructor
  · rw [suspensions, descents]
    exact awaits
  · intro r id found
    rw [descents] at found
    obtain ⟨elsewhere, waits, still⟩ := awaited r id found
    exact ⟨elsewhere, suspensions ▸ waits, fun answered => coming r id found (still answered)⟩

/-- Nobody waited for what a scan that is suspended brings about, since it was neither queued nor under way. -/
theorem Awaiting.unawaited {queue : List Task} {s s' : SlicerState} {st : Scan} {more : List Criterion}
    {d : Suspension} {r id : String} (awaiting : Awaiting A l { queue, state := s, busy := some st })
    (suspends : s.Suspends w st more d s') (waiting : r ∈ d.waiting) (found : s.descents[r]? = some id) :
    l.waiting id := by
  by_contra answered
  obtain ⟨_, inactive, unqueued⟩ := (suspends.fresh r waiting).2
  rcases (awaiting.awaited r id found).2.2 answered with queued | ⟨c, ⟨⟩, _⟩ | ⟨k, ⟨⟩, _⟩ | active
  · rw [show s.queued.contains r = true from queued] at unqueued
    cases unqueued
  · exact inactive (active.subset List.mem_cons_self)

/-- A scan is suspended: what it waits for is about to be queued. -/
theorem Awaiting.suspend {queue : List Task} {s s' : SlicerState} {st : Scan} {more : List Criterion}
    {d : Suspension} (closed : Closed w A) (plays : Plays w { queue, state := s, busy := some st })
    (arises : A st.criterion) (suspends : s.Suspends w st more d s')
    (awaiting : Awaiting A l { queue, state := s, busy := some st }) :
    Awaiting A l
      { queue, pending := more
        state := { s' with suspensions := s'.suspensions.insert st.criterion.id d } } := by
  have ⟨awaits, awaited⟩ := awaiting
  have unawaited : ∀ {r id : String}, r ∈ d.waiting → s.descents[r]? = some id → l.waiting id :=
    awaiting.unawaited suspends
  obtain ⟨ledger, tree, descents, rfl⟩ := suspends.state
  have noted := suspends.noted
  dsimp only at noted
  have free : s.suspensions[st.criterion.id]? = none := by
    by_contra present
    obtain ⟨d', found⟩ := Option.ne_none_iff_exists'.mp present
    exact (plays.held _ d' found).2 List.mem_cons_self
  constructor
  · intro id d' answered found
    dsimp only at found ⊢
    rcases Maps.getElem?_insert_eq_some.mp found with ⟨rfl, rfl⟩ | ⟨-, found⟩
    · refine ⟨suspends.waits, fun r waiting => ?_⟩
      rw [noted r, if_pos waiting]
    · obtain ⟨some, waits⟩ := awaits id d' answered found
      refine ⟨some, fun r waiting => ?_⟩
      have before := waits r waiting
      rw [noted r, if_neg, before]
      exact fun new => answered (unawaited new before)
  · intro r id found
    dsimp only at found ⊢
    rw [noted r] at found
    split at found
    · rename_i waiting
      cases found
      obtain ⟨⟨k, new, rfl⟩, _⟩ := suspends.fresh r waiting
      refine ⟨.of_spawned (closed.spawned _ k arises (suspends.spawned k new)) (suspends.spawned k new),
        ⟨d, by simp, waiting⟩, fun _ => .inr (.inr (.inl ⟨k, new, rfl⟩))⟩
    · obtain ⟨elsewhere, ⟨d', here, waits⟩, coming⟩ := awaited r id found
      refine ⟨elsewhere, ⟨d', ?_, waits⟩, ?_⟩
      · refine Maps.getElem?_insert_eq_some.mpr (.inr ⟨?_, here⟩)
        rintro rfl
        rw [free] at here
        cases here
      · intro answered
        rcases coming answered with queued | ⟨c, ⟨⟩, _⟩ | ⟨k, ⟨⟩, _⟩ | active
        · exact .inl queued
        · exact .inr (.inr (.inr active))

/-- When a criterion is told, what comes for the others comes still. -/
theorem Coming.told {c : Criterion} {s : SlicerState} {r id : String} (coming : p.Coming r id) (due : p.due = some c)
    (queued : s.queued = p.state.queued) (active : s.active = p.state.active) (other : c.id ≠ r) :
    ({ p with due := none, state := s } : Phase).Coming r id := by
  rcases coming with here | ⟨c', isDue, named⟩ | later | active'
  · exact .inl (queued ▸ here)
  · rw [due] at isDue
    cases isDue
    exact absurd named other
  · exact .inr (.inr (.inl later))
  · exact .inr (.inr (.inr (active ▸ active')))

/-- Who waits for others waits for them still when the scan that waits for a criterion is told of it. -/
theorem Awaiting.unaffected {name parent id : String} {d : Suspension} (awaiting : Awaiting A l p)
    (waits : p.state.descents[name]? = some parent) (other : parent ≠ id) (answered : ¬l.waiting id)
    (found : p.state.suspensions[id]? = some d) :
    d.waiting ≠ [] ∧ ∀ r ∈ d.waiting, (p.state.descents.erase name)[r]? = some id := by
  obtain ⟨some, waits'⟩ := awaiting.awaits id d answered found
  refine ⟨some, fun r waiting => Maps.getElem?_erase_eq_some.mpr ⟨?_, waits' r waiting⟩⟩
  rintro rfl
  exact other (Option.some.inj (waits.symm.trans (waits' _ waiting)))

/-- What waits for a criterion is told that it ended. -/
theorem Awaiting.release {c : Criterion} {params : List Int} (due : p.due = some c)
    (awaiting : Awaiting A l p) :
    Awaiting A l { p with due := none, state := (p.state.release c.id params).1 } := by
  have ⟨awaits, awaited⟩ := awaiting
  have released := p.state.release_released c.id params
  generalize p.state.release c.id params = result at released ⊢
  cases released with
  | unawaited nobody =>
    refine ⟨awaits, fun r id found => ?_⟩
    obtain ⟨elsewhere, waits, coming⟩ := awaited r id found
    refine ⟨elsewhere, waits, fun answered => (coming answered).told due rfl rfl ?_⟩
    rintro rfl
    rw [nobody] at found
    cases found
  | lost waits gone =>
    obtain ⟨_, ⟨d, found, _⟩, _⟩ := awaited _ _ waits
    rw [gone] at found
    cases found
  | @woken parent d waits found last =>
    constructor
    · intro id d' answered here
      obtain ⟨other, here⟩ := Maps.getElem?_erase_eq_some.mp here
      exact awaiting.unaffected waits other answered here
    · intro r id here
      obtain ⟨different, here⟩ := Maps.getElem?_erase_eq_some.mp here
      obtain ⟨elsewhere, ⟨d', held, waiting⟩, coming⟩ := awaited r id here
      refine ⟨elsewhere, ⟨d', Maps.getElem?_erase_eq_some.mpr ⟨?_, held⟩, waiting⟩,
        fun answered => (coming answered).told due rfl rfl different⟩
      rintro rfl
      rw [found] at held
      cases held
      exact different (Suspension.eq_of_waiting_release last waiting).symm
  | @still parent d waits found more =>
    constructor
    · intro id d' answered here
      rcases Maps.getElem?_insert_eq_some.mp here with ⟨rfl, rfl⟩ | ⟨other, here⟩
      · refine ⟨more, fun r waiting => ?_⟩
        obtain ⟨waiting, other⟩ := Suspension.mem_waiting_release.mp waiting
        exact Maps.getElem?_erase_eq_some.mpr ⟨other.symm, (awaits _ d answered found).2 r waiting⟩
      · exact awaiting.unaffected waits other answered here
    · intro r id here
      obtain ⟨different, here⟩ := Maps.getElem?_erase_eq_some.mp here
      obtain ⟨elsewhere, ⟨d', held, waiting⟩, coming⟩ := awaited r id here
      refine ⟨elsewhere, ?_, fun answered => (coming answered).told due rfl rfl different⟩
      by_cases same : parent = id
      · subst same
        rw [found] at held
        cases held
        exact ⟨_, Maps.getElem?_insert_eq_some.mpr (.inl ⟨rfl, rfl⟩),
          Suspension.mem_waiting_release.mpr ⟨waiting, different.symm⟩⟩
      · exact ⟨d', Maps.getElem?_insert_eq_some.mpr (.inr ⟨same, held⟩), waiting⟩

/-- Noting that every argument may matter does not change who waits for whom. -/
theorem Awaiting.keepAll {id : String} (awaiting : Awaiting A l p) :
    Awaiting A l { p with state := p.state.keepAll id } := by
  rcases p.state.keepAll_cases id with same | ⟨parent, d, found, same⟩
  · rw [same]
    exact awaiting
  rw [same]
  obtain ⟨awaits, awaited⟩ := awaiting
  constructor
  · intro id' d' answered here
    rcases Maps.getElem?_insert_eq_some.mp here with ⟨rfl, rfl⟩ | ⟨-, here⟩
    · exact awaits _ d answered found
    · exact awaits id' d' answered here
  · intro r id' here
    obtain ⟨elsewhere, ⟨d', held, waiting⟩, coming⟩ := awaited r id' here
    refine ⟨elsewhere, ?_, coming⟩
    by_cases same : parent = id'
    · subst same
      obtain rfl := Option.some.inj (found.symm.trans held)
      exact ⟨_, Maps.getElem?_insert_eq_some.mpr (.inl ⟨rfl, rfl⟩), waiting⟩
    · exact ⟨d', Maps.getElem?_insert_eq_some.mpr (.inr ⟨same, held⟩), waiting⟩

theorem Opens.awaiting {task : Task} (opens : Opens task p p') (awaiting : Awaiting A l p) : Awaiting A l p' := by
  cases opens with
  | drop | pick => exact awaiting.congr rfl rfl fun _ _ _ coming => coming
  | @take t c queue s _ _ =>
    refine awaiting.congr rfl rfl ?_
    rintro r id _ (queued | ⟨c, ⟨⟩, _⟩ | ⟨k, ⟨⟩, _⟩ | active)
    · by_cases same : c.id = r
      · exact .inr (.inl ⟨c, rfl, same⟩)
      · refine .inl ?_
        simpa [Std.TreeMap.contains_erase, same] using queued
    · exact .inr (.inr (.inr active))

theorem Spends.awaiting (closed : Closed w A) (spends : Spends w p p') (plays : p.Plays w)
    (arising : Arising A p) (awaiting : Awaiting A l p) : Awaiting A l p' := by
  cases spends with
  | suspend suspends =>
    exact awaiting.suspend closed plays (arising.scans _ List.mem_cons_self).1 suspends
  | @close queue s st pending ids _ =>
    obtain ⟨tree, marked, stats, same, _⟩ :=
      SlicerState.retract_frame { s with active := s.active.filter (· != st.criterion.id) } ids
    rw [same]
    refine awaiting.congr rfl rfl ?_
    rintro r id found (queued | ⟨c, ⟨⟩, _⟩ | later | active)
    · exact .inl queued
    · exact .inr (.inr (.inl later))
    · by_cases ended : st.criterion.id = r
      · exact .inr (.inl ⟨_, rfl, ended⟩)
      · refine .inr (.inr (.inr ?_))
        obtain ⟨_, ⟨d, held, _⟩, _⟩ := awaiting.awaited r id found
        have different : st.criterion.id ≠ id := by
          rintro rfl
          exact (plays.held _ d held).2 List.mem_cons_self
        have kept := active.filter (· != st.criterion.id)
        simpa [Ne.symm ended, Ne.symm different] using kept

theorem Keeps.awaiting (closed : Closed w A) (keeps : Keeps w p p') (plays : p.Plays w)
    (arising : Arising A p) (awaiting : Awaiting A l p) : Awaiting A l p' := by
  cases keeps with
  | report reports =>
    obtain ⟨ledger, tree, stats, retainedParams, rfl⟩ := reports
    exact awaiting.congr rfl rfl fun _ _ _ coming => coming
  | release _ due => exact awaiting.release due
  | keepAll => exact awaiting.keepAll
  | @forgive _ c due _ =>
    exact Awaiting.release
      (p := { p with state := { p.state with retracted := p.state.retracted.filter (· != c.id) } }) due
      (awaiting.congr rfl rfl fun _ _ _ coming => coming)
  | @start _ c b due _ _ _ _ _ =>
    refine awaiting.congr rfl rfl ?_
    rintro r id found (queued | ⟨c', isDue, rfl⟩ | later | active)
    · exact .inl queued
    · rw [due] at isDue
      cases isDue
      obtain ⟨_, ⟨d, held, _⟩, _⟩ := awaiting.awaited _ id found
      have waiting : id ∈ p.state.active := (plays.active id).mpr (.inr (Maps.contains_of_getElem? held))
      exact .inr (.inr (.inr ((List.singleton_sublist.mpr waiting).cons_cons _)))
    · exact .inr (.inr (.inl later))
    · exact .inr (.inr (.inr (active.cons _)))
  | complete completes =>
    obtain ⟨ledger, tree, rfl⟩ := completes.recorded
    refine awaiting.congr rfl rfl ?_
    rintro r id _ (queued | due | ⟨k, ⟨⟩, _⟩ | active)
    · exact .inl queued
    · exact .inr (.inl due)
    · exact .inr (.inr (.inr active))
  | @merge _ c k old t _ _ param ticket _ _ =>
    obtain ⟨c', same, kind, _⟩ := arising.params _ t param
    obtain rfl : c' = old := Option.some.inj (same.symm.trans ticket)
    refine awaiting.congr rfl rfl ?_
    rintro r id found (queued | rest)
    · have different : c'.id ≠ r :=
        (awaiting.awaited r id found).1.ne closed (arising.tickets _ (List.mem_of_getElem? ticket)) (.inr kind)
      refine .inl ?_
      show ((p.state.queued.erase c'.id).insert (SlicerState.merged c' k).id t).contains r = true
      rw [Std.TreeMap.contains_insert, Std.TreeMap.contains_erase]
      simp [different, show p.state.queued.contains r = true from queued]
    · exact .inr rest
  | bring =>
    refine awaiting.congr rfl rfl ?_
    rintro r id _ (queued | due | ⟨k, member, named⟩ | active)
    · exact .inl queued
    · exact .inr (.inl due)
    · exact .inr (.inr (.inl ⟨k, List.mem_append_left _ member, named⟩))
    · exact .inr (.inr (.inr active))
  | @enqueue _ c rest first =>
    refine awaiting.congr rfl rfl ?_
    have queues : ∀ r, (p.state.enqueue c).2.queued.contains r = true ↔
        c.id = r ∨ p.state.queued.contains r = true := by
      intro r
      simp [SlicerState.enqueue, Std.TreeMap.contains_insert]
    rintro r id _ (queued | due | ⟨k, member, named⟩ | active)
    · exact .inl ((queues r).mpr (.inr queued))
    · exact .inr (.inl due)
    · rw [first] at member
      rcases List.mem_cons.mp member with rfl | later
      · exact .inl ((queues r).mpr (.inl named))
      · exact .inr (.inr (.inl ⟨k, later, named⟩))
    · exact .inr (.inr (.inr active))
  | skip | put | ready => exact awaiting.congr rfl rfl fun _ _ _ coming => coming

/-- What holds of those that wait is kept by any moves. -/
theorem Moves.awaiting (closed : Closed w A) (moves : Moves w p p') (plays : p.Plays w)
    (arising : Arising A p) (awaiting : Awaiting A l p) : Awaiting A l p' := by
  induction moves with
  | refl => exact awaiting
  | tail moves move ih =>
    have here := Moves.plays moves plays
    have origin := Moves.arising closed moves arising
    rcases move with spends | keeps
    · exact spends.awaiting closed here origin ih
    · exact keeps.awaiting closed here origin ih

/-- What holds between two turns of the criteria, the tasks and those that wait. -/
structure Settled (A : Criterion → Prop) (l : Leftover) (p : Phase) : Prop where
  arising : Arising A p
  ticketed : Ticketed l p
  awaiting : Awaiting A l p

theorem Turn.settled {task : Task} (closed : Closed w A) (turn : Turn w task p p') (plays : p.Plays w)
    (settled : Settled A l p) : Settled A l p' := by
  obtain ⟨p₁, opens, moves, _⟩ := turn
  obtain ⟨arising, ticketed, awaiting⟩ := settled
  have origin := opens.arising arising
  exact ⟨Moves.arising closed moves origin, Moves.ticketed moves (opens.ticketed ticketed),
    Moves.awaiting closed moves (opens.plays plays) origin (opens.awaiting awaiting)⟩

end Phase

end MisuseSlice
