import Mathlib.Data.List.Nodup
import MisuseSlice.Proofs.Maps
import MisuseSlice.Proofs.Slicer.Turns

/-! The scans in play. At every moment of a run each active criterion has exactly one scan: the one that
the turn works on, one that a task or the list of ready scans holds, or a suspended one. -/
namespace MisuseSlice

/-- The names of the criteria of scans. -/
def Scan.names (scans : List Scan) : List String := scans.map (·.criterion.id)

/-- What holds of the scans of a run at every moment. Those in play are the given ones and the ready ones;
a criterion that ended is neither active nor stored yet. -/
structure Playing (w : Workspace) (scans : List Scan) (ended : Option Criterion) (s : SlicerState) : Prop where
  once : (Scan.names (scans ++ s.ready)).Nodup
  alive : s.active.Nodup
  active : ∀ id, id ∈ s.active ↔ id ∈ Scan.names (scans ++ s.ready) ∨ s.suspensions.contains id = true
  held : ∀ (id : String) d, s.suspensions[id]? = some d →
    d.scan.criterion.id = id ∧ id ∉ Scan.names (scans ++ s.ready)
  known : ∀ st ∈ scans ++ s.ready, w.body? st.criterion.caller = some st.body
  knownHeld : ∀ (id : String) d, s.suspensions[id]? = some d →
    w.body? d.scan.criterion.caller = some d.scan.body
  unsliced : ∀ id ∈ s.active, s.store.contains id = false
  gone : ∀ c, ended = some c → c.id ∉ s.active ∧ s.store.contains c.id = false

namespace Playing

variable {w : Workspace} {scans : List Scan} {ended : Option Criterion} {s s' : SlicerState}

@[simp] theorem names_cons {st : Scan} : Scan.names (st :: scans) = st.criterion.id :: Scan.names scans := rfl

@[simp] theorem names_append {more : List Scan} :
    Scan.names (scans ++ more) = Scan.names scans ++ Scan.names more :=
  List.map_append

/-- The scans in play depend on a part of the state only. -/
theorem congr (playing : Playing w scans ended s) (ready : s'.ready = s.ready)
    (active : s'.active = s.active) (suspensions : s'.suspensions = s.suspensions)
    (store : s'.store = s.store) : Playing w scans ended s' := by
  obtain ⟨once, alive, same, held, known, knownHeld, unsliced, gone⟩ := playing
  constructor <;> simp only [ready, active, suspensions, store] <;> assumption

/-- A scan in play is suspended. -/
theorem suspend {st : Scan} {d : Suspension} (playing : Playing w (st :: scans) none s)
    (criterion : d.scan.criterion = st.criterion) (body : d.scan.body = st.body) :
    Playing w scans none { s with suspensions := s.suspensions.insert st.criterion.id d } := by
  obtain ⟨once, alive, active, held, known, knownHeld, unsliced, gone⟩ := playing
  rw [List.cons_append, names_cons] at once active held
  obtain ⟨alone, rest⟩ := List.nodup_cons.mp once
  refine ⟨rest, alive, ?_, ?_, fun st' member => known st' (List.mem_cons_of_mem _ member), ?_, unsliced,
    gone⟩
  · intro id
    rw [active id, List.mem_cons, Std.TreeMap.contains_insert, Bool.or_eq_true, beq_iff_eq,
      Std.compare_eq_iff_eq]
    constructor
    · rintro ((rfl | other) | held)
      · exact .inr (.inl rfl)
      · exact .inl other
      · exact .inr (.inr held)
    · rintro (other | rfl | held)
      · exact .inl (.inr other)
      · exact .inl (.inl rfl)
      · exact .inr held
  · intro id d' found
    rcases Maps.getElem?_insert_eq_some.mp found with ⟨rfl, rfl⟩ | ⟨-, found⟩
    · exact ⟨congrArg Criterion.id criterion, alone⟩
    · obtain ⟨named, other⟩ := held id d' found
      exact ⟨named, fun member => other (List.mem_cons_of_mem _ member)⟩
  · intro id d' found
    rcases Maps.getElem?_insert_eq_some.mp found with ⟨rfl, rfl⟩ | ⟨-, found⟩
    · rw [criterion, body]
      exact known st List.mem_cons_self
    · exact knownHeld id d' found

/-- A scan ends. -/
theorem close {st : Scan} (playing : Playing w (st :: scans) none s) :
    Playing w scans (some st.criterion) { s with active := s.active.filter (· != st.criterion.id) } := by
  obtain ⟨once, alive, active, held, known, knownHeld, unsliced, _⟩ := playing
  rw [List.cons_append, names_cons] at once active held
  obtain ⟨alone, rest⟩ := List.nodup_cons.mp once
  have free : s.suspensions.contains st.criterion.id = false := by
    by_contra present
    obtain ⟨d, found⟩ := Maps.contains_iff.mp (Bool.not_eq_false _ ▸ present)
    exact (held _ d found).2 List.mem_cons_self
  refine ⟨rest, alive.filter _, ?_, ?_, fun st' member => known st' (List.mem_cons_of_mem _ member), knownHeld,
    fun id member => unsliced id (List.mem_filter.mp member).1, ?_⟩
  · intro id
    rw [List.mem_filter, active id, List.mem_cons, bne_iff_ne]
    constructor
    · rintro ⟨(rfl | other) | held, different⟩
      · exact absurd rfl different
      · exact .inl other
      · exact .inr held
    · rintro (other | held)
      · exact ⟨.inl (.inr other), fun same => alone (same ▸ other)⟩
      · exact ⟨.inr held, fun same => by rw [same, free] at held; cases held⟩
  · intro id d found
    obtain ⟨named, other⟩ := held id d found
    exact ⟨named, fun member => other (List.mem_cons_of_mem _ member)⟩
  · rintro c ⟨⟩
    exact ⟨by simp, unsliced _ ((active _).mpr (.inl List.mem_cons_self))⟩

/-- The scan of a criterion starts. -/
theorem start {c : Criterion} {b : Body} (playing : Playing w scans none s)
    (unknown : s.store.contains c.id = false) (inactive : c.id ∉ s.active)
    (found : w.body? c.caller = some b) :
    Playing w (.start c b :: scans) none { s with active := c.id :: s.active } := by
  obtain ⟨once, alive, active, held, known, knownHeld, unsliced, _⟩ := playing
  have alone : c.id ∉ Scan.names (scans ++ s.ready) ∧ ¬s.suspensions.contains c.id = true := by
    rw [active] at inactive
    exact not_or.mp inactive
  refine ⟨List.nodup_cons.mpr ⟨alone.1, once⟩, List.nodup_cons.mpr ⟨inactive, alive⟩, ?_, ?_, ?_, knownHeld,
    ?_, by simp⟩
  · intro id
    rw [List.cons_append, names_cons, List.mem_cons, List.mem_cons, active id, or_assoc]
    rfl
  · intro id d here
    obtain ⟨named, other⟩ := held id d here
    refine ⟨named, ?_⟩
    rw [List.cons_append, names_cons, List.mem_cons, not_or]
    refine ⟨?_, other⟩
    rintro rfl
    exact alone.2 (Maps.contains_of_getElem? here)
  · intro st member
    rcases List.mem_cons.mp member with rfl | other
    · exact found
    · exact known st other
  · intro id member
    rcases List.mem_cons.mp member with rfl | other
    · exact unknown
    · exact unsliced id other

/-- A suspension is replaced by one with the same scan. -/
theorem replace {parent : String} {d d' : Suspension} (playing : Playing w scans ended s)
    (found : s.suspensions[parent]? = some d) (scan : d'.scan = d.scan) :
    Playing w scans ended { s with suspensions := s.suspensions.insert parent d' } := by
  obtain ⟨once, alive, active, held, known, knownHeld, unsliced, gone⟩ := playing
  refine ⟨once, alive, ?_, ?_, known, ?_, unsliced, gone⟩
  · intro id
    rw [active id, Std.TreeMap.contains_insert, Bool.or_eq_true, beq_iff_eq, Std.compare_eq_iff_eq]
    refine or_congr_right ⟨.inr, ?_⟩
    rintro (rfl | here)
    · exact Maps.contains_of_getElem? found
    · exact here
  · intro id d₁ here
    rcases Maps.getElem?_insert_eq_some.mp here with ⟨rfl, rfl⟩ | ⟨-, here⟩
    · rw [scan]
      exact held _ d found
    · exact held id d₁ here
  · intro id d₁ here
    rcases Maps.getElem?_insert_eq_some.mp here with ⟨rfl, rfl⟩ | ⟨-, here⟩
    · rw [scan]
      exact knownHeld _ d found
    · exact knownHeld id d₁ here

/-- A suspended scan becomes ready. -/
theorem wake {parent : String} {d : Suspension} {st : Scan} (playing : Playing w scans ended s)
    (found : s.suspensions[parent]? = some d) (criterion : st.criterion = d.scan.criterion)
    (body : st.body = d.scan.body) :
    Playing w scans ended
      { s with suspensions := s.suspensions.erase parent, ready := s.ready ++ [st] } := by
  obtain ⟨once, alive, active, held, known, knownHeld, unsliced, gone⟩ := playing
  obtain ⟨named, alone⟩ := held parent d found
  have name : st.criterion.id = parent := (congrArg Criterion.id criterion).trans named
  have names : Scan.names (scans ++ (s.ready ++ [st])) = Scan.names (scans ++ s.ready) ++ [parent] := by
    rw [← List.append_assoc, names_append, ← name]
    rfl
  refine ⟨?_, alive, ?_, ?_, ?_, ?_, unsliced, gone⟩
  · rw [names]
    exact List.Nodup.append once (List.nodup_singleton _) (by simpa using alone)
  · intro id
    rw [names, active id, List.mem_append, List.mem_singleton, Std.TreeMap.contains_erase, Bool.and_eq_true,
      bne_iff_ne, ne_eq, Std.compare_eq_iff_eq]
    constructor
    · rintro (inPlay | here)
      · exact .inl (.inl inPlay)
      · by_cases same : parent = id
        · exact .inl (.inr same.symm)
        · exact .inr ⟨same, here⟩
    · rintro ((inPlay | rfl) | ⟨_, here⟩)
      · exact .inl inPlay
      · exact .inr (Maps.contains_of_getElem? found)
      · exact .inr here
  · intro id d₁ here
    obtain ⟨other, here⟩ := Maps.getElem?_erase_eq_some.mp here
    obtain ⟨named₁, alone₁⟩ := held id d₁ here
    refine ⟨named₁, ?_⟩
    rw [names, List.mem_append, List.mem_singleton, not_or]
    exact ⟨alone₁, other.symm⟩
  · intro st' member
    rw [← List.append_assoc] at member
    rcases List.mem_append.mp member with inPlay | new
    · exact known st' inPlay
    · rw [List.mem_singleton.mp new, criterion, body]
      exact knownHeld parent d found
  · exact fun id d₁ here => knownHeld id d₁ (Maps.getElem?_erase_eq_some.mp here).2

theorem release {id : String} {params : List Int} (playing : Playing w scans ended s) :
    Playing w scans ended (s.release id params).1 := by
  have released := s.release_released id params
  generalize s.release id params = result at released ⊢
  cases released with
  | unawaited => exact playing
  | lost => exact playing.congr rfl rfl rfl rfl
  | @woken parent d _ found _ =>
    have woken : Playing w scans ended
        { s with suspensions := s.suspensions.erase parent
                 ready := s.ready ++ [(d.release id params).narrow] } := playing.wake found rfl rfl
    exact woken.congr rfl rfl rfl rfl
  | @still parent d _ found _ =>
    have replaced : Playing w scans ended
        { s with suspensions := s.suspensions.insert parent (d.release id params) } :=
      playing.replace found rfl
    exact replaced.congr rfl rfl rfl rfl

theorem keepAll {id : String} (playing : Playing w scans ended s) : Playing w scans ended (s.keepAll id) := by
  rcases s.keepAll_cases id with same | ⟨parent, d, found, same⟩
  · rw [same]
    exact playing
  · rw [same]
    exact playing.replace found rfl

/-- The slice of a criterion that ended is stored. -/
theorem put {c : Criterion} {slice : PartialSlice} (playing : Playing w scans (some c) s)
    (named : slice.id = c.id) : Playing w scans none { s with store := s.store.put slice } := by
  obtain ⟨once, alive, active, held, known, knownHeld, unsliced, gone⟩ := playing
  refine ⟨once, alive, active, held, known, knownHeld, ?_, by simp⟩
  intro id member
  have other : slice.id ≠ id := fun same => (gone c rfl).1 (named ▸ same ▸ member)
  exact SliceStore.contains_put_eq_false.mpr ⟨other, unsliced id member⟩

/-- The ready scans become tasks. -/
theorem takeReady (playing : Playing w scans ended s) :
    Playing w (scans ++ s.ready) ended { s with ready := [] } := by
  obtain ⟨once, alive, active, held, known, knownHeld, unsliced, gone⟩ := playing
  constructor <;> simp only [List.append_nil] <;> assumption

/-- A scan in play goes on. -/
theorem move {st st' : Scan} (playing : Playing w (st :: scans) ended s)
    (criterion : st'.criterion = st.criterion) (body : st'.body = st.body) :
    Playing w (st' :: scans) ended s := by
  obtain ⟨once, alive, active, held, known, knownHeld, unsliced, gone⟩ := playing
  have names : Scan.names (st' :: scans ++ s.ready) = Scan.names (st :: scans ++ s.ready) := by
    rw [List.cons_append, List.cons_append, names_cons, names_cons, criterion]
  rw [← names] at once active held
  refine ⟨once, alive, active, held, ?_, knownHeld, unsliced, gone⟩
  intro st₁ member
  rcases List.mem_cons.mp member with rfl | other
  · rw [criterion, body]
    exact known st List.mem_cons_self
  · exact known st₁ (List.mem_cons_of_mem _ other)

end Playing

namespace Phase

/-- The scans of a phase that are neither suspended nor ready. -/
def scans (p : Phase) : List Scan := p.busy.toList ++ p.queue.filterMap Task.scan?

/-- The ready scans follow those of the phase once they are tasks. -/
theorem scans_ready {p : Phase} {s : SlicerState} :
    ({ p with queue := p.queue ++ p.state.ready.map .resume, state := s } : Phase).scans =
      p.scans ++ p.state.ready := by
  simp only [scans, List.filterMap_append, Task.filterMap_resume, List.append_assoc]

/-- The scans of the phase are in order. -/
def Plays (w : Workspace) (p : Phase) : Prop := Playing w p.scans p.ending p.state

variable {w : Workspace} {p p' : Phase}

theorem Opens.plays {task : Task} (opens : Opens task p p') (plays : p.Plays w) : p'.Plays w := by
  cases opens with
  | drop => exact plays
  | take => exact Playing.congr plays rfl rfl rfl rfl
  | pick => exact plays

theorem Spends.plays (spends : Spends w p p') (plays : p.Plays w) : p'.Plays w := by
  cases spends with
  | suspend suspends =>
    obtain ⟨ledger, tree, descents, rfl⟩ := suspends.state
    exact (Playing.suspend plays suspends.criterion suspends.body).congr rfl rfl rfl rfl
  | @close queue s st pending ids =>
    obtain ⟨tree, retracted, stats, same, _⟩ :=
      SlicerState.retract_frame { s with active := s.active.filter (· != st.criterion.id) } ids
    unfold Plays
    rw [same]
    exact (Playing.close plays).congr rfl rfl rfl rfl

theorem Keeps.plays (keeps : Keeps w p p') (plays : p.Plays w) : p'.Plays w := by
  cases keeps with
  | report reports =>
    obtain ⟨ledger, tree, stats, retainedParams, rfl⟩ := reports
    exact Playing.congr plays rfl rfl rfl rfl
  | release => exact Playing.release plays
  | keepAll => exact Playing.keepAll plays
  | @forgive _ c =>
    have marked : Playing w p.scans p.ending
        { p.state with retracted := p.state.retracted.filter (· != c.id) } := plays.congr rfl rfl rfl rfl
    exact marked.release
  | start _ idle fresh unknown inactive found =>
    unfold Plays scans at plays
    rw [idle, fresh] at plays
    unfold Plays
    rw [fresh]
    exact Playing.start plays unknown inactive found
  | skip _ _ unknown inactive =>
    obtain ⟨once, alive, active, held, known, knownHeld, unsliced, _⟩ := plays
    refine ⟨once, alive, active, held, known, knownHeld, unsliced, ?_⟩
    rintro c' ⟨⟩
    exact ⟨inactive, unknown⟩
  | complete completes =>
    obtain ⟨ledger, tree, rfl⟩ := completes.recorded
    exact (Playing.move plays completes.criterion completes.body).congr rfl rfl rfl rfl
  | merge => exact Playing.congr plays rfl rfl rfl rfl
  | bring => exact plays
  | enqueue =>
    unfold Plays scans
    rw [List.filterMap_append]
    simp only [SlicerState.enqueue, List.filterMap_cons, List.filterMap_nil, Task.scan?, List.append_nil]
    exact Playing.congr plays rfl rfl rfl rfl
  | put ending _ named =>
    unfold Plays at plays
    rw [ending] at plays
    exact plays.put named
  | ready =>
    unfold Plays
    rw [scans_ready]
    exact Playing.takeReady plays

theorem Moves.plays (moves : Moves w p p') (plays : p.Plays w) : p'.Plays w := by
  induction moves with
  | refl => exact plays
  | tail _ move ih =>
    rcases move with spends | keeps
    · exact spends.plays ih
    · exact keeps.plays ih

theorem Turn.plays {task : Task} (turn : Turn w task p p') (plays : p.Plays w) : p'.Plays w := by
  obtain ⟨p₁, opens, moves, _⟩ := turn
  exact Moves.plays moves (opens.plays plays)

end Phase

end MisuseSlice
