import MisuseSlice.Proofs.Folds
import MisuseSlice.Proofs.Maps
import MisuseSlice.Proofs.Slicer.Lines
import MisuseSlice.Proofs.Slicer.Turns
import MisuseSlice.Proofs.Sorting

/-! The slices that runs store. Every criterion stands at its seed on a level within the bounds, and every scan has
its lines in order; so has every slice that a scan ends with, and what is dropped from it takes its parameters
along. -/
namespace MisuseSlice

theorem mem_sortedInts {xs : List Int} {i : Int} : i ∈ sortedInts xs ↔ i ∈ xs := by simp [sortedInts]

/-- Sorted numbers ascend strictly. -/
theorem pairwise_sortedInts (xs : List Int) : (sortedInts xs).Pairwise (· < ·) :=
  Sorting.pairwise_lt_sort (fun _ _ => decide_eq_true_iff) (nodup_eraseDups xs)

/-- The slice holds statements of its method above the seed, in order, and the parameters that they bind; its level
is within the bounds, and it is empty if its seed cannot run. -/
structure PartialSlice.WellFormed (w : Workspace) (p : PartialSlice) : Prop where
  ascending : p.lines.Pairwise (·.number < ·.number)
  lines : ∀ l ∈ p.lines, ∃ b, w.body? p.caller = some b ∧ ∃ u, b.whole[l.pos]? = some u ∧ l = ⟨p.caller, u⟩ ∧
    l.pos < p.start ∧ u.kind.Matters
  sorted : p.params.Pairwise (· < ·)
  params : ∀ i ∈ p.params, ∃ l ∈ p.lines, l.statement.kind = .parameter ∧ l.statement.paramIndex = i
  infeasible : p.infeasible = true → p.lines = [] ∧ p.params = []
  low : w.settings.lowerLevel ≤ p.level
  high : p.level ≤ w.settings.upperLevel

namespace Criterion

/-- The criterion stands at its seed, on a level within the bounds. -/
structure Fits (w : Workspace) (c : Criterion) : Prop where
  seeded : ∃ b, w.body? c.caller = some b ∧ c.SeededIn b
  low : w.settings.lowerLevel ≤ c.level
  high : c.level ≤ w.settings.upperLevel

variable {w : Workspace} {c k old : Criterion} {caller target : String} {kind : SeedKind} {positions : List Int}
  {level : Int}

theorem fits_of_created (prepared : ∀ method b, w.body? method = some b → b.Prepared)
    (low : w.settings.lowerLevel ≤ level) (high : level ≤ w.settings.upperLevel)
    (here : c ∈ created w caller target kind positions level) : c.Fits w := by
  obtain ⟨⟨rfl, _, _, _, rfl⟩, b, u, found, stands⟩ := mem_created (prepared caller) here
  exact ⟨⟨b, found, stands.seeded⟩, low, high⟩

theorem SpawnedBy.fits (prepared : ∀ method b, w.body? method = some b → b.Prepared) (fits : c.Fits w)
    (spawned : SpawnedBy w c k) : k.Fits w := by
  have low := fits.low
  have high := fits.high
  cases spawned with
  | returned _ _ _ within here => exact fits_of_created prepared within (by omega) here
  | written _ _ _ within _ here => exact fits_of_created prepared (by omega) within here

theorem Fits.merged (fits : old.Fits w) : (SlicerState.merged old k).Fits w := by
  obtain ⟨b, found, inside, mirrored⟩ := fits.seeded
  exact ⟨⟨b, found, inside, mirrored⟩, fits.low, fits.high⟩

end Criterion

/-- The scan of a criterion that fits goes up its body, with the lines in order. -/
structure Scan.Formed (w : Workspace) (st : Scan) : Prop where
  fits : st.criterion.Fits w
  known : w.body? st.criterion.caller = some st.body
  lined : st.Lined

namespace SlicerState

/-- The criteria, the scans and the slices of the state are as they should be. -/
structure Formed (w : Workspace) (s : SlicerState) : Prop where
  tickets : ∀ c ∈ s.tickets, c.Fits w
  held : ∀ (id : String) d, s.suspensions[id]? = some d → d.scan.Formed w
  ready : ∀ st ∈ s.ready, st.Formed w
  stored : ∀ id p, s.store.get? id = some p → p.WellFormed w

variable {w : Workspace} {rules : List CallRule} {s s' : SlicerState} {c k : Criterion} {st : Scan}

theorem Formed.congr (formed : s.Formed w) (tickets : s'.tickets = s.tickets) (held : s'.suspensions = s.suspensions)
    (ready : s'.ready = s.ready) (stored : s'.store = s.store) : s'.Formed w :=
  ⟨tickets ▸ formed.tickets, held ▸ formed.held, ready ▸ formed.ready, stored ▸ formed.stored⟩

theorem Formed.reports (formed : s.Formed w) (reports : s.Reports s') : s'.Formed w := by
  obtain ⟨_, _, _, _, rfl⟩ := reports
  exact formed.congr rfl rfl rfl rfl

theorem Formed.setSuspension {id : String} {d : Suspension} (formed : s.Formed w) (scan : d.scan.Formed w) :
    ({ s with suspensions := s.suspensions.insert id d } : SlicerState).Formed w := by
  refine { formed with held := fun name d' here => ?_ }
  rcases Maps.getElem?_insert_eq_some.mp here with ⟨rfl, rfl⟩ | ⟨-, here⟩
  · exact scan
  · exact formed.held name d' here

theorem narrow_formed {d : Suspension} (scan : d.scan.Formed w) : d.narrow.Formed w :=
  ⟨scan.fits, scan.known, scan.lined.setTargets⟩

theorem Formed.release {id : String} {params : List Int} (formed : s.Formed w) : (s.release id params).1.Formed w := by
  have released := s.release_released id params
  generalize s.release id params = result at released ⊢
  cases released with
  | unawaited => exact formed
  | lost => exact formed.congr rfl rfl rfl rfl
  | @woken parent d _ found _ =>
    have scan : (d.release id params).scan.Formed w := formed.held parent d found
    refine { formed with held := fun name d' here => ?_, ready := fun st member => ?_ }
    · exact formed.held name d' (Maps.getElem?_erase_eq_some.mp here).2
    · rcases List.mem_append.mp member with old | new
      · exact formed.ready st old
      · rw [List.mem_singleton.mp new]
        exact narrow_formed scan
  | @still parent d _ found _ =>
    have scan : (d.release id params).scan.Formed w := formed.held parent d found
    exact (formed.setSuspension scan).congr rfl rfl rfl rfl

theorem Formed.keepAll {id : String} (formed : s.Formed w) : (s.keepAll id).Formed w := by
  rcases s.keepAll_cases id with same | ⟨parent, d, found, same⟩
  · rw [same]
    exact formed
  · have scan : d.keepAll.scan.Formed w := formed.held parent d found
    rw [same]
    exact formed.setSuspension scan

theorem Formed.enqueue (formed : s.Formed w) (fits : c.Fits w) : (s.enqueue c).2.Formed w := by
  refine { formed with tickets := fun k member => ?_ }
  rcases List.mem_append.mp member with old | new
  · exact formed.tickets k old
  · exact List.mem_singleton.mp new ▸ fits

theorem Formed.replaceTicket {ticket : Nat} {old : Criterion} (formed : s.Formed w) (fits : k.Fits w) :
    (s.replaceTicket ticket old k).Formed w := by
  refine { formed with tickets := fun c member => ?_ }
  rcases List.mem_or_eq_of_mem_set member with old | rfl
  · exact formed.tickets c old
  · exact fits

theorem Formed.mergePending (formed : s.Formed w) : (s.mergePending k c).2.Formed w := by
  unfold SlicerState.mergePending
  split
  · exact formed
  · rename_i t _
    split
    · exact formed
    · rename_i old ticket
      split
      · exact formed
      · dsimp only
        split
        · exact formed.congr rfl rfl rfl rfl
        · have replaced : (s.replaceTicket t old (merged old k)).Formed w :=
            formed.replaceTicket (formed.tickets old (List.mem_of_getElem? ticket)).merged
          exact replaced.congr rfl rfl rfl rfl

/-- What a part of a step brings about fits, and the state stays as it should be. -/
def Brings (w : Workspace) (x : List Criterion × SlicerState) : Prop := (∀ k ∈ x.1, k.Fits w) ∧ x.2.Formed w

theorem Brings.ascendCall {x : List Criterion × SlicerState} (brings : Brings w x) (fits : k.Fits w) :
    Brings w (ascendCall c x k) := by
  have merged : (x.2.mergePending k c).2.Formed w := brings.2.mergePending
  unfold SlicerState.ascendCall
  generalize x.2.mergePending k c = result at merged ⊢
  obtain ⟨done, s⟩ := result
  dsimp only at merged ⊢
  split
  · exact ⟨brings.1, merged⟩
  · refine ⟨fun k' member => ?_, merged.reports link_recorded.reports⟩
    dsimp only at member
    split at member
    · rcases List.mem_append.mp member with old | new
      · exact brings.1 k' old
      · exact List.mem_singleton.mp new ▸ fits
    · exact brings.1 k' member

theorem Brings.foldl {α : Type} {f : List Criterion × SlicerState → α → List Criterion × SlicerState} {xs : List α}
    {x : List Criterion × SlicerState} (brings : Brings w x)
    (keeps : ∀ a ∈ xs, ∀ x, Brings w x → Brings w (f x a)) : Brings w (xs.foldl f x) := by
  induction xs generalizing x with
  | nil => exact brings
  | cons a xs ih =>
    exact ih (keeps a List.mem_cons_self x brings) fun b member => keeps b (List.mem_cons_of_mem _ member)

/-- Looking for the calls of a method brings criteria about on the next level. -/
theorem ascendParams_brings (prepared : ∀ method b, w.body? method = some b → b.Prepared) (formed : s.Formed w)
    (fits : c.Fits w) (params : List Int) : Brings w (s.ascendParams w c params) := by
  unfold ascendParams
  split
  · exact ⟨by simp, formed⟩
  · rename_i within
    have start : Brings w ([], s) := ⟨by simp, formed⟩
    refine start.foldl fun site _ x brings => ?_
    have recorded : x.2.Recorded (x.2.create w site.1 site.2 .parameter params (c.level + 1)).2 := create_recorded
    have opened : Brings w (x.1, (x.2.create w site.1 site.2 .parameter params (c.level + 1)).2) :=
      ⟨brings.1, brings.2.reports recorded.reports⟩
    refine opened.foldl fun k member y brings => brings.ascendCall ?_
    have here : k ∈ (x.2.create w site.1 site.2 .parameter params (c.level + 1)).1 := member
    rw [create_fst] at here
    have low := fits.low
    exact Criterion.fits_of_created prepared (by omega) (Int.not_lt.mp within) here

/-- Ending a criterion that fits. -/
theorem settle_brings (prepared : ∀ method b, w.body? method = some b → b.Prepared) (formed : s.Formed w)
    (fits : c.Fits w) (p : PartialSlice) : Brings w (s.settle w c p).2 := by
  have recorded : (s.recordSlice c p).Formed w := formed.reports ⟨_, _, _, _, rfl⟩
  have told : ((s.recordSlice c p).release c.id p.params).1.Formed w := recorded.release
  unfold settle
  dsimp only
  split
  · exact ⟨by simp, told⟩
  · exact ascendParams_brings prepared told fits p.params

theorem emptySlice_wellFormed (fits : c.Fits w) (infeasible : Bool) :
    ({ emptySlice c with infeasible } : PartialSlice).WellFormed w :=
  ⟨.nil, by simp [emptySlice], .nil, by simp [emptySlice], fun _ => ⟨rfl, rfl⟩, fits.low, fits.high⟩

/-- The slice that a complete scan ends with. -/
theorem finish_slice : (s.finish w st).1 =
    { emptySlice st.criterion with
      lines := (SliceLine.sort st.lines).filter fun l =>
        !(droppedFrom w st (SliceLine.sort st.lines)).eraseDups.contains l.pos
      params := sortedInts (st.params.filter
        (!(boundAt st.body (droppedFrom w st (SliceLine.sort st.lines)).eraseDups).contains ·)) } := by
  simp only [finish, settle_slice]
  rfl

theorem finish_wellFormed (scan : st.Formed w) : (s.finish w st).1.WellFormed w := by
  have sorted : SliceLine.sort st.lines = st.lines :=
    Sorting.sort_of_pairwise (scan.lined.ascending.imp fun before => decide_eq_true (Nat.le_of_lt before))
  rw [finish_slice, sorted]
  refine ⟨?_, ?_, pairwise_sortedInts _, ?_, fun never => ?_, scan.fits.low, scan.fits.high⟩
  · exact (scan.lined.ascending.imp fun before => Nat.succ_lt_succ before).filter _
  · intro l member
    obtain ⟨caller, here, above, matters⟩ := scan.lined.line l (List.mem_filter.mp member).1
    refine ⟨st.body, scan.known, l.statement, here, ?_, above, matters⟩
    rw [show (emptySlice st.criterion).caller = l.caller from caller.symm]
  · intro i member
    obtain ⟨bound, kept⟩ := List.mem_filter.mp (mem_sortedInts.mp member)
    obtain ⟨l, among, parameter, index⟩ := scan.lined.params i bound
    obtain ⟨_, here, _⟩ := scan.lined.line l among
    refine ⟨l, List.mem_filter.mpr ⟨among, ?_⟩, parameter, index⟩
    -- a line that is dropped takes its parameter along
    by_contra dropped
    simp only [Bool.not_eq_true', Bool.not_eq_false, List.contains_eq_mem, decide_eq_true_eq] at dropped
    simp only [Bool.not_eq_true', List.contains_eq_mem, decide_eq_false_iff_not] at kept
    refine kept (List.mem_filterMap.mpr ⟨l.pos, dropped, ?_⟩)
    simp [Body.at?, here, parameter, index]
  · cases never

theorem finish_brings (prepared : ∀ method b, w.body? method = some b → b.Prepared) (formed : s.Formed w)
    (scan : st.Formed w) : Brings w (s.finish w st).2 := by
  unfold finish
  dsimp only
  refine settle_brings prepared ?_ scan.fits _
  obtain ⟨_, _, _, same, _⟩ := ({ s with active := s.active.filter (· != st.criterion.id) } : SlicerState).retract_frame
    (((droppedFrom w st (SliceLine.sort st.lines)).eraseDups).flatMap fun p => (st.spawned.filter (·.1 == p)).map (·.2))
  rw [same]
  exact formed.congr rfl rfl rfl rfl

/-- What a step gives is as it should be. -/
structure Steps (w : Workspace) (r : StepResult × SlicerState) : Prop where
  children : ∀ k ∈ r.1.children, k.Fits w
  slice : ∀ p, r.1.slice = some p → p.WellFormed w
  state : r.2.Formed w

/-- Going on with a scan. -/
theorem resume_steps (rules : List CallRule) (prepared : ∀ method b, w.body? method = some b → b.Prepared)
    (formed : s.Formed w) (scan : st.Formed w) : Steps w (s.resume w rules st) := by
  have placed : st.body.Placed := (prepared _ _ scan.known).placed
  have lined : (s.scan w rules st).2.1.Lined := scanFrom_lined _ scan.known placed scan.lined []
  rcases scan_spec s rules scan.known placed with ⟨more, st', s', ran, completes⟩ | ⟨more, d, s', ran, suspends⟩
  · rw [ran] at lined
    have after : s'.Formed w := formed.reports completes.recorded.reports
    have scan' : st'.Formed w :=
      ⟨by rw [completes.criterion]; exact scan.fits, by rw [completes.criterion, completes.body]; exact scan.known,
        lined⟩
    obtain ⟨children, state⟩ := finish_brings prepared after scan'
    simp only [resume, ran]
    refine ⟨fun k member => ?_, fun p same => ?_, state⟩
    · rcases List.mem_append.mp member with early | late
      · exact (completes.spawned k early).fits prepared scan.fits
      · exact children k late
    · cases same
      exact finish_wellFormed scan'
  · rw [ran] at lined
    obtain ⟨ledger, tree, descents, rfl⟩ := suspends.state
    have frame : ({ s with ledger, tree, descents } : SlicerState).Formed w := formed.congr rfl rfl rfl rfl
    have held : d.scan.Formed w :=
      ⟨by rw [suspends.criterion]; exact scan.fits, by rw [suspends.criterion, suspends.body]; exact scan.known, lined⟩
    simp only [resume, ran]
    refine ⟨fun k member => (suspends.spawned k member).fits prepared scan.fits, by simp, ?_⟩
    exact frame.setSuspension held

theorem close_steps (prepared : ∀ method b, w.body? method = some b → b.Prepared) (formed : s.Formed w)
    (fits : c.Fits w) (infeasible : Bool) : Steps w (s.close w c infeasible) := by
  have slice := emptySlice_wellFormed fits infeasible
  unfold close
  generalize ({ emptySlice c with infeasible } : PartialSlice) = p at slice ⊢
  have settled : (s.settle w c p).1 = p := settle_slice
  obtain ⟨children, state⟩ := settle_brings prepared formed fits p
  generalize s.settle w c p = result at settled children state ⊢
  obtain ⟨_, more, s'⟩ := result
  subst settled
  refine ⟨children, fun q same => ?_, state⟩
  cases same
  exact slice

theorem Formed.passOver (formed : s.Formed w) : (s.passOver c).Formed w := by
  have counted : ({ s with stats := { s.stats with memoized := s.stats.memoized + 1 } } : SlicerState).Formed w :=
    formed.congr rfl rfl rfl rfl
  unfold SlicerState.passOver
  dsimp only
  split
  · exact counted.release
  · exact counted.keepAll.release

/-- Starting a criterion that fits. -/
theorem begin_steps (rules : List CallRule) (prepared : ∀ method b, w.body? method = some b → b.Prepared)
    (formed : s.Formed w) (fits : c.Fits w) : Steps w (s.begin w rules c) := by
  have begun := s.begin_begun w rules c
  generalize s.begin w rules c = result at begun ⊢
  cases begun with
  | passed => exact ⟨by simp, by simp, formed.passOver⟩
  | closed infeasible =>
    refine close_steps prepared ?_ fits infeasible
    exact formed.congr rfl rfl rfl rfl
  | @scanned b begins =>
    obtain ⟨b', found, seeded⟩ := fits.seeded
    obtain rfl := Option.some.inj (found.symm.trans begins.found)
    refine resume_steps rules prepared ?_ ⟨fits, found, Scan.start_lined seeded⟩
    exact formed.congr rfl rfl rfl rfl

/-- Storing a slice. -/
theorem Formed.put {p : PartialSlice} (formed : s.Formed w) (slice : p.WellFormed w) :
    ({ s with store := s.store.put p } : SlicerState).Formed w := by
  refine { formed with stored := fun id q here => ?_ }
  rcases Maps.getElem?_insert_eq_some.mp here with ⟨rfl, rfl⟩ | ⟨-, here⟩
  · exact slice
  · exact formed.stored id q here

end SlicerState

end MisuseSlice
