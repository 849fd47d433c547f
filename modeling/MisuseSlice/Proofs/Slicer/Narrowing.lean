import MisuseSlice.Proofs.Slicer.Books
import MisuseSlice.Proofs.Slicer.Descents

/-! Narrowing over the whole history of a slicer. Between two turns every suspended scan stands at a call whose callee is
entered, and keeps what it was told of the return criteria so far; what a turn tells it is true at that turn. So
whenever such a scan goes on, it lost exactly the arguments that matter to none of these criteria. -/
namespace MisuseSlice

open Criterion

/-- What is known of the way of a slicer. -/
structure Story where
  /-- A word about a criterion is true. -/
  tells : String → Word → Prop
  /-- A scan came to a statement. -/
  comes : Statement → Scan → Prop

/-- More is known. -/
def Story.Continues (story story' : Story) : Prop :=
  (∀ id word, story.tells id word → story'.tells id word) ∧ ∀ u st, story.comes u st → story'.comes u st

namespace Descent

/-- A suspended scan, with what it was told so far. -/
structure Waits (w : Workspace) (rules : List CallRule) (story : Story) (e : Descent) (d : Suspension) :
    Prop where
  came : story.comes e.call e.scan
  enters : e.Enters w rules
  fits : e.Fits w d
  told : ∀ told ∈ e.heard, story.tells told.1 told.2
  place : ∃ spawned, d.scan = { e.scan.retain e.call with targets := e.targets, spawned }

/-- A scan that was suspended and goes on: it was told of every return criterion, and nothing but its values of interest
changed. -/
structure Resumes (w : Workspace) (rules : List CallRule) (story : Story) (e : Descent) (st : Scan) :
    Prop where
  came : story.comes e.call e.scan
  ends : e.Ends w rules story.tells st
  place : ∃ spawned, st = { e.scan.retain e.call with targets := st.targets, spawned }

variable {w : Workspace} {rules : List CallRule} {story story' : Story} {e : Descent} {d : Suspension}
  {st : Scan} {id : String} {word : Word} {live : Bool} {limit : Int}

theorem Waits.mono (more : story.Continues story') (waits : e.Waits w rules story d) :
    e.Waits w rules story' d :=
  { waits with came := more.2 _ _ waits.came, told := fun told member => more.1 _ _ (waits.told told member) }

theorem Resumes.mono (more : story.Continues story') (resumes : e.Resumes w rules story st) :
    e.Resumes w rules story' st :=
  ⟨more.2 _ _ resumes.came, { resumes.ends with told := fun told member => more.1 _ _ (resumes.ends.told told member) },
    resumes.place⟩

theorem Waits.hear (waits : e.Waits w rules story d) (waited : id ∈ d.waiting) (true' : story.tells id word) :
    ({ e with heard := (id, word) :: e.heard } : Descent).Waits w rules story (d.hear id word) := by
  obtain ⟨came, ⟨kind, flow, low, developed, written, returning⟩, fits, told, place⟩ := waits
  refine ⟨came, ⟨kind, flow, low, developed, written, returning⟩, fits.hear waited word, fun told' member => ?_, place⟩
  rcases List.mem_cons.mp member with rfl | earlier
  · exact true'
  · exact told told' earlier

/-- The last word lets the scan go on. -/
theorem Waits.resumes (waits : e.Waits w rules story d) (last : d.waiting = []) : e.Resumes w rules story d.narrow := by
  refine ⟨waits.came, waits.fits.ends waits.enters waits.told last, ?_⟩
  obtain ⟨spawned, place⟩ := waits.place
  exact ⟨spawned, by rw [Suspension.narrow, place]⟩

theorem Enters.under (enters : e.Enters w rules) : e.Enters (w.under live limit) rules :=
  ⟨enters.kind, enters.flow, enters.low, enters.developed, enters.written, enters.returning⟩

theorem Enters.of_under (enters : e.Enters (w.under live limit) rules) : e.Enters w rules :=
  ⟨enters.kind, enters.flow, enters.low, enters.developed, enters.written, enters.returning⟩

theorem waits_under_iff : e.Waits (w.under live limit) rules story d ↔ e.Waits w rules story d := by
  constructor
  · rintro ⟨came, enters, ⟨targets, added, waiting, keep, asked, once⟩, told, place⟩
    exact ⟨came, enters.of_under, ⟨targets, added, waiting, keep, asked, once⟩, told, place⟩
  · rintro ⟨came, enters, ⟨targets, added, waiting, keep, asked, once⟩, told, place⟩
    exact ⟨came, enters.under, ⟨targets, added, waiting, keep, asked, once⟩, told, place⟩

theorem resumes_under_iff : e.Resumes (w.under live limit) rules story st ↔ e.Resumes w rules story st := by
  constructor
  · rintro ⟨came, ⟨enters, heard, once, told, targets⟩, place⟩
    exact ⟨came, ⟨enters.of_under, heard, once, told, targets⟩, place⟩
  · rintro ⟨came, ⟨enters, heard, once, told, targets⟩, place⟩
    exact ⟨came, ⟨enters.under, heard, once, told, targets⟩, place⟩

end Descent

/-- What a slicer keeps of the scans that wait. -/
structure Desk where
  suspensions : Std.TreeMap String Suspension
  descents : Std.TreeMap String String
  ready : List Scan

namespace Desk

/-- Everyone who is waited for is waited for by a suspended scan, and the scans keep what they were told. -/
structure Sound (w : Workspace) (rules : List CallRule) (story : Story) (b : Desk) : Prop where
  linked : ∀ r parent : String, b.descents[r]? = some parent → ∃ d, b.suspensions[parent]? = some d ∧ r ∈ d.waiting
  held : ∀ (id : String) d, b.suspensions[id]? = some d → ∃ e : Descent, e.Waits w rules story d
  ready : ∀ st ∈ b.ready, ∃ e : Descent, e.Resumes w rules story st

/-- The scan that waits for a criterion, if there is one, is told of it. -/
inductive Told (id : String) (word : Word) (b b' : Desk) : Prop where
  | unawaited (nobody : b.descents[id]? = none) (same : b' = b)
  | woken {parent : String} {d : Suspension} (awaited : b.descents[id]? = some parent)
      (found : b.suspensions[parent]? = some d) (last : (d.hear id word).waiting = [])
      (descents : b'.descents = b.descents.erase id)
      (held : ∀ (name : String) d', b'.suspensions[name]? = some d' ↔ parent ≠ name ∧ b.suspensions[name]? = some d')
      (ready : b'.ready = b.ready ++ [(d.hear id word).narrow])
  | still {parent : String} {d : Suspension} (awaited : b.descents[id]? = some parent)
      (found : b.suspensions[parent]? = some d) (descents : b'.descents = b.descents.erase id)
      (held : ∀ (name : String) d', b'.suspensions[name]? = some d' ↔
        (parent = name ∧ d.hear id word = d') ∨ (parent ≠ name ∧ b.suspensions[name]? = some d'))
      (ready : b'.ready = b.ready)

variable {w : Workspace} {rules : List CallRule} {story story' : Story} {b b' : Desk} {id : String}
  {word : Word}

theorem Sound.mono (more : story.Continues story') (sound : b.Sound w rules story) :
    b.Sound w rules story' :=
  ⟨sound.linked, fun id d found => (sound.held id d found).imp fun _ waits => waits.mono more,
    fun st member => (sound.ready st member).imp fun _ resumes => resumes.mono more⟩

theorem sound_under_iff {live : Bool} {limit : Int} :
    b.Sound (w.under live limit) rules story ↔ b.Sound w rules story := by
  constructor
  · exact fun sound => ⟨sound.linked, fun id d found => (sound.held id d found).imp fun _ => Descent.waits_under_iff.mp,
      fun st member => (sound.ready st member).imp fun _ => Descent.resumes_under_iff.mp⟩
  · exact fun sound => ⟨sound.linked, fun id d found => (sound.held id d found).imp fun _ => Descent.waits_under_iff.mpr,
      fun st member => (sound.ready st member).imp fun _ => Descent.resumes_under_iff.mpr⟩

/-- True words are kept. -/
theorem Told.sound (told : b.Told id word b') (true' : story.tells id word) (sound : b.Sound w rules story) :
    b'.Sound w rules story := by
  obtain ⟨linked, held, ready⟩ := sound
  cases told with
  | unawaited _ same => exact same ▸ ⟨linked, held, ready⟩
  | @woken parent d awaited found last descents held' ready' =>
    obtain ⟨_, found', waited⟩ := linked id parent awaited
    obtain rfl := Option.some.inj (found.symm.trans found')
    refine ⟨fun r parent' here => ?_, fun name d' here => held name d' ((held' name d').mp here).2, fun st member => ?_⟩
    · rw [descents] at here
      obtain ⟨other, here⟩ := Maps.getElem?_erase_eq_some.mp here
      obtain ⟨d', there, waiting⟩ := linked r parent' here
      refine ⟨d', (held' parent' d').mpr ⟨?_, there⟩, waiting⟩
      rintro rfl
      obtain rfl := Option.some.inj (found.symm.trans there)
      have left : r ∈ (d.hear id word).waiting := List.mem_filter.mpr ⟨waiting, by simpa using Ne.symm other⟩
      rw [last] at left
      cases left
    · rw [ready'] at member
      rcases List.mem_append.mp member with old | new
      · exact ready st old
      · rw [List.mem_singleton.mp new]
        obtain ⟨e, waits⟩ := held parent d found
        exact ⟨_, (waits.hear waited true').resumes last⟩
  | @still parent d awaited found descents held' ready' =>
    obtain ⟨_, found', waited⟩ := linked id parent awaited
    obtain rfl := Option.some.inj (found.symm.trans found')
    refine ⟨fun r parent' here => ?_, fun name d' here => ?_, ready' ▸ ready⟩
    · rw [descents] at here
      obtain ⟨other, here⟩ := Maps.getElem?_erase_eq_some.mp here
      obtain ⟨d', there, waiting⟩ := linked r parent' here
      by_cases same : parent = parent'
      · subst same
        obtain rfl := Option.some.inj (found.symm.trans there)
        exact ⟨_, (held' parent _).mpr (.inl ⟨rfl, rfl⟩), List.mem_filter.mpr ⟨waiting, by simpa using Ne.symm other⟩⟩
      · exact ⟨d', (held' parent' d').mpr (.inr ⟨same, there⟩), waiting⟩
    · rcases (held' name d').mp here with ⟨rfl, rfl⟩ | ⟨-, here⟩
      · obtain ⟨e, waits⟩ := held parent d found
        exact ⟨_, waits.hear waited true'⟩
      · exact held name d' here

end Desk

namespace SlicerState

variable {s s' : SlicerState} {w : Workspace} {rules : List CallRule} {story : Story} {c : Criterion}
  {st : Scan} {id : String} {word : Word}

/-- The scans that wait. -/
def desk (s : SlicerState) : Desk := ⟨s.suspensions, s.descents, s.ready⟩

theorem Recorded.desk (recorded : s.Recorded s') : s'.desk = s.desk := by
  obtain ⟨_, _, rfl⟩ := recorded
  rfl

theorem Rearranged.desk (rearranged : s.Rearranged s') : s'.desk = s.desk := by
  obtain ⟨_, _, _, _, rfl⟩ := rearranged
  rfl

theorem release_told {params : List Int} (linked : ∀ r parent : String, s.descents[r]? = some parent →
      ∃ d, s.suspensions[parent]? = some d ∧ r ∈ d.waiting)
    (agrees : ∀ d : Suspension, d.release id params = d.hear id word) :
    s.desk.Told id word (s.release id params).1.desk := by
  have released := s.release_released id params
  generalize s.release id params = result at released ⊢
  cases released with
  | unawaited nobody => exact .unawaited nobody rfl
  | lost awaited gone =>
    obtain ⟨_, found, _⟩ := linked _ _ awaited
    rw [gone] at found
    cases found
  | woken awaited found last =>
    refine .woken awaited found (agrees _ ▸ last) rfl (fun _ _ => Maps.getElem?_erase_eq_some) ?_
    rw [← agrees]
    rfl
  | still awaited found =>
    refine .still awaited found rfl (fun _ _ => ?_) rfl
    rw [← agrees]
    exact Maps.getElem?_insert_eq_some

/-- A scan that waits for a criterion under way is told so. -/
theorem keepAll_release_told (linked : ∀ r parent : String, s.descents[r]? = some parent →
      ∃ d, s.suspensions[parent]? = some d ∧ r ∈ d.waiting) :
    s.desk.Told id .underway ((s.keepAll id).release id []).1.desk := by
  cases awaited : s.descents[id]? with
  | none =>
    refine .unawaited awaited ?_
    simp only [keepAll, release, awaited]
  | some parent =>
    obtain ⟨d, found, _⟩ := linked _ _ awaited
    have here : (s.suspensions.insert parent d.keepAll)[parent]? = some d.keepAll :=
      Maps.getElem?_insert_eq_some.mpr (.inl ⟨rfl, rfl⟩)
    simp only [keepAll, release, awaited, found, here]
    have heard : d.keepAll.release id [] = d.hear id .underway := rfl
    rw [heard]
    split
    · rename_i last
      refine .woken awaited found (List.isEmpty_iff.mp last) rfl (fun name d' => ?_) rfl
      show ((s.suspensions.insert parent d.keepAll).erase parent)[name]? = some d' ↔ _
      rw [Maps.getElem?_erase_eq_some, Maps.getElem?_insert_eq_some]
      exact and_congr_right fun other =>
        ⟨fun either => (either.resolve_left fun same => other same.1).2, fun h => .inr ⟨other, h⟩⟩
    · refine .still awaited found rfl (fun name d' => ?_) rfl
      show ((s.suspensions.insert parent d.keepAll).insert parent (d.hear id .underway))[name]? = some d' ↔ _
      rw [Maps.getElem?_insert_eq_some, Maps.getElem?_insert_eq_some]
      exact or_congr_right (and_congr_right fun other =>
        ⟨fun either => (either.resolve_left fun same => other same.1).2, fun h => .inr ⟨other, h⟩⟩)

theorem passOver_sound (seen : ∀ id word, s.word? id = some word → story.tells id word)
    (underway : s.store.contains c.id = true ∨ s.isActive c.id = true) (sound : s.desk.Sound w rules story) :
    (s.passOver c).desk.Sound w rules story := by
  unfold passOver
  dsimp only
  split
  · rename_i p stored
    have told : s.desk.Told c.id (.sliced p.params)
        (({ s with stats := { s.stats with memoized := s.stats.memoized + 1 } } : SlicerState).release c.id p.params).1.desk :=
      release_told (s := { s with stats := { s.stats with memoized := s.stats.memoized + 1 } }) sound.linked fun _ => rfl
    exact told.sound (seen _ _ (word?_eq_some_iff.mpr (.inl ⟨p, stored, rfl⟩))) sound
  · rename_i unknown
    have absent : s.store.get? c.id = none := unknown
    have active : s.isActive c.id = true := underway.resolve_left fun stored => by
      obtain ⟨p, found⟩ := Maps.contains_iff.mp stored
      cases found.symm.trans absent
    have told : s.desk.Told c.id .underway
        ((({ s with stats := { s.stats with memoized := s.stats.memoized + 1 } } : SlicerState).keepAll c.id).release
          c.id []).1.desk :=
      keepAll_release_told (s := { s with stats := { s.stats with memoized := s.stats.memoized + 1 } }) sound.linked
    exact told.sound (seen _ _ (word?_eq_some_iff.mpr (.inr ⟨absent, .inl active, rfl⟩))) sound

/-- The end of a criterion is told to the scan that waits for it. -/
theorem settle_sound {p : PartialSlice} (true' : story.tells c.id (.sliced p.params)) (sound : s.desk.Sound w rules story) :
    (s.settle w c p).2.2.desk.Sound w rules story := by
  have told : s.desk.Told c.id (.sliced p.params) ((s.recordSlice c p).release c.id p.params).1.desk :=
    release_told (s := s.recordSlice c p) sound.linked fun _ => rfl
  have after := told.sound true' sound
  unfold settle
  dsimp only
  split
  · exact after
  · have same : (((s.recordSlice c p).release c.id p.params).1.ascendParams w c p.params).2.desk =
        ((s.recordSlice c p).release c.id p.params).1.desk := (ascendParams_rearranged p.params).desk
    exact same ▸ after

theorem finish_sound (true' : story.tells st.criterion.id (.sliced (s.finish w st).1.params))
    (sound : s.desk.Sound w rules story) : (s.finish w st).2.2.desk.Sound w rules story := by
  unfold finish at true' ⊢
  dsimp only at true' ⊢
  rw [settle_slice] at true'
  obtain ⟨_, _, _, same, _⟩ := retract_frame { s with active := s.active.filter (· != st.criterion.id) }
    ((droppedFrom w st (SliceLine.sort st.lines)).eraseDups.flatMap fun p => (st.spawned.filter (·.1 == p)).map (·.2))
  refine settle_sound true' ?_
  rw [same]
  exact sound

/-- What becomes of a scan that does not wait at a call whose rule asks for the returns of the callee. -/
theorem visit_ends {st' : Scan} {u : Statement} {ts : ValueSet} (kind : u.kind.isInvoke = true)
    (flow : CallFlow.apply rules
      { call := u, seed := st.criterion, targets := st.targets, isDevClass := w.program.isDevClass,
        isTrackedType := w.settings.isTrackedType } = (.descend, ts))
    (retained : (s.visit w rules st u).1.retained = some st') (goes : (s.visit w rules st u).1.suspension = none) :
    (¬(⟨st, u, ts, []⟩ : Descent).Enters w rules ∧ st' = { st with targets := ts }) ∨
      ∃ e : Descent, e.scan = st ∧ e.call = u ∧ e.targets = ts ∧
        e.Ends w rules (fun id word => s.word? id = some word) st' := by
  have called : s.visit w rules st u = ({}, s) ∨
      s.visit w rules st u = s.descend w { st with targets := ts } u st.targets := by
    have invoke : u.kind = .invoke ∨ u.kind = .assignInvoke := by
      simpa [Kind.isInvoke] using kind
    unfold visit
    rcases invoke with invoke | invoke <;>
    · simp only [invoke]
      split
      · exact .inl rfl
      · refine .inr ?_
        simp only [visitCall, flow]
  rcases called with passed | descended
  · rw [passed] at retained
    cases retained
  · rw [descended] at retained goes
    rcases descend_told s w rules st u ts kind flow with
      ⟨barred, stays, _⟩ | ⟨e, d, scan, call, targets, enters, fits, told, _, ends⟩
    · exact .inl ⟨barred, Option.some.inj (retained.symm.trans stays)⟩
    · rcases ends with ⟨last, narrowed, _⟩ | ⟨_, waits⟩
      · obtain rfl := Option.some.inj (narrowed.symm.trans retained)
        exact .inr ⟨e, scan, call, targets, fits.ends enters told last⟩
      · rw [goes] at waits
        cases waits

/-- A scan that starts in a state comes to a statement: it looks at those below, goes on from each of them, and has this
state and this scan before it looks at the statement. -/
inductive Comes (w : Workspace) (rules : List CallRule) (u : Statement) :
    SlicerState → Scan → SlicerState → Scan → Prop where
  | here {s : SlicerState} {st : Scan} (found : st.body.reversed[st.next]? = some u) :
      Comes w rules u s st s { st with next := st.next + 1 }
  | onward {s s' : SlicerState} {st st' : Scan} {below : Statement} (found : st.body.reversed[st.next]? = some below)
      (goes : (s.look w rules st below).1.suspension = none)
      (rest : Comes w rules u (s.look w rules st below).2
        ((s.look w rules st below).1.onward below { st with next := st.next + 1 }) s' st') : Comes w rules u s st s' st'

/-- A scan is suspended at a call whose callee is entered, and told at once of the return criteria that are known. -/
theorem scanFrom_waits (inside : w.body? st.criterion.caller = some st.body) (placed : st.body.Placed) (fuel : Nat)
    (children : List Criterion) {more : List Criterion} {d : Suspension}
    (ran : scanFrom w rules fuel s st children = (more, .suspended d, s')) :
    ∃ e : Descent, e.Waits w rules
      ⟨fun id word => s.word? id = some word, fun u st' => ∃ t, Comes w rules u s st t st'⟩ d := by
  induction fuel generalizing s st children with
  | zero => cases ran
  | succ fuel ih =>
    cases found : st.body.reversed[st.next]? with
    | none =>
      rw [scanFrom_top found] at ran
      cases ran
    | some u =>
      rcases look_spec s rules inside placed found with goes | ⟨d₁, stops⟩
      · obtain ⟨criterion, body, _, _⟩ := goes.onward u
        rw [scanFrom_onward found goes.free] at ran
        obtain ⟨e, waits⟩ := ih (by rw [criterion, body, inside]) (by rw [body]; exact placed) _ ran
        refine ⟨e, waits.mono ⟨fun id word said => ?_, ?_⟩⟩
        · exact goes.recorded.word? ▸ said
        · rintro v st' ⟨t, comes⟩
          exact ⟨t, .onward found goes.free comes⟩
      · rw [scanFrom_suspended found stops.suspension] at ran
        simp only [Prod.mk.injEq, ScanEnd.suspended.injEq] at ran
        obtain ⟨-, rfl, -⟩ := ran
        have suspension := stops.suspension
        simp only [look] at suspension ⊢
        have visited := s.visit_visited w rules { st with next := st.next + 1 } u
        generalize s.visit w rules { st with next := st.next + 1 } u = result at suspension visited ⊢
        cases visited with
        | passed | retained | ascended => cases suspension
        | @descended ts kind flow =>
          rcases descend_told s w rules { st with next := st.next + 1 } u ts kind flow with
            ⟨_, _, none⟩ | ⟨e, d, scan, call, targets, enters, fits, told, held, ends⟩
          · rw [none] at suspension
            cases suspension
          · rcases ends with ⟨_, _, none⟩ | ⟨_, same⟩
            · rw [none] at suspension
              cases suspension
            · obtain rfl := Option.some.inj (same.symm.trans suspension)
              refine ⟨e, ?_, enters, ⟨fits.targets, fits.added, fits.waiting, fits.keep, fits.asked, fits.once⟩, told, ?_⟩
              · rw [scan, call]
                exact ⟨s, .here found⟩
              · rw [scan, call, targets, held]
                exact ⟨_, rfl⟩

theorem resume_sound (st : Scan) (here : w.body? st.criterion.caller = some st.body) (placed : st.body.Placed)
    (seen : ∀ id word, s.word? id = some word → story.tells id word)
    (comes : ∀ u t st', Comes w rules u s st t st' → story.comes u st')
    (given : ∀ p, (s.resume w rules st).1.slice = some p → story.tells p.id (.sliced p.params))
    (free : s.suspensions[st.criterion.id]? = none) (sound : s.desk.Sound w rules story) :
    (s.resume w rules st).2.desk.Sound w rules story := by
  rcases scan_spec s rules here placed with ⟨more, st', s', ran, completes⟩ | ⟨more, d, s', ran, suspends⟩
  · simp only [resume, ran] at given ⊢
    have true' := given _ rfl
    rw [finish_id] at true'
    exact finish_sound true' (completes.recorded.desk ▸ sound)
  · simp only [resume, ran]
    obtain ⟨e, waits⟩ := scanFrom_waits here placed _ _ ran
    have noted := suspends.noted
    obtain ⟨_, _, descents, rfl⟩ := suspends.state
    have apart : ∀ (id : String) d', s.suspensions[id]? = some d' → st.criterion.id ≠ id := by
      rintro id d' found rfl
      rw [free] at found
      cases found
    refine ⟨fun r parent found => ?_, fun id d' found => ?_, sound.ready⟩
    · simp only [desk] at found ⊢
      dsimp only at noted
      rw [noted r] at found
      split at found
      · rename_i waiting
        obtain rfl := Option.some.inj found
        exact ⟨d, Maps.getElem?_insert_eq_some.mpr (.inl ⟨rfl, rfl⟩), waiting⟩
      · obtain ⟨d', held, waiting⟩ := sound.linked r parent found
        exact ⟨d', Maps.getElem?_insert_eq_some.mpr (.inr ⟨apart _ _ held, held⟩), waiting⟩
    · rcases Maps.getElem?_insert_eq_some.mp found with ⟨-, rfl⟩ | ⟨-, held⟩
      · refine ⟨e, waits.mono ⟨seen, ?_⟩⟩
        rintro u st' ⟨t, came⟩
        exact comes u t st' came
      · exact sound.held id d' held

/-- A criterion that ends without a scan is told as one without parameters. -/
theorem close_sound {infeasible : Bool}
    (given : ∀ p, (s.close w c infeasible).1.slice = some p → story.tells p.id (.sliced p.params))
    (sound : s.desk.Sound w rules story) : (s.close w c infeasible).2.desk.Sound w rules story := by
  unfold close at given ⊢
  dsimp only at given ⊢
  have true' := given _ rfl
  rw [settle_slice] at true'
  exact settle_sound true' sound

/-- When the scan of a criterion starts, the criterion is under way, and nothing else is told of the other ones. -/
theorem word?_starting (unknown : s.store.contains c.id = false) (said : (s.starting w c).word? id = some word) :
    id = c.id ∧ .underway = word ∨ s.word? id = some word := by
  by_cases same : id = c.id
  · subst same
    refine .inl ⟨rfl, ?_⟩
    rcases word?_eq_some_iff.mp said with ⟨p, stored, _⟩ | ⟨_, _, told⟩
    · have absent : s.store.get? c.id = none := Maps.getElem?_eq_none_iff.mpr unknown
      cases absent.symm.trans stored
    · exact told
  · refine .inr ?_
    rcases word?_eq_some_iff.mp said with stored | ⟨absent, underway, told⟩
    · exact word?_eq_some_iff.mpr (.inl stored)
    · refine word?_eq_some_iff.mpr (.inr ⟨absent, underway.imp_left fun active => ?_, told⟩)
      simpa [isActive, starting, same] using active

theorem begin_sound (placed : w.Placed) (seen : ∀ id word, s.word? id = some word → story.tells id word)
    (due : s.store.get? c.id = none → story.tells c.id .underway)
    (comes : ∀ b u t st', s.Begins w c b → Comes w rules u (s.starting w c) (.start c b) t st' → story.comes u st')
    (given : ∀ p, (s.begin w rules c).1.slice = some p → story.tells p.id (.sliced p.params))
    (active : ∀ (id : String) d, s.suspensions[id]? = some d → id ∈ s.active) (sound : s.desk.Sound w rules story) :
    (s.begin w rules c).2.desk.Sound w rules story := by
  have begun := s.begin_begun w rules c
  generalize s.begin w rules c = result at begun given ⊢
  cases begun with
  | passed known => exact passOver_sound seen (known.imp_right fun active => by simpa [isActive] using active) sound
  | closed => exact close_sound given sound
  | @scanned b begins =>
    refine resume_sound (.start c b) begins.found (placed _ b begins.found) (fun id word said => ?_)
      (fun u t st' => comes b u t st' begins) given ?_ sound
    · rcases word?_starting begins.unknown said with ⟨rfl, rfl⟩ | said
      · exact due (Maps.getElem?_eq_none_iff.mpr begins.unknown)
      · exact seen id word said
    · by_contra present
      obtain ⟨d, found⟩ := Option.ne_none_iff_exists'.mp present
      exact begins.inactive (active _ d found)

end SlicerState

namespace Worklist

open SlicerState

variable {w : Workspace} {rules : List CallRule} {story : Story} {x y z start : Worklist} {lost : List Scan}
  {begun begun' : List String} {given given' : List PartialSlice} {ledger : Ledger} {id : String} {word : Word}

/-- The slicer was at `y` on its way to `x`. -/
def Passed (w : Workspace) (rules : List CallRule) (start y x : Worklist) : Prop :=
  (∃ begun given, History w rules start begun given y) ∧ ∃ begun given, History w rules y begun given x

/-- The turn goes on with a scan, or starts one. -/
inductive Scans (w : Workspace) (x : Worklist) : SlicerState → Scan → Prop where
  | resumed {task : Task} {rest : List Task} {st : Scan} (first : x.queue = task :: rest)
      (turn : x.state.turn task = .scan st) : Scans w x x.state st
  | started {task : Task} {rest : List Task} {c : Criterion} {s : SlicerState} {b : Body}
      (first : x.queue = task :: rest) (turn : x.state.turn task = .criterion c s) (begins : s.Begins w c b) :
      Scans w x (s.starting w c) (.start c b)

/-- What is true of the way to a worklist. -/
def wayTo (w : Workspace) (rules : List CallRule) (start x : Worklist) : Story where
  tells id
    | .sliced params => ∃ p, x.state.store.get? id = some p ∧ p.params = params
    | .underway => ∃ y, Passed w rules start y x ∧ (y.state.isActive id = true ∨ y.state.isQueued id = true)
    | .dropped => ∃ y, Passed w rules start y x ∧ id ∈ y.state.retracted
  comes u st := ∃ y live limit s₀ st₀ s, Passed w rules start y x ∧ Scans (w.under live limit) y s₀ st₀ ∧
    Comes (w.under live limit) rules u s₀ st₀ s st

/-- What holds between two turns of the scans that wait and of those that go on. -/
structure Attended (w : Workspace) (rules : List CallRule) (story : Story) (x : Worklist) : Prop where
  desk : x.state.desk.Sound w rules story
  tasks : ∀ st, Task.resume st ∈ x.queue → ∃ e : Descent, e.Resumes w rules story st

theorem Attended.mono {story' : Story} (more : story.Continues story')
    (attended : x.Attended w rules story) : x.Attended w rules story' :=
  ⟨attended.desk.mono more, fun st task => (attended.tasks st task).imp fun _ resumes => resumes.mono more⟩

theorem attended_under_iff {live : Bool} {limit : Int} :
    x.Attended (w.under live limit) rules story ↔ x.Attended w rules story :=
  ⟨fun attended => ⟨Desk.sound_under_iff.mp attended.desk,
      fun st task => (attended.tasks st task).imp fun _ => Descent.resumes_under_iff.mp⟩,
    fun attended => ⟨Desk.sound_under_iff.mpr attended.desk,
      fun st task => (attended.tasks st task).imp fun _ => Descent.resumes_under_iff.mpr⟩⟩

/-- The scans that are ready become tasks. -/
theorem append_attended {queue : List Task} {r : List Task × SlicerState} (ready : List Scan)
    (tasks : ∀ st, Task.resume st ∈ queue → ∃ e : Descent, e.Resumes w rules story st)
    (sound : Desk.Sound w rules story ⟨r.2.suspensions, r.2.descents, ready⟩) (taken : r.2.ready = [])
    (more : ∀ st, Task.resume st ∈ r.1 → st ∈ ready) : (append queue r).Attended w rules story := by
  refine ⟨⟨sound.linked, sound.held, fun st member => ?_⟩, fun st member => ?_⟩
  · simp [append, desk, taken] at member
  · rcases List.mem_append.mp member with old | new
    · exact tasks st old
    · exact sound.ready st (more st new)

theorem enqueueAll_tasks (cs : List Criterion) (s : SlicerState) (st : Scan) : Task.resume st ∉ (s.enqueueAll cs).1 := by
  have fold : ∀ (cs : List Criterion) (x : List Task × SlicerState), Task.resume st ∉ x.1 →
      Task.resume st ∉ (cs.foldl enqueueOne x).1 := by
    intro cs
    induction cs with
    | nil => exact fun _ none => none
    | cons c cs ih => exact fun x none => ih _ (by simpa [enqueueOne, SlicerState.enqueue] using none)
  exact fold cs _ List.not_mem_nil

theorem absorb_attended {queue : List Task} {r : StepResult × SlicerState}
    (tasks : ∀ st, Task.resume st ∈ queue → ∃ e : Descent, e.Resumes w rules story st)
    (sound : r.2.desk.Sound w rules story) : (append queue (absorb r)).Attended w rules story := by
  obtain ⟨res, s⟩ := r
  have none := enqueueAll_tasks res.children
    { s with stats := { s.stats with spawned := s.stats.spawned + res.children.length } }
  obtain ⟨_, _, _, _, same⟩ := enqueueAll_frame
    { s with stats := { s.stats with spawned := s.stats.spawned + res.children.length } } res.children
  obtain ⟨suspensions, _, taken⟩ := absorb_frame res s
  have descents : (absorb (res, s)).2.descents = s.descents := by
    simp only [absorb, takeReady, same]
    cases res.slice <;> rfl
  refine append_attended s.ready tasks ?_ taken fun st member => ?_
  · rw [suspensions, descents]
    exact sound
  · simp only [absorb, takeReady] at member
    rcases List.mem_append.mp member with new | ready
    · exact absurd new (none st)
    · rw [same] at ready
      cases slice : res.slice <;> simpa [slice] using ready

/-- A task with which nothing is left to do tells at most that a criterion was retracted. -/
theorem over_sound {s s' : SlicerState} {task : Task} (turn : s.turn task = .over s')
    (dropped : ∀ id ∈ s.retracted, story.tells id .dropped) (sound : s.desk.Sound w rules story) :
    s'.desk.Sound w rules story := by
  cases task with
  | resume st => cases turn
  | start t =>
    simp only [SlicerState.turn] at turn
    split at turn
    · cases turn
      exact sound
    · rename_i c _
      split at turn
      · cases turn
        exact sound
      · split at turn
        · rename_i marked
          cases turn
          refine Desk.Told.sound (release_told ?_ fun _ => rfl) (dropped c.id (by simpa using marked)) sound
          exact sound.linked
        · cases turn

/-- A criterion that leaves the queue is not told to wait any more; all else is told as before. -/
theorem word?_unqueued {s : SlicerState} {queued : String}
    (said : ({ s with queued := s.queued.erase queued } : SlicerState).word? id = some word) : s.word? id = some word := by
  rcases word?_eq_some_iff.mp said with stored | ⟨absent, underway, told⟩
  · exact word?_eq_some_iff.mpr (.inl stored)
  · refine word?_eq_some_iff.mpr (.inr ⟨absent, underway.imp_right fun waiting => ?_, told⟩)
    simp only [isQueued, Std.TreeMap.contains_erase, Bool.and_eq_true] at waiting
    exact waiting.2

/-- A turn that tells nothing but the truth. -/
theorem next_attended (rules : List CallRule) (placed : w.Placed) (orderly : Orderly w lost x)
    (seen : ∀ id word, x.state.word? id = some word → story.tells id word)
    (dropped : ∀ id ∈ x.state.retracted, story.tells id .dropped)
    (comes : ∀ s st u t st', Scans w x s st → Comes w rules u s st t st' → story.comes u st')
    (given : ∀ p ∈ x.gives w rules, story.tells p.id (.sliced p.params)) (attended : x.Attended w rules story) :
    (next w rules x).Attended w rules story := by
  obtain ⟨sound, tasks⟩ := attended
  cases queue : x.queue with
  | nil =>
    rw [next_of_empty queue]
    exact ⟨sound, tasks⟩
  | cons task rest =>
    have later : ∀ st, Task.resume st ∈ rest → ∃ e : Descent, e.Resumes w rules story st :=
      fun st member => tasks st (queue ▸ List.mem_cons_of_mem _ member)
    rcases turn : x.state.turn task with s | ⟨c, s⟩ | st
    · have moves : next w rules x = append rest s.takeReady := by simp only [next, queue, turn]
      rw [moves]
      exact append_attended s.ready later (over_sound turn dropped sound) rfl fun st member => by
        simpa [takeReady] using member
    · have moves : next w rules x = append rest (absorb (s.begin w rules c)) := by simp only [next, queue, turn]
      have gave : x.gives w rules = (s.begin w rules c).1.slice.toList := by simp only [gives, queue, turn]
      rw [moves]
      refine absorb_attended later ?_
      cases turn_criterion [] turn with
      | take ticket queued =>
        have waiting : x.state.isQueued c.id = true := Maps.contains_of_getElem? queued
        refine begin_sound placed (fun id word said => seen id word (word?_unqueued said))
          (fun unknown => seen _ _ (word?_eq_some_iff.mpr (.inr ⟨unknown, .inr waiting, rfl⟩)))
          (fun b u t st' begins => comes _ _ u t st' (.started queue turn begins))
          (fun p slice => given p (by rw [gave, slice]; exact List.mem_singleton_self _))
          (fun id d found => (orderly.plays.active id).mpr (.inr (Maps.contains_of_getElem? found))) sound
    · have moves : next w rules x = append rest (absorb (x.state.resume w rules st)) := by simp only [next, queue, turn]
      have gave : x.gives w rules = (x.state.resume w rules st).1.slice.toList := by simp only [gives, queue, turn]
      obtain ⟨_, here, _, free⟩ := orderly.scanned queue turn
      rw [moves]
      exact absorb_attended later (resume_sound st here (placed _ _ here) seen
        (fun u t st' => comes _ _ u t st' (.resumed queue turn))
        (fun p slice => given p (by rw [gave, slice]; exact List.mem_singleton_self _)) free sound)

/-- A run that starts keeps what the scans that wait were told; the tasks of the run before are lost. -/
theorem addRoots_attended {s : SlicerState} (stops : x.Stops s) (roots : List Criterion) (ready : x.state.ready = [])
    (attended : x.Attended w rules story) : (append [] (s.addRoots roots)).Attended w rules story := by
  have rooted := rooted_addRoots s roots
  have same : s.desk = x.state.desk := by
    cases stops with
    | cancelled => rfl
    | limited message first turn =>
      cases turn_criterion [] turn
      rfl
  refine append_attended [] (by simp) ⟨?_, ?_, by simp⟩ (rooted.ready.trans ?_) fun st member => ?_
  · rw [rooted.suspensions, rooted.descents]
    exact (same ▸ attended.desk.linked :)
  · rw [rooted.suspensions]
    exact (same ▸ attended.desk.held :)
  · exact (congrArg Desk.ready same).trans ready
  · have none := rooted.scanless
    rw [List.filterMap_eq_nil_iff] at none
    cases none _ member

/-- What was true on the way to a worklist is true on the way from it on, as slices stay in the store. -/
theorem wayTo_continues (event : Event w rules y begun' given' z)
    (kept : ∀ id p, y.state.store.get? id = some p → z.state.store.get? id = some p) :
    (wayTo w rules start y).Continues (wayTo w rules start z) := by
  have further : ∀ v, Passed w rules start v y → Passed w rules start v z := by
    rintro v ⟨first, _, _, second⟩
    exact ⟨first, _, _, second.event event⟩
  refine ⟨fun id word held => ?_, fun u st comes => ?_⟩
  · cases word with
    | sliced params =>
      obtain ⟨p, found, same⟩ := held
      exact ⟨p, kept id p found, same⟩
    | underway | dropped =>
      obtain ⟨v, way, there⟩ := held
      exact ⟨v, further v way, there⟩
  · obtain ⟨v, live, limit, s₀, st₀, s, way, came⟩ := comes
    exact ⟨v, live, limit, s₀, st₀, s, further v way, came⟩

/-- Whatever happened to a slicer, its scans were told the truth. -/
theorem History.attended (placed : w.Placed) (history : History w rules (fresh ledger) begun given x) :
    x.Attended w rules (wayTo w rules (fresh ledger) x) := by
  induction history with
  | start => exact ⟨⟨by simp [fresh, desk], by simp [fresh, desk], by simp [fresh, desk]⟩, by simp [fresh]⟩
  | @event begun begun' given given' y z before event ih =>
    obtain ⟨⟨lost, orderly⟩, balanced⟩ := before.balanced placed (fresh_orderly ledger) (fresh_balanced ledger)
    rw [List.nil_append, List.nil_append] at balanced
    have after := event.balanced placed orderly balanced
    have stored : ∀ p ∈ given ++ given', z.state.store.get? p.id = some p := after.stored
    have kept : ∀ id p, y.state.store.get? id = some p → z.state.store.get? id = some p := by
      intro id p found
      obtain ⟨member, rfl⟩ := balanced.mem_of_get? found
      exact stored p (List.mem_append_left _ member)
    have passed : Passed w rules (fresh ledger) y z := ⟨⟨_, _, before⟩, ⟨_, _, event.history⟩⟩
    have attended := ih.mono (wayTo_continues event kept)
    cases event with
    | turn live limit =>
      refine attended_under_iff.mp (next_attended (w := w.under live limit) rules placed (orderly_under_iff.mpr orderly)
        (fun id word said => ?_) (fun id marked => ⟨y, passed, marked⟩)
        (fun s st u t st' scans came => ⟨y, live, limit, s, st, t, passed, scans, came⟩)
        (fun p gave => ⟨p, stored p (List.mem_append_right _ gave), rfl⟩) (attended_under_iff.mpr attended))
      rcases word?_eq_some_iff.mp said with ⟨p, found, rfl⟩ | ⟨_, underway, rfl⟩
      · exact ⟨p, kept id p found, rfl⟩
      · exact ⟨y, passed, underway⟩
    | run stops roots => exact addRoots_attended stops roots orderly.ready attended
    | merge live limit root =>
      have same : (y.state.merge (w.under live limit) root).2.desk = y.state.desk := by
        unfold SlicerState.merge
        split <;> rfl
      exact ⟨same ▸ attended.desk, attended.tasks⟩
    | write ledger => exact ⟨attended.desk, attended.tasks⟩

/-- Turns are a history of a new slicer. -/
theorem after_history (w : Workspace) (rules : List CallRule) (ledger : Ledger) (roots : List Criterion) (n : Nat) :
    ∃ begun given, History w rules (fresh ledger) begun given (after w rules (ofRoots ledger roots) n) := by
  induction n with
  | zero => exact ⟨_, _, (Event.run (x := fresh ledger) .cancelled roots).history⟩
  | succ n ih =>
    obtain ⟨begun, given, before⟩ := ih
    rw [after_succ]
    exact ⟨_, _, before.event (.turn _ w.live w.settings.maxCriteria)⟩

/-- Whatever happened to a slicer, and in whatever order it was told of the return criteria, a scan that goes on after a
call was told of all of them, and told the truth. It lost exactly the variables that the call made of interest only as
arguments at positions that matter to none of them; one that also is the receiver is lost with them. So the values that
were of interest before stay, and the receiver stays unless it is such an argument itself; only then the scan goes on
with less than the call made of interest besides lost arguments. -/
theorem narrowed_exact (p : Program) (settings : Settings) (live : Bool) (rules : List CallRule) (ledger : Ledger)
    (history : History (.ofProgram p.finalize.1 settings live) rules (fresh ledger) begun given x) :
    let w := Workspace.ofProgram p.finalize.1 settings live
    (∀ st, Task.resume st ∈ x.queue → ∃ e : Descent, e.Resumes w rules (wayTo w rules (fresh ledger) x) st) ∧
    (∀ (s : SlicerState) (st st' : Scan) (u : Statement) (ts : ValueSet), u.kind.isInvoke = true →
      CallFlow.apply rules
        { call := u, seed := st.criterion, targets := st.targets, isDevClass := w.program.isDevClass,
          isTrackedType := w.settings.isTrackedType } = (.descend, ts) →
      (s.visit w rules st u).1.retained = some st' → (s.visit w rules st u).1.suspension = none →
      (¬(⟨st, u, ts, []⟩ : Descent).Enters w rules ∧ st' = { st with targets := ts }) ∨
        ∃ e : Descent, e.scan = st ∧ e.call = u ∧ e.targets = ts ∧
          e.Ends w rules (fun id word => s.word? id = some word) st') ∧
    ∀ (tells : String → Word → Prop) (e : Descent) (st : Scan), e.Ends w rules tells st →
      (∀ name, name ∈ st.targets ↔ name ∈ e.targets ∧ ¬e.Lost name) ∧
      (∀ name ∈ e.scan.targets, name ∈ e.targets → name ∈ st.targets) ∧
      (∀ name, e.Receiver name → name ∈ e.targets ∧ (name ∈ st.targets ↔ ¬e.Lost name)) ∧
      ((∀ name, name ∈ st.targets ↔ name ∈ e.targets ∧ ¬(e.Lost name ∧ ¬e.Receiver name)) ↔
        ∀ name, e.Receiver name → ¬e.Lost name) := by
  intro w
  have placed : w.Placed := Workspace.ofModel_placed
  refine ⟨(history.attended placed).tasks, fun s st st' u ts kind flow retained goes => visit_ends kind flow retained goes,
    fun tells e st ends => ⟨ends.targets, fun name before left => ends.stays before left, fun name receiver => ?_,
      ends.spares_receiver_iff⟩⟩
  have interest := ends.enters.receiver receiver
  exact ⟨interest, (ends.targets name).trans (and_iff_right interest)⟩

/-- A method that hashes the first of two numbers, as another method picks it. -/
private def picking : Program :=
  { package := "a"
    classes := [some { name := "a.B", methods := [
      some { signature := "<a.B: void m()>", isStatic := true, units := [
        some (.assign "i1" "5"), some (.assign "i2" "7"),
        some (.callAssign "i3" "" "<a.B: int pick(int,int)>" ["i1", "i2"]),
        some (.call "" "<lib.X: void x(int)>" ["i3"]), some .retVoid] },
      some { signature := "<a.B: int pick(int,int)>", isStatic := true, units := [
        some (.param "i0" 0 "int"), some (.param "i1" 1 "int"), some (.ret "i0")] }] }] }

private def picked : Workspace := .ofProgram picking.finalize.1 {} true

private def pickingRoots : List Criterion :=
  created picked "<a.B: void m()>" "<lib.X: void x(int)>" .invoke [0] 0

set_option maxRecDepth 100000 in
private theorem picking_resumes :
    ∃ st ∈ (after picked CallRule.standard (ofRoots {} pickingRoots) 2).queue.filterMap Task.scan?,
      st.targets.contains (.read "i1") = true ∧ st.targets.contains (.read "i2") = false ∧
        st.lines.map (·.statement) = [{ Statement.callAssign "i3" "" "<a.B: int pick(int,int)>" ["i1", "i2"] with pos := 2 }] := by
  decide +kernel

/-- The scan that a task goes on with. -/
private theorem resume_of_mem_scans {st : Scan} (member : st ∈ x.queue.filterMap Task.scan?) : Task.resume st ∈ x.queue := by
  obtain ⟨task, here, same⟩ := List.mem_filterMap.mp member
  cases task with
  | start t => cases same
  | resume st' =>
    cases same
    exact here

/-- The call is the line that the scan retained last. -/
private theorem call_of_lines {e : Descent} {story : Story} {st : Scan} {u : Statement}
    (resumes : e.Resumes w rules story st) (lines : st.lines.map (·.statement) = [u]) : e.call = u := by
  obtain ⟨spawned, place⟩ := resumes.place
  rw [place] at lines
  simp only [Scan.retain, List.map_cons, List.cons.injEq] at lines
  exact lines.1

/-- The hash waits for the number picked and goes on with the first argument; the second one is lost. -/
theorem picking_narrowed :
    ∃ begun given x st, ∃ e : Descent, History picked CallRule.standard (fresh {}) begun given x ∧
      Task.resume st ∈ x.queue ∧ e.Resumes picked CallRule.standard (wayTo picked CallRule.standard (fresh {}) x) st ∧
      "i1" ∈ st.targets ∧ e.Lost "i2" := by
  obtain ⟨st, member, first, second, lines⟩ := picking_resumes
  have task := resume_of_mem_scans member
  obtain ⟨_, _, history⟩ := after_history picked CallRule.standard {} pickingRoots 2
  obtain ⟨resumes, _, exact'⟩ := narrowed_exact picking {} true CallRule.standard {} history
  obtain ⟨e, resumed⟩ := resumes st task
  have call := call_of_lines resumed lines
  have stays : "i1" ∈ st.targets := first
  have gone : "i2" ∉ st.targets := ValueSet.contains_eq_false_iff.mp second
  have interest : "i2" ∈ e.targets :=
    resumed.ends.enters.argument (a := .read "i2") (by rw [call]; decide) (by rw [call]; decide) (by decide) (by decide)
  refine ⟨_, _, _, st, e, history, task, resumed, stays, ?_⟩
  by_contra kept
  exact gone (((exact' _ e st resumed.ends).1 "i2").mpr ⟨interest, kept⟩)

/-- A number is asked of an object that is the argument as well. -/
private def asking : Program :=
  { package := "a"
    classes := [
      some { name := "a.B", methods := [
        some { signature := "<a.B: void m(a.C)>", isStatic := true, units := [
          some (.param "r0" 0 "a.C"), some (.callAssign "i1" "r0" "<a.C: int t(a.C)>" ["r0"]),
          some (.call "" "<lib.X: void x(int)>" ["i1"]), some .retVoid] }] },
      some { name := "a.C", fields := [{ signature := "<a.C: int F>" }], methods := [
        some { signature := "<a.C: int t(a.C)>", units := [
          some (.thisRef "r0" "a.C"), some (.param "r1" 0 "a.C"), some (.assign "i2" "r0.<a.C: int F>"),
          some (.ret "i2")] }] }] }

private def asked : Workspace := .ofProgram asking.finalize.1 {} true

private def askingRoots : List Criterion :=
  created asked "<a.B: void m(a.C)>" "<lib.X: void x(int)>" .invoke [0] 0

set_option maxRecDepth 100000 in
private theorem asking_resumes :
    ∃ st ∈ (after asked CallRule.standard (ofRoots {} askingRoots) 2).queue.filterMap Task.scan?,
      st.targets.contains (.read "r0") = false ∧
        st.lines.map (·.statement) = [{ Statement.callAssign "i1" "r0" "<a.C: int t(a.C)>" ["r0"] with pos := 1 }] := by
  decide +kernel

/-- The object is of interest as the receiver of the call, and is lost as its argument. -/
theorem asking_loses_receiver :
    ∃ begun given x st, ∃ e : Descent, History asked CallRule.standard (fresh {}) begun given x ∧
      Task.resume st ∈ x.queue ∧ e.Resumes asked CallRule.standard (wayTo asked CallRule.standard (fresh {}) x) st ∧
      e.Receiver "r0" ∧ "r0" ∈ e.targets ∧ "r0" ∉ st.targets ∧
      ¬∀ name, name ∈ st.targets ↔ name ∈ e.targets ∧ ¬(e.Lost name ∧ ¬e.Receiver name) := by
  obtain ⟨st, member, lost, lines⟩ := asking_resumes
  have task := resume_of_mem_scans member
  obtain ⟨_, _, history⟩ := after_history asked CallRule.standard {} askingRoots 2
  obtain ⟨e, resumed⟩ := (history.attended Workspace.ofModel_placed).tasks st task
  have receiver : e.Receiver "r0" := by
    rw [Descent.Receiver, call_of_lines resumed lines]
    decide
  have interest := resumed.ends.enters.receiver receiver
  have gone : "r0" ∉ st.targets := ValueSet.contains_eq_false_iff.mp lost
  refine ⟨_, _, _, st, e, history, task, resumed, receiver, interest, gone, fun spared => ?_⟩
  exact gone ((spared "r0").mpr ⟨interest, fun taken => taken.2 receiver⟩)

end Worklist

end MisuseSlice
