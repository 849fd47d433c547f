import MisuseSlice.Proofs.Slicer.History
import MisuseSlice.Proofs.Slicer.Reachable

/-! The books that a slicer keeps of its criteria: how many it started to slice, the slices stored, and the criteria
under way. A turn starts at most one criterion, which is neither stored nor under way, and gives at most one slice, of a
criterion under way. So over the whole history of a slicer every criterion is started once and stored once. -/
namespace MisuseSlice

/-- What a slicer keeps of the criteria that it slices. -/
structure Books where
  processed : Nat
  store : SliceStore
  active : List String

namespace Books

/-- A criterion is started. -/
def start (b : Books) (id : String) : Books := { b with processed := b.processed + 1, active := id :: b.active }

/-- A criterion under way ends with its slice. -/
def finish (b : Books) (p : PartialSlice) : Books :=
  { b with store := b.store.put p, active := b.active.filter (· != p.id) }

/-- The books agree with what was started and given so far. -/
structure Balanced (begun : List String) (given : List PartialSlice) (b : Books) : Prop where
  order : b.store.order = given.map (·.id)
  stored : ∀ p ∈ given, b.store.get? p.id = some p
  known : ∀ id, b.store.contains id = true → id ∈ given.map (·.id)
  size : b.store.partials.size = given.length
  nodup : (b.active ++ given.map (·.id)).Nodup
  begun : begun.Perm (b.active ++ given.map (·.id))
  processed : b.processed = given.length + b.active.length

variable {begun : List String} {given : List PartialSlice} {b : Books} {id : String} {p : PartialSlice}

/-- The slices stored are those given. -/
theorem Balanced.toList (balanced : Balanced begun given b) : b.store.toList = given := by
  rw [SliceStore.toList, balanced.order, List.filterMap_map]
  exact (List.filterMap_congr fun p member => balanced.stored p member).trans List.filterMap_some

theorem Balanced.mem_of_get? (balanced : Balanced begun given b) (found : b.store.get? id = some p) :
    p ∈ given ∧ p.id = id := by
  obtain ⟨q, member, rfl⟩ := List.mem_map.mp (balanced.known id (Maps.contains_of_getElem? found))
  obtain rfl : q = p := Option.some.inj ((balanced.stored q member).symm.trans found)
  exact ⟨member, rfl⟩

theorem Balanced.start (balanced : Balanced begun given b) (unknown : b.store.contains id = false)
    (inactive : id ∉ b.active) : Balanced (begun ++ [id]) given (b.start id) := by
  have new : id ∉ given.map (·.id) := by
    intro member
    obtain ⟨p, here, rfl⟩ := List.mem_map.mp member
    have found := Maps.contains_of_getElem? (balanced.stored p here)
    rw [show b.store.partials.contains p.id = false from unknown] at found
    cases found
  obtain ⟨order, stored, known, size, nodup, begun, processed⟩ := balanced
  refine ⟨order, stored, known, size, ?_, ?_, ?_⟩
  · exact List.nodup_cons.mpr ⟨fun member => (List.mem_append.mp member).elim inactive new, nodup⟩
  · exact List.perm_append_comm.trans (begun.cons id)
  · simp only [Books.start, processed, List.length_cons]
    omega

theorem Balanced.finish (balanced : Balanced begun given b) (active : p.id ∈ b.active) :
    Balanced begun (given ++ [p]) (b.finish p) := by
  obtain ⟨order, stored, known, size, nodup, begun, processed⟩ := balanced
  have alive : b.active.Nodup := (List.nodup_append.mp nodup).1
  have fresh : p.id ∉ given.map (·.id) := fun member => (List.nodup_append.mp nodup).2.2 _ active _ member rfl
  have unknown : b.store.partials.contains p.id = false :=
    Bool.eq_false_iff.mpr fun present => fresh (known p.id present)
  have rest : (p.id :: b.active.filter (· != p.id)).Perm b.active := by
    rw [← alive.erase_eq_filter]
    exact (List.perm_cons_erase active).symm
  have all : (b.active.filter (· != p.id) ++ (given ++ [p]).map (·.id)).Perm (b.active ++ given.map (·.id)) := by
    rw [List.map_append, ← List.append_assoc]
    exact List.perm_append_comm.trans (rest.append_right _)
  refine ⟨?_, ?_, ?_, ?_, all.nodup_iff.mpr nodup, begun.trans all.symm, ?_⟩
  · rw [Books.finish, SliceStore.order_put_of_new unknown, order, List.map_append, List.map_singleton]
  · intro q member
    rw [Books.finish, SliceStore.get?_put]
    rcases List.mem_append.mp member with earlier | new
    · have other : p.id ≠ q.id := fun same => fresh (same ▸ List.mem_map_of_mem earlier)
      rw [if_neg other]
      exact stored q earlier
    · rw [List.mem_singleton.mp new, if_pos rfl]
  · intro id here
    rw [List.map_append, List.mem_append]
    rcases SliceStore.contains_put.mp here with rfl | earlier
    · exact .inr List.mem_cons_self
    · exact .inl (known id earlier)
  · simp [Books.finish, SliceStore.put, Std.TreeMap.size_insert, unknown, size]
  · have count := rest.length_eq
    simp only [Books.finish, List.length_append, List.length_cons, List.length_nil] at count ⊢
    omega

end Books

/-- The slice is one of the criterion. -/
structure PartialSlice.IsOf (p : PartialSlice) (c : Criterion) : Prop where
  id : p.id = c.id
  caller : p.caller = c.caller
  start : p.start = c.pos

namespace SlicerState

/-- The books of a slicer. -/
def books (s : SlicerState) : Books := ⟨s.stats.processed, s.store, s.active⟩

variable {w : Workspace} {rules : List CallRule} {s s' : SlicerState} {c : Criterion}

theorem Recorded.books (recorded : s.Recorded s') : s'.books = s.books := by
  obtain ⟨_, _, rfl⟩ := recorded
  rfl

theorem release_books (id : String) (params : List Int) : (s.release id params).1.books = s.books := by
  obtain ⟨_, _, _, same⟩ := s.release_frame id params
  rw [same]
  rfl

theorem keepAll_books (id : String) : (s.keepAll id).books = s.books := by
  rcases s.keepAll_cases id with same | ⟨_, _, _, same⟩ <;> rw [same]
  rfl

theorem retract_books (ids : List String) : (s.retract ids).books = s.books := by
  unfold retract
  exact List.foldlRecOn ids _ (motive := fun t : SlicerState => t.books = s.books) rfl fun t same id _ => same

theorem passOver_books : (s.passOver c).books = s.books := by
  unfold passOver
  dsimp only
  split
  · exact release_books _ _
  · exact (release_books _ _).trans (keepAll_books _)

/-- The states differ in the ledger, in the tree of criteria and in the places in the queue only. -/
def Rearranged (s s' : SlicerState) : Prop := ∃ ledger tree queued tickets, s' = { s with ledger, tree, queued, tickets }

theorem Rearranged.refl (s : SlicerState) : s.Rearranged s := ⟨s.ledger, s.tree, s.queued, s.tickets, rfl⟩

theorem Rearranged.trans {s₁ s₂ s₃ : SlicerState} (first : s₁.Rearranged s₂) (second : s₂.Rearranged s₃) :
    s₁.Rearranged s₃ := by
  obtain ⟨_, _, _, _, rfl⟩ := first
  obtain ⟨ledger, tree, queued, tickets, rfl⟩ := second
  exact ⟨ledger, tree, queued, tickets, rfl⟩

theorem Recorded.rearranged (recorded : s.Recorded s') : s.Rearranged s' := by
  obtain ⟨ledger, tree, rfl⟩ := recorded
  exact ⟨ledger, tree, s.queued, s.tickets, rfl⟩

theorem mergePending_rearranged (k : Criterion) : s.Rearranged (s.mergePending k c).2 := by
  unfold mergePending
  split
  · exact .refl s
  · split
    · exact .refl s
    · split
      · exact .refl s
      · dsimp only
        split
        · exact ⟨s.ledger, _, s.queued, s.tickets, rfl⟩
        · exact ⟨_, _, _, _, rfl⟩

theorem ascendCall_rearranged (x : List Criterion × SlicerState) (k : Criterion) :
    x.2.Rearranged (ascendCall c x k).2 := by
  have merging := mergePending_rearranged (s := x.2) (c := c) k
  unfold ascendCall
  generalize x.2.mergePending k c = merged at merging ⊢
  obtain ⟨done, s⟩ := merged
  dsimp only at merging ⊢
  split
  · exact merging
  · exact merging.trans link_recorded.rearranged

theorem ascendSite_rearranged (params : List Int) (x : List Criterion × SlicerState) (site : String × String) :
    x.2.Rearranged (ascendSite w c params x site).2 := by
  have opened : x.2.Rearranged (x.2.create w site.1 site.2 .parameter params (c.level + 1)).2 :=
    create_recorded.rearranged
  exact List.foldlRecOn _ (ascendCall c) (motive := fun y : List Criterion × SlicerState => x.2.Rearranged y.2)
    opened fun y before k _ => before.trans (ascendCall_rearranged y k)

/-- Looking for the calls of a method concerns the queue only. -/
theorem ascendParams_rearranged (params : List Int) : s.Rearranged (s.ascendParams w c params).2 := by
  unfold ascendParams
  split
  · exact .refl s
  · exact List.foldlRecOn _ (ascendSite w c params)
      (motive := fun x : List Criterion × SlicerState => s.Rearranged x.2) (.refl s)
      fun x before site _ => before.trans (ascendSite_rearranged params x site)

theorem Rearranged.books (rearranged : s.Rearranged s') : s'.books = s.books := by
  obtain ⟨_, _, _, _, rfl⟩ := rearranged
  rfl

theorem settle_books (slice : PartialSlice) : (s.settle w c slice).2.2.books = s.books := by
  have told : ((s.recordSlice c slice).release c.id slice.params).1.books = s.books := release_books _ _
  unfold settle
  dsimp only
  split
  · exact told
  · exact (ascendParams_rearranged _).books.trans told

theorem finish_books (st : Scan) :
    (s.finish w st).2.2.books = { s.books with active := s.active.filter (· != st.criterion.id) } := by
  unfold finish
  exact (settle_books _).trans (retract_books _)

theorem finish_isOf (st : Scan) : (s.finish w st).1.IsOf st.criterion := by
  rw [finish_slice]
  exact ⟨rfl, rfl, rfl⟩

/-- What is absorbed of a step without a slice. -/
theorem absorb_books_none {res : StepResult} (slice : res.slice = none) : (absorb (res, s)).2.books = s.books := by
  obtain ⟨_, _, _, _, same⟩ := enqueueAll_frame
    { s with stats := { s.stats with spawned := s.stats.spawned + res.children.length } } res.children
  simp only [absorb, takeReady, same, slice]
  rfl

theorem absorb_books_some {res : StepResult} {p : PartialSlice} (slice : res.slice = some p) :
    (absorb (res, s)).2.books = { s.books with store := s.store.put p } := by
  obtain ⟨_, _, _, _, same⟩ := enqueueAll_frame
    { s with stats := { s.stats with spawned := s.stats.spawned + res.children.length } } res.children
  simp only [absorb, takeReady, same, slice]
  rfl

/-- What absorbing a step enters in the books: nothing, or the slice of a criterion under way. -/
def Enters (b : Books) (c : Criterion) (r : StepResult × SlicerState) : Prop :=
  (r.1.slice = none ∧ (absorb r).2.books = b) ∨
    ∃ p : PartialSlice, r.1.slice = some p ∧ p.IsOf c ∧ (absorb r).2.books = b.finish p

theorem resume_enters {st : Scan} (rules : List CallRule) (known : w.body? st.criterion.caller = some st.body)
    (placed : st.body.Placed) : Enters s.books st.criterion (s.resume w rules st) := by
  unfold resume
  rcases scan_spec s rules known placed with ⟨more, st', s', ran, completes⟩ | ⟨more, d, s', ran, suspends⟩
  · simp only [ran]
    have slice := finish_isOf (w := w) (s := s') st'
    rw [completes.criterion] at slice
    refine .inr ⟨_, rfl, slice, ?_⟩
    have before := completes.recorded.books
    have after := finish_books (w := w) (s := s') st'
    rw [before, completes.criterion] at after
    rw [absorb_books_some rfl]
    have active : s'.active = s.active := congrArg Books.active before
    generalize s'.finish w st' = result at after slice ⊢
    simp only [after, Books.finish, slice.id, active]
    rw [show result.2.2.store = s.store from congrArg Books.store after]
    rfl
  · simp only [ran]
    obtain ⟨_, _, _, rfl⟩ := suspends.state
    exact .inl ⟨rfl, absorb_books_none rfl⟩

/-- A criterion that is not scanned is started and ends at once. -/
theorem close_enters {b : Books} (infeasible : Bool) (books : s.books = { b with processed := b.processed + 1 })
    (inactive : c.id ∉ b.active) : Enters (b.start c.id) c (s.close w c infeasible) := by
  have settled := settle_books (w := w) (s := s) (c := c) { emptySlice c with infeasible }
  have slice : (s.settle w c { emptySlice c with infeasible }).1 = { emptySlice c with infeasible } := settle_slice
  unfold close
  generalize s.settle w c { emptySlice c with infeasible } = result at settled slice ⊢
  obtain ⟨p, children, s'⟩ := result
  subst slice
  dsimp only at settled ⊢
  refine .inr ⟨_, rfl, ⟨rfl, rfl, rfl⟩, ?_⟩
  rw [absorb_books_some rfl]
  have all : (c.id :: b.active).filter (· != c.id) = b.active := by
    simp only [List.filter_cons, bne_self_eq_false, Bool.false_eq_true, ↓reduceIte]
    exact List.filter_eq_self.mpr fun id member => bne_iff_ne.mpr fun same => inactive (same ▸ member)
  have store : s'.store = b.store := congrArg Books.store (settled.trans books)
  rw [settled, books, store]
  simp only [Books.finish, Books.start]
  exact congrArg _ all.symm

theorem begin_enters (rules : List CallRule) (placed : w.Placed) (unknown : s.store.contains c.id = false)
    (inactive : c.id ∉ s.active) : Enters (s.books.start c.id) c (s.begin w rules c) := by
  have begun := s.begin_begun w rules c
  generalize s.begin w rules c = result at begun ⊢
  cases begun with
  | passed known =>
    rw [unknown] at known
    exact absurd (known.resolve_left Bool.false_ne_true) inactive
  | @closed ledger stats infeasible _ _ counted =>
    refine close_enters infeasible ?_ inactive
    simp only [books, counted]
  | @scanned b begins =>
    exact @resume_enters w (s.starting w c) (.start c b) rules begins.found (placed _ b begins.found)

end SlicerState

namespace Worklist

open SlicerState

variable {w : Workspace} {rules : List CallRule} {x y : Worklist} {lost : List Scan} {s s' : SlicerState}
  {begun begun' : List String} {given given' : List PartialSlice} {live : Bool} {limit : Int} {ledger : Ledger}

/-- A task that there is nothing to do for leaves the books as they are. -/
theorem over_books {task : Task} (turn : s.turn task = .over s') : s'.books = s.books := by
  cases task with
  | resume st => cases turn
  | start t =>
    simp only [SlicerState.turn] at turn
    split at turn
    · cases turn
      rfl
    · split at turn
      · cases turn
        rfl
      · split at turn
        · cases turn
          exact release_books _ _
        · cases turn

theorem criterion_books {task : Task} {c : Criterion} (turn : s.turn task = .criterion c s') :
    c ∈ s.tickets ∧ s'.books = s.books := by
  cases turn_criterion [] turn with
  | take ticket queued => exact ⟨List.mem_of_getElem? ticket, rfl⟩

/-- What a turn enters in the books, and for which criterion. -/
inductive Entered (w : Workspace) (rules : List CallRule) (x : Worklist) : Prop where
  | nothing (begins : x.begins = []) (gives : x.gives w rules = [])
      (books : (next w rules x).state.books = x.state.books)
  | starts {c : Criterion} {r : StepResult × SlicerState} (ticket : c ∈ x.state.tickets)
      (unknown : x.state.store.contains c.id = false) (inactive : c.id ∉ x.state.active) (begins : x.begins = [c.id])
      (gives : x.gives w rules = r.1.slice.toList) (enters : Enters (x.state.books.start c.id) c r)
      (books : (next w rules x).state.books = (absorb r).2.books)
  | goesOn {st : Scan} {r : StepResult × SlicerState} (scan : st ∈ x.phase.scans)
      (active : st.criterion.id ∈ x.state.active) (begins : x.begins = [])
      (gives : x.gives w rules = r.1.slice.toList) (enters : Enters x.state.books st.criterion r)
      (books : (next w rules x).state.books = (absorb r).2.books)

/-- A scan that a turn goes on with is in play: it is active, its body is that of its method, and it does not wait. -/
theorem Orderly.scanned (orderly : Orderly w lost x) {task : Task} {rest : List Task} {st : Scan}
    (queue : x.queue = task :: rest) (turn : x.state.turn task = .scan st) :
    st ∈ x.phase.scans ∧ w.body? st.criterion.caller = some st.body ∧ st.criterion.id ∈ x.state.active ∧
      x.state.suspensions[st.criterion.id]? = none := by
  have scan : st ∈ x.phase.scans := by simp [phase, Phase.scans, queue, turn_scan turn]
  have task : st ∈ (x.beside lost).phase.scans ++ (x.beside lost).phase.state.ready := by
    rw [beside_scans]
    exact List.mem_append_left _ (List.mem_append_left _ scan)
  have among := List.mem_map_of_mem (f := fun st : Scan => st.criterion.id) task
  refine ⟨scan, orderly.plays.known st task, (orderly.plays.active _).mpr (.inl among), ?_⟩
  by_contra present
  obtain ⟨d, found⟩ := Option.ne_none_iff_exists'.mp present
  exact (orderly.plays.held _ d found).2 among

theorem next_entered (rules : List CallRule) (placed : w.Placed) (orderly : Orderly w lost x) : Entered w rules x := by
  cases queue : x.queue with
  | nil =>
    refine .nothing ?_ ?_ ?_
    · simp only [begins, queue]
    · simp only [gives, queue]
    · rw [next_of_empty queue]
  | cons task rest =>
    rcases turn : x.state.turn task with s | ⟨c, s⟩ | st
    · have moves : next w rules x = append rest s.takeReady := by simp only [next, queue, turn]
      refine .nothing ?_ ?_ ?_
      · simp only [begins, queue, turn]
      · simp only [gives, queue, turn]
      · rw [moves]
        exact (over_books turn :)
    · have moves : next w rules x = append rest (absorb (s.begin w rules c)) := by simp only [next, queue, turn]
      have ends : x.gives w rules = (s.begin w rules c).1.slice.toList := by simp only [gives, queue, turn]
      obtain ⟨ticket, same⟩ := criterion_books turn
      by_cases known : (s.store.contains c.id || s.isActive c.id) = true
      · have passes : s.begin w rules c = ({}, s.passOver c) := by
          unfold SlicerState.begin
          rw [if_pos known]
        rw [passes] at ends moves
        have books : (absorb ({}, s.passOver c)).2.books = s.books := (absorb_books_none rfl).trans passOver_books
        refine .nothing ?_ ends ?_
        · simp only [begins, queue, turn, if_pos known]
        · rw [moves]
          exact books.trans same
      · have starts : x.begins = [c.id] := by simp only [begins, queue, turn, if_neg known]
        simp only [Bool.or_eq_true, not_or, Bool.not_eq_true, isActive] at known
        have inactive : c.id ∉ s.active := by simpa using known.2
        have store : s.store = x.state.store := congrArg Books.store same
        have active : s.active = x.state.active := congrArg Books.active same
        exact .starts ticket (store ▸ known.1) (active ▸ inactive) starts ends
          (same ▸ begin_enters rules placed known.1 inactive) (by rw [moves]; rfl)
    · have moves : next w rules x = append rest (absorb (x.state.resume w rules st)) := by
        simp only [next, queue, turn]
      have starts : x.begins = [] := by simp only [begins, queue, turn]
      have ends : x.gives w rules = (x.state.resume w rules st).1.slice.toList := by simp only [gives, queue, turn]
      obtain ⟨scan, known, active, _⟩ := orderly.scanned queue turn
      exact .goesOn scan active starts ends (resume_enters rules known (placed _ _ known)) (by rw [moves]; rfl)

/-- A step of a criterion under way keeps the balance. -/
theorem balanced_of_enters {b : Books} {c : Criterion} {r : StepResult × SlicerState}
    (balanced : Books.Balanced begun given b) (active : c.id ∈ b.active) (enters : Enters b c r) :
    Books.Balanced begun (given ++ r.1.slice.toList) (absorb r).2.books := by
  rcases enters with ⟨slice, same⟩ | ⟨p, slice, isOf, same⟩
  · rw [slice, same]
    simpa using balanced
  · rw [slice, same]
    exact balanced.finish (isOf.id ▸ active)

/-- A turn keeps the balance. -/
theorem next_balanced (rules : List CallRule) (placed : w.Placed) (orderly : Orderly w lost x)
    (balanced : Books.Balanced begun given x.state.books) :
    Books.Balanced (begun ++ x.begins) (given ++ x.gives w rules) (next w rules x).state.books := by
  cases next_entered rules placed orderly with
  | nothing begins gives books =>
    rw [begins, gives, books, List.append_nil, List.append_nil]
    exact balanced
  | starts ticket unknown inactive begins gives enters books =>
    rw [begins, gives, books]
    exact balanced_of_enters (balanced.start unknown inactive) List.mem_cons_self enters
  | goesOn scan active begins gives enters books =>
    rw [begins, gives, books, List.append_nil]
    exact balanced_of_enters balanced active enters

theorem addRoots_books (s : SlicerState) (roots : List Criterion) : (s.addRoots roots).2.books = s.books := by
  unfold SlicerState.addRoots
  refine List.foldlRecOn roots addRoot (motive := fun x : List Task × SlicerState => x.2.books = s.books) rfl fun x same r _ => ?_
  unfold addRoot
  split <;> exact same

theorem Stops.books (stops : x.Stops s) : s.books = x.state.books := by
  cases stops with
  | cancelled => rfl
  | limited message first turn => exact (criterion_books turn).2

theorem Event.balanced (placed : w.Placed) (event : Event w rules x begun' given' y) (orderly : Orderly w lost x)
    (balanced : Books.Balanced begun given x.state.books) :
    Books.Balanced (begun ++ begun') (given ++ given') y.state.books := by
  cases event with
  | turn live limit => exact next_balanced (w := w.under live limit) rules placed (orderly_under_iff.mpr orderly) balanced
  | run stops roots =>
    rw [List.append_nil, List.append_nil]
    exact (addRoots_books _ roots).trans stops.books ▸ balanced
  | merge live limit root =>
    rw [List.append_nil, List.append_nil]
    unfold SlicerState.merge
    split
    · exact balanced
    · obtain ⟨order, stored, known, size, nodup, begun, processed⟩ := balanced
      exact ⟨order, stored, known, size, nodup, begun, processed⟩
  | write ledger =>
    rw [List.append_nil, List.append_nil]
    exact balanced

/-- The balance is kept whatever happens to a slicer. -/
theorem History.balanced (placed : w.Placed) (history : History w rules x begun' given' y) (orderly : Orderly w lost x)
    (balanced : Books.Balanced begun given x.state.books) :
    (∃ lost', Orderly w lost' y) ∧ Books.Balanced (begun ++ begun') (given ++ given') y.state.books := by
  induction history with
  | start => exact ⟨⟨lost, orderly⟩, by simpa using balanced⟩
  | event _ event ih =>
    obtain ⟨⟨_, orderly⟩, balanced⟩ := ih
    rw [← List.append_assoc, ← List.append_assoc]
    exact ⟨event.orderly placed orderly, event.balanced placed orderly balanced⟩

theorem fresh_balanced (ledger : Ledger) : Books.Balanced [] [] (fresh ledger).state.books := by
  constructor <;> simp [fresh, SlicerState.books, SliceStore.contains]

/-- Whatever happens to a slicer, every criterion is started once and its slice is stored once. The slices stored are
those given, in their order, and the criteria started are those stored and those under way; between two turns, and when a
run returns, their number is the one that the statistics tell. No slice is replaced later. -/
theorem sliced_once (p : Program) (settings : Settings) (live : Bool) (rules : List CallRule) (ledger : Ledger)
    (history : History (.ofProgram p.finalize.1 settings live) rules (fresh ledger) begun given x) :
    begun.Nodup ∧ begun.Perm (x.state.active ++ given.map (·.id)) ∧ x.state.store.toList = given ∧
      x.state.stats.processed = x.state.store.partials.size + x.state.active.length ∧
      (∀ s, x.Stops s → s.stats.processed = s.store.partials.size + s.active.length) ∧
      ∀ begun' given' y, History (.ofProgram p.finalize.1 settings live) rules x begun' given' y →
        ∀ id q, x.state.store.get? id = some q → y.state.store.get? id = some q := by
  have placed : (Workspace.ofProgram p.finalize.1 settings live).Placed := Workspace.ofModel_placed
  obtain ⟨⟨lost, orderly⟩, balanced⟩ := history.balanced placed (fresh_orderly ledger) (fresh_balanced ledger)
  rw [List.nil_append, List.nil_append] at balanced
  have count : x.state.stats.processed = x.state.store.partials.size + x.state.active.length :=
    balanced.processed.trans (congrArg (· + _) balanced.size.symm)
  refine ⟨balanced.begun.nodup_iff.mpr balanced.nodup, balanced.begun, balanced.toList, count, fun s stops => ?_, ?_⟩
  · have same := stops.books
    have processed : s.stats.processed = x.state.stats.processed := congrArg Books.processed same
    have store : s.store = x.state.store := congrArg Books.store same
    have active : s.active = x.state.active := congrArg Books.active same
    rw [processed, store, active, count]
  · intro begun' given' y later id q found
    obtain ⟨-, after⟩ := later.balanced placed orderly balanced
    obtain ⟨member, rfl⟩ := balanced.mem_of_get? found
    exact after.stored q (List.mem_append_left _ member)

/-- The criterion at which a run of the hash with a limit of two criteria stops. -/
private def echoingRest : List Criterion :=
  Criterion.created echoed "<a.B: int g(int)>" "<a.B: int g(int)>" .returned [] (-2)

set_option maxRecDepth 100000 in
private theorem echoing_counts :
    let s := (({} : SlicerState).run (echoed.under true 2) CallRule.standard echoingRoots).2
    let s' := (s.run (echoed.under true 0) CallRule.standard echoingRest).2
    s.stats.processed = 2 ∧ s.active.length = 2 ∧ s'.stats.processed = 3 ∧ s'.active = [] := by
  decide +kernel

/-- A run that is limited to two criteria leaves them under way. The run after it slices one criterion more, which ends
all three. -/
theorem echoing_sliced_once :
    ∃ ended s s' begun given y,
      ({} : SlicerState).run (echoed.under true 2) CallRule.standard echoingRoots = (ended, s) ∧
      (s.run (echoed.under true 0) CallRule.standard echoingRest).2 = s' ∧
      s.stats.processed = 2 ∧ s.store.partials.size = 0 ∧ s.active.length = 2 ∧
      History echoed CallRule.standard (fresh {}) begun given y ∧ y.Stops s' ∧ begun.Nodup ∧
      s'.store.partials.size = 3 ∧ s'.active = [] := by
  obtain ⟨processed, active, processed', active'⟩ := echoing_counts
  obtain ⟨⟨ended, s⟩, ran⟩ : ∃ outcome,
      ({} : SlicerState).run (echoed.under true 2) CallRule.standard echoingRoots = outcome := ⟨_, rfl⟩
  rw [ran] at processed active processed' active'
  dsimp only at processed active processed' active'
  obtain ⟨⟨ended', s'⟩, ran'⟩ : ∃ outcome,
      s.run (echoed.under true 0) CallRule.standard echoingRest = outcome := ⟨_, rfl⟩
  rw [ran'] at processed' active'
  obtain ⟨_, _, _, history, stops⟩ := run_history (x := fresh {}) .cancelled ran
  obtain ⟨_, _, y, later, stops'⟩ := run_history stops ran'
  obtain ⟨-, -, -, -, count, -⟩ := sliced_once echoing {} true CallRule.standard {} history
  obtain ⟨once, -, -, -, count', -⟩ := sliced_once echoing {} true CallRule.standard {} (history.trans later)
  have first := count s stops
  have second := count' s' stops'
  dsimp only at processed' active'
  rw [processed, active] at first
  rw [processed', active'] at second
  exact ⟨ended, s, s', _, _, y, ran, by rw [ran'], processed, by omega, active, history.trans later, stops', once,
    by simpa using second.symm, active'⟩

end Worklist

end MisuseSlice
