import Mathlib.Data.Finset.Card
import Mathlib.Data.Fintype.Card
import MisuseSlice.Proofs.Slicer.Playing

/-! Runs end. A criterion is named by 64 bits and is started at most once, a scan stands ever further up in
its body, and each statement brings about a bounded number of criteria. What is left to do is measured by
the tasks in the queue, the statements that the scans in play have above them, and the names not used yet;
every turn makes it less. -/
namespace MisuseSlice

/-- Names without repetitions are no more than there can be. -/
theorem length_names_le {ids : List String} (nodup : ids.Nodup)
    (named : ∀ id ∈ ids, ∃ c : Criterion, c.id = id) : ids.length ≤ UInt64.size := by
  classical
  have within : ids.toFinset ⊆
      (Finset.univ : Finset (Fin UInt64.size)).image fun n => Fingerprint.hex (UInt64.ofFin n) := by
    intro id member
    obtain ⟨c, rfl⟩ := named id (List.mem_toFinset.mp member)
    exact Finset.mem_image.mpr ⟨c.fingerprint.toFin, Finset.mem_univ _, rfl⟩
  calc ids.length
    _ = ids.toFinset.card := (List.toFinset_card_of_nodup nodup).symm
    _ ≤ _ := Finset.card_le_card within
    _ ≤ _ := Finset.card_image_le
    _ = UInt64.size := by rw [Finset.card_univ, Fintype.card_fin]

namespace Phase

open SlicerState

/-- The criteria that were started. -/
def started (p : Phase) : List String :=
  p.state.active ++ (p.state.store.order ++ p.ending.toList.map (·.id))

/-- The store keeps the order of its slices, and what is started are criteria. -/
structure Ordered (p : Phase) : Prop where
  nodup : p.state.store.order.Nodup
  stored : ∀ id, id ∈ p.state.store.order ↔ p.state.store.contains id = true
  named : ∀ id ∈ p.state.active ++ p.state.store.order, ∃ c : Criterion, c.id = id

variable {w : Workspace} {p p' : Phase}

theorem Ordered.congr (ordered : p.Ordered) (active : p'.state.active = p.state.active)
    (store : p'.state.store = p.state.store) : p'.Ordered := by
  obtain ⟨nodup, stored, named⟩ := ordered
  constructor <;> simp only [active, store] <;> assumption

theorem Opens.ordered {task : Task} (opens : Opens task p p') (ordered : p.Ordered) : p'.Ordered := by
  cases opens <;> exact ordered.congr rfl rfl

/-- With one more slice the order still has each slice once. -/
theorem put_ordered {store : SliceStore} (nodup : store.order.Nodup)
    (stored : ∀ id, id ∈ store.order ↔ store.contains id = true) (slice : PartialSlice) :
    (store.put slice).order.Nodup ∧ ∀ id, id ∈ (store.put slice).order ↔ (store.put slice).contains id = true := by
  by_cases known : store.contains slice.id = true
  · rw [SliceStore.order_put_of_known known]
    refine ⟨nodup, fun id => ?_⟩
    rw [stored, SliceStore.contains_put]
    exact ⟨.inr, fun either => either.elim (· ▸ known) (·)⟩
  · rw [SliceStore.order_put_of_new (Bool.eq_false_iff.mpr known)]
    refine ⟨nodup.append (List.nodup_singleton _) (by simpa [stored] using known), fun id => ?_⟩
    rw [List.mem_append, List.mem_singleton, stored, SliceStore.contains_put, or_comm, eq_comm]

theorem Move.ordered (move : Move w p p') (ordered : p.Ordered) : p'.Ordered := by
  rcases move with spends | keeps
  · cases spends with
    | suspend suspends =>
      obtain ⟨ledger, tree, descents, rfl⟩ := suspends.state
      exact ordered.congr rfl rfl
    | @close queue s st pending ids =>
      obtain ⟨nodup, stored, named⟩ := ordered
      refine ⟨by simpa using nodup, by simpa using stored, fun id member => named id ?_⟩
      rw [retract_active, retract_store] at member
      exact (List.filter_sublist.append_right _).subset member
  · cases keeps with
    | report reports =>
      obtain ⟨ledger, tree, stats, retainedParams, rfl⟩ := reports
      exact ordered.congr rfl rfl
    | release | forgive | keepAll => exact ordered.congr (by simp) (by simp)
    | start =>
      obtain ⟨nodup, stored, named⟩ := ordered
      refine ⟨nodup, stored, ?_⟩
      intro id member
      rcases List.mem_cons.mp member with rfl | other
      · exact ⟨_, rfl⟩
      · exact named id other
    | complete completes =>
      obtain ⟨ledger, tree, rfl⟩ := completes.recorded
      exact ordered.congr rfl rfl
    | @put _ c slice _ _ same =>
      obtain ⟨nodup, stored, named⟩ := ordered
      obtain ⟨nodup', stored'⟩ := put_ordered nodup stored slice
      refine ⟨nodup', stored', fun id here => ?_⟩
      rcases List.mem_append.mp here with active | known
      · exact named id (List.mem_append_left _ active)
      · rcases SliceStore.contains_put.mp ((stored' id).mp known) with rfl | old
        · exact ⟨c, same.symm⟩
        · exact named id (List.mem_append_right _ ((stored id).mpr old))
    | skip | merge | bring | enqueue | ready => exact ordered.congr rfl rfl

/-- A criterion is started once. -/
theorem started_nodup (plays : p.Plays w) (ordered : p.Ordered) : p.started.Nodup := by
  have slices : (p.state.store.order ++ p.ending.toList.map (·.id)).Nodup := by
    cases ended : p.ending with
    | none => simpa using ordered.nodup
    | some c =>
      refine ordered.nodup.append (List.nodup_singleton _) ?_
      have unstored := (plays.gone c ended).2
      simpa [ordered.stored] using unstored
  refine plays.alive.append slices ?_
  intro id active later
  rcases List.mem_append.mp later with stored | gone
  · have unstored := plays.unsliced id active
    rw [(ordered.stored id).mp stored] at unstored
    cases unstored
  · obtain ⟨c, ended, rfl⟩ := List.mem_map.mp gone
    exact (plays.gone c (Option.mem_toList.mp ended)).1 active

theorem length_started_le (plays : p.Plays w) (ordered : p.Ordered) : p.started.length ≤ UInt64.size := by
  refine length_names_le (started_nodup plays ordered) ?_
  intro id member
  rcases List.mem_append.mp member with active | later
  · exact ordered.named id (List.mem_append_left _ active)
  · rcases List.mem_append.mp later with stored | gone
    · exact ordered.named id (List.mem_append_right _ stored)
    · obtain ⟨c, _, rfl⟩ := List.mem_map.mp gone
      exact ⟨c, rfl⟩

end Phase

/-- What a scan may still bring about and take. -/
def Scan.weight (w : Workspace) (st : Scan) : Nat := (st.body.size - st.next + 1) * (w.spawnBound + 1)

/-- What a task may take. -/
def Task.weight (w : Workspace) : Task → Nat
  | .start _ => 1
  | .resume st => st.weight w

namespace Phase

open SlicerState

/-- What a criterion may take that is not started yet. -/
def share (w : Workspace) : Nat := (w.size + 2) * (w.spawnBound + 1)

/-- What is left to do. -/
def left (w : Workspace) (p : Phase) : Nat :=
  (p.queue.map (Task.weight w)).sum + (p.pending.length + p.credit) + (p.busy.toList.map (Scan.weight w)).sum +
    (p.state.ready.map (Scan.weight w)).sum + Maps.total (fun d => d.scan.weight w) p.state.suspensions +
    (UInt64.size - p.started.length) * share w

variable {w : Workspace} {p p' : Phase}

/-- A suspended scan with what it brought about is less than it was. -/
theorem weight_suspended {s s' : SlicerState} {st : Scan} {more : List Criterion} {d : Suspension}
    (suspends : s.Suspends w st more d s') : d.scan.weight w + more.length < st.weight w := by
  obtain ⟨a, further⟩ := Nat.exists_eq_add_of_lt suspends.further
  have inside := suspends.inside
  have few := suspends.few
  have above : st.body.size - st.next + 1 = (st.body.size - d.scan.next + 1) + (a + 1) := by omega
  have steps : d.scan.next - st.next = a + 1 := by omega
  rw [steps] at few
  unfold Scan.weight
  rw [suspends.body, above, Nat.add_mul (st.body.size - d.scan.next + 1), Nat.mul_comm (a + 1),
    Nat.add_mul w.spawnBound]
  omega

/-- A complete scan with what it brought about is no more than it was. -/
theorem weight_completed {s s' : SlicerState} {st st' : Scan} {more : List Criterion}
    (completes : s.Completes w st more st' s') : st'.weight w + more.length ≤ st.weight w := by
  have few := completes.few
  have top : st'.body.size - st'.next = 0 := by
    rw [completes.body]
    exact Nat.sub_eq_zero_of_le completes.top
  unfold Scan.weight
  rw [top, Nat.add_mul (st.body.size - st.next), Nat.mul_comm (st.body.size - st.next), Nat.add_mul w.spawnBound]
  omega

theorem weight_start_lt {c : Criterion} {b : Body} (found : w.body? c.caller = some b) :
    (Scan.start c b).weight w < share w := by
  have size : b.size ≤ w.size := Workspace.size_le found
  refine Nat.mul_lt_mul_of_pos_right ?_ (Nat.succ_pos _)
  have body : (Scan.start c b).body.size = b.size := rfl
  omega

/-- A ticket taken from the queue leaves less to do. -/
theorem Opens.left_lt {t : Nat} (opens : Opens (.start t) p p') : p'.left w < p.left w := by
  cases opens <;> simp only [left, List.map_cons, List.sum_cons, Task.weight, started] <;> omega

/-- A scan taken from the queue is still to be worked on. -/
theorem Opens.left_eq {st : Scan} (opens : Opens (.resume st) p p') : p'.left w = p.left w := by
  cases opens
  simp only [left, started, Option.toList, List.map_cons, List.map_nil, List.sum_cons, List.sum_nil, Task.weight]
  omega

theorem Spends.left_lt (spends : Spends w p p') (plays : p.Plays w) : p'.left w < p.left w := by
  cases spends with
  | @suspend queue s s' st more d suspends =>
    have less := weight_suspended suspends
    obtain ⟨ledger, tree, descents, rfl⟩ := suspends.state
    have new : s.suspensions.contains st.criterion.id = false := by
      by_contra present
      obtain ⟨d', found⟩ := Maps.contains_iff.mp (Bool.not_eq_false _ ▸ present)
      exact (plays.held _ d' found).2 List.mem_cons_self
    simp only [left, started, Option.toList, List.map_cons, List.map_nil, List.sum_cons, List.sum_nil,
      List.length_nil, Maps.total_insert_new _ new]
    omega
  | @close queue s st pending ids _ =>
    obtain ⟨tree, retracted, stats, same, _⟩ :=
      SlicerState.retract_frame { s with active := s.active.filter (· != st.criterion.id) } ids
    have active : st.criterion.id ∈ s.active := (plays.active _).mpr (.inl List.mem_cons_self)
    have one : (s.active.filter (· != st.criterion.id)).length + 1 = s.active.length := by
      rw [← plays.alive.erase_eq_filter, List.length_erase_of_mem active]
      exact Nat.sub_add_cancel (List.length_pos_of_mem active)
    have heavy : w.spawnBound + 1 ≤ st.weight w := Nat.le_mul_of_pos_left _ (Nat.succ_pos _)
    simp only [left, same, started, Option.toList, List.map_cons, List.map_nil, List.sum_cons, List.sum_nil,
      List.length_append, List.length_cons, List.length_nil]
    have count : (s.active.filter (· != st.criterion.id)).length + (s.store.order.length + (0 + 1)) =
        s.active.length + (s.store.order.length + 0) := by omega
    rw [count]
    omega

theorem left_release (s : SlicerState) (id : String) (params : List Int) :
    ((s.release id params).1.ready.map (Scan.weight w)).sum +
        Maps.total (fun d => d.scan.weight w) (s.release id params).1.suspensions =
      (s.ready.map (Scan.weight w)).sum + Maps.total (fun d => d.scan.weight w) s.suspensions := by
  have released := s.release_released id params
  generalize s.release id params = result at released ⊢
  cases released with
  | unawaited | lost => rfl
  | @woken parent d _ found _ =>
    have same : ((d.release id params).narrow).weight w = d.scan.weight w := rfl
    have total := Maps.total_erase (fun d : Suspension => d.scan.weight w) found
    simp only [List.map_append, List.map_cons, List.map_nil, List.sum_append, List.sum_cons, List.sum_nil, same]
    omega
  | still _ found _ => exact congrArg _ (Maps.total_insert_same _ found rfl)

/-- The names that are left when one more criterion is started. -/
theorem share_started {n : Nat} (room : n + 1 ≤ UInt64.size) :
    (UInt64.size - n) * share w = (UInt64.size - (n + 1)) * share w + share w := by
  rw [← Nat.succ_mul]
  congr 1
  omega

/-- A criterion whose scan starts is started. -/
theorem length_started_start (c : Criterion) (b : Body) :
    ({ p with due := none, busy := some (.start c b)
              state := { p.state with active := c.id :: p.state.active } } : Phase).started.length =
      p.started.length + 1 := by
  simp only [started, List.length_append, List.length_cons]
  omega

/-- A criterion that ends without a scan is started. -/
theorem length_started_skip (c : Criterion) (fresh : p.ending = none) :
    ({ p with ending := some c } : Phase).started.length = p.started.length + 1 := by
  simp only [started, fresh, Option.toList, List.map_cons, List.map_nil, List.length_append, List.length_cons,
    List.length_nil]
  omega

/-- A criterion that ended was started before its slice is stored. -/
theorem length_started_put {c : Criterion} {slice : PartialSlice} (ending : p.ending = some c)
    (new : p.state.store.contains slice.id = false) :
    ({ p with ending := none, credit := 0
              state := { p.state with store := p.state.store.put slice } } : Phase).started.length =
      p.started.length := by
  have order : (p.state.store.put slice).order = p.state.store.order ++ [slice.id] :=
    SliceStore.order_put_of_new new
  simp only [started, order, ending, Option.toList, List.map_cons, List.map_nil, List.length_append,
    List.length_cons, List.length_nil]

theorem Keeps.left_le (keeps : Keeps w p p') (plays : p.Plays w) (ordered : p.Ordered) :
    p'.left w ≤ p.left w := by
  have after : p'.Plays w ∧ p'.Ordered := ⟨keeps.plays plays, Move.ordered (.inr keeps) ordered⟩
  have room : p'.started.length ≤ UInt64.size := length_started_le after.1 after.2
  cases keeps with
  | report reports =>
    obtain ⟨ledger, tree, stats, retainedParams, rfl⟩ := reports
    exact Nat.le_refl _
  | @release _ c params _ =>
    have same := left_release (w := w) p.state c.id params
    simp only [left, started, release_active, release_store]
    omega
  | @keepAll _ id =>
    simp only [left, started, keepAll_active, keepAll_store]
    rcases p.state.keepAll_cases id with same | ⟨parent, d, found, same⟩
    · rw [same]
    · have total := Maps.total_insert_same (fun d : Suspension => d.scan.weight w) found
        (show d.keepAll.scan.weight w = d.scan.weight w from rfl)
      simp only [same]
      rw [total]
  | @forgive _ c _ _ =>
    have same := left_release (w := w) { p.state with retracted := p.state.retracted.filter (· != c.id) } c.id []
    simp only [left, started, release_active, release_store]
    dsimp only at same
    omega
  | @start _ c b _ idle fresh _ _ found =>
    have light := weight_start_lt found
    have count := length_started_start (p := p) c b
    rw [count] at room
    simp only [left, count, idle, share_started room, Option.toList, List.map_cons, List.map_nil, List.sum_cons,
      List.sum_nil]
    omega
  | @skip _ c _ fresh _ _ =>
    have count := length_started_skip c fresh
    rw [count] at room
    simp only [left, count, share_started room]
    omega
  | complete completes =>
    have less := weight_completed completes
    obtain ⟨ledger, tree, rfl⟩ := completes.recorded
    simp only [left, started, Option.toList, List.map_cons, List.map_nil, List.sum_cons, List.sum_nil,
      List.length_nil]
    omega
  | merge => exact Nat.le_refl _
  | bring _ credit _ =>
    simp only [left, started, credit, List.length_append, List.length_singleton]
    omega
  | enqueue first =>
    simp only [left, started, first, SlicerState.enqueue, List.map_append, List.map_cons, List.map_nil,
      List.sum_append, List.sum_cons, List.sum_nil, List.length_cons, Task.weight]
    omega
  | @put _ c slice ending _ named =>
    have new : p.state.store.contains slice.id = false := named ▸ (plays.gone c ending).2
    have count := length_started_put ending new
    simp only [left, count]
    omega
  | ready =>
    have same : (p.state.ready.map Task.resume).map (Task.weight w) = p.state.ready.map (Scan.weight w) := by
      rw [List.map_map]
      rfl
    simp only [left, started, List.map_append, same, List.sum_append, List.map_nil, List.sum_nil]
    omega

theorem Moves.ordered (moves : Moves w p p') (ordered : p.Ordered) : p'.Ordered := by
  induction moves with
  | refl => exact ordered
  | tail _ move ih => exact move.ordered ih

theorem Moves.left_le (moves : Moves w p p') (plays : p.Plays w) (ordered : p.Ordered) :
    p'.left w ≤ p.left w := by
  induction moves with
  | refl => exact Nat.le_refl _
  | tail moves move ih =>
    have here := Moves.plays moves plays
    rcases move with spends | keeps
    · exact (spends.left_lt here).le.trans ih
    · exact (keeps.left_le here (Moves.ordered moves ordered)).trans ih

/-- Moves of which one uses something up leave less to do. -/
theorem Spent.left_lt (spent : Spent w p p') (plays : p.Plays w) (ordered : p.Ordered) :
    p'.left w < p.left w := by
  obtain ⟨p₁, p₂, before, spends, rest⟩ := spent
  have here := Moves.plays before plays
  have less := spends.left_lt here
  have more := Moves.left_le rest (spends.plays here) (Move.ordered (.inl spends) (Moves.ordered before ordered))
  exact more.trans_lt (less.trans_le (Moves.left_le before plays ordered))

theorem Turn.ordered {task : Task} (turn : Turn w task p p') (ordered : p.Ordered) : p'.Ordered := by
  obtain ⟨p₁, opens, moves, _⟩ := turn
  exact Moves.ordered moves (opens.ordered ordered)

/-- A turn leaves less to do. -/
theorem Turn.left_lt {task : Task} (turn : Turn w task p p') (plays : p.Plays w) (ordered : p.Ordered) :
    p'.left w < p.left w := by
  obtain ⟨p₁, opens, moves, spent⟩ := turn
  have here := opens.plays plays
  have known := opens.ordered ordered
  cases task with
  | start t => exact (Moves.left_le moves here known).trans_lt opens.left_lt
  | resume st => exact opens.left_eq ▸ (spent st rfl).left_lt here known

end Phase

namespace Worklist

variable {w : Workspace} {rules : List CallRule}

open Phase

/-- A run whose queue is not empty makes a turn. -/
theorem next_turn_of_plays {x : Worklist} {task : Task} {queue : List Task} (rules : List CallRule)
    (placed : w.Placed) (plays : x.phase.Plays w) (nonempty : x.queue = task :: queue) :
    Turn w task x.phase (next w rules x).phase := by
  refine next_turn rules nonempty placed ?_
  rintro st rfl
  refine plays.known st (List.mem_append_left _ ?_)
  simp [phase, Phase.scans, nonempty, Task.scan?]

/-- What the turns keep holds throughout a run. -/
theorem after_invariant {x : Worklist} {I : Phase → Prop} (rules : List CallRule) (placed : w.Placed)
    (kept : ∀ {task p p'}, Turn w task p p' → p.Plays w → I p → I p') (plays : x.phase.Plays w)
    (first : I x.phase) (n : Nat) : (after w rules x n).phase.Plays w ∧ I (after w rules x n).phase := by
  induction n with
  | zero => exact ⟨plays, first⟩
  | succ n ih =>
    rw [after_succ]
    cases queue : (after w rules x n).queue with
    | nil =>
      rw [next_of_empty queue]
      exact ih
    | cons task rest =>
      have turn := next_turn_of_plays rules placed ih.1 queue
      exact ⟨turn.plays ih.1, kept turn ih.1 ih.2⟩

/-- A turn that takes a task leaves less to do. -/
theorem next_left_lt {x : Worklist} (rules : List CallRule) (placed : w.Placed) (plays : x.phase.Plays w)
    (ordered : x.phase.Ordered) (nonempty : x.queue ≠ []) :
    (next w rules x).phase.left w < x.phase.left w := by
  obtain ⟨task, rest, queue⟩ := List.exists_cons_of_ne_nil nonempty
  exact (next_turn_of_plays rules placed plays queue).left_lt plays ordered

/-- A run comes to an empty queue in no more turns than there is left to do. -/
theorem exists_empty (placed : w.Placed) (rules : List CallRule) (m : Nat) :
    ∀ x : Worklist, x.phase.Plays w → x.phase.Ordered → x.phase.left w ≤ m →
      ∃ n ≤ m, (after w rules x n).queue = [] := by
  induction m with
  | zero =>
    intro x plays ordered less
    refine ⟨0, Nat.le_refl 0, ?_⟩
    by_contra nonempty
    have fewer := next_left_lt rules placed plays ordered nonempty
    omega
  | succ m ih =>
    intro x plays ordered less
    by_cases nonempty : x.queue = []
    · exact ⟨0, Nat.zero_le _, nonempty⟩
    · have fewer := next_left_lt rules placed plays ordered nonempty
      have kept := after_invariant rules placed (fun turn _ => Turn.ordered turn) plays ordered 1
      obtain ⟨n, bound, empty⟩ := ih (next w rules x) kept.1 kept.2 (by omega)
      exact ⟨n + 1, by omega, by rw [after_succ']; exact empty⟩

/-- Queueing roots gives them tickets and tasks. -/
structure Rooted (s : SlicerState) (x : List Task × SlicerState) (n : Nat) : Prop where
  scanless : x.1.filterMap Task.scan? = []
  few : x.1.length ≤ n
  active : x.2.active = s.active
  ready : x.2.ready = s.ready
  suspensions : x.2.suspensions = s.suspensions
  descents : x.2.descents = s.descents
  store : x.2.store = s.store

theorem addRoot_rooted {s : SlicerState} {x : List Task × SlicerState} {n : Nat} {r : Criterion}
    (rooted : Rooted s x n) : Rooted s (SlicerState.addRoot x r) (n + 1) := by
  obtain ⟨scanless, few, active, ready, suspensions, descents, store⟩ := rooted
  unfold SlicerState.addRoot
  split
  · exact ⟨scanless, Nat.le_succ_of_le few, active, ready, suspensions, descents, store⟩
  · refine ⟨?_, ?_, active, ready, suspensions, descents, store⟩
    · simp [SlicerState.enqueueOne, SlicerState.enqueue, List.filterMap_append, scanless, Task.scan?]
    · simp only [SlicerState.enqueueOne, List.length_append, List.length_singleton]
      omega

theorem rooted_addRoots (s : SlicerState) (roots : List Criterion) : Rooted s (s.addRoots roots) roots.length := by
  have fold : ∀ (roots : List Criterion) (x : List Task × SlicerState) (n : Nat), Rooted s x n →
      Rooted s (roots.foldl SlicerState.addRoot x) (n + roots.length) := by
    intro roots
    induction roots with
    | nil => exact fun _ _ rooted => rooted
    | cons r roots ih =>
      intro x n rooted
      have rest := ih _ _ (addRoot_rooted (r := r) rooted)
      rwa [Nat.add_right_comm, Nat.add_assoc] at rest
  have all := fold roots ([], s) 0 ⟨rfl, Nat.le_refl 0, rfl, rfl, rfl, rfl, rfl⟩
  rwa [Nat.zero_add] at all

theorem addRoots_rooted (ledger : Ledger) (roots : List Criterion) :
    Rooted { ledger } (({ ledger } : SlicerState).addRoots roots) roots.length := rooted_addRoots { ledger } roots

theorem ofRoots_plays {ledger : Ledger} {roots : List Criterion} : (ofRoots ledger roots).phase.Plays w := by
  obtain ⟨scanless, _, active, ready, suspensions, _, store⟩ := addRoots_rooted ledger roots
  unfold Plays Phase.scans phase ofRoots append
  dsimp only
  rw [List.nil_append, scanless]
  generalize (({ ledger } : SlicerState).addRoots roots).2 = s at *
  constructor <;> simp [active, ready, suspensions, store, Scan.names]

theorem ofRoots_ordered {ledger : Ledger} {roots : List Criterion} : (ofRoots ledger roots).phase.Ordered := by
  obtain ⟨_, _, active, _, _, _, store⟩ := addRoots_rooted ledger roots
  unfold phase ofRoots append
  constructor <;> simp [active, store, SliceStore.contains]

theorem weight_scanless {tasks : List Task} (scanless : tasks.filterMap Task.scan? = []) :
    (tasks.map (Task.weight w)).sum = tasks.length := by
  induction tasks with
  | nil => rfl
  | cons task tasks ih =>
    cases task with
    | start t =>
      rw [List.map_cons, List.sum_cons, ih scanless, List.length_cons, Nat.add_comm]
      rfl
    | resume st => simp [Task.scan?] at scanless

theorem ofRoots_left {ledger : Ledger} {roots : List Criterion} :
    (ofRoots ledger roots).phase.left w ≤ SlicerState.taskBound w roots.length := by
  obtain ⟨scanless, few, active, ready, suspensions, _, store⟩ := addRoots_rooted ledger roots
  have empty : Maps.total (fun d : Suspension => d.scan.weight w) ({} : Std.TreeMap String Suspension) = 0 := rfl
  simp only [left, phase, ofRoots, append, List.nil_append, weight_scanless scanless, started, active, ready,
    suspensions, store, empty, Option.toList, List.map_nil, List.sum_nil, List.length_nil, Nat.add_zero,
    Nat.sub_zero]
  exact Nat.add_le_add_right few _

/-- A run of a new slicer that is neither cancelled nor limited ends with an empty queue. -/
theorem run_ends (live : w.live = true) (unlimited : w.settings.maxCriteria ≤ 0) (placed : w.Placed)
    (rules : List CallRule) (ledger : Ledger) (roots : List Criterion) :
    ∃ n message, (after w rules (ofRoots ledger roots) n).queue = [] ∧
      ({ ledger } : SlicerState).run w rules roots =
        (.complete, (after w rules (ofRoots ledger roots) n).state.note .debug message) := by
  obtain ⟨n, enough, empty⟩ := exists_empty placed rules _ _ ofRoots_plays ofRoots_ordered ofRoots_left
  obtain ⟨message, ran⟩ := run_of_empty live unlimited enough empty
  exact ⟨n, message, empty, ran⟩

end Worklist

end MisuseSlice
