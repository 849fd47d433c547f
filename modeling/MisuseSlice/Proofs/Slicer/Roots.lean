import MisuseSlice.Proofs.Slicer.Completion

/-! What becomes of the roots of a run. A root is queued before the first turn; it is sliced in its turn, or
gives way to a criterion of the same call that tracks its values too. So its own slice is missing at the
end exactly if it gave way and never came back to the queue, and even then a slice tells of its values. -/
namespace MisuseSlice.Worklist

open Criterion Phase

variable {w : Workspace} {rules : List CallRule} {A : Criterion → Prop} {l : Leftover} {x : Worklist}
  {roots : List Criterion}

/-- Queueing a root keeps what holds between two turns. -/
theorem addRoot_sound {q : List Task × SlicerState} {r : Criterion} (closed : Closed w A) (arises : A r)
    (sound : SoundAfter w A l ⟨q.1, q.2⟩) :
    SoundAfter w A l ⟨(SlicerState.addRoot q r).1, (SlicerState.addRoot q r).2⟩ := by
  obtain ⟨plays, settled, ready⟩ := sound
  have keep : ∀ {p p' : Phase}, Keeps w p p' → p.Plays w → Settled A l p → p'.Plays w ∧ Settled A l p' :=
    fun keeps here settled => ⟨keeps.plays here, keeps.arising closed settled.arising,
      keeps.ticketed settled.ticketed, keeps.awaiting closed here settled.arising settled.awaiting⟩
  unfold SlicerState.addRoot
  split
  · have reports : Keeps w { queue := q.1, state := q.2 } _ := .report
      (s := { q.2 with stats := { q.2.stats with memoized := q.2.stats.memoized + 1 } }) ⟨_, _, _, _, rfl⟩
    obtain ⟨plays', settled'⟩ := keep reports plays settled
    exact ⟨plays', settled', ready⟩
  · have queues : Keeps w
        { queue := q.1, state := { q.2 with tree := (q.2.tree.add r.id r.level).2 }, pending := [r] } _ :=
      .enqueue rfl rfl
    obtain ⟨⟨tickets, _, due, ending, scans, held, retracted, params⟩, ticketed, awaiting⟩ := settled
    have pending : Arising A
        { queue := q.1, state := { q.2 with tree := (q.2.tree.add r.id r.level).2 }, pending := [r] } :=
      ⟨tickets, fun c member => List.mem_singleton.mp member ▸ arises, due, ending, scans, held, retracted, params⟩
    have still : Awaiting A l
        { queue := q.1, state := { q.2 with tree := (q.2.tree.add r.id r.level).2 }, pending := [r] } := by
      refine awaiting.congr rfl rfl ?_
      rintro k id _ (queued | ⟨c, ⟨⟩, _⟩ | ⟨c, ⟨⟩, _⟩ | active)
      · exact .inl queued
      · exact .inr (.inr (.inr active))
    obtain ⟨plays', settled'⟩ := keep queues (Playing.congr plays rfl rfl rfl rfl) ⟨pending, ticketed, still⟩
    exact ⟨plays', settled', ready⟩

/-- A run starts with what holds between two turns. -/
theorem addRoots_sound {s : SlicerState} (queue : List Task) (closed : Closed w A) (arise : ∀ r ∈ roots, A r)
    (sound : SoundAfter w A l ⟨queue, s⟩) :
    SoundAfter w A l
      ⟨(roots.foldl SlicerState.addRoot (queue, s)).1, (roots.foldl SlicerState.addRoot (queue, s)).2⟩ := by
  have fold : ∀ (rs : List Criterion) (q : List Task × SlicerState), (∀ r ∈ rs, A r) →
      SoundAfter w A l ⟨q.1, q.2⟩ →
      SoundAfter w A l ⟨(rs.foldl SlicerState.addRoot q).1, (rs.foldl SlicerState.addRoot q).2⟩ := by
    intro rs
    induction rs with
    | nil => exact fun _ _ sound => sound
    | cons r rs ih =>
      exact fun q here sound => ih _ (fun r' later => here r' (List.mem_cons_of_mem _ later))
        (addRoot_sound closed (here r List.mem_cons_self) sound)
  exact fold roots (queue, s) arise sound

theorem ofRoots_sound (closed : Closed w A) (ledger : Ledger) (arise : ∀ r ∈ roots, A r) :
    (ofRoots ledger roots).Sound w A := by
  refine addRoots_sound [] closed arise ⟨?_, ⟨⟨?_, ?_, ?_, ?_, ?_, ?_, ?_, ?_⟩, ?_, ?_, ?_⟩, rfl⟩
  · constructor <;> simp [phase, Phase.scans, Scan.names]
  all_goals simp [phase, Phase.scans, Ticketed]

/-- Before the first turn every root is queued, unless it is sliced. -/
theorem addRoots_known (s : SlicerState) {r : Criterion} (given : r ∈ roots) :
    (append [] (s.addRoots roots)).Stored r.id ∨ (append [] (s.addRoots roots)).Queued r.id := by
  have one : ∀ (q : List Task × SlicerState) (r : Criterion),
      (SlicerState.addRoot q r).2.store = q.2.store ∧
      ((SlicerState.addRoot q r).2.store.contains r.id = true ∨
        (SlicerState.addRoot q r).2.queued.contains r.id = true) ∧
      ∀ id : String, q.2.queued.contains id = true → (SlicerState.addRoot q r).2.queued.contains id = true := by
    intro q r
    unfold SlicerState.addRoot
    split
    · rename_i known
      exact ⟨rfl, by simpa [SlicerState.isQueued] using known, fun _ here => here⟩
    · refine ⟨rfl, .inr ?_, ?_⟩
      · simp [SlicerState.enqueueOne, SlicerState.enqueue]
      · intro id here
        simp only [SlicerState.enqueueOne, SlicerState.enqueue, Std.TreeMap.contains_insert, Bool.or_eq_true]
        exact .inr here
  have fold : ∀ (rs : List Criterion) (q : List Task × SlicerState),
      (r ∈ rs ∨ q.2.store.contains r.id = true ∨ q.2.queued.contains r.id = true) →
      (rs.foldl SlicerState.addRoot q).2.store.contains r.id = true ∨
        (rs.foldl SlicerState.addRoot q).2.queued.contains r.id = true := by
    intro rs
    induction rs with
    | nil => exact fun q here => here.resolve_left List.not_mem_nil
    | cons r' rs ih =>
      intro q here
      obtain ⟨store, known, kept⟩ := one q r'
      refine ih _ ?_
      rcases here with member | stored | queued
      · rcases List.mem_cons.mp member with rfl | later
        · exact .inr known
        · exact .inl later
      · exact .inr (.inl (store ▸ stored))
      · exact .inr (.inr (kept r.id queued))
  exact fold roots ([], s) (.inl given)

theorem ofRoots_queued (ledger : Ledger) {r : Criterion} (given : r ∈ roots) :
    (ofRoots ledger roots).Queued r.id := by
  refine (addRoots_known { ledger } given).resolve_left ?_
  simp [Stored, append, (addRoots_rooted ledger roots).store, SliceStore.contains]

/-- In a turn a queued criterion gives way: it leaves the queue without being started, and a criterion
stands in the queue that covers it. -/
structure GivesWay (A : Criterion → Prop) (r : Criterion) (x y : Worklist) : Prop where
  queued : x.Queued r.id
  gone : ¬y.Queued r.id
  unstarted : ¬y.Started r.id
  covered : y.phase.Covered A r

/-- A queued criterion that is never started gives way for good, if it is not queued in the end. -/
theorem exists_givesWay {z : Nat → Worklist} {n : Nat} {r : Criterion} (queued : (z 0).Queued r.id)
    (ends : ∀ j, n ≤ j → ¬(z j).Queued r.id) (unstarted : ∀ i, ¬(z i).Started r.id)
    (next : ∀ i, (z i).Queued r.id → (z (i + 1)).Started r.id ∨ (z (i + 1)).phase.Covered A r) :
    ∃ i, GivesWay A r (z i) (z (i + 1)) ∧ ∀ j, i < j → ¬(z j).Queued r.id := by
  classical
  -- the last time that the criterion is queued
  have gone := Nat.find_spec (⟨n, ends⟩ : ∃ i, ∀ j, i ≤ j → ¬(z j).Queued r.id)
  obtain ⟨i, last⟩ : ∃ i, Nat.find (⟨n, ends⟩ : ∃ i, ∀ j, i ≤ j → ¬(z j).Queued r.id) = i + 1 := by
    refine Nat.exists_eq_succ_of_ne_zero fun first => ?_
    exact gone 0 (by omega) queued
  rw [last] at gone
  have here : (z i).Queued r.id := by
    by_contra absent
    refine Nat.find_min (⟨n, ends⟩ : ∃ i, ∀ j, i ≤ j → ¬(z j).Queued r.id) (m := i) (by omega) fun j le => ?_
    rcases Nat.eq_or_lt_of_le le with rfl | later
    · exact absent
    · exact gone j later
  have covered := (next i here).resolve_left (unstarted (i + 1))
  exact ⟨i, ⟨here, gone (i + 1) (Nat.le_refl _), unstarted (i + 1), covered⟩, gone⟩

section

variable {n : Nat} {r : Criterion} (sound : x.Sound w A) (closed : Closed w A) (distinct : Distinct A)
  (placed : w.Placed)
include sound closed placed

theorem not_queued_after {i : Nat} (empty : (after w rules x n).queue = []) (later : n ≤ i) (id : String) :
    ¬(after w rules x i).Queued id := by
  rw [after_of_le empty later]
  have nothing := ((after_sound rules closed placed sound n).quiet empty).1
  rw [Std.TreeMap.isEmpty_iff_forall_contains] at nothing
  exact Bool.not_eq_true _ ▸ nothing id

/-- A criterion that left the queue for good without being started has no slice in the end. -/
theorem unstored_of_gone {i : Nat} (empty : (after w rules x n).queue = [])
    (unstarted : ¬(after w rules x i).Started r.id) (gone : ∀ j, i ≤ j → ¬(after w rules x j).Queued r.id) :
    ¬(after w rules x n).Stored r.id := by
  have never : ∀ m, ¬(after w rules x (i + m)).Started r.id := by
    intro m
    induction m with
    | zero => exact unstarted
    | succ m ih =>
      rw [← Nat.add_assoc, after_succ]
      exact (after_sound rules closed placed sound (i + m)).unstarted_next placed ih
        fun takes => gone (i + m) (Nat.le_add_right i m) takes.queued
  intro stored
  refine never n (.inl ?_)
  rwa [after_of_le empty (Nat.le_add_left n i)]

include distinct

/-- A queued criterion of a call has its slice in the end unless it gives way for good. -/
theorem stored_iff (empty : (after w rules x n).queue = []) (arises : A r) (call : r.AtCall)
    (queued : x.Queued r.id) :
    (after w rules x n).Stored r.id ↔
      ¬∃ i, GivesWay A r (after w rules x i) (after w rules x (i + 1)) ∧
        ∀ j, i < j → ¬(after w rules x j).Queued r.id := by
  constructor
  · rintro stored ⟨i, way, gone⟩
    exact unstored_of_gone sound closed placed empty way.unstarted gone stored
  · intro keeps
    by_contra unstored
    refine keeps (exists_givesWay (z := after w rules x) queued
      (fun j later => not_queued_after sound closed placed empty later r.id)
      (fun i started => unstored (stored_of_started sound closed placed empty started)) fun i here => ?_)
    rw [after_succ]
    exact (after_sound rules closed placed sound i).queued_next closed distinct placed arises call here

/-- In the end there is the slice of a criterion that covers a queued one. -/
theorem exists_covers (empty : (after w rules x n).queue = []) (arises : A r) (call : r.AtCall)
    (queued : x.Queued r.id) : ∃ m, A m ∧ m.Covers r ∧ (after w rules x n).Stored m.id := by
  have always : ∀ i, ∃ m, A m ∧ m.AtCall ∧ m.Covers r ∧
      ((after w rules x i).Started m.id ∨ (after w rules x i).Queued m.id) := by
    intro i
    induction i with
    | zero => exact ⟨r, arises, call, .refl r, .inr queued⟩
    | succ i ih =>
      obtain ⟨m, here, calls, covers, started | waits⟩ := ih
      · refine ⟨m, here, calls, covers, .inl ?_⟩
        rw [after_succ]
        exact (after_sound rules closed placed sound i).started_next closed placed started
      · have next : (after w rules x (i + 1)).Started m.id ∨ (after w rules x (i + 1)).phase.Covered A m := by
          rw [after_succ]
          exact (after_sound rules closed placed sound i).queued_next closed distinct placed here calls waits
        rcases next with started | ⟨m', here', calls', covers', waits'⟩
        · exact ⟨m, here, calls, covers, .inl started⟩
        · exact ⟨m', here', calls', covers'.trans covers, .inr waits'⟩
  obtain ⟨m, here, _, covers, known⟩ := always n
  have started := known.resolve_right (not_queued_after sound closed placed empty (Nat.le_refl n) m.id)
  exact ⟨m, here, covers, stored_of_started sound closed placed empty started⟩

end

end MisuseSlice.Worklist
