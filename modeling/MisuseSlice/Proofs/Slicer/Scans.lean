import MisuseSlice.Proofs.Slicer.Visits

/-! Scans as runs of visits. A scan stands ever further up in its body, so it reaches the top or is
suspended on the way, and what it brought about until then is bounded by the statements it looked at. -/
namespace MisuseSlice

/-- The scan after a visit that does not suspend it. -/
def Visit.onward (v : Visit) (u : Statement) (st : Scan) : Scan :=
  match v.retained with
  | some st' => v.settle u st'
  | none => st

namespace SlicerState

variable {s : SlicerState} {w : Workspace} {rules : List CallRule} {st : Scan} {u : Statement}

/-- The state and the visit at the statement that a scan looks at next. -/
def look (s : SlicerState) (w : Workspace) (rules : List CallRule) (st : Scan) (u : Statement) :
    Visit × SlicerState :=
  let r := s.visit w rules { st with next := st.next + 1 } u
  (r.1, r.2.noteRetained r.1 st u)

theorem scanFrom_top {fuel : Nat} {children : List Criterion}
    (top : st.body.reversed[st.next]? = none) :
    scanFrom w rules fuel s st children = (children, .complete st, s) := by
  cases fuel with
  | zero => rfl
  | succ fuel => simp only [scanFrom, top]

theorem scanFrom_suspended {fuel : Nat} {children : List Criterion} {d : Suspension}
    (found : st.body.reversed[st.next]? = some u) (stops : (s.look w rules st u).1.suspension = some d) :
    scanFrom w rules (fuel + 1) s st children =
      (children ++ (s.look w rules st u).1.spawned,
        .suspended { d with scan := (s.look w rules st u).1.settle u d.scan }, (s.look w rules st u).2) := by
  simp only [look] at stops
  simp only [scanFrom, found, stops, look]
  rfl

theorem scanFrom_onward {fuel : Nat} {children : List Criterion}
    (found : st.body.reversed[st.next]? = some u) (goes : (s.look w rules st u).1.suspension = none) :
    scanFrom w rules (fuel + 1) s st children =
      scanFrom w rules fuel (s.look w rules st u).2
        ((s.look w rules st u).1.onward u { st with next := st.next + 1 })
        (children ++ (s.look w rules st u).1.spawned) := by
  simp only [look] at goes
  cases retained : (s.visit w rules { st with next := st.next + 1 } u).1.retained with
  | none =>
    simp only [scanFrom, found, goes, look, Visit.onward, retained]
    rfl
  | some st' =>
    simp only [scanFrom, found, goes, look, Visit.onward, retained]
    rfl

theorem noteRetained_recorded {v : Visit} : s.Recorded (s.noteRetained v st u) := by
  unfold noteRetained
  split
  · exact note_recorded
  · exact .refl s

/-- A scan that ran to the top of its body. -/
structure Completes (s : SlicerState) (w : Workspace) (st : Scan) (more : List Criterion) (st' : Scan)
    (s' : SlicerState) : Prop where
  recorded : s.Recorded s'
  criterion : st'.criterion = st.criterion
  body : st'.body = st.body
  top : st.body.size ≤ st'.next
  spawned : ∀ k ∈ more, Criterion.SpawnedBy w st.criterion k
  few : more.length ≤ w.spawnBound * (st.body.size - st.next)
  origin : ∀ e ∈ st'.spawned, e ∈ st.spawned ∨ ∃ k ∈ more, k.id = e.2
  new : ∀ k ∈ more, ¬s.Knows k.id

/-- A scan that is suspended on its way. -/
structure Suspends (s : SlicerState) (w : Workspace) (st : Scan) (more : List Criterion) (d : Suspension)
    (s' : SlicerState) : Prop where
  state : ∃ ledger tree descents, s' = { s with ledger, tree, descents }
  criterion : d.scan.criterion = st.criterion
  body : d.scan.body = st.body
  further : st.next < d.scan.next
  inside : d.scan.next ≤ st.body.size
  spawned : ∀ k ∈ more, Criterion.SpawnedBy w st.criterion k
  few : more.length ≤ w.spawnBound * (d.scan.next - st.next)
  origin : ∀ e ∈ d.scan.spawned, e ∈ st.spawned ∨ ∃ k ∈ more, k.id = e.2
  noted : ∀ r : String, s'.descents[r]? = if r ∈ d.waiting then some st.criterion.id else s.descents[r]?
  waits : d.waiting ≠ []
  fresh : ∀ r ∈ d.waiting, (∃ k ∈ more, k.id = r) ∧ s.store.contains r = false ∧ r ∉ s.active ∧
    s.queued.contains r = false
  new : ∀ k ∈ more, ¬s.Knows k.id
  /-- The criteria that the scan waits for are brought about last. -/
  last : ∃ before returns, more = before ++ returns ∧ (∀ k ∈ returns, k.id ∈ d.waiting) ∧
    ∀ r ∈ d.waiting, ∃ k ∈ returns, k.id = r

/-- What a visit that lets the scan go on does to the place and the frame of the scan. -/
theorem GoesOn.onward {v : Visit} {s' : SlicerState} (u : Statement)
    (goes : s.GoesOn w { st with next := st.next + 1 } v s') :
    let st' := v.onward u { st with next := st.next + 1 }
    st'.criterion = st.criterion ∧ st'.body = st.body ∧ st.next < st'.next ∧
      ∀ e ∈ st'.spawned, e ∈ st.spawned ∨ ∃ k ∈ v.spawned, k.id = e.2 := by
  unfold Visit.onward
  split
  · rename_i st' retained
    obtain ⟨⟨next, targets, jumps, params, rfl⟩, grows⟩ := goes.advances st' retained
    refine ⟨rfl, rfl, grows, ?_⟩
    intro e member
    simp only [Visit.settle, Scan.retain, List.mem_append, List.mem_map] at member
    rcases member with old | ⟨k, spawned, rfl⟩
    · exact .inl old
    · exact .inr ⟨k, spawned, rfl⟩
  · exact ⟨rfl, rfl, Nat.lt_succ_self _, fun e member => .inl member⟩

/-- The statement that a scan looks at next, and its position. -/
theorem place_of_next (placed : st.body.Placed) (found : st.body.reversed[st.next]? = some u) :
    u ∈ st.body.whole ∧ u.pos + (st.next + 1) = st.body.size := by
  obtain ⟨inside, _⟩ := List.getElem?_eq_some_iff.mp found
  rw [Body.length_reversed] at inside
  rw [Body.reversed_getElem? inside] at found
  have place := placed.whole found
  exact ⟨List.mem_of_getElem? found, by omega⟩

theorem look_spec (s : SlicerState) (rules : List CallRule) (known : w.body? st.criterion.caller = some st.body)
    (placed : st.body.Placed) (found : st.body.reversed[st.next]? = some u) :
    s.GoesOn w { st with next := st.next + 1 } (s.look w rules st u).1 (s.look w rules st u).2 ∨
      ∃ d, s.StopsAt w { st with next := st.next + 1 } (s.look w rules st u).1 d
        (s.look w rules st u).2 := by
  obtain ⟨member, here⟩ := place_of_next placed found
  have recorded : (s.visit w rules { st with next := st.next + 1 } u).2.Recorded (s.look w rules st u).2 :=
    noteRetained_recorded
  rcases visit_spec s rules { st with next := st.next + 1 } known member here with goes | ⟨d, stops⟩
  · exact .inl { goes with recorded := goes.recorded.trans recorded }
  · obtain ⟨_, _, descents, state⟩ := stops.state
    obtain ⟨ledger, tree, noted⟩ := recorded
    refine .inr ⟨d, { stops with state := ⟨ledger, tree, descents, ?_⟩, noted := ?_ }⟩
    · rw [noted, state]
    · rw [noted]
      exact stops.noted

theorem Completes.after {v : Visit} {s₁ s' : SlicerState} {more : List Criterion} {st' : Scan}
    (goes : s.GoesOn w { st with next := st.next + 1 } v s₁) (inside : st.next < st.body.size)
    (rest : s₁.Completes w (v.onward u { st with next := st.next + 1 }) more st' s') :
    s.Completes w st (v.spawned ++ more) st' s' := by
  obtain ⟨criterion, body, further, origin⟩ := goes.onward u
  refine ⟨goes.recorded.trans rest.recorded, rest.criterion.trans criterion, rest.body.trans body,
    body ▸ rest.top, ?_, ?_, ?_, ?_⟩
  · intro k member
    rcases List.mem_append.mp member with here | later
    · exact goes.spawned k here
    · exact criterion ▸ rest.spawned k later
  · have few := rest.few
    rw [body] at few
    rw [List.length_append]
    calc v.spawned.length + more.length
      _ ≤ w.spawnBound * 1 + w.spawnBound * (st.body.size - (st.next + 1)) := by
        refine Nat.add_le_add (by simpa using goes.few) (few.trans (Nat.mul_le_mul_left _ ?_))
        exact Nat.sub_le_sub_left further _
      _ = w.spawnBound * (st.body.size - st.next) := by
        rw [← Nat.mul_add]
        congr 1
        omega
  · intro e member
    rcases rest.origin e member with early | ⟨k, later, same⟩
    · rcases origin e early with old | ⟨k, here, same⟩
      · exact .inl old
      · exact .inr ⟨k, List.mem_append_left _ here, same⟩
    · exact .inr ⟨k, List.mem_append_right _ later, same⟩
  · intro k member
    rcases List.mem_append.mp member with here | later
    · exact goes.new k here
    · exact fun known => rest.new k later (goes.recorded.knows_iff.mpr known)

theorem Suspends.after {v : Visit} {s₁ s' : SlicerState} {more : List Criterion} {d : Suspension}
    (goes : s.GoesOn w { st with next := st.next + 1 } v s₁)
    (rest : s₁.Suspends w (v.onward u { st with next := st.next + 1 }) more d s') :
    s.Suspends w st (v.spawned ++ more) d s' := by
  obtain ⟨criterion, body, further, origin⟩ := goes.onward u
  obtain ⟨_, _, rfl⟩ := goes.recorded
  obtain ⟨ledger, tree, descents, rfl⟩ := rest.state
  have beyond := rest.further
  refine ⟨⟨ledger, tree, descents, rfl⟩, rest.criterion.trans criterion, rest.body.trans body, by omega,
    body ▸ rest.inside, ?_, ?_, ?_, criterion ▸ rest.noted, rest.waits, ?_, ?_, ?_⟩
  · intro k member
    rcases List.mem_append.mp member with here | later
    · exact goes.spawned k here
    · exact criterion ▸ rest.spawned k later
  · rw [List.length_append]
    calc v.spawned.length + more.length
      _ ≤ w.spawnBound * 1 + w.spawnBound * (d.scan.next - (st.next + 1)) := by
        refine Nat.add_le_add (by simpa using goes.few) (rest.few.trans (Nat.mul_le_mul_left _ ?_))
        exact Nat.sub_le_sub_left further _
      _ = w.spawnBound * (d.scan.next - st.next) := by
        rw [← Nat.mul_add]
        congr 1
        omega
  · intro e member
    rcases rest.origin e member with early | ⟨k, later, same⟩
    · rcases origin e early with old | ⟨k, here, same⟩
      · exact .inl old
      · exact .inr ⟨k, List.mem_append_left _ here, same⟩
    · exact .inr ⟨k, List.mem_append_right _ later, same⟩
  · intro r waiting
    obtain ⟨⟨k, later, same⟩, unknown⟩ := rest.fresh r waiting
    exact ⟨⟨k, List.mem_append_right _ later, same⟩, unknown⟩
  · intro k member
    rcases List.mem_append.mp member with here | later
    · exact goes.new k here
    · exact rest.new k later
  · obtain ⟨before, returns, split, waited⟩ := rest.last
    exact ⟨v.spawned ++ before, returns, by rw [split, List.append_assoc], waited⟩

/-- The visit that suspends a scan, as a scan of one statement. -/
theorem StopsAt.suspends {v : Visit} {d : Suspension} {s' : SlicerState}
    (stops : s.StopsAt w { st with next := st.next + 1 } v d s') (inside : st.next < st.body.size) :
    s.Suspends w st v.spawned { d with scan := v.settle u d.scan } s' := by
  obtain ⟨⟨next, targets, jumps, params, same⟩, _⟩ := stops.advances
  have place : d.scan.next = st.next + 1 := stops.next
  refine ⟨stops.state, ?_, ?_, ?_, ?_, stops.spawned, ?_, ?_, stops.noted, stops.waits, stops.fresh, ?_,
    ⟨[], v.spawned, rfl, stops.only, fun r waiting => (stops.fresh r waiting).1⟩⟩
  · simp [Visit.settle, Scan.retain, same]
  · simp [Visit.settle, Scan.retain, same]
  · simp [Visit.settle, Scan.retain, place]
  · simp only [Visit.settle, Scan.retain, place]
    omega
  · simpa [Visit.settle, Scan.retain, place] using stops.few
  · intro e member
    simp only [Visit.settle, Scan.retain, List.mem_append, List.mem_map, same] at member
    rcases member with old | ⟨k, spawned, rfl⟩
    · exact .inl old
    · exact .inr ⟨k, spawned, rfl⟩
  · intro k member known
    obtain ⟨_, unstored, inactive, unqueued⟩ := stops.fresh k.id (stops.only k member)
    rcases known with stored | active | queued
    · rw [unstored] at stored
      cases stored
    · exact inactive active
    · rw [unqueued] at queued
      cases queued

/-- A scan with enough fuel reaches the top of its body or is suspended. -/
theorem scanFrom_spec (fuel : Nat) (known : w.body? st.criterion.caller = some st.body)
    (placed : st.body.Placed) (enough : st.body.size < fuel + st.next) (children : List Criterion) :
    (∃ more st' s', scanFrom w rules fuel s st children = (children ++ more, .complete st', s') ∧
      s.Completes w st more st' s') ∨
    ∃ more d s', scanFrom w rules fuel s st children = (children ++ more, .suspended d, s') ∧
      s.Suspends w st more d s' := by
  induction fuel generalizing s st children with
  | zero =>
    have top : st.body.reversed[st.next]? = none := by
      rw [List.getElem?_eq_none_iff, Body.length_reversed]
      omega
    rw [scanFrom_top top]
    exact .inl ⟨[], st, s, by simp, .refl s, rfl, rfl, by omega, by simp, Nat.zero_le _,
      fun e member => .inl member, by simp⟩
  | succ fuel ih =>
    cases found : st.body.reversed[st.next]? with
    | none =>
      rw [scanFrom_top found]
      rw [List.getElem?_eq_none_iff, Body.length_reversed] at found
      exact .inl ⟨[], st, s, by simp, .refl s, rfl, rfl, found, by simp, Nat.zero_le _,
        fun e member => .inl member, by simp⟩
    | some u =>
      obtain ⟨inside, _⟩ := List.getElem?_eq_some_iff.mp found
      rw [Body.length_reversed] at inside
      rcases look_spec s rules known placed found with goes | ⟨d, stops⟩
      · obtain ⟨criterion, body, further, _⟩ := goes.onward u
        rw [scanFrom_onward found goes.free]
        rcases @ih (s.look w rules st u).2 ((s.look w rules st u).1.onward u { st with next := st.next + 1 })
            (by rw [criterion, body, known]) (by rw [body]; exact placed) (by rw [body]; omega)
            (children ++ (s.look w rules st u).1.spawned) with
          ⟨more, st', s', ran, rest⟩ | ⟨more, d, s', ran, rest⟩
        · exact .inl ⟨_, st', s', by rw [ran, List.append_assoc], rest.after goes inside⟩
        · exact .inr ⟨_, d, s', by rw [ran, List.append_assoc], rest.after goes⟩
      · rw [scanFrom_suspended found stops.suspension]
        exact .inr ⟨_, _, _, rfl, stops.suspends inside⟩

/-- Going on with a scan. -/
theorem scan_spec (s : SlicerState) (rules : List CallRule)
    (known : w.body? st.criterion.caller = some st.body) (placed : st.body.Placed) :
    (∃ more st' s', s.scan w rules st = (more, .complete st', s') ∧ s.Completes w st more st' s') ∨
    ∃ more d s', s.scan w rules st = (more, .suspended d, s') ∧ s.Suspends w st more d s' :=
  scanFrom_spec (st.body.size + 1) known placed (by omega) []

/-- More fuel than a scan needs changes nothing. -/
theorem scanFrom_add (extra : Nat) (fuel : Nat) (known : w.body? st.criterion.caller = some st.body)
    (placed : st.body.Placed) (enough : st.body.size < fuel + st.next) (children : List Criterion) :
    scanFrom w rules (fuel + extra) s st children = scanFrom w rules fuel s st children := by
  induction fuel generalizing s st children with
  | zero =>
    have top : st.body.reversed[st.next]? = none := by
      rw [List.getElem?_eq_none_iff, Body.length_reversed]
      omega
    rw [scanFrom_top top, scanFrom_top top]
  | succ fuel ih =>
    cases found : st.body.reversed[st.next]? with
    | none => rw [scanFrom_top found, scanFrom_top found]
    | some u =>
      rw [Nat.succ_add]
      rcases look_spec s rules known placed found with goes | ⟨d, stops⟩
      · obtain ⟨criterion, body, further, _⟩ := goes.onward u
        rw [scanFrom_onward found goes.free, scanFrom_onward found goes.free]
        exact ih (by rw [criterion, body, known]) (by rw [body]; exact placed) (by rw [body]; omega) _
      · rw [scanFrom_suspended found stops.suspension, scanFrom_suspended found stops.suspension]

end SlicerState

end MisuseSlice
