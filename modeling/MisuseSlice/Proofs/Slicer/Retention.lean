import MisuseSlice.Proofs.Body.Flow
import MisuseSlice.Proofs.Slicer.Scans

/-! Which definitions a scan retains. A scan goes up the body as it is written, not along the paths that
control takes: a value of interest stays one until the scan meets a statement that overwrites it, and the
first definition above is retained. At the end of a case of a switch the scan goes on at the switch, and
the cases between are left out. -/
namespace MisuseSlice

namespace Statement

/-- Above the statement a scan has no interest in the name: the statement defines it, or copies an array
into it. -/
def Overwrites (rules : List CallRule) (u : Statement) (name : String) : Prop :=
  (u.kind.definesLocal = true ∧ u.left.text = name) ∨
    (u.kind.isInvoke = true ∧ (CallRule.find? rules u.signature).any (·.effect == .copyArray) = true ∧
      (u.arg 2).text = name)

instance (rules : List CallRule) (u : Statement) (name : String) : Decidable (u.Overwrites rules name) :=
  inferInstanceAs (Decidable (_ ∨ _))

end Statement

namespace CallFlow

variable {rules : List CallRule} {f : CallFlow} {name : String}

/-- The general rule gives up the result of a call only. -/
theorem general_keeps (clear : ¬f.call.Overwrites rules name) (tracked : name ∈ f.targets) :
    name ∈ f.general.2 := by
  unfold general
  dsimp only
  split
  · rename_i result
    have defines : f.call.kind.definesLocal = true := by
      rw [beq_iff_eq] at result
      simp [result, Kind.definesLocal]
    have other : name ≠ f.call.left.text := fun same => clear (.inl ⟨defines, same.symm⟩)
    split
    · simp [other, tracked]
    · dsimp only
      split <;> split <;> simp [other, tracked]
  · split <;> simp [tracked]

/-- A rule for known methods gives up the array that is copied into only. -/
theorem effect_keeps {r : CallRule} {result : CallOutcome × ValueSet} (kind : f.call.kind.isInvoke = true)
    (clear : ¬f.call.Overwrites rules name) (found : CallRule.find? rules f.call.signature = some r)
    (applied : r.effect.apply f = some result) (tracked : name ∈ f.targets) : name ∈ result.2 := by
  unfold CallEffect.apply at applied
  split at applied
  case h_6 effect =>
    have other : name ≠ (f.call.arg 2).text :=
      fun same => clear (.inr ⟨kind, by simp [found, effect], same.symm⟩)
    dsimp only at applied
    split at applied
    · cases applied
      simp [withArgs, other, tracked]
    · cases applied
      exact tracked
  case h_4 =>
    split at applied
    · cases applied
      simp [withArgs, tracked]
    · cases applied
  case h_5 =>
    split at applied
    · cases applied
    · cases applied
      simp [withArgs, tracked]
  all_goals
    cases applied
    simp [withArgs, tracked]

/-- A call gives up a value of interest only if it overwrites it. -/
theorem apply_keeps (f : CallFlow) (kind : f.call.kind.isInvoke = true) (clear : ¬f.call.Overwrites rules name)
    (tracked : name ∈ f.targets) : name ∈ (f.apply rules).2 := by
  unfold apply
  split
  · simp [withArgs, tracked]
  · split
    · rename_i result applied
      obtain ⟨r, found, here⟩ := Option.bind_eq_some_iff.mp applied
      exact effect_keeps kind clear found here tracked
    · exact general_keeps clear tracked

end CallFlow

namespace Scan

variable {w : Workspace} {rules : List CallRule} {st st' : Scan} {u : Statement} {name : String}

theorem atPlain_keeps (retained : st.atPlain u = some st') (clear : ¬u.Overwrites rules name)
    (tracked : name ∈ st.targets) : name ∈ st'.targets := by
  have other : u.kind.definesLocal = true → name ≠ u.left.text :=
    fun defines same => clear (.inl ⟨defines, same.symm⟩)
  unfold atPlain at retained
  split at retained
  case h_1 =>
    cases retained
    exact tracked
  case h_4 kind | h_5 kind | h_6 kind =>
    split at retained
    · cases retained
      simp [other (by simp [kind, Kind.definesLocal]), tracked]
    · cases retained
  case h_2 kind | h_3 kind | h_7 kind | h_8 kind | h_9 kind | h_10 kind | h_11 kind | h_12 kind =>
    cases retained
    simp [other (by simp [kind, Kind.definesLocal]), tracked]
  case h_13 =>
    cases retained
    simp [tracked]
  case h_14 =>
    cases retained
    exact tracked

/-- The scan follows a name at a statement: the name is still of interest, and the scan does not go past
the position `d`. -/
structure Follows (name : String) (d : Nat) (st : Scan) : Prop where
  tracked : name ∈ st.targets
  below : (st.next : Int) ≤ st.body.mirror d

/-- A jump at the end of a case goes past a position that stands between the switch and the jump. -/
def Skips (info : CallInfo) (caller : String) (u : Statement) (d : Nat) : Prop :=
  u.kind = .goto ∧ ∃ p, info.switchAt? caller (u.pos + 1) = some p ∧ p < d

theorem Moves.follows {d : Nat} (moves : st.Moves w rules u st') (clear : ¬u.Overwrites rules name)
    (stays : ¬Skips w.info st.criterion.caller u d) (follows : st.Follows name d) : st'.Follows name d := by
  obtain ⟨tracked, below⟩ := follows
  cases moves with
  | branch _ retained =>
    unfold atIf at retained
    split at retained
    · split at retained
      · cases retained
        exact ⟨by simp [tracked], below⟩
      · cases retained
    · split at retained
      · cases retained
      · cases retained
        exact ⟨by simp [tracked], below⟩
  | jump kind retained =>
    unfold atJump at retained
    dsimp only at retained
    split at retained
    · cases retained
    · split at retained
      · rename_i p switch
        cases retained
        split
        · have after : d ≤ p := by
            by_contra before
            exact stays ⟨kind, p, switch, by omega⟩
          refine ⟨tracked, ?_⟩
          simp only [Body.mirror] at below ⊢
          omega
        · exact ⟨tracked, below⟩
      · cases retained
        exact ⟨tracked, below⟩
  | switch => exact ⟨tracked, below⟩
  | plain _ retained =>
    have kept := atPlain_keeps retained clear tracked
    obtain ⟨targets, params, rfl⟩ := atPlain_frame retained
    exact ⟨kept, below⟩
  | call kind flow =>
    have kept := CallFlow.apply_keeps
      { call := u, seed := st.criterion, targets := st.targets, isDevClass := w.program.isDevClass
        isTrackedType := w.settings.isTrackedType } kind clear tracked
    rw [flow] at kept
    exact ⟨kept, below⟩

end Scan

/-- No argument that the call added has the name. -/
def Suspension.Spares (d : Suspension) (name : String) : Prop := ∀ a ∈ d.added, a.2.text ≠ name

/-- Giving up added arguments spares the other names. -/
theorem Suspension.Spares.narrow {d : Suspension} {name : String} (spares : d.Spares name)
    (tracked : name ∈ d.scan.targets) : name ∈ d.narrow.targets := by
  have fold : ∀ (lost : List (Int × Value)) (ts : ValueSet), (∀ a ∈ lost, a.2.text ≠ name) → name ∈ ts →
      name ∈ lost.foldl (fun ts a => ts.erase a.2) ts := by
    intro lost
    induction lost with
    | nil => exact fun _ _ here => here
    | cons a lost ih =>
      intro ts others here
      refine ih _ (fun b later => others b (List.mem_cons_of_mem _ later)) ?_
      exact ValueSet.mem_erase.mpr ⟨(others a List.mem_cons_self).symm, here⟩
  exact fold _ _ (fun a lost => spares a (List.mem_filter.mp lost).1) tracked

namespace SlicerState

variable {s : SlicerState} {w : Workspace} {rules : List CallRule} {st : Scan} {v : Statement} {name : String}
  {d : Nat}

theorem argsAdded_spares {before after : ValueSet} {sus : Suspension} (tracked : name ∈ before)
    (added : sus.added = argsAdded before after v) : sus.Spares name := by
  rintro ⟨i, a⟩ member same
  rw [added] at member
  obtain ⟨_, new⟩ := List.mem_filter.mp member
  simp only [Bool.and_eq_true, Bool.not_eq_true', ValueSet.contains_eq_false_iff] at new
  exact new.1 (same ▸ tracked)

/-- A visit of a statement that does not overwrite the name lets the scan follow it, also when it is
suspended. -/
theorem visit_follows (s : SlicerState) (st : Scan) (d : Nat) (clear : ¬v.Overwrites rules name)
    (stays : ¬Scan.Skips w.info st.criterion.caller v d) (follows : st.Follows name d) :
    (∀ st', (s.visit w rules st v).1.retained = some st' → st'.Follows name d) ∧
      ∀ sus, (s.visit w rules st v).1.suspension = some sus → sus.scan.Follows name d ∧ sus.Spares name := by
  have visited := visit_visited s w rules st v
  generalize s.visit w rules st v = result at visited ⊢
  obtain ⟨tracked, below⟩ := follows
  cases visited with
  | passed => simp
  | retained moves =>
    refine ⟨?_, by simp⟩
    rintro st' ⟨⟩
    exact moves.follows clear stays ⟨tracked, below⟩
  | ascended kind =>
    refine ⟨?_, by simp⟩
    rintro st' ⟨⟩
    have other : name ≠ v.left.text := fun same => clear (.inl ⟨by simp [kind, Kind.definesLocal], same.symm⟩)
    exact ⟨by simp [other, tracked], below⟩
  | @descended ts kind flow =>
    have kept := CallFlow.apply_keeps
      { call := v, seed := st.criterion, targets := st.targets, isDevClass := w.program.isDevClass
        isTrackedType := w.settings.isTrackedType } kind clear tracked
    rw [flow] at kept
    have descended := descend_descended s w { st with targets := ts } v st.targets
    generalize s.descend w { st with targets := ts } v st.targets = result at descended ⊢
    cases descended with
    | ignored =>
      refine ⟨?_, by simp⟩
      rintro st' ⟨⟩
      exact ⟨kept, below⟩
    | @narrowed sus _ _ scan added =>
      refine ⟨?_, by simp⟩
      rintro st' ⟨⟩
      have here : name ∈ sus.narrow.targets := (argsAdded_spares tracked added).narrow (scan ▸ kept)
      refine ⟨here, ?_⟩
      show (sus.scan.next : Int) ≤ sus.scan.body.mirror d
      rw [scan]
      exact below
    | @suspended sus _ _ _ _ awaits _ =>
      constructor
      · rintro st' ⟨⟩
        exact ⟨kept, below⟩
      · rintro sus' ⟨⟩
        exact ⟨awaits.scan ▸ ⟨kept, below⟩, argsAdded_spares tracked awaits.added⟩

end SlicerState

namespace Statement

/-- The statement assigns a constant to the name, or a copy. -/
structure Assigns (u : Statement) (name : String) : Prop where
  kind : u.kind = .assignVariableConstant ∨ u.kind = .assignVariableVariable
  left : u.left.IsName
  named : u.left.text = name

instance (u : Statement) (name : String) : Decidable (u.Assigns name) :=
  decidable_of_iff ((u.kind = .assignVariableConstant ∨ u.kind = .assignVariableVariable) ∧ u.left.IsName ∧
      u.left.text = name)
    ⟨fun ⟨kind, left, named⟩ => ⟨kind, left, named⟩, fun ⟨kind, left, named⟩ => ⟨kind, left, named⟩⟩

end Statement

/-- A definition that a scan of a criterion may come to, with nothing in the way: below it and above the seed
no statement overwrites the name, and no jump goes past it. -/
structure Exposed (w : Workspace) (rules : List CallRule) (c : Criterion) (b : Body) (u : Statement) (d : Nat)
    (name : String) : Prop where
  definition : b.whole[d]? = some u
  assigns : u.Assigns name
  above : d < c.pos
  clear : ∀ q v, d < q → q < c.pos → b.whole[q]? = some v → ¬v.Overwrites rules name
  stays : ∀ q v, d < q → q < c.pos → b.whole[q]? = some v → ¬Scan.Skips w.info c.caller v d

namespace SlicerState

variable {s : SlicerState} {w : Workspace} {rules : List CallRule} {st : Scan} {c : Criterion} {b : Body}
  {u : Statement} {name : String} {d : Nat}

/-- The scan of the criterion retained the definition, or follows the name up to it. -/
structure Holds (c : Criterion) (b : Body) (u : Statement) (name : String) (d : Nat) (st : Scan) : Prop where
  criterion : st.criterion = c
  body : st.body = b
  begun : c.start < st.next
  held : ⟨c.caller, u⟩ ∈ st.lines ∨ st.Follows name d

/-- The definition is retained when the scan comes to it. -/
theorem visit_assigns (s : SlicerState) (w : Workspace) (rules : List CallRule) (st : Scan) (assigns : u.Assigns name)
    (tracked : name ∈ st.targets) :
    ∃ targets, s.visit w rules st u = ({ retained := some { st with targets } }, s) := by
  obtain ⟨kind, left, rfl⟩ := assigns
  have touched : st.touches u.operands = true := by
    refine Scan.touches_iff.mpr ⟨u.left, ?_, left.2, left.not_numeric, tracked⟩
    refine List.mem_filter.mpr ⟨?_, by simp [Value.isAbsent, left.2]⟩
    simp only [List.mem_append]
    refine .inl (.inl (.inl ?_))
    split <;> simp
  rcases kind with kind | kind
  · exact ⟨st.targets.erase u.left, by simp [visit, kind, touched, Scan.atPlain, tracked, Scan.untrack]⟩
  · exact ⟨CallFlow.track (st.targets.erase u.left) [u.right],
      by simp [visit, kind, touched, Scan.atPlain, Scan.untrack, Scan.track]⟩

/-- A scan that follows the name comes to the definition and retains it, or to a statement below the definition and
follows the name past it, also when it is suspended there. -/
theorem look_follows (s : SlicerState) (exposed : Exposed w rules st.criterion st.body u d name)
    (seeded : st.criterion.SeededIn st.body) (placed : st.body.Placed) {v : Statement}
    (found : st.body.reversed[st.next]? = some v) (begun : st.criterion.start < st.next)
    (follows : st.Follows name d) :
    (v = u ∧ ∃ targets, (s.look w rules st v).1 = { retained := some { st with next := st.next + 1, targets } }) ∨
      (({ st with next := st.next + 1 } : Scan).Follows name d ∧
        (∀ st', (s.look w rules st v).1.retained = some st' → st'.Follows name d) ∧
        ∀ sus, (s.look w rules st v).1.suspension = some sus → sus.scan.Follows name d ∧ sus.Spares name) := by
  obtain ⟨_, here⟩ := place_of_next placed found
  have whole : st.body.whole[v.pos]? = some v := by
    rw [Body.reversed_getElem? (by omega), show st.body.size - 1 - st.next = v.pos from by omega] at found
    exact found
  have low : v.pos < st.criterion.pos := by
    have start := seeded.mirrored
    have inside := seeded.inside
    simp only [Body.mirror] at start
    omega
  obtain ⟨tracked, below⟩ := follows
  simp only [Body.mirror] at below
  rcases Nat.lt_trichotomy d v.pos with under | rfl | above
  · have further : ({ st with next := st.next + 1 } : Scan).Follows name d :=
      ⟨tracked, by simp only [Body.mirror]; omega⟩
    exact .inr ⟨further, visit_follows s { st with next := st.next + 1 } d (exposed.clear v.pos v under low whole)
      (exposed.stays v.pos v under low whole) further⟩
  · obtain rfl : v = u := Option.some.inj (whole.symm.trans exposed.definition)
    obtain ⟨targets, visited⟩ := visit_assigns s w rules { st with next := st.next + 1 } exposed.assigns tracked
    exact .inl ⟨rfl, targets, by simp only [look, visited]⟩
  · omega

/-- The scan after a statement that was retained holds on to the definition, if a line for it is there by then or the
name is still followed. -/
theorem Holds.settle {st' : Scan} {v : Statement} {visit : Visit} (begun : st.criterion.start < st.next)
    (advances : ({ st with next := st.next + 1 } : Scan).Advances st')
    (held : ⟨st.criterion.caller, u⟩ ∈ (visit.settle v st').lines ∨ st'.Follows name d) :
    Holds st.criterion st.body u name d (visit.settle v st') := by
  obtain ⟨⟨next, targets, jumps, params, rfl⟩, grows⟩ := advances
  refine ⟨rfl, rfl, ?_, held.imp_right fun ⟨tracked, below⟩ => ⟨tracked, below⟩⟩
  dsimp only at grows
  simp only [Visit.settle, Scan.retain]
  omega

/-- A visit keeps what was retained, or lets the scan follow the name, or retains the definition. -/
theorem look_holds (s : SlicerState) (exposed : Exposed w rules c b u d name) (seeded : c.SeededIn b)
    (known : w.body? c.caller = some b) (placed : b.Placed) {v : Statement}
    (found : b.reversed[st.next]? = some v) (holds : Holds c b u name d st) :
    ((s.look w rules st v).1.suspension = none →
      Holds c b u name d ((s.look w rules st v).1.onward v { st with next := st.next + 1 })) ∧
    ∀ sus, (s.look w rules st v).1.suspension = some sus →
      Holds c b u name d ((s.look w rules st v).1.settle v sus.scan) ∧
        (⟨c.caller, u⟩ ∈ ((s.look w rules st v).1.settle v sus.scan).lines ∨ sus.Spares name) := by
  obtain ⟨rfl, rfl, begun, held⟩ := holds
  have lines : ∀ st' : Scan, ({ st with next := st.next + 1 } : Scan).Advances st' →
      ((s.look w rules st v).1.settle v st').lines = ⟨st.criterion.caller, v⟩ :: st.lines := by
    rintro st' ⟨⟨next, targets, jumps, params, rfl⟩, _⟩
    rfl
  have follows := look_follows s exposed seeded placed found begun
  rcases look_spec s rules known placed found with goes | ⟨sus', stops⟩
  · refine ⟨fun _ => ?_, by simp [goes.free]⟩
    unfold Visit.onward
    cases retained : (s.look w rules st v).1.retained with
    | none =>
      refine ⟨rfl, rfl, by dsimp only; omega, held.imp_right fun following => ?_⟩
      rcases follows following with ⟨_, _, visited⟩ | ⟨later, _⟩
      · rw [visited] at retained
        cases retained
      · exact later
    | some st' =>
      have advances := goes.advances st' retained
      refine Holds.settle begun advances ?_
      rw [lines st' advances]
      rcases held with old | following
      · exact .inl (List.mem_cons_of_mem _ old)
      · rcases follows following with ⟨rfl, _⟩ | ⟨_, kept, _⟩
        · exact .inl List.mem_cons_self
        · exact .inr (kept st' retained)
  · refine ⟨by simp [stops.suspension], ?_⟩
    intro sus suspended
    obtain rfl := Option.some.inj (stops.suspension.symm.trans suspended)
    have settled : _ → Holds st.criterion st.body u name d ((s.look w rules st v).1.settle v sus'.scan) :=
      Holds.settle begun stops.advances
    rw [lines sus'.scan stops.advances] at settled ⊢
    rcases held with old | following
    · have kept := List.mem_cons_of_mem (⟨st.criterion.caller, v⟩ : SliceLine) old
      exact ⟨settled (.inl kept), .inl kept⟩
    · rcases follows following with ⟨_, _, visited⟩ | ⟨_, _, suspends⟩
      · rw [visited] at suspended
        cases suspended
      · obtain ⟨later, spares⟩ := suspends sus' suspended
        exact ⟨settled (.inr later), .inr spares⟩

/-- At the top of the body the definition is retained. -/
theorem Holds.top (holds : Holds c b u name d st) (exposed : Exposed w rules c b u d name)
    (seeded : c.SeededIn b) (past : b.size ≤ st.next) : ⟨c.caller, u⟩ ∈ st.lines := by
  refine holds.held.resolve_right fun following => ?_
  have below := following.below
  have above := exposed.above
  have inside := seeded.inside
  rw [holds.body, Body.mirror] at below
  omega

/-- A scan that holds on to a definition gives a line for it, or is suspended and holds on. -/
theorem scanFrom_holds (exposed : Exposed w rules c b u d name) (seeded : c.SeededIn b)
    (known : w.body? c.caller = some b) (placed : b.Placed) (fuel : Nat) (children : List Criterion)
    (holds : Holds c b u name d st) (enough : b.size < fuel + st.next) :
    match (scanFrom w rules fuel s st children).2.1 with
    | .complete last => ⟨c.caller, u⟩ ∈ last.lines
    | .suspended sus => Holds c b u name d sus.scan ∧ (⟨c.caller, u⟩ ∈ sus.scan.lines ∨ sus.Spares name) := by
  induction fuel generalizing s st children with
  | zero =>
    have past : b.size ≤ st.next := by omega
    have none : st.body.reversed[st.next]? = none := by
      rw [List.getElem?_eq_none_iff, Body.length_reversed, holds.body]
      exact past
    rw [scanFrom_top none]
    exact holds.top exposed seeded past
  | succ fuel ih =>
    cases found : st.body.reversed[st.next]? with
    | none =>
      rw [scanFrom_top found]
      rw [List.getElem?_eq_none_iff, Body.length_reversed, holds.body] at found
      exact holds.top exposed seeded found
    | some v =>
      have looked := look_holds s exposed seeded known placed (holds.body ▸ found) holds
      have known' : w.body? st.criterion.caller = some st.body := by rw [holds.criterion, holds.body]; exact known
      rcases look_spec s rules known' (holds.body ▸ placed) found with goes | ⟨sus, stops⟩
      · rw [scanFrom_onward found goes.free]
        have further := (goes.onward v).2.2.1
        exact ih _ (looked.1 goes.free) (by omega)
      · rw [scanFrom_suspended found stops.suspension]
        exact looked.2 sus stops.suspension

end SlicerState

/-- The scans of a criterion: the one that starts at the seed, and those that go on after a suspension, when
some positions of arguments matter. -/
inductive Scan.Reached (w : Workspace) (rules : List CallRule) (c : Criterion) (b : Body) : Scan → Prop where
  | start : Reached w rules c b (.start c b)
  | resumed {s s' : SlicerState} {st : Scan} {more : List Criterion} {sus : Suspension}
      (reached : Reached w rules c b st) (ran : s.scan w rules st = (more, .suspended sus, s'))
      (keep : List Int) : Reached w rules c b ({ sus with keep } : Suspension).narrow

namespace SlicerState

variable {w : Workspace} {rules : List CallRule} {st : Scan} {c : Criterion} {b : Body} {u : Statement}
  {name : String} {d : Nat}

theorem start_holds (exposed : Exposed w rules c b u d name) (seeded : c.SeededIn b)
    (tracked : ∃ v ∈ c.targets, v.IsName ∧ v.text = name) : Holds c b u name d (.start c b) := by
  obtain ⟨v, target, isName, rfl⟩ := tracked
  have above := exposed.above
  have inside := seeded.inside
  have mirrored := seeded.mirrored
  simp only [Body.mirror] at mirrored
  refine ⟨rfl, rfl, ?_, .inr ⟨?_, ?_⟩⟩
  · simp only [Scan.start, Scan.track]
    omega
  · exact Scan.mem_targets_track.mpr (.inl ⟨v, target, isName.not_constant, isName.2, rfl⟩)
  · simp only [Scan.start, Scan.track, Body.mirror]
    omega

theorem reached_holds (exposed : Exposed w rules c b u d name) (seeded : c.SeededIn b)
    (known : w.body? c.caller = some b) (placed : b.Placed)
    (tracked : ∃ v ∈ c.targets, v.IsName ∧ v.text = name) (reached : st.Reached w rules c b) :
    Holds c b u name d st := by
  induction reached with
  | start => exact start_holds exposed seeded tracked
  | @resumed s s' st more sus _ ran keep ih =>
    have scanned := scanFrom_holds (s := s) exposed seeded known placed (st.body.size + 1) [] ih
      (by rw [ih.body]; omega)
    rw [show scanFrom w rules (st.body.size + 1) s st [] = (more, .suspended sus, s') from ran] at scanned
    obtain ⟨⟨criterion, body, begun, held⟩, kept⟩ := scanned
    refine ⟨criterion, body, begun, ?_⟩
    rcases kept with line | spares
    · exact .inl line
    · refine held.imp_right fun following => ⟨?_, following.below⟩
      exact Suspension.Spares.narrow (d := { sus with keep }) spares following.tracked

/-- A scan retains a definition of a value of interest by a constant or a copy if the definition can run, no
statement between it and the seed overwrites the value, and no case of a switch that ends between them starts
above it. However often the scan is suspended and with whatever arguments it goes on, it stands further up
each time, and when it is complete it has a line for the definition. -/
theorem scan_retains_definition {p : Program} {settings : Settings} {live : Bool} (rules : List CallRule)
    {c : Criterion} {b : Body} {x : Value} {u : Statement} {d : Nat}
    (found : (Workspace.ofProgram p settings live).body? c.caller = some b) (seeded : c.SeededIn b)
    (target : x ∈ c.targets) (isName : x.IsName)
    (exposed : Exposed (.ofProgram p settings live) rules c b u d x.text)
    {st : Scan} (reached : st.Reached (.ofProgram p settings live) rules c b) (s : SlicerState) :
    match (s.scan (.ofProgram p settings live) rules st).2.1 with
    | .complete last => ⟨c.caller, u⟩ ∈ last.lines
    | .suspended sus => st.next < sus.scan.next ∧ sus.scan.next ≤ b.size := by
  have placed : b.Placed := (Workspace.body?_prepared found).placed
  generalize Workspace.ofProgram p settings live = w at found exposed reached ⊢
  have holds := reached_holds exposed seeded found placed ⟨x, target, isName, rfl⟩ reached
  have scanned := scanFrom_holds (s := s) exposed seeded found placed (st.body.size + 1) [] holds
    (by rw [holds.body]; omega)
  have known : w.body? st.criterion.caller = some st.body := by rw [holds.criterion, holds.body]; exact found
  rcases scan_spec s rules known (by rw [holds.body]; exact placed) with
    ⟨more, last, s', ran, _⟩ | ⟨more, sus, s', ran, suspends⟩
  · rw [show scanFrom w rules (st.body.size + 1) s st [] = (more, .complete last, s') from ran] at scanned
    rw [ran]
    exact scanned
  · rw [ran]
    exact ⟨suspends.further, holds.body ▸ suspends.inside⟩

/-- The positions that a scan retained, if it is complete. -/
def retained? : ScanEnd → Option (List Nat)
  | .complete last => some (last.lines.map (·.statement.pos))
  | .suspended _ => none

/-- A method with the statements. -/
private def encrypting (units : List Statement) : Program :=
  (Program.finalize
    { package := "a"
      classes := [some { name := "a.B", methods := [
        some { signature := "<a.B: void m(int)>", isStatic := true, units := units.map some }] }] }).1

private def encrypts (arg : String) : Statement := .call "" "<lib.X: void x(java.lang.Object)>" [arg]

/-- The mode is chosen by an `if` alone, above another one. -/
private def guarding : Program := encrypting
  [.param "i0" 0 "int", .branch "i0" "==" "0" 3, .assign "$r1" "\"ECB\"", .branch "i0" "==" "1" 5,
    .assign "i2" "7", encrypts "$r1", .retVoid]

private def guardingCriterion : Criterion :=
  { caller := "<a.B: void m(int)>", target := "<lib.X: void x(java.lang.Object)>"
    kind := .invoke, statement := "staticinvoke <lib.X: void x(java.lang.Object)>($r1)"
    start := 1, pos := 5, positions := [0], targets := [.read "$r1"], level := 0 }

set_option maxRecDepth 100000 in
/-- The body opens with the call as the seed; the mode is defined above it, nothing between overwrites it or jumps, and
the scan is complete. -/
private theorem guarding_facts :
    ∃ b ∈ (Workspace.ofProgram guarding {} true).body? guardingCriterion.caller,
      (guardingCriterion.pos < b.size ∧ guardingCriterion.start = b.mirror guardingCriterion.pos) ∧
      (∃ u ∈ b.whole[2]?, u.Assigns "$r1") ∧
      (∀ q ∈ List.range 5, 2 < q → ∀ v ∈ b.whole[q]?,
        ¬v.Overwrites CallRule.standard "$r1" ∧ v.kind ≠ .goto) ∧
      (retained? (({} : SlicerState).scan (.ofProgram guarding {} true) CallRule.standard
        (.start guardingCriterion b)).2.1).isSome = true := by
  decide +kernel

set_option maxRecDepth 100000 in
/-- A mode that is chosen under an `if` is in the slice of the call. -/
theorem guarding_definition_retained :
    ∃ b u last, (Workspace.ofProgram guarding {} true).body? guardingCriterion.caller = some b ∧
      b.whole[2]? = some u ∧
      (({} : SlicerState).scan (.ofProgram guarding {} true) CallRule.standard
        (.start guardingCriterion b)).2.1 = .complete last ∧
      ⟨guardingCriterion.caller, u⟩ ∈ last.lines := by
  obtain ⟨b, found, ⟨inside, mirrored⟩, ⟨u, definition, assigns⟩, clear, completes⟩ := guarding_facts
  have between : ∀ q v, 2 < q → q < 5 → b.whole[q]? = some v →
      ¬v.Overwrites CallRule.standard "$r1" ∧ v.kind ≠ .goto :=
    fun q v after before here => clear q (List.mem_range.mpr before) after v here
  have exposed : Exposed (.ofProgram guarding {} true) CallRule.standard guardingCriterion b u 2 "$r1" :=
    ⟨definition, assigns, by decide, fun q v after before here => (between q v after before here).1,
      fun q v after before here skips => (between q v after before here).2 skips.1⟩
  have retains := scan_retains_definition CallRule.standard found ⟨inside, mirrored⟩
    (x := .read "$r1") (by decide +kernel) (by decide +kernel) exposed .start {}
  cases ran : (({} : SlicerState).scan (.ofProgram guarding {} true) CallRule.standard
      (.start guardingCriterion b)).2.1 with
  | complete last =>
    rw [ran] at retains
    exact ⟨b, u, last, found, definition, ran, retains⟩
  | suspended sus =>
    rw [ran] at completes
    cases completes

/-- The mode is chosen by an `if` with an `else`. -/
private def branching : Program := encrypting
  [.param "i0" 0 "int", .branch "i0" "==" "0" 4, .assign "$r1" "\"ECB\"", .jump 5, .assign "$r1" "\"GCM\"",
    encrypts "$r1", .retVoid]

/-- The mode is chosen in a case that leaves the switch, or goes on in the next case. -/
private def switching : Program := encrypting
  [.param "i0" 0 "int", .switchOn "i0" [2, 5], .assign "$r1" "\"ECB\"", .branch "i0" "==" "0" 5, .jump 6,
    encrypts "$r1", .retVoid]

/-- A part of a buffer is overwritten by way of a copy. -/
private def copying : Program := encrypting
  [.param "i0" 0 "int", .newArray "r0" "byte" "i0", .newArray "r1" "byte" "i0", .assign "r2" "r0",
    .call "" "<java.lang.System: void arraycopy(java.lang.Object,int,java.lang.Object,int,int)>"
      ["r1", "0", "r2", "0", "8"],
    encrypts "r2", .retVoid]

/-- In a body without backward branches, a definition of a value of interest by a constant or a copy reaches
the seed along the path, and nothing else on the path defines the value. -/
def ReachesSeed (b : Body) (c : Criterion) (name : String) (path : List Nat) : Prop :=
  (∀ u ∈ b.whole, u.IsForward) ∧ IsPath b.whole path ∧ path.getLast? = some c.pos ∧ .read name ∈ c.targets ∧
    (∃ u ∈ path.head?.bind (b.whole[·]?), u.Assigns name) ∧
    ∀ q ∈ path.tail, ∀ u ∈ b.whole[q]?, u.defined.text ≠ name

instance (b : Body) (c : Criterion) (name : String) (path : List Nat) : Decidable (ReachesSeed b c name path) :=
  inferInstanceAs (Decidable (_ ∧ _ ∧ _ ∧ _ ∧ _ ∧ _))

/-- A definition reaches the call of the method along the path, and the scan of the call retains the lines. -/
private def Retains (p : Program) (name : String) (path lines : List Nat) : Prop :=
  ∃ b ∈ (Workspace.ofProgram p {} true).body? "<a.B: void m(int)>",
    ∃ c ∈ Criterion.created (.ofProgram p {} true) "<a.B: void m(int)>" "<lib.X: void x(java.lang.Object)>"
        .invoke [0] 0,
      ReachesSeed b c name path ∧
        retained? (({} : SlicerState).scan (.ofProgram p {} true) CallRule.standard (.start c b)).2.1 = some lines

private instance (p : Program) (name : String) (path lines : List Nat) : Decidable (Retains p name path lines) :=
  inferInstanceAs (Decidable (∃ b ∈ (Workspace.ofProgram p {} true).body? "<a.B: void m(int)>", ∃ c ∈ _, _ ∧ _))

set_option maxRecDepth 100000 in
/-- The definition at the start of a path can be lost: above the other branch of an `if`, in a case that the scan
goes past, and above an array copy. -/
theorem reaching_definition_lost :
    Retains branching "$r1" [2, 3, 5] [0, 1, 3, 4] ∧ Retains switching "$r1" [2, 3, 5] [1, 4] ∧
      Retains copying "r2" [3, 4, 5] [0, 2, 4] := by
  decide +kernel

end SlicerState

end MisuseSlice
