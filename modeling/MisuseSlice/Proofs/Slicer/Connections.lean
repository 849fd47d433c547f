import MisuseSlice.Proofs.Body.Relevance
import MisuseSlice.Proofs.Slicer.Ascents
import MisuseSlice.Proofs.Slicer.Descents
import MisuseSlice.Proofs.Slicer.Retention

/-! How the lines of a scan hang together. A statement adds to the values of interest none but its own operands, so each
of them stands in the seed or in a line below; a line that is no jump was retained for such a value, and joins lead to
it from the seed or from a jump. Suspensions only take values away. -/
namespace MisuseSlice

open Relevance

namespace CallFlow

variable {rules : List CallRule} {f : CallFlow} {name : String}

/-- What is tracked anew is an operand of the call. -/
theorem mem_track_operands {ts : ValueSet} {vs : List Value} (operands : ∀ v ∈ vs, v.text ≠ "" → v ∈ f.call.operands)
    (tracked : name ∈ track ts vs) : name ∈ ts ∨ name ∈ operandNames f.call := by
  rcases mem_track.mp tracked with ⟨v, given, noConstant, there, rfl⟩ | old
  · exact .inr (mem_operandNames.mpr ⟨v, operands v given there, noConstant, rfl⟩)
  · exact .inl old

end CallFlow

namespace Statement

variable {u : Statement} {v : Value}

theorem mem_operands_of_args (argument : v ∈ u.args) (there : v.text ≠ "") : v ∈ u.operands := by
  simp [operands, argument, Value.isAbsent, there]

theorem base_mem_operands (there : u.base.text ≠ "") : u.base ∈ u.operands := by
  simp [operands, Value.isAbsent, there]

theorem right_mem_operands (there : u.right.text ≠ "") : u.right ∈ u.operands := by
  refine List.mem_filter.mpr ⟨?_, by simp [Value.isAbsent, there]⟩
  simp only [List.mem_append]
  refine .inl (.inl (.inr ?_))
  split <;> simp

theorem arg_mem_operands {i : Int} (there : (u.arg i).text ≠ "") : u.arg i ∈ u.operands := by
  rcases u.arg_cases i with (receiver | argument) | absent
  · rw [receiver] at there ⊢
    exact base_mem_operands there
  · exact mem_operands_of_args argument there
  · rw [absent] at there
    exact absurd rfl there

end Statement

namespace CallFlow

variable {rules : List CallRule} {f : CallFlow} {name : String}

theorem withArgs_gains {positions : List Int} (tracked : name ∈ f.withArgs positions) :
    name ∈ f.targets ∨ name ∈ operandNames f.call := by
  refine mem_track_operands (f := f) (fun v given there => ?_) tracked
  obtain ⟨i, _, rfl⟩ := List.mem_map.mp given
  exact Statement.arg_mem_operands there

theorem effect_gains {e : CallEffect} {result : CallOutcome × ValueSet} (applied : e.apply f = some result)
    (tracked : name ∈ result.2) : name ∈ f.targets ∨ name ∈ operandNames f.call := by
  unfold CallEffect.apply at applied
  split at applied
  case h_1 | h_2 =>
    cases applied
    exact .inl tracked
  case h_3 =>
    cases applied
    exact withArgs_gains tracked
  case h_4 | h_5 =>
    split at applied
    · cases applied <;> exact withArgs_gains tracked
    · cases applied <;> exact withArgs_gains tracked
  case h_6 =>
    dsimp only at applied
    split at applied
    · cases applied
      have gains := withArgs_gains (f := { f with targets := f.targets.erase (f.call.arg 2) }) tracked
      exact gains.imp_left fun old => (ValueSet.mem_erase.mp old).2
    · cases applied
      exact .inl tracked

theorem general_gains (tracked : name ∈ f.general.2) : name ∈ f.targets ∨ name ∈ operandNames f.call := by
  have arguments : ∀ v ∈ f.call.args, v.text ≠ "" → v ∈ f.call.operands :=
    fun v => Statement.mem_operands_of_args
  have receiver : ∀ v ∈ [f.call.base], v.text ≠ "" → v ∈ f.call.operands := by
    intro v given there
    rw [List.mem_singleton.mp given] at there ⊢
    exact Statement.base_mem_operands there
  have erased : name ∈ f.targets.erase f.call.left → name ∈ f.targets := fun old => (ValueSet.mem_erase.mp old).2
  -- the arguments are tracked first, and the receiver may follow
  have argsTracked : ∀ {p : Prop} [Decidable p],
      name ∈ (if p then track (f.targets.erase f.call.left) f.call.args else f.targets.erase f.call.left) →
      name ∈ f.targets ∨ name ∈ operandNames f.call := by
    intro p _ here
    split at here
    · exact (mem_track_operands arguments here).imp_left erased
    · exact .inl (erased here)
  unfold general at tracked
  dsimp only at tracked
  split at tracked
  · split at tracked
    · exact .inl (erased tracked)
    · dsimp only at tracked
      split at tracked
      · rcases mem_track_operands receiver tracked with here | new
        · exact argsTracked here
        · exact .inr new
      · exact argsTracked tracked
  · split at tracked
    · exact mem_track_operands arguments tracked
    · exact mem_track_operands receiver tracked

/-- A call makes none but its operands of interest. -/
theorem apply_gains (rules : List CallRule) (f : CallFlow) :
    ∀ name ∈ (f.apply rules).2, name ∈ f.targets ∨ name ∈ operandNames f.call := by
  intro name tracked
  unfold apply at tracked
  split at tracked
  · exact withArgs_gains tracked
  · split at tracked
    · rename_i result applied
      obtain ⟨r, _, here⟩ := Option.bind_eq_some_iff.mp applied
      exact effect_gains here tracked
    · exact general_gains tracked

end CallFlow

namespace Scan

variable {w : Workspace} {rules : List CallRule} {st st' : Scan} {u : Statement} {name : String}

theorem track_gains {vs : List Value} (operands : ∀ v ∈ vs, v.text ≠ "" → v ∈ u.operands)
    (tracked : name ∈ (st.track vs).targets) : name ∈ st.targets ∨ name ∈ operandNames u := by
  rcases mem_targets_track.mp tracked with ⟨v, given, noConstant, there, rfl⟩ | old
  · exact .inr (mem_operandNames.mpr ⟨v, operands v given there, noConstant, rfl⟩)
  · exact .inl old

theorem atPlain_gains (retained : st.atPlain u = some st') (tracked : name ∈ st'.targets) :
    name ∈ st.targets ∨ name ∈ operandNames u := by
  have right : ∀ v ∈ [u.right], v.text ≠ "" → v ∈ u.operands := by
    intro v given there
    rw [List.mem_singleton.mp given] at there ⊢
    exact Statement.right_mem_operands there
  have base : ∀ v ∈ [u.base], v.text ≠ "" → v ∈ u.operands := by
    intro v given there
    rw [List.mem_singleton.mp given] at there ⊢
    exact Statement.base_mem_operands there
  have args : ∀ v ∈ u.args, v.text ≠ "" → v ∈ u.operands := fun v => Statement.mem_operands_of_args
  have dropped : name ∈ (st.untrack u.left).targets → name ∈ st.targets :=
    fun here => (mem_targets_untrack.mp here).2
  unfold atPlain at retained
  split at retained
  case h_1 =>
    cases retained
    exact .inl tracked
  case h_2 | h_3 =>
    cases retained
    exact .inl (dropped tracked)
  case h_4 | h_5 =>
    split at retained
    · cases retained
      exact .inl (dropped tracked)
    · cases retained
  case h_6 =>
    split at retained
    · cases retained
      exact (track_gains right tracked).imp_left dropped
    · cases retained
  case h_7 | h_8 | h_9 | h_10 =>
    cases retained
    exact (track_gains right tracked).imp_left dropped
  case h_11 =>
    cases retained
    exact (track_gains args tracked).imp_left dropped
  case h_12 =>
    cases retained
    exact (track_gains base tracked).imp_left dropped
  case h_13 =>
    cases retained
    exact track_gains right tracked
  case h_14 =>
    cases retained
    exact .inl tracked

/-- A retained statement makes none but its operands of interest. -/
theorem Moves.gains (moves : st.Moves w rules u st') (tracked : name ∈ st'.targets) :
    name ∈ st.targets ∨ name ∈ operandNames u := by
  cases moves with
  | branch kind retained =>
    have compared : ∀ v ∈ u.compared, v.text ≠ "" → v ∈ u.operands := by
      intro v given there
      rw [Statement.compared, kind] at given
      exact Statement.mem_operands_of_args given there
    unfold atIf at retained
    split at retained
    · split at retained
      · cases retained
        exact track_gains compared tracked
      · cases retained
    · split at retained
      · cases retained
      · cases retained
        exact track_gains compared tracked
  | jump _ retained =>
    have same : st'.targets = st.targets := by
      unfold atJump at retained
      dsimp only at retained
      split at retained
      · cases retained
      · split at retained
        · cases retained
          split <;> rfl
        · cases retained
          rfl
    exact .inl (same ▸ tracked)
  | switch => exact .inl tracked
  | plain _ retained => exact atPlain_gains retained tracked
  | call _ flow =>
    have gains := CallFlow.apply_gains rules
      { call := u, seed := st.criterion, targets := st.targets, isDevClass := w.program.isDevClass
        isTrackedType := w.settings.isTrackedType }
    rw [flow] at gains
    exact gains _ tracked

end Scan

namespace SlicerState

variable {s s' : SlicerState} {w : Workspace} {rules : List CallRule} {st st' : Scan} {u : Statement} {name : String}

/-- A visit makes none but the operands of the statement of interest. -/
theorem visit_gains (w : Workspace) (rules : List CallRule) (u : Statement) (s : SlicerState) (st : Scan) :
    (∀ st', (s.visit w rules st u).1.retained = some st' → ∀ name ∈ st'.targets, name ∈ st.targets ∨ name ∈ operandNames u) ∧
      ∀ d, (s.visit w rules st u).1.suspension = some d →
        ∀ name ∈ d.scan.targets, name ∈ st.targets ∨ name ∈ operandNames u := by
  have visited := visit_visited s w rules st u
  generalize s.visit w rules st u = result at visited ⊢
  cases visited with
  | passed => simp
  | retained moves =>
    refine ⟨?_, by simp⟩
    rintro st' ⟨⟩ name tracked
    exact moves.gains tracked
  | ascended kind =>
    refine ⟨?_, by simp⟩
    rintro st' ⟨⟩ name tracked
    exact .inl (Scan.mem_targets_untrack.mp tracked).2
  | @descended ts kind flow =>
    have gains := CallFlow.apply_gains rules
      { call := u, seed := st.criterion, targets := st.targets, isDevClass := w.program.isDevClass
        isTrackedType := w.settings.isTrackedType }
    rw [flow] at gains
    have descended := descend_descended s w { st with targets := ts } u st.targets
    generalize s.descend w { st with targets := ts } u st.targets = result at descended ⊢
    cases descended with
    | ignored =>
      refine ⟨?_, by simp⟩
      rintro st' ⟨⟩ name tracked
      exact gains name tracked
    | @narrowed d _ _ scan _ =>
      refine ⟨?_, by simp⟩
      rintro st' ⟨⟩ name tracked
      have before := (Suspension.mem_narrow.mp tracked).1
      rw [scan] at before
      exact gains name before
    | @suspended d _ _ _ _ awaits _ =>
      constructor
      · rintro st' ⟨⟩ name tracked
        exact gains name tracked
      · rintro d' ⟨⟩ name tracked
        rw [awaits.scan] at tracked
        exact gains name tracked

/-- What is retained or suspends the scan is a jump, or shares a value of interest. -/
theorem visit_touches (w : Workspace) (rules : List CallRule) (u : Statement) (s : SlicerState) (st : Scan)
    (matters : (s.visit w rules st u).1.retained ≠ none ∨ (s.visit w rules st u).1.suspension ≠ none) :
    u.kind.isBranch = true ∨ st.touches u.operands = true := by
  unfold visit at matters
  split at matters
  case h_8 =>
    split at matters
    · simp at matters
    · rename_i touched
      exact .inr (by simpa using touched)
  case h_5 kind | h_6 kind | h_7 kind => exact .inl (by simp [kind, Kind.isBranch])
  all_goals simp at matters

end SlicerState

namespace Scan

/-- The statements that the scan retained. -/
def units (st : Scan) : List Statement := st.lines.map (·.statement)

end Scan

/-- Joins between retained statements lead to the statement, from the seed or from a retained jump. -/
def Anchored (seed : Statement) (retained : List Statement) (u : Statement) : Prop :=
  ∃ a, (a = seed ∨ a ∈ retained ∧ a.kind.isBranch = true) ∧ Relation.TransGen (Leads retained) a u

theorem Anchored.mono {seed u : Statement} {retained more : List Statement} (anchored : Anchored seed retained u)
    (inside : retained ⊆ more) : Anchored seed more u := by
  obtain ⟨a, root, path⟩ := anchored
  exact ⟨a, root.imp_right fun ⟨member, jumps⟩ => ⟨inside member, jumps⟩,
    Relation.TransGen.mono (fun _ _ leads => ⟨inside leads.1, leads.2⟩) _ _ path⟩

/-- The lines of a scan hang together: a value of interest is an operand of the seed or of a line, and every line that is
no jump is anchored. -/
structure Scan.Rooted (b : Body) (seed : Statement) (st : Scan) : Prop where
  inside : ∀ u ∈ st.units, u ∈ b.whole
  targets : ∀ name ∈ st.targets, name ∈ operandNames seed ∨ ∃ u ∈ st.units, name ∈ operandNames u
  anchored : ∀ u ∈ st.units, u.kind.isBranch = false → Anchored seed st.units u

namespace Scan

variable {b : Body} {seed u : Statement} {st st' : Scan}

/-- A statement that shares a value of interest can be retained, and so can a jump. -/
theorem Rooted.retain (inferred : ∀ u ∈ b.whole, u.Inferred) (seedInferred : seed.Inferred) (member : u ∈ b.whole)
    (rooted : st.Rooted b seed) (matters : u.kind.isBranch = true ∨ st.touches u.operands = true)
    (lines : st'.units = u :: st.units) (gains : ∀ name ∈ st'.targets, name ∈ st.targets ∨ name ∈ operandNames u) :
    st'.Rooted b seed := by
  obtain ⟨inside, targets, anchored⟩ := rooted
  refine ⟨?_, fun name tracked => ?_, fun u' retained plain => ?_⟩
  · rw [lines]
    exact List.forall_mem_cons.mpr ⟨member, inside⟩
  · rw [lines]
    rcases gains name tracked with old | new
    · rcases targets name old with first | ⟨u', retained, named⟩
      · exact .inl first
      · exact .inr ⟨u', List.mem_cons_of_mem _ retained, named⟩
    · exact .inr ⟨u, List.mem_cons_self, new⟩
  · rw [lines] at retained ⊢
    rcases List.mem_cons.mp retained with rfl | old
    · obtain ⟨v, operand, _, _, tracked⟩ := touches_iff.mp (matters.resolve_left (by simp [plain]))
      have here := inferred u' member
      rcases targets v.text tracked with first | ⟨u, below, named⟩
      · have shared := mem_operandNames_of_operand here seedInferred operand first
        exact ⟨seed, .inl rfl, .single ⟨List.mem_cons_self, v.text, first, shared⟩⟩
      · have shared := mem_operandNames_of_operand here (inferred u (inside u below)) operand named
        have joined : Leads (u' :: st.units) u u' := ⟨List.mem_cons_self, v.text, named, shared⟩
        by_cases jumps : u.kind.isBranch = true
        · exact ⟨u, .inr ⟨List.mem_cons_of_mem _ below, jumps⟩, .single joined⟩
        · obtain ⟨a, root, path⟩ :=
            (anchored u below (by simpa using jumps)).mono (List.subset_cons_self u' st.units)
          exact ⟨a, root, path.tail joined⟩
    · exact (anchored u' old plain).mono (List.subset_cons_self u st.units)

theorem Rooted.congr (rooted : st.Rooted b seed) (lines : st'.units = st.units)
    (fewer : ∀ name ∈ st'.targets, name ∈ st.targets) : st'.Rooted b seed := by
  obtain ⟨inside, targets, anchored⟩ := rooted
  exact ⟨lines ▸ inside, fun name tracked => lines ▸ targets name (fewer name tracked), lines ▸ anchored⟩

end Scan

namespace SlicerState

variable {s s' : SlicerState} {w : Workspace} {rules : List CallRule} {st st' : Scan} {c : Criterion} {b : Body}
  {seed u : Statement}

/-- The scan of the criterion stands in the body, with its lines rooted in the seed. -/
structure Hangs (c : Criterion) (b : Body) (seed : Statement) (st : Scan) : Prop where
  criterion : st.criterion = c
  body : st.body = b
  rooted : st.Rooted b seed

/-- A visit keeps the lines together, also when it suspends the scan. -/
theorem look_hangs (rules : List CallRule) (inferred : ∀ u ∈ b.whole, u.Inferred) (seedInferred : seed.Inferred)
    (known : w.body? c.caller = some b) (placed : b.Placed) (s : SlicerState) (hangs : Hangs c b seed st)
    (found : st.body.reversed[st.next]? = some u) :
    ((s.look w rules st u).1.suspension = none →
      Hangs c b seed ((s.look w rules st u).1.onward u { st with next := st.next + 1 })) ∧
    ∀ d, (s.look w rules st u).1.suspension = some d → Hangs c b seed ((s.look w rules st u).1.settle u d.scan) := by
  obtain ⟨rfl, rfl, rooted⟩ := hangs
  obtain ⟨member, _⟩ := place_of_next placed found
  have gains := visit_gains w rules u s { st with next := st.next + 1 }
  have touches := visit_touches w rules u s { st with next := st.next + 1 }
  have step : ({ st with next := st.next + 1 } : Scan).Rooted st.body seed := rooted.congr rfl fun _ here => here
  have settle : ∀ st₁ : Scan, ({ st with next := st.next + 1 } : Scan).Advances st₁ →
      (∀ name ∈ st₁.targets, name ∈ st.targets ∨ name ∈ operandNames u) →
      (u.kind.isBranch = true ∨ st.touches u.operands = true) →
      Hangs st.criterion st.body seed ((s.look w rules st u).1.settle u st₁) := by
    rintro st₁ ⟨⟨next, targets, jumps, params, rfl⟩, _⟩ gained matters
    exact ⟨rfl, rfl, step.retain inferred seedInferred member matters rfl gained⟩
  rcases look_spec s rules known placed found with goes | ⟨d, stops⟩
  · refine ⟨fun _ => ?_, by simp [goes.free]⟩
    unfold Visit.onward
    cases retained : (s.look w rules st u).1.retained with
    | none => exact ⟨rfl, rfl, step⟩
    | some st₁ =>
      exact settle st₁ (goes.advances st₁ retained) (gains.1 st₁ retained)
        (touches (.inl fun none => nomatch none.symm.trans retained))
  · refine ⟨by simp [stops.suspension], fun d' suspended => ?_⟩
    obtain rfl := Option.some.inj (stops.suspension.symm.trans suspended)
    exact settle d.scan stops.advances (gains.2 d suspended)
      (touches (.inr fun none => nomatch none.symm.trans suspended))

/-- A scan keeps its lines together to the top of the body or to the next suspension. -/
theorem scanFrom_hangs (s : SlicerState) (rules : List CallRule) (inferred : ∀ u ∈ b.whole, u.Inferred)
    (seedInferred : seed.Inferred) (known : w.body? c.caller = some b) (placed : b.Placed) (fuel : Nat) (children : List Criterion)
    (hangs : Hangs c b seed st) :
    match (scanFrom w rules fuel s st children).2.1 with
    | .complete last => Hangs c b seed last
    | .suspended d => Hangs c b seed d.scan := by
  induction fuel generalizing s st children with
  | zero => exact hangs
  | succ fuel ih =>
    cases found : st.body.reversed[st.next]? with
    | none =>
      rw [scanFrom_top found]
      exact hangs
    | some u =>
      have looked := look_hangs rules inferred seedInferred known placed s hangs found
      cases suspension : (s.look w rules st u).1.suspension with
      | none =>
        rw [scanFrom_onward found suspension]
        exact ih _ _ (looked.1 suspension)
      | some d =>
        rw [scanFrom_suspended found suspension]
        exact looked.2 d suspension

/-- The lines of a scan hang together from its start on, however often it is suspended. -/
theorem reached_hangs (inferred : ∀ u ∈ b.whole, u.Inferred) (seedInferred : seed.Inferred)
    (known : w.body? c.caller = some b) (placed : b.Placed)
    (asked : ∀ v ∈ c.targets, v.isConstant = false → v.text ≠ "" → v.text ∈ operandNames seed)
    (reached : st.Reached w rules c b) : Hangs c b seed st := by
  induction reached with
  | start =>
    refine ⟨rfl, rfl, by simp [Scan.start, Scan.track, Scan.units], fun name tracked => .inl ?_,
      by simp [Scan.start, Scan.track, Scan.units]⟩
    rcases Scan.mem_targets_track.mp tracked with ⟨v, target, noConstant, there, rfl⟩ | none
    · exact asked v target noConstant there
    · exact absurd none ValueSet.not_mem_empty
  | @resumed s s' st more sus _ ran keep ih =>
    have scanned := scanFrom_hangs s rules inferred seedInferred known placed (st.body.size + 1) [] ih
    rw [show scanFrom w rules (st.body.size + 1) s st [] = (more, .suspended sus, s') from ran] at scanned
    obtain ⟨criterion, body, rooted⟩ := scanned
    exact ⟨criterion, body, rooted.congr rfl fun _ tracked => ((Suspension.mem_narrow (d := { sus with keep })).mp tracked).1⟩

end SlicerState

namespace Criterion

/-- The criteria over the bodies of a workspace: those that are created, and merged ones of one call. -/
inductive Made (w : Workspace) : Criterion → Prop where
  | created {caller target : String} {kind : SeedKind} {positions : List Int} {level : Int} {c : Criterion}
      (here : c ∈ created w caller target kind positions level) : Made w c
  | merged {old k : Criterion} (first : Made w old) (second : Made w k)
      (call : SlicerState.callKey old = SlicerState.callKey k) : Made w (SlicerState.merged old k)

variable {w : Workspace} {c : Criterion}

/-- The values of interest of a seed are operands of it. -/
theorem mem_operands_of_mem_valuesOf {u : Statement} {kind : SeedKind} {positions : List Int} {v : Value}
    (member : v ∈ valuesOf u kind positions) : v ∈ u.operands := by
  have there : v.text ≠ "" := by simpa [Value.isAbsent] using (List.mem_filter.mp member).2
  cases kind with
  | invoke | parameter =>
    rcases (mem_valuesOf_call (by simp) member).2 with rfl | argument
    · exact Statement.base_mem_operands there
    · exact Statement.mem_operands_of_args argument there
  | returned | fieldWrite =>
    obtain rfl : v = u.right := by simpa [valuesOf] using (List.mem_filter.mp member).1
    exact Statement.right_mem_operands there

/-- The criterion stands at a seed, and asks for operands of it. -/
structure Asks (w : Workspace) (c : Criterion) (b : Body) (seed : Statement) : Prop where
  found : w.body? c.caller = some b
  seeded : c.SeededIn b
  statement : b.source[c.pos]? = some seed
  targets : ∀ v ∈ c.targets, v ∈ seed.operands

/-- Criteria of one method and place stand at the same seed. -/
theorem Asks.same {k : Criterion} {b b' : Body} {u u' : Statement} (first : Asks w c b u) (second : Asks w k b' u')
    (caller : c.caller = k.caller) (start : c.start = k.start) : c.pos = k.pos ∧ b = b' ∧ u = u' := by
  obtain rfl : b = b' := Option.some.inj (first.found.symm.trans (caller ▸ second.found))
  have place : c.pos = k.pos := by
    have here := first.seeded.mirrored
    have there := second.seeded.mirrored
    simp only [Body.mirror] at here there
    omega
  exact ⟨place, rfl, Option.some.inj (first.statement.symm.trans (place ▸ second.statement))⟩

theorem Made.asks (prepared : ∀ method b, w.body? method = some b → b.Prepared) (made : Made w c) :
    ∃ b seed, Asks w c b seed := by
  induction made with
  | @created caller target kind positions level c here =>
    obtain ⟨⟨rfl, _, _, _, _⟩, b, u, found, stands⟩ := mem_created (prepared _) here
    refine ⟨b, u, found, stands.seeded, stands.statement, fun v member => ?_⟩
    rw [stands.targets] at member
    exact mem_operands_of_mem_valuesOf (ValueSet.mem_of_mem_toList_ofList member)
  | @merged old k _ _ call ih ih' =>
    obtain ⟨b, u, first⟩ := ih
    obtain ⟨b', u', second⟩ := ih'
    obtain ⟨caller, start⟩ := SlicerState.callKey_inj call
    obtain ⟨_, rfl, rfl⟩ := first.same second caller start
    refine ⟨b, u, first.found, ⟨first.seeded.inside, first.seeded.mirrored⟩, first.statement, fun v member => ?_⟩
    rcases List.mem_append.mp (ValueSet.mem_of_mem_toList_ofList member) with old | new
    · exact first.targets v old
    · exact second.targets v new

end Criterion

/-- Statements that do nothing in place of dead ones have no operands. -/
theorem Body.whole_inferred {b : Body} (inferred : ∀ u ∈ b.source, u.Inferred) : ∀ u ∈ b.whole, u.Inferred := by
  intro u member
  obtain ⟨i, here⟩ := List.mem_iff_getElem?.mp member
  rw [whole_getElem?] at here
  obtain ⟨v, source, rfl⟩ := Option.map_eq_some_iff.mp here
  split
  · have missing : ∀ x ∈ (Statement.nopAt i).left :: (Statement.nopAt i).right :: (Statement.nopAt i).base ::
        (Statement.nopAt i).index :: (Statement.nopAt i).args, x = {} := by simp [Statement.nopAt]
    intro x operand
    rw [missing x operand]
    decide
  · exact inferred v (List.mem_of_getElem? source)

namespace SlicerState

variable {w : Workspace} {st : Scan} {c : Criterion} {b : Body}

/-- Every line of a complete scan is connected. However often the scan was suspended, whatever arguments it went on with
and whatever the rules for calls are, joins between its lines lead to each line that is no jump from the seed or from
a jump among the lines. -/
theorem scan_connected {p : Program} {settings : Settings} {live : Bool} (rules : List CallRule)
    (made : c.Made (.ofProgram p settings live))
    (found : (Workspace.ofProgram p settings live).body? c.caller = some b) (inferred : ∀ u ∈ b.source, u.Inferred)
    (reached : st.Reached (.ofProgram p settings live) rules c b) (s : SlicerState) {more : List Criterion}
    {last : Scan} {s' : SlicerState} (ran : s.scan (.ofProgram p settings live) rules st = (more, .complete last, s')) :
    ∃ seed, b.source[c.pos]? = some seed ∧ (c.pos ∉ b.dead → b.whole[c.pos]? = some seed) ∧
      ∀ u ∈ last.units, u.kind.isBranch = false → Anchored seed last.units u := by
  have prepared : ∀ method b, (Workspace.ofProgram p settings live).body? method = some b → b.Prepared :=
    fun _ _ => Workspace.body?_prepared
  generalize Workspace.ofProgram p settings live = w at found made reached ran prepared
  obtain ⟨b', seed, asks⟩ := made.asks prepared
  obtain rfl : b = b' := Option.some.inj (found.symm.trans asks.found)
  have wholeInferred := Body.whole_inferred inferred
  have seedInferred := inferred seed (List.mem_of_getElem? asks.statement)
  have start := reached_hangs wholeInferred seedInferred found (prepared _ _ found).placed
    (fun v target noConstant there => mem_operandNames.mpr ⟨v, asks.targets v target, noConstant, rfl⟩) reached
  have scanned := scanFrom_hangs s rules wholeInferred seedInferred found (prepared _ _ found).placed
    (st.body.size + 1) [] start
  rw [show scanFrom w rules (st.body.size + 1) s st [] = (more, .complete last, s') from ran] at scanned
  exact ⟨seed, asks.statement, fun alive => (Body.whole_of_live alive).trans asks.statement, scanned.rooted.anchored⟩

/-- The key is fetched above an `if`, and used below it. -/
private def gathering : Program :=
  (Program.finalize
    { package := "a"
      classes := [some { name := "a.B", methods := [
        some { signature := "<a.B: void m(int)>", isStatic := true, units := [
          some (.param "i1" 0 "int"), some (.callAssign "r0" "" "<a.B: java.lang.String key()>" []),
          some (.branch "i1" "==" "0" 5), some (.assign "r2" "r0"),
          some (.call "" "<lib.X: void x(java.lang.String)>" ["r2"]), some .retVoid] },
        some { signature := "<a.B: java.lang.String key()>", isStatic := true, units := [
          some (.assign "r1" "\"k\""), some (.ret "r1")] }] }] }).1

private def gatheringCriterion : Criterion :=
  { caller := "<a.B: void m(int)>", target := "<lib.X: void x(java.lang.String)>"
    kind := .invoke, statement := "staticinvoke <lib.X: void x(java.lang.String)>(r2)"
    start := 1, pos := 4, positions := [0], targets := [.read "r2"], level := 0 }

/-- The scan of the criterion until it waits for the key. -/
private def gatheringSuspension (b : Body) : Option Suspension :=
  match (({} : SlicerState).scan (.ofProgram gathering {} true) CallRule.standard (.start gatheringCriterion b)).2.1 with
  | .suspended d => some d
  | .complete _ => none

set_option maxRecDepth 100000 in
private theorem gathering_scanned :
    gatheringCriterion ∈ Criterion.created (.ofProgram gathering {} true) "<a.B: void m(int)>"
        "<lib.X: void x(java.lang.String)>" .invoke [0] 0 ∧
      ∃ b ∈ (Workspace.ofProgram gathering {} true).body? gatheringCriterion.caller, (∀ u ∈ b.source, u.Inferred) ∧
        ∃ d ∈ gatheringSuspension b,
          retained? (({} : SlicerState).scan (.ofProgram gathering {} true) CallRule.standard
            ({ d with keep := [] } : Suspension).narrow).2.1 = some [0, 1, 2, 3] := by
  decide +kernel

set_option maxRecDepth 100000 in
/-- The scan waits for the key and goes on; its lines are the copy and the key, which the seed leads to, and the
parameter, which the `if` leads to. -/
theorem gathering_connected :
    ∃ b st last seed, st.Reached (.ofProgram gathering {} true) CallRule.standard gatheringCriterion b ∧
      (({} : SlicerState).scan (.ofProgram gathering {} true) CallRule.standard st).2.1 = .complete last ∧
      last.units.map (·.pos) = [0, 1, 2, 3] ∧ b.source[4]? = some seed ∧
      ∀ u ∈ last.units, u.kind.isBranch = false → Anchored seed last.units u := by
  obtain ⟨made, b, found, inferred, d, suspended, retained⟩ := gathering_scanned
  have waits : (({} : SlicerState).scan (.ofProgram gathering {} true) CallRule.standard
      (.start gatheringCriterion b)).2.1 = .suspended d := by
    unfold gatheringSuspension at suspended
    split at suspended
    · rename_i here
      rw [here, Option.mem_some_iff.mp suspended]
    · cases suspended
  have reached : ({ d with keep := [] } : Suspension).narrow.Reached (.ofProgram gathering {} true) CallRule.standard
      gatheringCriterion b := .resumed .start (Prod.ext rfl (Prod.ext waits rfl)) []
  cases ran : (({} : SlicerState).scan (.ofProgram gathering {} true) CallRule.standard
      ({ d with keep := [] } : Suspension).narrow).2.1 with
  | suspended => rw [ran] at retained; cases retained
  | complete last =>
    obtain ⟨seed, here, _, anchored⟩ := scan_connected CallRule.standard (.created made) found inferred reached
      {} (Prod.ext rfl (Prod.ext ran rfl))
    rw [ran] at retained
    refine ⟨b, _, last, seed, reached, ran, ?_, here, anchored⟩
    rw [Scan.units, List.map_map]
    exact Option.some.inj retained

end SlicerState

end MisuseSlice
