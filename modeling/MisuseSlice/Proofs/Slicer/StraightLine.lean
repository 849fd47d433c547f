import Mathlib.Logic.Function.Basic
import MisuseSlice.Proofs.Slicer.Turns

/-! Slices keep the meaning of straight-line code. Statements without branches, calls and memory are given
a meaning that knows nothing of slicing: each assigns a function of its operands. Running only the lines of
a slice then leaves the values of interest as running the whole body does. The scan goes backward, so the
two runs are compared on the values of interest above each statement. -/
namespace MisuseSlice

namespace Value

/-- A variable or a constant. -/
def IsOperand (v : Value) : Prop := v.isConstant = true ∨ v.IsName

instance (v : Value) : Decidable v.IsOperand := inferInstanceAs (Decidable (_ ∨ _))

end Value

namespace Statement

/-- The operands that a statement of straight-line code computes with. -/
def reads (u : Statement) : List Value :=
  match u.kind with
  | .assignVariableConstant | .assignVariableVariable | .cast | .lengthOf | .instanceOf => [u.right]
  | .assignVariableOperation => u.args
  | _ => []

/-- The statement does nothing, binds a parameter, the receiver or the caught exception, or assigns a
constant, a copy, a cast, a length, a type test or an operation, over variables and constants. -/
def IsStraight (u : Statement) : Prop :=
  match u.kind with
  | .nop => True
  | .parameter | .this | .caughtException => u.left.IsName
  | .assignVariableConstant => u.left.IsName ∧ u.right.isConstant = true
  | .assignVariableVariable | .cast | .lengthOf | .instanceOf => u.left.IsName ∧ u.right.IsOperand
  | .assignVariableOperation => u.left.IsName ∧ ∀ v ∈ u.args, v.IsOperand
  | _ => False

instance (u : Statement) : Decidable u.IsStraight := by
  unfold IsStraight
  split <;> infer_instance

end Statement

/-- What statements mean: the value of each constant, and what a statement assigns as a function of the
values of its operands. -/
structure Meaning (V : Type) where
  constant : Value → V
  result : Statement → List V → V

namespace Meaning

variable {V : Type} (m : Meaning V)

/-- The value of an operand. -/
def value (env : String → V) (v : Value) : V := if v.isConstant then m.constant v else env v.text

/-- The environment after a statement. -/
def step (env : String → V) (u : Statement) : String → V :=
  if u.kind = .nop then env
  else Function.update env u.left.text (m.result u (u.reads.map (m.value env)))

/-- The environment after statements, one after the other. -/
def exec (env : String → V) (us : List Statement) : String → V := us.foldl m.step env

theorem exec_concat (env : String → V) (us : List Statement) (u : Statement) :
    m.exec env (us ++ [u]) = m.step (m.exec env us) u := by
  simp [exec]

/-- A statement changes the variable that it assigns only. -/
theorem step_of_ne (env : String → V) {u : Statement} {name : String} (other : name ≠ u.left.text) :
    m.step env u name = env name := by
  unfold step
  split
  · rfl
  · exact Function.update_of_ne other _ _

/-- Two environments that agree on the operands of a statement agree on what it assigns. -/
theorem step_assigns {first second : String → V} {u : Statement} (works : u.kind ≠ .nop)
    (agree : ∀ v ∈ u.reads, m.value first v = m.value second v) :
    m.step first u u.left.text = m.step second u u.left.text := by
  have same : u.reads.map (m.value first) = u.reads.map (m.value second) := List.map_congr_left agree
  simp only [step, works, ↓reduceIte, same, Function.update_self]

end Meaning

namespace Scan

variable {st st' : Scan} {u : Statement}

/-- The scan after a statement of straight-line code; `none` where it is not retained. -/
def atStraight (st : Scan) (u : Statement) : Option Scan :=
  if u.kind = .nop || !st.touches u.operands then none else st.atPlain u

private theorem straight_left (straight : u.IsStraight) (works : u.kind ≠ .nop) : u.left.IsName := by
  unfold Statement.IsStraight at straight
  split at straight
  case h_1 kind => exact absurd kind works
  case h_2 | h_3 | h_4 => exact straight
  case h_11 => exact straight.elim
  all_goals exact straight.1

private theorem left_mem_operands (name : u.left.IsName) : u.left ∈ u.operands := by
  have present : (!u.left.isAbsent) = true := by simp [Value.isAbsent, name.2]
  unfold Statement.operands
  refine List.mem_filter.mpr ⟨?_, present⟩
  by_cases receiver : (u.left.base != "") = true
  · simp [receiver]
  · simp [receiver]

/-- A statement that is not retained assigns nothing of interest. -/
theorem atStraight_none (straight : u.IsStraight) (left : st.atStraight u = none) :
    u.kind = .nop ∨ u.left.text ∉ st.targets := by
  by_cases works : u.kind = .nop
  · exact .inl works
  · right
    have name := straight_left straight works
    by_cases touched : st.touches u.operands = true
    · -- only the assignment of a constant is left out though it shares a value of interest
      simp only [atStraight, works, decide_false, touched, Bool.not_true, Bool.or_self, Bool.false_eq_true,
        ↓reduceIte] at left
      unfold atPlain at left
      split at left
      case h_4 | h_5 | h_6 =>
        split at left
        · cases left
        · rename_i absent
          simpa using absent
      all_goals cases left
    · intro member
      exact touched (touches_iff.mpr ⟨u.left, left_mem_operands name, name.2, name.not_numeric, member⟩)

/-- A statement that is retained keeps what is of interest but its result, and makes what it reads so. -/
theorem atStraight_some (straight : u.IsStraight) (retained : st.atStraight u = some st') :
    u.kind ≠ .nop ∧ (∀ name ∈ st.targets, name ≠ u.left.text → name ∈ st'.targets) ∧
      (∀ v ∈ u.reads, v.isConstant = false → v.text ∈ st'.targets) ∧
      ∃ targets params, st' = { st with targets, params } := by
  simp only [atStraight] at retained
  split at retained
  · cases retained
  · rename_i condition
    simp only [Bool.or_eq_true, decide_eq_true_eq, not_or] at condition
    refine ⟨condition.1, ?_, ?_, atPlain_frame retained⟩
    · intro name member other
      unfold atPlain at retained
      split at retained
      case h_4 | h_5 | h_6 =>
        split at retained
        · cases retained
          simp [member, other]
        · cases retained
      all_goals
        cases retained
        simp [member, other]
    · intro v member noConstant
      have named : ∀ operand : Value, operand.IsOperand → operand.isConstant = false → operand.text ≠ "" := by
        rintro operand (isConstant | name) notConstant
        · simp [isConstant] at notConstant
        · exact name.2
      unfold Statement.reads at member
      unfold Statement.IsStraight at straight
      unfold atPlain at retained
      split at member
      case h_1 kind =>
        simp only [kind] at straight
        rw [List.mem_singleton.mp member, straight.2] at noConstant
        cases noConstant
      case h_2 kind | h_3 kind | h_4 kind | h_5 kind =>
        obtain rfl := List.mem_singleton.mp member
        simp only [kind] at straight retained
        cases retained
        simp [noConstant, named _ straight.2 noConstant]
      case h_6 kind =>
        simp only [kind] at straight retained
        cases retained
        exact mem_targets_track.mpr
          (.inl ⟨v, member, noConstant, named v (straight.2 v member) noConstant, rfl⟩)
      case h_7 => cases member

/-- Two runs that agree on the values of interest agree on them below a statement that only one of them makes, if it is
not retained. -/
theorem exec_of_passed (straight : u.IsStraight) (passed : st.atStraight u = none) (V : Type) (m : Meaning V)
    (env : String → V) {kept above : List Statement}
    (agree : ∀ name ∈ st.targets, m.exec env kept name = m.exec env above name) :
    ∀ name ∈ st.targets, m.exec env kept name = m.exec env (above ++ [u]) name := by
  intro name member
  rw [agree name member, m.exec_concat]
  rcases atStraight_none straight passed with nop | free
  · simp [Meaning.step, nop]
  · exact (m.step_of_ne _ (fun same => free (same ▸ member))).symm

/-- Two runs that agree on the values of interest above a statement that is retained agree on those below it. -/
theorem exec_of_retained (straight : u.IsStraight) (retained : st.atStraight u = some st') (V : Type) (m : Meaning V)
    (env : String → V) {kept above : List Statement}
    (agree : ∀ name ∈ st'.targets, m.exec env kept name = m.exec env above name) :
    ∀ name ∈ st.targets, m.exec env (kept ++ [u]) name = m.exec env (above ++ [u]) name := by
  obtain ⟨works, keeps, reads, _⟩ := atStraight_some straight retained
  intro name member
  rw [m.exec_concat, m.exec_concat]
  by_cases assigned : name = u.left.text
  · subst assigned
    refine m.step_assigns works ?_
    intro v operand
    unfold Meaning.value
    split
    · rfl
    · rename_i noConstant
      exact agree v.text (reads v operand (by simpa using noConstant))
  · rw [m.step_of_ne _ assigned, m.step_of_ne _ assigned]
    exact agree name (keeps name member assigned)

end Scan

namespace SlicerState

variable {w : Workspace} {rules : List CallRule}

/-- A statement of straight-line code concerns the scan alone. -/
theorem visit_straight (w : Workspace) (rules : List CallRule) (s : SlicerState) (st : Scan) {u : Statement}
    (straight : u.IsStraight) : s.visit w rules st u = ({ retained := st.atStraight u }, s) := by
  unfold Statement.IsStraight at straight
  unfold visit Scan.atStraight
  split at straight
  case h_1 kind => simp [kind]
  case h_11 => exact straight.elim
  all_goals
    rename_i kind
    simp only [kind]
    by_cases touched : st.touches u.operands = true <;> simp [touched]

/-- A statement that is retained and brings about no criterion is settled at once. -/
theorem scanFrom_retained (fuel : Nat) {s : SlicerState} {st st' : Scan} {u : Statement}
    (children : List Criterion) (found : st.body.reversed[st.next]? = some u)
    (visited : s.visit w rules { st with next := st.next + 1 } u = ({ retained := some st' }, s)) :
    ∃ log, scanFrom w rules (fuel + 1) s st children =
      scanFrom w rules fuel { s with ledger := { s.ledger with log } } (st'.retain u) children := by
  refine ⟨s.ledger.log ++
    Log.one .trace (st.criterion.id ++ " retains " ++ Text.ofNat u.pos ++ ": " ++ u.text), ?_⟩
  rw [scanFrom]
  simp only [found, visited, Visit.settle, List.map_nil, List.append_nil]
  rfl

theorem scanFrom_passed {fuel : Nat} {s : SlicerState} {st : Scan} {u : Statement}
    {children : List Criterion} (found : st.body.reversed[st.next]? = some u)
    (visited : s.visit w rules { st with next := st.next + 1 } u = ({ retained := none }, s)) :
    scanFrom w rules (fuel + 1) s st children =
      scanFrom w rules fuel s { st with next := st.next + 1 } children := by
  rw [scanFrom]
  simp only [found, visited, noteRetained, List.append_nil]

/-- The scan of straight-line code. From the first `n` statements it retains some, in order, and running
those alone gives what is of interest below them the values that running all `n` gives. -/
theorem scanFrom_straight {b : Body} (n fuel : Nat) (s : SlicerState) (st : Scan)
    (children : List Criterion) (here : st.body = b) (next : st.next + n = b.size) (enough : n < fuel)
    (straight : ∀ u ∈ b.whole.take n, u.IsStraight) :
    ∃ kept targets params last log, List.Sublist kept (b.whole.take n) ∧
      scanFrom w rules fuel s st children =
        (children, .complete { st with
          next := b.size, targets, params, last
          lines := kept.map (⟨st.criterion.caller, ·⟩) ++ st.lines },
          { s with ledger := { s.ledger with log } }) ∧
      ∀ (V : Type) (m : Meaning V) (env : String → V), ∀ name ∈ st.targets,
        m.exec env kept name = m.exec env (b.whole.take n) name := by
  induction n generalizing fuel s st with
  | zero =>
    obtain ⟨fuel, rfl⟩ := Nat.exists_eq_add_of_lt enough
    refine ⟨[], st.targets, st.params, st.last, s.ledger.log, List.Sublist.refl _, ?_, fun _ _ _ _ _ => rfl⟩
    have past : st.body.reversed[st.next]? = none := by
      rw [List.getElem?_eq_none_iff, Body.length_reversed, here]
      omega
    rw [Nat.zero_add, scanFrom, past]
    simp [← next]
  | succ n ih =>
    obtain ⟨fuel, rfl⟩ : ∃ k, fuel = k + 1 := ⟨fuel - 1, by omega⟩
    have inside : n < b.whole.length := by rw [Body.length_whole]; omega
    obtain ⟨u, whole⟩ : ∃ u, b.whole[n]? = some u := ⟨_, List.getElem?_eq_getElem inside⟩
    have split : b.whole.take (n + 1) = b.whole.take n ++ [u] := by
      rw [List.take_add_one, whole]
      rfl
    have found : st.body.reversed[st.next]? = some u := by
      rw [here, Body.reversed_getElem? (by omega), show b.size - 1 - st.next = n from by omega, whole]
    rw [split] at straight ⊢
    have straightHere : u.IsStraight := straight u (by simp)
    have straightAbove : ∀ v ∈ b.whole.take n, v.IsStraight :=
      fun v member => straight v (List.mem_append_left _ member)
    have visited := visit_straight w rules s { st with next := st.next + 1 } straightHere
    cases looked : Scan.atStraight { st with next := st.next + 1 } u with
    | none =>
      rw [looked] at visited
      have same := Scan.exec_of_passed straightHere looked
      obtain ⟨kept, targets, params, last, log, sub, ran, agree⟩ :=
        ih fuel s { st with next := st.next + 1 } here (by simp; omega) (by omega) straightAbove
      refine ⟨kept, targets, params, last, log, sub.trans (List.sublist_append_left _ _), ?_, ?_⟩
      · rw [scanFrom_passed found visited, ran]
      · exact fun V m env => same V m env (agree V m env)
    | some st' =>
      rw [looked] at visited
      have same := Scan.exec_of_retained straightHere looked
      obtain ⟨_, _, _, ts, ps, rfl⟩ := Scan.atStraight_some straightHere looked
      obtain ⟨log', moved⟩ := scanFrom_retained fuel children found visited
      obtain ⟨kept, targets, params, last, log, sub, ran, agree⟩ :=
        ih fuel { s with ledger := { s.ledger with log := log' } }
          (Scan.retain { st with next := st.next + 1, targets := ts, params := ps } u) here
          (by simp [Scan.retain]; omega) (by omega) straightAbove
      refine ⟨kept ++ [u], targets, params, last, log, sub.append (List.Sublist.refl _), ?_, ?_⟩
      · rw [moved, ran]
        simp [Scan.retain]
      · exact fun V m env => same V m env (agree V m env)

end SlicerState

namespace Body

/-- Nothing is dropped on the way where no retained position holds an `if`. -/
theorem infeasibleFrom_unbranched {b : Body} {live : Bool} {retained : List Nat} {positions : List Int}
    {drop : List Nat} {vs : KnownValues}
    (unbranched : ∀ p : Nat, (p : Int) ∈ positions → ∀ u, b.at? p = some u → u.kind ≠ .branchIf) :
    (b.infeasibleFrom live retained positions drop vs).1 = drop := by
  induction positions generalizing vs with
  | nil => rfl
  | cons pos rest ih =>
    have later : ∀ vs, (b.infeasibleFrom live retained rest drop vs).1 = drop :=
      fun _ => ih fun p member => unbranched p (List.mem_cons_of_mem _ member)
    cases pos with
    | negSucc k => exact later vs
    | ofNat p =>
      simp only [infeasibleFrom]
      split
      · exact later vs
      · split
        · exact later vs
        · rename_i u found
          have noBranch : u.kind ≠ .branchIf := unbranched p List.mem_cons_self u found
          have same : Folding.mark drop (b.dropped live retained vs u p) = drop := by
            simp [dropped, noBranch, Folding.mark]
          rw [same]
          exact later _

/-- The positions of a body are in order, and stay so in every part of it. -/
theorem Placed.ascending {b : Body} (placed : b.Placed) {kept : List Statement}
    (part : List.Sublist kept b.whole) : kept.Pairwise fun u v => u.pos ≤ v.pos := by
  refine List.Pairwise.sublist part (List.pairwise_iff_getElem.mpr ?_)
  intro i j below inside before
  have first := placed.whole (List.getElem?_eq_getElem below)
  have second := placed.whole (List.getElem?_eq_getElem inside)
  omega

end Body

namespace SlicerState

variable {w : Workspace} {rules : List CallRule} {s : SlicerState} {c : Criterion}

/-- A complete scan without branches that brought no criterion about gives its lines as they are. -/
theorem finish_unbranched (w : Workspace) (s : SlicerState) (st : Scan) (prepared : st.body.Prepared)
    {kept : List Statement} (part : List.Sublist kept st.body.whole) (lines : st.lines = kept.map (⟨st.criterion.caller, ·⟩))
    (unbranched : ∀ u ∈ kept, u.kind ≠ .branchIf) (alone : st.spawned = []) :
    (s.finish w st).1.id = st.criterion.id ∧ (s.finish w st).1.lines = st.lines := by
  have ordered : SliceLine.sort st.lines = st.lines := by
    refine Sorting.sort_of_pairwise ?_
    rw [lines, List.pairwise_map]
    exact (prepared.placed.ascending part).imp fun le => decide_eq_true le
  have nothing : droppedFrom w st st.lines = [] := by
    simp only [droppedFrom, alone, List.isEmpty_nil, Bool.not_true, Bool.and_false, Bool.false_eq_true,
      ↓reduceIte]
    refine Body.infeasibleFrom_unbranched fun p member u found => ?_
    obtain ⟨v, inside, place⟩ : ∃ v ∈ kept, (v.pos : Int) = p := by
      simpa [lines, SliceLine.pos] using member
    obtain ⟨i, here⟩ := List.mem_iff_getElem?.mp (part.subset inside)
    obtain rfl : i = p := (prepared.placed.whole here).symm.trans (Int.ofNat.inj place)
    obtain rfl : v = u := Option.some.inj (here.symm.trans found)
    exact unbranched v inside
  simp only [finish, settle_slice, ordered, nothing, PartialSlice.drop]
  exact ⟨rfl, List.filter_eq_self.mpr fun _ _ => rfl⟩

/-- A seed below straight-line code can run. -/
theorem alive_of_straight {b : Body} (prepared : b.Prepared) {n : Nat}
    (straight : ∀ u ∈ b.whole.take n, u.IsStraight) : n ∉ b.dead := by
  intro dead
  obtain ⟨q, before, alive, u, found, kind⟩ := prepared.cause n dead
  have whole : b.whole[q]? = some u := (Body.whole_of_live alive).trans found
  have member : u ∈ b.whole.take n :=
    List.mem_iff_getElem?.mpr ⟨q, by rw [List.getElem?_take_of_lt before, whole]⟩
  have never := straight u member
  simp [Statement.IsStraight, kind] at never

/-- The slice of a criterion below straight-line code gives its targets the values that the code gives
them, whatever the statements mean and whatever ran before. It is stored by the step that starts the
criterion. -/
theorem slice_preserves_straight_line {p : Program} {settings : Settings} {live : Bool}
    (rules : List CallRule) (s : SlicerState) (c : Criterion) {b : Body}
    (found : (Workspace.ofProgram p settings live).body? c.caller = some b) (seeded : c.SeededIn b)
    (straight : ∀ u ∈ b.whole.take c.pos, u.IsStraight)
    (unknown : s.store.contains c.id = false) (idle : s.isActive c.id = false) :
    ∃ slice, (absorb (s.begin (.ofProgram p settings live) rules c)).2.store.get? c.id = some slice ∧
      List.Sublist (slice.lines.map (·.statement)) (b.whole.take c.pos) ∧
      ∀ (V : Type) (m : Meaning V) (env : String → V), ∀ v ∈ c.targets, v.IsName →
        m.exec env (slice.lines.map (·.statement)) v.text = m.exec env (b.whole.take c.pos) v.text := by
  have prepared : b.Prepared := Workspace.body?_prepared found
  have alive : c.pos ∉ b.dead := alive_of_straight prepared straight
  have inside := seeded.inside
  generalize Workspace.ofProgram p settings live = w at found ⊢
  -- the step starts a scan at the seed
  obtain ⟨s', started⟩ : ∃ s', s.begin w rules c = resume s' w rules (.start c b) := by
    have begins : s.Begins w c b := ⟨unknown, idle, found, inside, by simpa using alive⟩
    exact ⟨_, begins.begin_eq⟩
  have next : (Scan.start c b).next + c.pos = b.size := by
    have mirrored := seeded.mirrored
    simp only [Scan.start, Scan.track, Body.mirror] at mirrored ⊢
    omega
  obtain ⟨kept, targets, params, last, log, part, ran, agree⟩ :=
    scanFrom_straight (w := w) c.pos (b.size + 1) s' (.start c b) [] rfl next (by omega) straight
  -- it ends with the lines kept
  have lines := finish_unbranched w { s' with ledger := { s'.ledger with log } }
    { Scan.start c b with next := b.size, targets, params, last, lines := kept.map (⟨c.caller, ·⟩) ++ [] }
    prepared (part.trans (List.take_sublist _ _)) (List.append_nil _)
    (fun u member kind => by simpa [Statement.IsStraight, kind] using straight u (part.subset member)) rfl
  obtain ⟨slice, given, named, retained⟩ :
      ∃ slice, (s.begin w rules c).1.slice = some slice ∧ slice.id = c.id ∧
        slice.lines.map (·.statement) = kept := by
    refine ⟨_, started ▸ resume_slice ran, lines.1, ?_⟩
    rw [lines.2, List.append_nil, List.map_map]
    exact List.map_id' kept
  refine ⟨slice, named ▸ absorb_get? given, retained ▸ part, ?_⟩
  intro V m env v target name
  rw [retained]
  exact agree V m env v.text (Scan.mem_targets_track.mpr (.inl ⟨v, target, name.not_constant, name.2, rfl⟩))

/-- A method that pads a key and hashes it; the count of rounds is of no use for the key. -/
private def padding : Program :=
  { package := "a"
    classes := [some { name := "a.Pad", methods := [
      some { signature := "<a.Pad: void hash(java.lang.Object)>", isStatic := true, units := [
        some (.param "r0" 0 "java.lang.Object"), some (.assign "i1" "1000"),
        some (.castTo "r2" "java.lang.String" "r0"), some (.operation "r3" "r2" "+" "\"=\""),
        some (.call "" "<lib.Hash: void of(java.lang.String,int)>" ["r3", "i1"]), some .retVoid] }] }] }

private def paddingCriterion : Criterion :=
  { caller := "<a.Pad: void hash(java.lang.Object)>", target := "<lib.Hash: void of(java.lang.String,int)>"
    kind := .invoke, statement := "staticinvoke <lib.Hash: void of(java.lang.String,int)>(r3, i1)"
    start := 1, pos := 4, positions := [0], targets := [.read "r3"], level := 0 }

set_option maxRecDepth 100000 in
private theorem padding_facts :
    ∃ b ∈ (Workspace.ofProgram padding.finalize.1 {} true).body? paddingCriterion.caller,
      (paddingCriterion.pos < b.size ∧ paddingCriterion.start = b.mirror paddingCriterion.pos) ∧
      ∀ u ∈ b.whole.take paddingCriterion.pos, u.IsStraight := by
  decide +kernel

set_option maxRecDepth 100000 in
/-- The slice of a padded key that a new slicer stores computes the key. -/
theorem padding_slice_preserved :
    ∃ b, (Workspace.ofProgram padding.finalize.1 {} true).body? paddingCriterion.caller = some b ∧
      ∃ slice, (absorb (({} : SlicerState).begin (.ofProgram padding.finalize.1 {} true) CallRule.standard
          paddingCriterion)).2.store.get? paddingCriterion.id = some slice ∧
        ∀ (V : Type) (m : Meaning V) (env : String → V),
          m.exec env (slice.lines.map (·.statement)) "r3" = m.exec env (b.whole.take 4) "r3" := by
  obtain ⟨b, found, ⟨inside, mirrored⟩, straight⟩ := padding_facts
  obtain ⟨slice, stored, -, agree⟩ :=
    slice_preserves_straight_line CallRule.standard {} paddingCriterion found ⟨inside, mirrored⟩ straight
      (by decide +kernel) (by decide +kernel)
  refine ⟨b, found, slice, stored, fun V m env => ?_⟩
  exact agree V m env (.read "r3") (by decide +kernel) (by decide +kernel)

end SlicerState

end MisuseSlice
