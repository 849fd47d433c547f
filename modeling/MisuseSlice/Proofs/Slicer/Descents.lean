import MisuseSlice.Proofs.Slicer.Visits

/-! Descents. At a call whose callee is entered the scan asks for the return criteria of the callee and is told of each
of them once: what parameters it retained, that it is queued or under way, or that it was dropped. Once it was told of
all, it goes on without the arguments that matter to none. What a suspended scan keeps is told here exactly by what it
was told, in whatever order. -/
namespace MisuseSlice

open Criterion

/-- What a scan is told of a return criterion that it asked for. -/
inductive Word where
  /-- It is sliced, and retained the parameters. -/
  | sliced (params : List Int)
  /-- It is queued or under way. -/
  | underway
  /-- It was dropped from the queue. -/
  | dropped

namespace Word

/-- An argument position matters by what was told. While a criterion is not sliced all of them may. -/
def Keeps : Word → Int → Prop
  | sliced params, i => i ∈ params
  | underway, _ => True
  | dropped, _ => False

/-- The positions of given arguments that are kept. -/
def positions (args : List (Int × Value)) : Word → List Int
  | sliced params => params
  | underway => args.map (·.1)
  | dropped => []

theorem mem_positions {args : List (Int × Value)} {a : Int × Value} (given : a ∈ args) (word : Word) :
    a.1 ∈ word.positions args ↔ word.Keeps a.1 := by
  cases word with
  | sliced params => exact Iff.rfl
  | underway => exact iff_of_true (List.mem_map_of_mem given) trivial
  | dropped => exact iff_of_false List.not_mem_nil id

end Word

namespace Suspension

/-- A suspended scan is told of a return criterion. -/
def hear (d : Suspension) (id : String) (word : Word) : Suspension :=
  { d with waiting := d.waiting.filter (· != id), keep := word.positions d.added ++ d.keep }

variable {d : Suspension} {name : String}

/-- Narrowing takes the added arguments that stand at no kept position, and no value else. -/
theorem mem_narrow : name ∈ d.narrow.targets ↔ name ∈ d.scan.targets ∧
    ¬((∃ a ∈ d.added, a.2.text = name) ∧ ∀ a ∈ d.added, a.2.text = name → a.1 ∉ d.keep) := by
  have fold : ∀ (lost : List (Int × Value)) (ts : ValueSet),
      name ∈ lost.foldl (fun ts a => ts.erase a.2) ts ↔ name ∈ ts ∧ ∀ a ∈ lost, a.2.text ≠ name := by
    intro lost
    induction lost with
    | nil => simp
    | cons a lost ih =>
      intro ts
      simp only [List.foldl_cons, ih, ValueSet.mem_erase, List.forall_mem_cons]
      constructor
      · rintro ⟨⟨other, here⟩, rest⟩
        exact ⟨here, Ne.symm other, rest⟩
      · rintro ⟨here, other, rest⟩
        exact ⟨⟨Ne.symm other, here⟩, rest⟩
  unfold narrow
  rw [fold]
  refine and_congr_right fun _ => ?_
  constructor
  · rintro stays ⟨⟨a, added, rfl⟩, unkept⟩
    refine stays a (List.mem_filter.mpr ⟨added, ?_⟩) rfl
    have none : a.2.text ∉ (d.added.filter fun a => d.keep.contains a.1).map (·.2.text) := by
      intro member
      obtain ⟨b, kept, same⟩ := List.mem_map.mp member
      obtain ⟨added', kept⟩ := List.mem_filter.mp kept
      exact unkept b added' same (by simpa using kept)
    rw [Bool.and_eq_true, Bool.not_eq_true', Bool.not_eq_true']
    exact ⟨by simpa using unkept a added rfl, by simpa using none⟩
  · rintro stays a lost rfl
    obtain ⟨added, condition⟩ := List.mem_filter.mp lost
    simp only [Bool.and_eq_true, Bool.not_eq_true', List.contains_eq_mem, decide_eq_false_iff_not] at condition
    refine stays ⟨⟨a, added, rfl⟩, fun b added' same kept => condition.2 ?_⟩
    exact List.mem_map.mpr ⟨b, List.mem_filter.mpr ⟨added', by simpa using kept⟩, same⟩

end Suspension

/-- The rules for known methods never ask for the returns of a callee. -/
theorem CallEffect.apply_ne_descend {effect : CallEffect} {f : CallFlow} {ts : ValueSet} :
    effect.apply f ≠ some (.descend, ts) := by
  cases effect with
  | skip | keep | addArg => simp [apply]
  | addArgIfSeed | addFirstArg => simp [apply]
  | copyArray =>
    simp only [apply]
    split <;> simp

/-- A scan at a call whose callee is entered. -/
structure Descent where
  /-- The scan that comes to the call. -/
  scan : Scan
  call : Statement
  /-- The values of interest that the rule for the call leaves. -/
  targets : ValueSet
  /-- What the scan was told, the last word first. -/
  heard : List (String × Word) := []

namespace Descent

/-- The return criteria of the callee. -/
def returns (w : Workspace) (e : Descent) : List Criterion :=
  created w e.call.signature e.call.signature .returned [] (e.scan.criterion.level - 1)

/-- An argument position that matters to a return criterion. -/
def Kept (e : Descent) (i : Int) : Prop := ∃ told ∈ e.heard, told.2.Keeps i

/-- A variable that was of no interest before, and is one as an argument that matters to no return criterion. -/
def Lost (e : Descent) (name : String) : Prop :=
  name ∉ e.scan.targets ∧ name ∈ e.targets ∧ (∃ (i : Nat) (a : Value), e.call.args[i]? = some a ∧ a.text = name) ∧
    ∀ (i : Nat) (a : Value), e.call.args[i]? = some a → a.text = name → ¬e.Kept i

/-- The name of the receiver, if the rule for calls may make the receiver of interest. -/
def Receiver (e : Descent) (name : String) : Prop :=
  e.call.base.isAbsent = false ∧ e.call.base.isConstant = false ∧ e.call.base.text = name

/-- A call at which a callee is entered: the rule says so, the callee has a body of the developer that is not too far
down, and the body has return criteria. -/
structure Enters (w : Workspace) (rules : List CallRule) (e : Descent) : Prop where
  kind : e.call.kind.isInvoke = true
  flow : CallFlow.apply rules
    { call := e.call, seed := e.scan.criterion, targets := e.scan.targets, isDevClass := w.program.isDevClass,
      isTrackedType := w.settings.isTrackedType } = (.descend, e.targets)
  low : w.settings.lowerLevel ≤ e.scan.criterion.level - 1
  developed : w.program.isDevClass e.call.calleeClass = true
  written : w.program.statements e.call.signature ≠ []
  returning : e.returns w ≠ []

/-- A suspension at the call, by what it was told. -/
structure Fits (w : Workspace) (e : Descent) (d : Suspension) : Prop where
  targets : d.scan.targets = e.targets
  added : d.added = SlicerState.argsAdded e.scan.targets e.targets e.call
  waiting : ∀ id, id ∈ d.waiting ↔ (∃ r ∈ e.returns w, r.id = id) ∧ ∀ word, (id, word) ∉ e.heard
  keep : ∀ i, i ∈ d.keep ↔ ∃ told ∈ e.heard, i ∈ told.2.positions d.added
  asked : ∀ told ∈ e.heard, ∃ r ∈ e.returns w, r.id = told.1
  once : ∀ id word word', (id, word) ∈ e.heard → (id, word') ∈ e.heard → word = word'

variable {w : Workspace} {rules : List CallRule} {e : Descent} {d : Suspension} {name id : String} {word : Word}

/-- The arguments that a call made of interest. -/
theorem mem_argsAdded {before after : ValueSet} {u : Statement} {a : Int × Value} :
    a ∈ SlicerState.argsAdded before after u ↔
      ∃ i : Nat, a.1 = i ∧ u.args[i]? = some a.2 ∧ a.2.text ∉ before ∧ a.2.text ∈ after := by
  obtain ⟨k, v⟩ := a
  simp only [SlicerState.argsAdded, List.mem_filter, List.mem_mapIdx, Prod.mk.injEq, Bool.and_eq_true,
    Bool.not_eq_true', ValueSet.contains_eq_false_iff, ValueSet.contains_iff]
  constructor
  · rintro ⟨⟨i, inside, rfl, rfl⟩, interest⟩
    exact ⟨i, rfl, List.getElem?_eq_getElem inside, interest⟩
  · rintro ⟨i, rfl, found, interest⟩
    obtain ⟨inside, rfl⟩ := List.getElem?_eq_some_iff.mp found
    exact ⟨⟨i, inside, rfl, rfl⟩, interest⟩

/-- Whatever was told in whatever order, narrowing takes exactly the variables that are lost. -/
theorem Fits.mem_narrow (fits : e.Fits w d) : name ∈ d.narrow.targets ↔ name ∈ e.targets ∧ ¬e.Lost name := by
  rw [Suspension.mem_narrow, fits.targets]
  refine and_congr_right fun interest => not_congr ?_
  have kept : ∀ a ∈ d.added, a.1 ∈ d.keep ↔ e.Kept a.1 := fun a added =>
    (fits.keep a.1).trans (exists_congr fun told => and_congr_right fun _ => told.2.mem_positions added)
  have here : ∀ a, a ∈ d.added ↔
      ∃ i : Nat, a.1 = i ∧ e.call.args[i]? = some a.2 ∧ a.2.text ∉ e.scan.targets ∧ a.2.text ∈ e.targets := by
    intro a
    rw [fits.added]
    exact mem_argsAdded
  constructor
  · rintro ⟨⟨a, added, rfl⟩, unkept⟩
    obtain ⟨i, place, found, new, _⟩ := (here a).mp added
    refine ⟨new, interest, ⟨i, a.2, found, rfl⟩, fun j b found' same => ?_⟩
    have added' : ((j : Int), b) ∈ d.added := (here _).mpr ⟨j, rfl, found', same ▸ new, same ▸ interest⟩
    exact fun keeps => unkept _ added' same ((kept _ added').mpr keeps)
  · rintro ⟨new, _, ⟨i, a, found, rfl⟩, unkept⟩
    refine ⟨⟨((i : Int), a), (here _).mpr ⟨i, rfl, found, new, interest⟩, rfl⟩, fun b added same keeps => ?_⟩
    obtain ⟨j, place, found', _⟩ := (here b).mp added
    exact unkept j b.2 found' same (place ▸ (kept b added).mp keeps)

/-- A suspended scan is told of a criterion that it waits for. -/
theorem Fits.hear (fits : e.Fits w d) (waits : id ∈ d.waiting) (word : Word) :
    ({ e with heard := (id, word) :: e.heard } : Descent).Fits w (d.hear id word) := by
  obtain ⟨asked, new⟩ := (fits.waiting id).mp waits
  refine ⟨fits.targets, fits.added, fun id' => ?_, fun i => ?_, fun told member => ?_, fun id' word₁ word₂ first second => ?_⟩
  · simp only [Suspension.hear, List.mem_filter, bne_iff_ne, ne_eq, fits.waiting id', List.mem_cons, Prod.mk.injEq]
    constructor
    · rintro ⟨⟨asked', unheard⟩, other⟩
      exact ⟨asked', fun word' told => told.elim (fun same => other same.1) (unheard word')⟩
    · rintro ⟨asked', unheard⟩
      exact ⟨⟨asked', fun word' told => unheard word' (.inr told)⟩, fun same => unheard word (.inl ⟨same, rfl⟩)⟩
  · simp only [Suspension.hear, List.mem_append, fits.keep i, List.mem_cons, exists_eq_or_imp]
  · rcases List.mem_cons.mp member with rfl | earlier
    · exact asked
    · exact fits.asked told earlier
  · simp only [List.mem_cons, Prod.mk.injEq] at first second
    rcases first with ⟨rfl, rfl⟩ | first <;> rcases second with ⟨same, rfl⟩ | second
    · rfl
    · exact absurd second (new word₂)
    · exact absurd (same ▸ first) (new word₁)
    · exact fits.once id' word₁ word₂ first second

/-- A descent that was told of every return criterion, with the scan that goes on. The scan goes on where it stood, with
the values of interest that the rule left except for the variables that are lost. -/
structure Ends (w : Workspace) (rules : List CallRule) (known : String → Word → Prop) (e : Descent) (st : Scan) : Prop where
  enters : e.Enters w rules
  heard : ∀ id, (∃ word, (id, word) ∈ e.heard) ↔ ∃ r ∈ e.returns w, r.id = id
  once : ∀ id word word', (id, word) ∈ e.heard → (id, word') ∈ e.heard → word = word'
  told : ∀ told ∈ e.heard, known told.1 told.2
  targets : ∀ name, name ∈ st.targets ↔ name ∈ e.targets ∧ ¬e.Lost name

/-- A scan that waits for nothing any more. -/
theorem Fits.ends {known : String → Word → Prop} (fits : e.Fits w d) (enters : e.Enters w rules)
    (told : ∀ told ∈ e.heard, known told.1 told.2) (last : d.waiting = []) : e.Ends w rules known d.narrow := by
  refine ⟨enters, fun id => ⟨?_, fun asked => ?_⟩, fits.once, told, fun name => fits.mem_narrow⟩
  · rintro ⟨word, here⟩
    exact fits.asked _ here
  · by_contra unheard
    have waits := (fits.waiting id).mpr ⟨asked, fun word here => unheard ⟨word, here⟩⟩
    rw [last] at waits
    cases waits

/-- Only the general rule enters callees. -/
theorem Enters.general (enters : e.Enters w rules) :
    CallFlow.general
      { call := e.call, seed := e.scan.criterion, targets := e.scan.targets, isDevClass := w.program.isDevClass,
        isTrackedType := w.settings.isTrackedType } = (.descend, e.targets) := by
  have flow := enters.flow
  unfold CallFlow.apply at flow
  split at flow
  · cases flow
  · dsimp only at flow
    split at flow
    · rename_i found
      subst flow
      obtain ⟨rule, _, effect⟩ := Option.bind_eq_some_iff.mp found
      exact absurd effect CallEffect.apply_ne_descend
    · exact flow

/-- The receiver of a call of the developer that is entered is of interest. -/
theorem Enters.receiver (enters : e.Enters w rules) (receiver : e.Receiver name) : name ∈ e.targets := by
  obtain ⟨present, unfixed, rfl⟩ := receiver
  have there : e.call.base.text ≠ "" := by simpa [Value.isAbsent] using present
  have general := enters.general
  unfold CallFlow.general at general
  dsimp only at general
  split at general
  · split at general
    · cases general
    · simp only [Prod.mk.injEq, true_and] at general
      rw [← general, if_pos (by simp [present, enters.developed])]
      simp [CallFlow.track, ValueSet.mem_insertAll, unfixed, there]
  · split at general <;> cases general

/-- The arguments of a static call that is entered are of interest. -/
theorem Enters.argument {a : Value} (enters : e.Enters w rules) (static : e.call.base.isAbsent = true) (given : a ∈ e.call.args)
    (unfixed : a.isConstant = false) (there : a.text ≠ "") : a.text ∈ e.targets := by
  have general := enters.general
  unfold CallFlow.general at general
  dsimp only at general
  split at general
  · split at general
    · cases general
    · simp only [Prod.mk.injEq, true_and] at general
      rw [← general, if_neg (by simp [static]), if_pos (by simp [static])]
      exact ValueSet.mem_insertAll.mpr (.inl ⟨a, List.mem_filter.mpr ⟨given, by simp [unfixed]⟩, there, rfl⟩)
  · split at general <;> cases general

/-- A value that was of interest before the call, and that the rule leaves, stays of interest. -/
theorem Ends.stays {known : String → Word → Prop} {st : Scan} (ends : e.Ends w rules known st)
    (before : name ∈ e.scan.targets) (left : name ∈ e.targets) : name ∈ st.targets :=
  (ends.targets name).mpr ⟨left, fun lost => lost.1 before⟩

/-- Only arguments that are not the receiver are lost, unless the receiver is a lost argument itself. -/
theorem Ends.spares_receiver_iff {known : String → Word → Prop} {st : Scan} (ends : e.Ends w rules known st) :
    (∀ name, name ∈ st.targets ↔ name ∈ e.targets ∧ ¬(e.Lost name ∧ ¬e.Receiver name)) ↔
      ∀ name, e.Receiver name → ¬e.Lost name := by
  constructor
  · intro spared name receiver lost
    have stays := (spared name).mpr ⟨ends.enters.receiver receiver, fun taken => taken.2 receiver⟩
    exact ((ends.targets name).mp stays).2 lost
  · intro apart name
    rw [ends.targets name]
    refine and_congr_right fun _ => not_congr ⟨fun lost => ⟨lost, fun receiver => apart name receiver lost⟩, And.left⟩

end Descent

namespace SlicerState

variable {s s' : SlicerState} {w : Workspace} {rules : List CallRule} {st : Scan} {u : Statement} {d : Suspension}
  {id : String}

/-- What a scan is told at once of a return criterion. -/
def word? (s : SlicerState) (id : String) : Option Word :=
  match s.store.get? id with
  | some p => some (.sliced p.params)
  | none => if s.isActive id || s.isQueued id then some .underway else none

theorem word?_eq_some_iff {word : Word} : s.word? id = some word ↔
    (∃ p, s.store.get? id = some p ∧ .sliced p.params = word) ∨
      (s.store.get? id = none ∧ (s.isActive id = true ∨ s.isQueued id = true) ∧ .underway = word) := by
  unfold word?
  cases s.store.get? id with
  | some p => simp
  | none => simp [Option.ite_none_right_eq_some]

/-- What a scan is told at once. -/
def words (s : SlicerState) (returns : List Criterion) : List (String × Word) :=
  returns.filterMap fun r => (s.word? r.id).map (r.id, ·)

theorem mem_words {returns : List Criterion} {told : String × Word} :
    told ∈ s.words returns ↔ (∃ r ∈ returns, r.id = told.1) ∧ s.word? told.1 = some told.2 := by
  obtain ⟨id, word⟩ := told
  simp only [words, List.mem_filterMap, Option.map_eq_some_iff, Prod.mk.injEq]
  constructor
  · rintro ⟨r, member, word', said, rfl, rfl⟩
    exact ⟨⟨r, member, rfl⟩, said⟩
  · rintro ⟨⟨r, member, rfl⟩, said⟩
    exact ⟨r, member, word, said, rfl, rfl⟩

theorem addReturn_frame (s : SlicerState) (d : Suspension) (r : Criterion) :
    ∃ tree descents, (s.addReturn d r).2 = { s with tree, descents } := by
  unfold addReturn
  dsimp only
  split
  · split <;> exact ⟨_, s.descents, rfl⟩
  · split
    · exact ⟨_, s.descents, rfl⟩
    · exact ⟨_, _, rfl⟩

/-- A return criterion is added to a suspension: the scan is told of it, or waits for it. -/
theorem addReturn_told (s : SlicerState) (d : Suspension) (r : Criterion) :
    (s.addReturn d r).1 =
      match s.word? r.id with
      | some word => { d with keep := word.positions d.added ++ d.keep }
      | none => { d with waiting := d.waiting ++ [r.id] } := by
  unfold addReturn word?
  cases stored : s.store.get? r.id with
  | some p => rfl
  | none =>
    dsimp only
    split
    · rename_i underway
      have here : (s.isActive r.id || s.isQueued r.id) = true := underway
      rw [if_pos here]
      rfl
    · rename_i idle
      have here : ¬(s.isActive r.id || s.isQueued r.id) = true := idle
      rw [if_neg here]

/-- What a suspension waits for and keeps once return criteria were added to it. -/
theorem addReturns_told (s : SlicerState) (d : Suspension) (returns : List Criterion) :
    (∀ id, id ∈ (s.addReturns d returns).1.waiting ↔
        id ∈ d.waiting ∨ (∃ r ∈ returns, r.id = id) ∧ s.word? id = none) ∧
      ∀ i, i ∈ (s.addReturns d returns).1.keep ↔
        i ∈ d.keep ∨ ∃ told ∈ s.words returns, i ∈ told.2.positions d.added := by
  induction returns generalizing s d with
  | nil => simp [addReturns, words]
  | cons r returns ih =>
    have step : s.addReturns d (r :: returns) = (s.addReturn d r).2.addReturns (s.addReturn d r).1 returns := rfl
    have told := addReturn_told s d r
    have same : (s.addReturn d r).2.word? = s.word? := by
      obtain ⟨_, _, state⟩ := addReturn_frame s d r
      rw [state]
      rfl
    obtain ⟨waiting, keep⟩ := ih (s.addReturn d r).2 (s.addReturn d r).1
    rw [step]
    have rest : (s.addReturn d r).2.words returns = s.words returns := by simp only [words, same]
    rw [same] at waiting
    rw [rest] at keep
    cases said : s.word? r.id with
    | some word =>
      rw [said] at told
      have here : s.words (r :: returns) = (r.id, word) :: s.words returns := by simp [words, said]
      rw [told] at waiting keep
      rw [told]
      refine ⟨fun id => ?_, fun i => ?_⟩
      · rw [waiting id]
        refine or_congr_right (and_congr_left fun none => ?_)
        have other : r.id ≠ id := fun eq => by rw [← eq, said] at none; cases none
        simp [other]
      · rw [keep i, here]
        simp only [List.mem_append, List.mem_cons, exists_eq_or_imp]
        tauto
    | none =>
      rw [said] at told
      have here : s.words (r :: returns) = s.words returns := by simp [words, said]
      rw [told] at waiting keep
      rw [told]
      refine ⟨fun id => ?_, fun i => ?_⟩
      · rw [waiting id]
        rw [List.mem_append, List.mem_singleton]
        constructor
        · rintro ((old | rfl) | ⟨⟨r', later, named⟩, none⟩)
          · exact .inl old
          · exact .inr ⟨⟨r, List.mem_cons_self, rfl⟩, said⟩
          · exact .inr ⟨⟨r', List.mem_cons_of_mem _ later, named⟩, none⟩
        · rintro (old | ⟨⟨r', member, named⟩, none⟩)
          · exact .inl (.inl old)
          · rcases List.mem_cons.mp member with rfl | later
            · exact .inl (.inr named.symm)
            · exact .inr ⟨⟨r', later, named⟩, none⟩
      · rw [keep i, here]

/-- The states agree on what they tell of criteria. -/
theorem Recorded.word? (recorded : s.Recorded s') : s'.word? = s.word? := by
  obtain ⟨_, _, rfl⟩ := recorded
  rfl

/-- The suspension at a call keeps what the scan is told at once, and waits for the other return criteria. -/
theorem addReturns_fits (s : SlicerState) (w : Workspace) (st : Scan) (u : Statement) (ts : ValueSet)
    {returns : List Criterion}
    (asked : created w u.signature u.signature .returned [] (st.criterion.level - 1) = returns) :
    (⟨st, u, ts, s.words returns⟩ : Descent).Fits w
      (s.addReturns { scan := { st with targets := ts }, added := argsAdded st.targets ts u } returns).1 := by
  have awaits := addReturns_awaits s { st with targets := ts } (argsAdded st.targets ts u) returns
  obtain ⟨waiting, keep⟩ := addReturns_told s
    { scan := { st with targets := ts }, added := argsAdded st.targets ts u } returns
  refine ⟨congrArg Scan.targets awaits.scan, awaits.added, fun id => ?_, fun i => ?_, fun told member => ?_,
    fun id word word' first second => ?_⟩
  · rw [waiting id]
    simp only [Descent.returns, asked, List.not_mem_nil, false_or]
    refine and_congr_right fun among => ?_
    constructor
    · intro none word member
      have said := (mem_words.mp member).2
      rw [none] at said
      cases said
    · intro unheard
      cases said : s.word? id with
      | none => rfl
      | some word => exact absurd (mem_words.mpr ⟨among, said⟩) (unheard word)
  · rw [keep i, awaits.added]
    simp
  · simp only [Descent.returns, asked]
    exact (mem_words.mp member).1
  · exact Option.some.inj ((mem_words.mp first).2.symm.trans (mem_words.mp second).2)

/-- What becomes of a call whose rule asks for the returns of the callee: the callee is not entered, or the scan is told
of the return criteria that are known, and goes on or waits for the others. -/
theorem descend_told (s : SlicerState) (w : Workspace) (rules : List CallRule) (st : Scan) (u : Statement)
    (ts : ValueSet) (kind : u.kind.isInvoke = true)
    (flow : CallFlow.apply rules
      { call := u, seed := st.criterion, targets := st.targets, isDevClass := w.program.isDevClass,
        isTrackedType := w.settings.isTrackedType } = (.descend, ts)) :
    (¬(⟨st, u, ts, []⟩ : Descent).Enters w rules ∧
      (s.descend w { st with targets := ts } u st.targets).1.retained = some { st with targets := ts } ∧
      (s.descend w { st with targets := ts } u st.targets).1.suspension = none) ∨
    ∃ (e : Descent) (d : Suspension), e.scan = st ∧ e.call = u ∧ e.targets = ts ∧ e.Enters w rules ∧ e.Fits w d ∧
      (∀ told ∈ e.heard, s.word? told.1 = some told.2) ∧ d.scan = { st with targets := ts } ∧
      ((d.waiting = [] ∧ (s.descend w { st with targets := ts } u st.targets).1.retained = some d.narrow ∧
          (s.descend w { st with targets := ts } u st.targets).1.suspension = none) ∨
        (d.waiting ≠ [] ∧ (s.descend w { st with targets := ts } u st.targets).1.suspension = some d)) := by
  unfold descend
  dsimp only
  split
  · rename_i barred
    refine .inl ⟨fun enters => ?_, rfl, rfl⟩
    simp only [Bool.or_eq_true, decide_eq_true_eq, Bool.not_eq_true', List.isEmpty_iff] at barred
    rcases barred with (low | foreign) | unwritten
    · exact absurd enters.low (Int.not_le.mpr low)
    · rw [enters.developed] at foreign
      cases foreign
    · exact enters.written unwritten
  · rename_i open'
    simp only [Bool.or_eq_true, decide_eq_true_eq, Bool.not_eq_true', List.isEmpty_iff, not_or, Int.not_lt,
      Bool.not_eq_false] at open'
    have opened : s.Recorded (s.create w u.signature u.signature .returned [] (st.criterion.level - 1)).2 :=
      create_recorded
    rw [create_fst]
    generalize (s.create w u.signature u.signature .returned [] (st.criterion.level - 1)).2 = s₁ at opened ⊢
    split
    · rename_i none
      exact .inl ⟨fun enters => enters.returning (List.isEmpty_iff.mp none), rfl, rfl⟩
    · rename_i some'
      have returning : created w u.signature u.signature .returned [] (st.criterion.level - 1) ≠ [] := by
        simpa using some'
      generalize all : created w u.signature u.signature .returned [] (st.criterion.level - 1) = returns at returning ⊢
      have awaits := addReturns_awaits s₁ { st with targets := ts } (argsAdded st.targets ts u) returns
      refine .inr ⟨⟨st, u, ts, s₁.words returns⟩, _, rfl, rfl, rfl, ?_, addReturns_fits s₁ w st u ts all, ?_,
        awaits.scan, ?_⟩
      · exact ⟨kind, flow, open'.1.1, open'.1.2, open'.2, by
          simpa only [Descent.returns, all] using returning⟩
      · exact fun told member => opened.word? ▸ (mem_words.mp member).2
      · split
        · rename_i none
          exact .inl ⟨List.isEmpty_iff.mp none, rfl, rfl⟩
        · rename_i waits
          exact .inr ⟨by simpa using waits, rfl⟩

end SlicerState

end MisuseSlice
