import MisuseSlice.Proofs.CallGraph.Building
import MisuseSlice.Proofs.CallGraph.PathStates

/-! What a scan holds. At one name a statement keeps what the scan knew, sets an element, assigns, allocates or forgets,
and a scan that starts later holds nothing that the scan of the whole body does not hold. -/
namespace MisuseSlice

namespace Statement

variable {u : Statement} {name : String} {v : Value}

/-- The operands are those of the kind: a variable is defined, a constant is assigned where the kind says so, and an
operand is what its text says. -/
structure Fits (u : Statement) : Prop where
  left : u.kind.definesLocal = true → u.left.isVariable = true
  right : u.kind = .assignVariableConstant ∨ u.kind = .assignFieldConstant → u.right.isConstant = true
  inferred : ∀ v ∈ [u.left, u.right, u.base], v.kind = (Value.read v.text).kind

instance (u : Statement) : Decidable u.Fits :=
  decidable_of_iff ((u.kind.definesLocal = true → u.left.isVariable = true) ∧
    (u.kind = .assignVariableConstant ∨ u.kind = .assignFieldConstant → u.right.isConstant = true) ∧
    ∀ v ∈ [u.left, u.right, u.base], v.kind = (Value.read v.text).kind)
    ⟨fun ⟨left, right, inferred⟩ => ⟨left, right, inferred⟩, fun fits => ⟨fits.left, fits.right, fits.inferred⟩⟩

/-- The text is the name of a variable. -/
def IsName (name : String) : Prop := (Value.read name).isVariable = true

theorem isVariable_iff : v.isVariable = true ↔ v.kind = .localName ∨ v.kind = .temporary := by
  simp [Value.isVariable]

theorem Fits.isName (fits : u.Fits) (defines : u.Writes name) : IsName name := by
  obtain ⟨kind, rfl⟩ := defines
  have inferred := fits.inferred u.left (by simp)
  rw [IsName, isVariable_iff, ← inferred, ← isVariable_iff]
  exact fits.left kind

theorem IsName.ne_empty (named : IsName name) : name ≠ "" := by
  rintro rfl
  have absent : (Value.read "").kind = .absent := by decide +kernel
  rw [IsName, isVariable_iff, absent] at named
  rcases named with kind | kind <;> cases kind

theorem writes_defined (present : u.defined.isAbsent = false) : u.Writes u.defined.text := by
  simp only [defined] at present ⊢
  split at present
  · rename_i kind
    rw [if_pos kind]
    exact ⟨(Bool.and_eq_true_iff.mp kind).1, rfl⟩
  · cases present

/-- An operand with the name of a variable is no constant. -/
theorem Fits.not_isConstant (fits : u.Fits) (member : v ∈ [u.left, u.right, u.base]) (named : IsName v.text) :
    v.isConstant = false := by
  rw [IsName, isVariable_iff, ← fits.inferred v member] at named
  rcases named with kind | kind <;> simp [Value.isConstant, kind]

end Statement

namespace MethodScan

variable {p : Provider} {s s' : MethodScan} {u : Statement} {name : String}

/-- The scans know the same constants and arrays. -/
def SameHoldings (s s' : MethodScan) : Prop := s'.constants = s.constants ∧ s'.arrays = s.arrays

theorem sameHoldings_addField (field : String) : SameHoldings s (s.addField p field) := by
  simp only [addField]
  split <;> exact ⟨rfl, rfl⟩

theorem sameHoldings_addSite (field : String) (v : Value) : SameHoldings s (s.addSite p field v) := by
  simp only [addSite]
  split
  · split
    · split <;> exact ⟨rfl, rfl⟩
    · exact ⟨rfl, rfl⟩
  · exact ⟨rfl, rfl⟩

theorem SameHoldings.trans {t : MethodScan} (first : SameHoldings s s') (second : SameHoldings s' t) :
    SameHoldings s t := ⟨second.1.trans first.1, second.2.trans first.2⟩

/-- The element that a store sets, as far as the scan knows. -/
def stored (s : MethodScan) (u : Statement) : Value := s.constants.getD u.right.text u.right

/-- What a scan knows of a name: a constant, and an array. -/
abbrev Holding : Type := Option Value × Option (String × Nat × Option (Std.TreeMap Nat String))

/-- What the scan knows of the name. -/
def holding (s : MethodScan) (name : String) : Holding := (s.constants[name]?, s.arrays[name]?)

/-- What is known of a name after a statement that sets an element to `elem` if it stores through the name. -/
def transfer (u : Statement) (name : String) (elem : Value) (known : Holding) : Holding :=
  if u.Writes name then
    match u.kind with
    | .assignVariableConstant => (some u.right, none)
    | .newArray => (none, (size? u).map fun n => (u.type, n.toNat, some {}))
    | _ => (none, none)
  else if u.StoresThrough name then
    (known.1, known.2.map fun a => (a.1, a.2.1, setElement a.2.1 (Number.word? u.index.numericText) elem a.2.2))
  else known

theorem holding_eq_of_same (same : SameHoldings s s') : s'.holding name = s.holding name := by
  rw [holding, same.1, same.2, holding]

/-- A statement that assigns no constant, allocates nothing and stores nothing makes the scan forget what it
defines. -/
theorem holding_forgetDefined (fits : u.Fits) (plain : u.kind ≠ .assignVariableConstant ∧ u.kind ≠ .newArray)
    (unstored : ¬u.StoresThrough name) {t : MethodScan} (same : SameHoldings s t) (elem : Value) :
    (t.forgetDefined u).holding name = transfer u name elem (s.holding name) := by
  by_cases defines : u.Writes name
  · have forgets : transfer u name elem (s.holding name) = (none, none) := by
      rw [transfer, if_pos defines]
      split
      · exact absurd ‹_› plain.1
      · exact absurd ‹_› plain.2
      · rfl
    have named := (fits.isName defines).ne_empty
    obtain ⟨kind, rfl⟩ := defines
    have defined : u.defined = u.left := by simp [Statement.defined, kind, fits.left kind]
    have present : u.left.isAbsent = false := by simp [Value.isAbsent, named]
    rw [forgets, forgetDefined, defined, present]
    simp [holding, forget]
  · rw [transfer, if_neg defines, if_neg unstored, ← holding_eq_of_same same]
    cases absent : u.defined.isAbsent with
    | true => simp only [forgetDefined, absent, ↓reduceIte]
    | false =>
      have apart : u.defined.text ≠ name := fun eq => defines (eq ▸ Statement.writes_defined absent)
      simp [forgetDefined, absent, holding, forget, Std.TreeMap.getElem?_erase, apart]

theorem holding_allocate (kind : u.kind = .newArray) (ran : s.allocate u = .ok s') (elem : Value) :
    s'.holding name = transfer u name elem (s.holding name) := by
  have unstored : ¬u.StoresThrough name := by simp [Statement.StoresThrough, kind]
  have defines : u.Writes name ↔ u.left.text = name := by simp [Statement.Writes, kind, Kind.definesLocal]
  rw [transfer, if_neg unstored, kind]
  simp only [defines]
  unfold allocate at ran
  dsimp only at ran
  split at ran
  · rename_i n size
    split at ran <;> cases ran
    split <;> rename_i left
    · simp [holding, forget, left, size]
    · simp [holding, forget, Std.TreeMap.getElem?_insert, Std.TreeMap.getElem?_erase, left]
  · rename_i size
    cases ran
    split <;> rename_i left
    · simp [holding, forget, left, size]
    · simp [holding, forget, Std.TreeMap.getElem?_erase, left]

theorem holding_store (kind : u.kind = .assignArrayConstant ∨ u.kind = .assignArrayVariable) :
    (s.store u).holding name = transfer u name (s.stored u) (s.holding name) := by
  have undefining : ¬u.Writes name := fun defines => by
    rcases kind with kind | kind <;> simp [Statement.Writes, kind, Kind.definesLocal] at defines
  have through : u.StoresThrough name ↔ u.base.text = name := and_iff_right kind
  rw [transfer, if_neg undefining]
  simp only [through]
  simp only [store]
  split <;> split <;> rename_i found base
  · rw [base] at found
    simp [holding, found]
  · rfl
  · rw [base] at found
    simp [holding, base, found, stored]
  · simp [holding, Std.TreeMap.getElem?_insert, base]

theorem holding_assign (kind : u.kind = .assignVariableConstant) (elem : Value) :
    (s.assign u).holding name = transfer u name elem (s.holding name) := by
  have unstored : ¬u.StoresThrough name := by simp [Statement.StoresThrough, kind]
  have defines : u.Writes name ↔ u.left.text = name := by simp [Statement.Writes, kind, Kind.definesLocal]
  rw [transfer, if_neg unstored, kind]
  simp only [defines]
  split <;> rename_i left
  · simp [assign, holding, left]
  · simp [assign, holding, Std.TreeMap.getElem?_insert, Std.TreeMap.getElem?_erase, left]

/-- A statement that neither defines nor stores anything leaves what is known. -/
theorem transfer_of_plain (undefining : u.kind.definesLocal = false) (unstored : ¬u.StoresThrough name) (elem : Value)
    (known : Holding) : transfer u name elem known = known := by
  rw [transfer, if_neg (fun defines => by simp [Statement.Writes, undefining] at defines), if_neg unstored]

/-- What the scan knows of a name after one statement. -/
theorem holding_step (fits : u.Fits) (ran : step p s u = .ok s') (name : String) :
    s'.holding name = transfer u name (s.stored u) (s.holding name) := by
  have unstored (other : u.kind ≠ .assignArrayConstant ∧ u.kind ≠ .assignArrayVariable) : ¬u.StoresThrough name :=
    fun through => through.1.elim other.1 other.2
  simp only [step] at ran
  split at ran <;> rename_i kind
  · cases ran
    have same : SameHoldings s { s with callees := s.callees ++ [u.signature] } := ⟨rfl, rfl⟩
    exact holding_forgetDefined fits (by simp [kind]) (unstored (by simp [kind])) same _
  · cases ran
    have same : SameHoldings s { s with callees := s.callees ++ [u.signature] } := ⟨rfl, rfl⟩
    exact holding_forgetDefined fits (by simp [kind]) (unstored (by simp [kind])) same _
  · cases ran
    exact holding_forgetDefined fits (by simp [kind]) (unstored (by simp [kind])) (sameHoldings_addField _) _
  · cases ran
    rw [transfer_of_plain (by simp [kind, Kind.definesLocal]) (unstored (by simp [kind]))]
    exact holding_eq_of_same ((sameHoldings_addField _).trans (sameHoldings_addSite _ _))
  · cases ran
    rw [transfer_of_plain (by simp [kind, Kind.definesLocal]) (unstored (by simp [kind]))]
    exact holding_eq_of_same ((sameHoldings_addField _).trans (sameHoldings_addSite _ _))
  · exact holding_allocate kind ran _
  · cases ran
    exact holding_store (.inl kind)
  · cases ran
    exact holding_store (.inr kind)
  · cases ran
    exact holding_assign kind _
  · cases ran
    rw [transfer_of_plain (by simp [kind, Kind.definesLocal]) (unstored (by simp [kind]))]
    rfl
  · cases ran
    have same : SameHoldings s s := ⟨rfl, rfl⟩
    exact holding_forgetDefined fits (by simp_all) (unstored (by simp_all)) same _

/-- What the scan knows something of has the name of a variable. -/
def Named (s : MethodScan) : Prop := ∀ name, s.holding name ≠ (none, none) → Statement.IsName name

theorem Named.step (named : s.Named) (fits : u.Fits) (ran : MethodScan.step p s u = .ok s') : s'.Named := by
  intro name known
  rw [holding_step fits ran, transfer] at known
  by_cases defines : u.Writes name
  · exact fits.isName defines
  · rw [if_neg defines] at known
    refine named name fun unknown => known ?_
    rw [unknown]
    split <;> rfl

/-- The element that a store sets is the right operand, a constant of no variable, or what the operand was set to. -/
theorem stored_cases (named : s.Named) (fits : u.Fits) (constant : (s.stored u).isConstant = true) :
    (u.right.isConstant = true ∧ ¬Statement.IsName u.right.text ∧ s.stored u = u.right) ∨
      (u.right.isConstant = false ∧ s.constants[u.right.text]? = some (s.stored u)) := by
  rw [stored, Std.TreeMap.getD_eq_getD_getElem?] at constant ⊢
  cases known : s.constants[u.right.text]? with
  | none =>
    rw [known] at constant
    refine .inl ⟨constant, fun name => ?_, rfl⟩
    rw [Option.getD_none, fits.not_isConstant (by simp) name] at constant
    cases constant
  | some c =>
    refine .inr ⟨fits.not_isConstant (by simp) (named _ ?_), rfl⟩
    simp [holding, known]

theorem setElement_eq_some {size : Nat} {index : Option Int} {elem : Value} {elems : Option (Std.TreeMap Nat String)}
    {after : Std.TreeMap Nat String} (set : setElement size index elem elems = some after) :
    ∃ i : Nat, index = some (i : Int) ∧ i < size ∧ elem.isConstant = true ∧
      ∃ before, elems = some before ∧ after = before.insert i elem.text := by
  simp only [setElement] at set
  split at set
  · rename_i i
    split at set
    · rename_i fits
      simp only [Bool.and_eq_true, decide_eq_true_eq] at fits
      obtain ⟨before, known, rfl⟩ := Option.map_eq_some_iff.mp set
      exact ⟨i.toNat, by rw [Int.toNat_of_nonneg fits.1.1], by omega, fits.2, before, known, rfl⟩
    · cases set
  · cases set

/-! ### Scans that start later -/

/-- The second scan knows what the first one knows. -/
def Refines (poor rich : MethodScan) : Prop :=
  ∀ name, (∀ c, (poor.holding name).1 = some c → rich.holding name = (some c, none)) ∧
    ∀ type size elems, (poor.holding name).2 = some (type, size, some elems) →
      (rich.holding name).2 = some (type, size, some elems)

theorem Refines.stored_eq {poor rich : MethodScan} (refines : poor.Refines rich) (named : poor.Named)
    (named' : rich.Named) (fits : u.Fits) (constant : (poor.stored u).isConstant = true) :
    rich.stored u = poor.stored u := by
  rw [stored, Std.TreeMap.getD_eq_getD_getElem?]
  rcases stored_cases named fits constant with ⟨_, nameless, same⟩ | ⟨_, known⟩
  · have unknown : rich.holding u.right.text = (none, none) := by
      by_contra known
      exact nameless (named' _ known)
    rw [(Prod.mk.inj unknown).1, same]
    rfl
  · rw [(Prod.mk.inj ((refines _).1 _ known)).1]
    rfl

theorem Refines.step {poor rich poor' rich' : MethodScan} (refines : poor.Refines rich) (named : poor.Named)
    (named' : rich.Named) (fits : u.Fits) (ran : MethodScan.step p poor u = .ok poor')
    (ran' : MethodScan.step p rich u = .ok rich') : poor'.Refines rich' := by
  intro name
  obtain ⟨constants, arrays⟩ := refines name
  rw [holding_step fits ran, holding_step fits ran', transfer, transfer]
  split
  · split
    · refine ⟨fun c known => congrArg (·, none) known, fun _ _ _ known => ?_⟩
      cases known
    · refine ⟨fun c known => ?_, fun _ _ _ known => known⟩
      cases known
    · refine ⟨fun c known => ?_, fun _ _ _ known => ?_⟩ <;> cases known
  · split
    · refine ⟨fun c known => ?_, fun type size elems known => ?_⟩
      · rw [constants c known]
        rfl
      · obtain ⟨⟨type', size', elems'⟩, found, same⟩ := Option.map_eq_some_iff.mp known
        simp only [Prod.mk.injEq] at same
        obtain ⟨rfl, rfl, set⟩ := same
        obtain ⟨i, index, below, constant, before, rfl, rfl⟩ := setElement_eq_some set
        rw [arrays _ _ _ found, refines.stored_eq named named' fits constant, Option.map_some, set]
    · exact ⟨constants, arrays⟩

theorem Named.foldlM {units : List Statement} (named : s.Named) (fits : ∀ u ∈ units, u.Fits)
    (ran : units.foldlM (MethodScan.step p) s = .ok s') : s'.Named := by
  induction units generalizing s with
  | nil =>
    cases ran
    exact named
  | cons u units ih =>
    obtain ⟨t, stepped, rest⟩ := foldlM_cons_eq_ok.mp ran
    exact ih (named.step (fits u List.mem_cons_self) stepped) (fun u' later => fits u' (List.mem_cons_of_mem _ later)) rest

theorem Refines.foldlM {units : List Statement} {poor rich poor' rich' : MethodScan} (refines : poor.Refines rich)
    (named : poor.Named) (named' : rich.Named) (fits : ∀ u ∈ units, u.Fits)
    (ran : units.foldlM (MethodScan.step p) poor = .ok poor') (ran' : units.foldlM (MethodScan.step p) rich = .ok rich') :
    poor'.Refines rich' := by
  induction units generalizing poor rich with
  | nil =>
    cases ran
    cases ran'
    exact refines
  | cons u units ih =>
    obtain ⟨t, stepped, rest⟩ := foldlM_cons_eq_ok.mp ran
    obtain ⟨t', stepped', rest'⟩ := foldlM_cons_eq_ok.mp ran'
    have here := fits u List.mem_cons_self
    exact ih (refines.step named named' here stepped stepped') (named.step here stepped) (named'.step here stepped')
      (fun u' later => fits u' (List.mem_cons_of_mem _ later)) rest rest'

theorem named_empty : Named {} := fun name known => absurd (by simp [holding]) known

theorem refines_empty (rich : MethodScan) : Refines {} rich :=
  fun name => ⟨fun c known => by simp [holding] at known, fun type size elems known => by simp [holding] at known⟩

theorem held_of_array {type : String} {size : Nat} {elems : Std.TreeMap Nat String}
    (known : (s.holding name).2 = some (type, size, some elems)) :
    s.held name = Value.arrayLiteral type ((List.range size).map fun i => elems.getD i "0") := by
  simp only [holding] at known
  simp only [held, known]

/-- What is held is an array with known elements, or a constant. -/
theorem held_cases (present : (s.held name).isAbsent = false) :
    (∃ type size elems, (s.holding name).2 = some (type, size, some elems)) ∨ (s.holding name).1 = some (s.held name) := by
  simp only [held, holding] at present ⊢
  split
  · rename_i type size elems known
    exact .inl ⟨type, size, elems, known⟩
  · rename_i unknown
    rw [Std.TreeMap.getD_eq_getD_getElem?]
    cases known : s.constants[name]? with
    | some c => exact .inr rfl
    | none =>
      split at present
      · exact absurd ‹_› (unknown _ _ _)
      · rw [Std.TreeMap.getD_eq_getD_getElem?, known] at present
        cases present

/-- A scan that knows more holds the same where the other holds something. -/
theorem Refines.held_eq {poor rich : MethodScan} (refines : poor.Refines rich) (present : (poor.held name).isAbsent = false) :
    rich.held name = poor.held name := by
  obtain ⟨constants, arrays⟩ := refines name
  rcases held_cases present with ⟨type, size, elems, known⟩ | known
  · rw [held_of_array known, held_of_array (arrays _ _ _ known)]
  · obtain ⟨constant, none⟩ := Prod.mk.inj (constants _ known)
    simp only [held, none]
    rw [Std.TreeMap.getD_eq_getD_getElem?, constant]
    rfl

end MethodScan

end MisuseSlice
