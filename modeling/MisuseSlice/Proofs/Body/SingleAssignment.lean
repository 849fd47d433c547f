import MisuseSlice.Proofs.Body.Links
import MisuseSlice.Proofs.Body.Preparing
import MisuseSlice.Proofs.Body.Scopes
import MisuseSlice.Proofs.Text.Cutting

/-! Single assignment. In a body without branches a variable that is set again gets a name that nothing in the body has,
and what is read below is read under that name. So no variable is set twice. One operand is not followed: the receiver of
a field that a statement sets whose kind says that it sets a variable. -/
namespace MisuseSlice

namespace Text

theorem stripFront_append (front rest : String) : stripFront (front ++ rest) front = rest := by
  simp [stripFront, dropFront?_eq_some_iff.mpr]

end Text

namespace Value

/-- A renamed operand refers to the field that it referred to. -/
theorem fieldSignature_rename {v : Value} {scope : Scope} {slot : String} (reads : v.slot? = some slot)
    (named : ∀ n, scope.names[slot]? = some n → IsSlotName n) :
    (v.rename scope).fieldSignature = v.fieldSignature := by
  have plain : ∀ w : Value, w.isVariable = true → w.fieldSignature = "" := by
    intro w variable_
    simp only [isVariable, Bool.or_eq_true, beq_iff_eq] at variable_
    rcases variable_ with kind | kind <;> simp [fieldSignature, kind]
  simp only [slot?] at reads
  split at reads
  · rename_i variable_
    cases reads
    simp only [rename, variable_, ↓reduceIte]
    split
    · rename_i n here
      split
      · rw [plain _ (isVariable_renamed (named n here)), plain v variable_]
      · rfl
    · rfl
  · rename_i open_
    split at reads
    · rename_i field
      cases reads
      simp only [rename, open_, field, Bool.false_eq_true, ↓reduceIte]
      split
      · rename_i n here
        split
        · have kind : v.kind = .fieldRef := by simpa [isFieldRef] using (Bool.and_eq_true_iff.mp field).1
          have filled : (n != "") = true := by simpa using (named n here).ne_empty
          have same := Text.stripFront_append (n ++ ".") v.fieldSignature
          simpa [fieldSignature, kind, filled] using same
        · rfl
      · rfl
    · cases reads

end Value

namespace Statement

/-- The variables are named as the format names variables of their kinds, and what is written as if it were a numbered
variable is a variable. -/
def SpecNamed (u : Statement) : Prop :=
  ∀ v ∈ u.operands, (v.kind = .localName → v.isLocalSlot = true) ∧ (v.kind = .temporary → v.isStackSlot = true) ∧
    ((slotParts? v.text).isSome = true → v.isVariable = true)

instance (u : Statement) : Decidable u.SpecNamed := inferInstanceAs (Decidable (∀ v ∈ _, _ ∧ _ ∧ _))

variable {u : Statement} {v : Value}

theorem SpecNamed.isSlot (named : u.SpecNamed) (operand : v ∈ u.operands) (variable_ : v.isVariable = true) : v.IsSlot := by
  obtain ⟨localName, temporary, -⟩ := named v operand
  simp only [Value.isVariable, Bool.or_eq_true, beq_iff_eq] at variable_
  exact variable_.imp localName temporary

theorem SpecNamed.wellNamed (named : u.SpecNamed) : u.WellNamed := by
  intro v operand written
  rcases written with variable_ | numbered
  · exact named.isSlot operand variable_
  · exact named.isSlot operand ((named v operand).2.2 numbered)

/-- A variable that is named as the format says is of the kind that its name says. -/
theorem SpecNamed.kind_eq (named : u.SpecNamed) (operand : v ∈ u.operands) (variable_ : v.isVariable = true) :
    v.kind = (Value.read v.text).kind := by
  have slotName := (named.isSlot operand variable_).isSlotName
  obtain ⟨localName, temporary, -⟩ := named v operand
  rw [Value.read_eq_of_slotName slotName]
  simp only [Value.isVariable, Bool.or_eq_true, beq_iff_eq] at variable_
  rcases variable_ with kind | kind
  · have slot := localName kind
    have unmarked : v.text.toList.head? ≠ some '$' := by
      intro marked
      simp only [Value.isLocalSlot] at slot
      cases parts : v.text.toList with
      | nil => simp [parts] at marked
      | cons c rest =>
        rw [parts, List.head?_cons, Option.some.injEq] at marked
        subst marked
        simp [parts, Value.isSlotName] at slot
    rw [if_neg unmarked, kind]
  · have slot := temporary kind
    have marked : v.text.toList.head? = some '$' := by
      simp only [Value.isStackSlot] at slot
      split at slot
      · rename_i parts
        rw [parts, List.head?_cons]
      · cases slot
    rw [if_pos marked, kind]

end Statement

/-- Statements without branches make no regions. -/
theorem Region.all_of_straight {units : List Statement} (straight : ∀ u ∈ units, u.kind.isBranch = false) :
    Region.all units = some [] := by
  have none : ∀ (rest : List Statement) (i : Nat), rest ⊆ units → Region.ofStatements units i rest = some [] := by
    intro rest
    induction rest with
    | nil => exact fun _ _ => rfl
    | cons u rest ih =>
      intro i part
      have plain := straight u (part List.mem_cons_self)
      have regionless : Region.ofStatement units i u = some none := by
        simp only [Region.ofStatement]
        split
        · rename_i kind
          simp [kind, Kind.isBranch] at plain
        · rename_i kind
          simp [kind, Kind.isBranch] at plain
        · rfl
      simp [Region.ofStatements, regionless, ih (i + 1) (List.subset_of_cons_subset part)]
  exact none units 0 (List.Subset.refl units)

/-- A body without branches nests. -/
theorem nests_of_straight {units : List Statement} (straight : ∀ u ∈ units, u.kind.isBranch = false) :
    Nests units [] := by
  have branchless : ∀ u ∈ units, u.kind ≠ .branchIf ∧ u.kind ≠ .goto ∧ u.kind ≠ .switch := by
    intro u member
    have plain := straight u member
    simp only [Kind.isBranch, Bool.or_eq_false_iff, beq_eq_false_iff_ne] at plain
    exact ⟨plain.1.1, plain.1.2, plain.2⟩
  refine ⟨Region.all_of_straight straight, fun i _ u here kind => ?_, fun u member => (branchless u member).2.2,
    fun i _ u here kind => ?_, by simp⟩
  · obtain ⟨conditional, jump, -⟩ := branchless u (List.mem_of_getElem? here)
    rcases kind with kind | kind
    · exact absurd kind conditional
    · exact absurd kind jump
  · exact absurd kind (branchless u (List.mem_of_getElem? here)).2.1

namespace Renaming

variable {units us : List Statement} {state : Nat → Renaming} {s s' : Renaming} {u u' : Statement} {pos : Nat}
  {slot : String}

@[simp] theorem arrive_nil (s : Renaming) (pos : Nat) : arrive [] s pos = s := by
  simp [arrive, ifElses, Sorting.sort]

/-- What the pass does at a statement that lies in no region: it leaves a definition that comes first as it is, and gives
any other a fresh name. -/
theorem step?_cases (ran : step? units [] s u pos = some (u', s')) :
    (u.defined.isAbsent = true ∧ u' = u.renameReads s.scope ∧ s' = s) ∨
    (u.defined.isAbsent = false ∧ u.defined.text ∉ s.scope.seen ∧ u' = u.renameReads s.scope ∧
      s' = { s with scope := (s.scope.see u.defined.text).use u.defined.text u.defined.text }) ∨
    (u.defined.isAbsent = false ∧ u.defined.text ∈ s.scope.seen ∧
      u' = { u.renameReads s.scope with left := u.left.renamed (s.counters.fresh u.defined.text).1 } ∧
      s' = { s with counters := (s.counters.fresh u.defined.text).2 }.rename u.defined.text
        (s.counters.fresh u.defined.text).1) := by
  simp only [step?, arrive_nil] at ran
  split at ran
  · rename_i absent
    cases ran
    exact .inl ⟨absent, rfl, rfl⟩
  · rename_i present
    have present : u.defined.isAbsent = false := by simpa using present
    obtain ⟨left, kind, -⟩ := Statement.defined_eq_left present
    by_cases seen : u.defined.text ∈ s.scope.seen
    · have known : s.scope.seen.contains u.defined.text = true := List.contains_iff_mem.mpr seen
      have outside : Region.innermost? [] pos = none := rfl
      simp only [define?, known, outside, Bool.not_true, Bool.false_eq_true, ↓reduceIte] at ran
      cases ran
      exact .inr (.inr ⟨present, seen, by simp [Statement.renameReads, kind], rfl⟩)
    · have new : s.scope.seen.contains u.defined.text = false := by simpa using seen
      simp only [define?, new, Bool.not_false, ↓reduceIte] at ran
      cases ran
      exact .inr (.inl ⟨present, seen, rfl, rfl⟩)

namespace Trace

variable (trace : Trace units [] us state) (nests : Nests units [])
include trace nests

/-- A slot is seen at a position if it is defined above. -/
theorem mem_seen {n : Nat} (inside : n ≤ units.length) :
    slot ∈ (state n).scope.seen ↔ ∃ i < n, DefinedAt units slot i := by
  simpa [scopeAt, DefinedAbove] using trace.mem_seen_iff nests inside

/-- A definition that comes first keeps its variable. -/
theorem first_kept {q : Nat} (atQ : units[q]? = some u) (toQ : us[q]? = some u')
    (first : ∀ i < q, ¬DefinedAt units u.defined.text i) : u'.defined = u.defined := by
  obtain ⟨v, there, stepped⟩ := trace.step q u atQ
  cases toQ.symm.trans there
  have inside := Nat.le_of_lt (List.getElem?_eq_some_iff.mp atQ).1
  rcases step?_cases stepped with ⟨-, made, -⟩ | ⟨-, -, made, -⟩ | ⟨-, seen, -⟩
  · rw [made, Statement.defined_renameReads]
  · rw [made, Statement.defined_renameReads]
  · obtain ⟨i, before, defined⟩ := (trace.mem_seen nests inside).mp seen
    exact absurd defined (first i before)

variable (named : ∀ u ∈ units, u.WellNamed) (short : units.length < 2 ^ 62)
include named short

/-- A later definition gets a variable of the kind of its slot, with a name that was not noted before. -/
theorem later_fresh {q : Nat} (atQ : units[q]? = some u) (toQ : us[q]? = some u') (present : u.defined.isAbsent = false)
    (later : ∃ i < q, DefinedAt units u.defined.text i) :
    ¬(state q).counters.Covers u'.defined.text ∧ u'.defined.kind = (Value.read u.defined.text).kind := by
  obtain ⟨v, there, stepped⟩ := trace.step q u atQ
  cases toQ.symm.trans there
  have inside := Nat.le_of_lt (List.getElem?_eq_some_iff.mp atQ).1
  obtain ⟨owns, owned, own, -⟩ := trace.owned named short inside
  have slotName := owned.named _ _ (own u (List.mem_of_getElem? atQ) present)
  obtain ⟨freshName, unnoted, -⟩ := Counters.fresh_spec slotName owned.within (by omega)
  obtain ⟨-, kind, -⟩ := Statement.defined_eq_left present
  rcases step?_cases stepped with ⟨absent, -⟩ | ⟨-, new, -⟩ | ⟨-, -, made, -⟩
  · rw [absent] at present
    cases present
  · exact absurd ((trace.mem_seen nests inside).mpr later) new
  · have defines : (u.renameReads (state q).scope).kind.definesLocal = true := kind
    rw [made, Statement.defined_setLeft defines (Value.isVariable_renamed freshName), Value.text_renamed freshName,
      Value.kind_renamed, Value.read_eq_of_slotName freshName, Value.read_eq_of_slotName slotName,
      Counters.head?_fresh slotName]
    exact ⟨unnoted, rfl⟩

/-- Two definitions get two variables. -/
theorem distinct {p q : Nat} {d e d' e' : Statement} (before : p < q) (atP : units[p]? = some d) (toP : us[p]? = some d')
    (atQ : units[q]? = some e) (toQ : us[q]? = some e') (presentP : d.defined.isAbsent = false)
    (presentQ : e.defined.isAbsent = false) : d'.defined.text ≠ e'.defined.text := by
  by_cases same : d.defined.text = e.defined.text
  · obtain ⟨owns, owned, -, given⟩ := trace.owned named short (Nat.le_of_lt (List.getElem?_eq_some_iff.mp atQ).1)
    obtain ⟨d'', toP', -, kept, -⟩ := trace.spec named short atP
    cases toP.symm.trans toP'
    have left := (Statement.defined_eq_left (kept.trans presentP)).1
    have noted := owned.noted _ _ (left ▸ given p d d' before atP toP presentP)
    have unnoted := (trace.later_fresh nests named short atQ toQ presentQ ⟨p, before, d, atP, presentP, same⟩).1
    exact fun shared => unnoted (shared ▸ noted)
  · exact trace.apart named short atP toP atQ toQ presentP presentQ same

omit nests in
/-- Below a definition its variable is in use for the slot, up to the next definition of the slot. -/
theorem nameOf_below {p q : Nat} {d d' : Statement} (atQ : units[q]? = some d) (toQ : us[q]? = some d')
    (defines : d.Defines slot) (below : q < p) (inside : p ≤ units.length)
    (clear : ∀ m, q < m → m < p → ¬DefinedAt units slot m) : (state p).scope.nameOf slot = d'.defined.text := by
  induction p, below using Nat.le_induction with
  | base =>
    obtain ⟨d'', toQ', -, -, gives, -⟩ := trace.spec named short atQ
    cases toQ.symm.trans toQ'
    obtain ⟨present, rfl⟩ := defines
    exact gives present
  | succ p below ih =>
    have here : units[p]? = some units[p] := List.getElem?_eq_getElem inside
    obtain ⟨u', -, -, -, -, keeps⟩ := trace.spec named short here
    have other : ¬units[p].Defines slot := fun defines => clear p below (Nat.lt_succ_self p) ⟨_, here, defines⟩
    rw [keeps slot other, arrive_nil]
    exact ih (Nat.le_of_lt inside) fun m low high => clear m low (Nat.lt_succ_of_lt high)

omit nests in
/-- The statement from which a statement of the renamed body is made. -/
theorem exists_original {p : Nat} (same : us.length = units.length) (toP : us[p]? = some u') :
    ∃ u, units[p]? = some u ∧ u'.defined.isAbsent = u.defined.isAbsent := by
  have below : p < units.length := same ▸ (List.getElem?_eq_some_iff.mp toP).1
  have here : units[p]? = some units[p] := List.getElem?_eq_getElem below
  obtain ⟨v, there, -, kept, -⟩ := trace.spec named short here
  cases toP.symm.trans there
  exact ⟨_, here, kept⟩

omit nests in
/-- An operand reads the variable of the last definition above of the slot that it reads. -/
theorem read_below {p q k : Nat} {d' : Statement} {v : Value} (below : q < p) (atP : units[p]? = some u)
    (toP : us[p]? = some u') (toQ : us[q]? = some d') (defined : DefinedAt units slot q)
    (clear : ∀ m, q < m → m < p → ¬DefinedAt units slot m) (read : u.readOperands[k]? = some v)
    (slots : v.slot? = some slot) :
    ∃ v', u'.readOperands[k]? = some v' ∧ v'.slot? = some d'.defined.text ∧ v'.fieldSignature = v.fieldSignature := by
  have inside := Nat.le_of_lt (List.getElem?_eq_some_iff.mp atP).1
  obtain ⟨owns, owned, -⟩ := trace.owned named short inside
  have slotNames : ∀ n, (state p).scope.names[slot]? = some n → IsSlotName n :=
    fun n entered => owned.named n _ (owned.scope _ n entered)
  obtain ⟨d, atQ, defines⟩ := defined
  obtain ⟨v', there, operands, -⟩ := trace.spec named short atP
  cases toP.symm.trans there
  refine ⟨v.rename (state p).scope, ?_, ?_, Value.fieldSignature_rename slots slotNames⟩
  · rw [operands, List.getElem?_map, read, arrive_nil, Option.map_some]
  · rw [Value.slot?_rename slots slotNames, trace.nameOf_below named short atQ toQ defines below inside clear]

omit named short nests in
/-- What a defining statement sets that is no variable stays as it is. -/
theorem left_kept {p : Nat} (atP : units[p]? = some u) (toP : us[p]? = some u') (kind : u.kind.definesLocal = true)
    (open_ : u.left.isVariable = false) : u'.left = u.left := by
  obtain ⟨v, there, stepped⟩ := trace.step p u atP
  cases toP.symm.trans there
  have absent : u.defined.isAbsent = true := by simp [Statement.defined, kind, open_, Value.isAbsent]
  rcases step?_cases stepped with ⟨-, made, -⟩ | ⟨present, -⟩ | ⟨present, -⟩
  · rw [made]
    simp [Statement.renameReads, kind]
  · rw [absent] at present
    cases present
  · rw [absent] at present
    cases present

omit named in
/-- A definition keeps its variable, or gets one of the same kind that no statement defined. -/
theorem definition_named (named : ∀ u ∈ units, u.SpecNamed) {p : Nat} (atP : units[p]? = some u)
    (toP : us[p]? = some u') (present : u.defined.isAbsent = false) :
    u'.defined.isAbsent = false ∧ u'.defined.kind = u.defined.kind ∧
      (u'.defined.text = u.defined.text ∨ ∀ w ∈ units, ¬w.Defines u'.defined.text) := by
  have wellNamed : ∀ u ∈ units, u.WellNamed := fun u member => (named u member).wellNamed
  have member := List.mem_of_getElem? atP
  obtain ⟨v, there, -, kept, -⟩ := trace.spec wellNamed short atP
  cases toP.symm.trans there
  refine ⟨kept.trans present, ?_⟩
  by_cases later : ∃ i < p, DefinedAt units u.defined.text i
  · obtain ⟨unnoted, kind⟩ := trace.later_fresh nests wellNamed short atP toP present later
    obtain ⟨owns, owned, own, -⟩ := trace.owned wellNamed short (Nat.le_of_lt (List.getElem?_eq_some_iff.mp atP).1)
    have variable_ := (Statement.defined_eq_left present).2.2
    refine ⟨kind.trans ((named u member).kind_eq (Statement.defined_mem_operands present) variable_).symm, .inr ?_⟩
    rintro w among ⟨defines, text⟩
    exact unnoted (text ▸ owned.noted _ _ (own w among defines))
  · have first : ∀ i < p, ¬DefinedAt units u.defined.text i := fun i before defined => later ⟨i, before, defined⟩
    have same := trace.first_kept nests atP toP first
    exact ⟨congrArg _ same, .inl (congrArg _ same)⟩

end Trace

/-- The statements `us` are the statements `units` in single-assignment form. -/
structure SingleAssignment (units us : List Statement) : Prop where
  length : us.length = units.length
  /-- No two statements define one variable. -/
  distinct : ∀ (p q : Nat) (d e : Statement), us[p]? = some d → us[q]? = some e → d.defined.isAbsent = false →
    e.defined.isAbsent = false → d.defined.text = e.defined.text → p = q
  /-- A definition keeps its variable, or gets one of the same kind that no statement defined. -/
  names : ∀ (p : Nat) (u u' : Statement), units[p]? = some u → us[p]? = some u' → u.defined.isAbsent = false →
    u'.defined.isAbsent = false ∧ u'.defined.kind = u.defined.kind ∧
      (u'.defined.text = u.defined.text ∨ ∀ w ∈ units, ¬w.Defines u'.defined.text)
  /-- An operand that reads a slot reads the variable of the last definition of the slot above, in a field reference as
  the receiver of the same field. -/
  reads : ∀ (q p k : Nat) (u u' d' : Statement) (v : Value) (slot : String), q < p → units[p]? = some u →
    us[p]? = some u' → us[q]? = some d' → DefinedAt units slot q → (∀ m, q < m → m < p → ¬DefinedAt units slot m) →
    u.readOperands[k]? = some v → v.slot? = some slot →
      ∃ v', u'.readOperands[k]? = some v' ∧ v'.slot? = some d'.defined.text ∧ v'.fieldSignature = v.fieldSignature
  /-- What a defining statement sets that is no variable stays as it is. -/
  receivers : ∀ (p : Nat) (u u' : Statement), units[p]? = some u → us[p]? = some u' → u.kind.definesLocal = true →
    u.left.isVariable = false → u'.left = u.left

/-- A body without branches whose variables are named as the format says comes out in single-assignment form. -/
theorem renameBody?_single_assignment (named : ∀ u ∈ units, u.SpecNamed)
    (straight : ∀ u ∈ units, u.kind.isBranch = false) (short : units.length < 2 ^ 62) :
    ∃ us aliases, renameBody? units = some (us, aliases) ∧ SingleAssignment units us := by
  have nests := nests_of_straight straight
  have inside : BranchesInside units.length units := by
    intro u member t jump
    have jumpless : u.jumps = [] := by
      have plain := straight u member
      simp only [Statement.jumps]
      split <;> simp_all [Kind.isBranch]
    rw [jumpless] at jump
    cases jump
  obtain ⟨us, aliases, ran⟩ := exists_renameBody? inside
  obtain ⟨regions, state, found, trace⟩ := exists_trace ran
  cases nests.found.symm.trans found
  have wellNamed : ∀ u ∈ units, u.WellNamed := fun u member => (named u member).wellNamed
  have length : us.length = units.length := (renameBody?_replaces ran).length_eq
  refine ⟨us, aliases, ran, length, ?_, ?_, ?_, ?_⟩
  · intro p q d' e' toP toQ presentP presentQ same
    obtain ⟨d, atP, keptP⟩ := trace.exists_original wellNamed short length toP
    obtain ⟨e, atQ, keptQ⟩ := trace.exists_original wellNamed short length toQ
    have presentP := keptP.symm.trans presentP
    have presentQ := keptQ.symm.trans presentQ
    rcases Nat.lt_trichotomy p q with before | rfl | before
    · exact absurd same (trace.distinct nests wellNamed short before atP toP atQ toQ presentP presentQ)
    · rfl
    · exact absurd same.symm (trace.distinct nests wellNamed short before atQ toQ atP toP presentQ presentP)
  · exact fun p u u' atP toP present => trace.definition_named nests short named atP toP present
  · exact fun q p k u u' d' v slot below atP toP toQ defined clear read slots =>
      trace.read_below wellNamed short below atP toP toQ defined clear read slots
  · exact fun p u u' atP toP kind open_ => trace.left_kept atP toP kind open_

/-- Objects of two classes in one variable, with a field that is set and read of each. -/
private def reusing : List Statement := Method.finalBody "<a.B: void m()>"
  [.new "$r1" "a.B", .assign "$i99999" "1", .assign "$r1.<a.B: int F>" "$i99999", .assign "$i99999" "$r1.<a.B: int F>",
    .new "$r1" "a.C", .arrayStore "$r1" "$i99999" "$i99999", .assign "$r1" "$r1", .call "$r1" "<lib.X: void x(int)>" ["$i99999"],
    .retVoid]

set_option maxRecDepth 100000 in
private theorem reusing_facts : (∀ u ∈ reusing, u.SpecNamed) ∧ (∀ u ∈ reusing, u.kind.isBranch = false) ∧
    reusing.length = 9 := by
  decide +kernel

theorem reusing_single_assignment : ∃ us aliases, renameBody? reusing = some (us, aliases) ∧ SingleAssignment reusing us := by
  obtain ⟨named, straight, size⟩ := reusing_facts
  exact renameBody?_single_assignment named straight (by rw [size]; decide)

/-- The field of a new object is set to what a call gives. -/
private def refilling : List Statement := Method.finalBody "<a.B: void m()>"
  [.thisRef "r0" "a.B", .new "r0" "a.B", .callAssign "r0.<a.B: int F>" "" "<lib.X: int x()>" [], .retVoid]

set_option maxRecDepth 100000 in
/-- The receiver of the field counts as read, and it keeps the name that the variable had before the object was made. -/
theorem refilling_receiver_kept : (∀ u ∈ refilling, u.SpecNamed ∧ u.kind.isBranch = false) ∧ DefinedAt refilling "r0" 1 ∧
    (∃ u ∈ refilling[2]?, u.readsSlot "r0" = true ∧ u.left.isFieldRef = true ∧ u.left.base = "r0") ∧
    ∃ x ∈ renameBody? refilling, (x.1[1]?.map (·.defined.text)) = some "r1" ∧
      (x.1[2]?.map (·.left.text)) = some "r0.<a.B: int F>" := by
  decide +kernel

end Renaming

end MisuseSlice
