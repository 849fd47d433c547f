import MisuseSlice.Proofs.Body.Flow
import MisuseSlice.Proofs.Body.Ownership

/-! Links from definitions to reads. A read takes the name in use where the pass comes to it, and a definition
leaves the name in use that it is given. So a read gets the name of the last definition on a path if the name in
use is the same at both ends of every step of the path. -/
namespace MisuseSlice

theorem IsSlotName.ne_empty {n : String} (slotName : IsSlotName n) : n ≠ "" := by
  rintro rfl
  obtain ⟨mark, letter, digits, parts, marked, -⟩ := slotName
  rcases marked with rfl | rfl <;> simp at parts

namespace Value

/-- The slot that an operand reads: a variable, or the receiver of a field reference. -/
def slot? (v : Value) : Option String :=
  if v.isVariable then some v.text else if v.isFieldRef && v.base != "" then some v.base else none

theorem slot?_of_variable {v : Value} (variable_ : v.isVariable = true) : v.slot? = some v.text := if_pos variable_

theorem slot?_of_receiver {v : Value} (variable_ : v.isVariable = false) (field : v.isFieldRef = true)
    (receiver : v.base ≠ "") : v.slot? = some v.base := by
  simp [slot?, variable_, field, receiver]

theorem isAbsent_renamed {v : Value} {n : String} (slotName : IsSlotName n) : (v.renamed n).isAbsent = false := by
  simp [isAbsent, text_renamed slotName, slotName.ne_empty]

/-- A value under another name reads the slot of that name. -/
theorem slot?_renamed {v : Value} {n : String} (slotName : IsSlotName n) : (v.renamed n).slot? = some n := by
  rw [slot?_of_variable (isVariable_renamed slotName), text_renamed slotName]

/-- A renamed operand reads the name in use for the slot that it read. -/
theorem slot?_rename {v : Value} {scope : Scope} {slot : String} (reads : v.slot? = some slot)
    (named : ∀ n, scope.names[slot]? = some n → IsSlotName n) : (v.rename scope).slot? = some (scope.nameOf slot) := by
  have nameOf : ∀ n, scope.names[slot]? = some n → n ≠ "" ∧ scope.nameOf slot = n := by
    intro n here
    have filled := (named n here).ne_empty
    exact ⟨filled, by simp [Scope.nameOf, here, filled]⟩
  have absent : scope.names[slot]? = none → scope.nameOf slot = slot := by
    intro none
    simp [Scope.nameOf, none]
  have unchanged := reads
  simp only [slot?] at reads
  split at reads
  · rename_i variable_
    cases reads
    simp only [rename, variable_, ↓reduceIte]
    split
    · rename_i n here
      rw [(nameOf n here).2]
      split
      · exact slot?_renamed (named n here)
      · rename_i same
        have same : n = v.text := by simpa using same
        rw [unchanged, same]
    · rename_i none
      rw [absent none, unchanged]
  · rename_i open_
    have open_ : v.isVariable = false := by simpa using open_
    split at reads
    · rename_i field
      cases reads
      simp only [rename, open_, field, Bool.false_eq_true, ↓reduceIte]
      split
      · rename_i n here
        obtain ⟨filled, inUse⟩ := nameOf n here
        rw [inUse]
        split
        · exact slot?_of_receiver (v := { v with base := n, text := n ++ "." ++ v.fieldSignature }) open_
            (Bool.and_eq_true_iff.mp field).1 filled
        · rename_i same
          have same : n = v.base := by simpa using same
          rw [unchanged, same]
      · rename_i none
        rw [absent none, unchanged]
    · cases reads

end Value

namespace Statement

/-- The operands that the statement reads. -/
def readOperands (u : Statement) : List Value :=
  (if u.kind.definesLocal then [] else [u.left]) ++ [u.right, u.base, u.index] ++ u.args

theorem readOperands_renameReads {u : Statement} {scope : Scope} :
    (u.renameReads scope).readOperands = u.readOperands.map (·.rename scope) := by
  by_cases defines : u.kind.definesLocal = true
  · simp [readOperands, renameReads, defines]
  · simp [readOperands, renameReads, defines]

/-- A statement whose reads take the names in use defines what it defined. -/
theorem defined_renameReads {u : Statement} {scope : Scope} : (u.renameReads scope).defined = u.defined := by
  by_cases defines : u.kind.definesLocal = true <;> simp [defined, renameReads, defines]

/-- A statement that assigns a variable defines it. -/
theorem defined_setLeft {u : Statement} {v : Value} (kind : u.kind.definesLocal = true)
    (variable_ : v.isVariable = true) : ({ u with left := v } : Statement).defined = v := by
  simp [defined, kind, variable_]

/-- The statement gives the slot a value. -/
def Defines (u : Statement) (slot : String) : Prop := u.defined.isAbsent = false ∧ u.defined.text = slot

instance (u : Statement) (slot : String) : Decidable (u.Defines slot) := inferInstanceAs (Decidable (_ ∧ _))

end Statement

/-- The operand that a statement reads is the variable that the statement at `q` defines, and no statement between
them defines that variable. -/
def Linked (units : List Statement) (q : Nat) (mid : List Nat) (p k : Nat) : Prop :=
  ∃ d ∈ units[q]?, ∃ u ∈ units[p]?, ∃ v ∈ u.readOperands[k]?, d.defined.isAbsent = false ∧
    v.slot? = some d.defined.text ∧
    ∀ m ∈ mid, ∀ w ∈ units[m]?, ¬w.Defines d.defined.text

instance (units : List Statement) (q : Nat) (mid : List Nat) (p k : Nat) : Decidable (Linked units q mid p k) :=
  inferInstanceAs (Decidable (∃ d ∈ units[q]?, ∃ u ∈ units[p]?, ∃ v ∈ u.readOperands[k]?,
    _ ∧ _ ∧ ∀ m ∈ mid, ∀ w ∈ units[m]?, _))

namespace Renaming

/-- The states of the pass over a body, one before each position, and what it makes of the statements. -/
structure Trace (units : List Statement) (regions : List Region) (us : List Statement) (state : Nat → Renaming) :
    Prop where
  start : state 0 = { counters := .ofStatements units }
  step : ∀ (pos : Nat) (u : Statement), units[pos]? = some u →
    ∃ u', us[pos]? = some u' ∧ step? units regions (state pos) u pos = some (u', state (pos + 1))

/-- The states of a pass over the statements from a position on. -/
theorem exists_states {units rest us : List Statement} {regions : List Region} {pos : Nat} {s final : Renaming}
    (ran : run? units regions pos rest s = some (us, final)) :
    ∃ state : Nat → Renaming, state pos = s ∧ ∀ (i : Nat) (u : Statement), rest[i]? = some u →
      ∃ u', us[i]? = some u' ∧ step? units regions (state (pos + i)) u (pos + i) = some (u', state (pos + i + 1)) := by
  induction rest generalizing pos s us with
  | nil => exact ⟨fun _ => s, rfl, fun _ _ here => by simp at here⟩
  | cons u rest ih =>
    simp only [run?] at ran
    split at ran
    · cases ran
    · rename_i u₁ s₁ stepped
      split at ran
      · cases ran
      · rename_i us₁ s₂ tail
        cases ran
        obtain ⟨state, start, steps⟩ := ih tail
        refine ⟨fun p => if p = pos then s else state p, by simp, ?_⟩
        intro i v here
        cases i with
        | zero =>
          cases here
          refine ⟨u₁, rfl, ?_⟩
          simpa [start] using stepped
        | succ i =>
          obtain ⟨u', there, next⟩ := steps i v here
          refine ⟨u', there, ?_⟩
          have place : pos + (i + 1) = pos + 1 + i := by omega
          have later : pos + 1 + i ≠ pos := by omega
          have after : pos + 1 + i + 1 ≠ pos := by omega
          simpa [place, later, after] using next

/-- A body that is renamed has its states. -/
theorem exists_trace {units us : List Statement} {aliases : Std.TreeMap String Value}
    (ran : renameBody? units = some (us, aliases)) :
    ∃ regions state, Region.all units = some regions ∧ Trace units regions us state := by
  simp only [renameBody?] at ran
  split at ran
  · cases ran
  · rename_i regions found
    obtain ⟨⟨us', final⟩, passed, same⟩ := Option.map_eq_some_iff.mp ran
    cases same
    obtain ⟨state, start, steps⟩ := exists_states passed
    exact ⟨regions, state, found, start, fun pos u here => by simpa using steps pos u here⟩

variable {units us : List Statement} {regions : List Region} {state : Nat → Renaming} {s s' : Renaming}
  {u u' : Statement} {pos : Nat} {slot other : String} {new : Option String}

/-- A definition takes its name into use, or keeps the name in use. -/
theorem define?_scope (ran : define? units regions s slot pos = some (new, s')) :
    (s'.scope.names = s.scope.names.insert slot (new.getD slot)) ∨
      (s'.scope = s.scope ∧ new = some (s.scope.nameOf slot)) := by
  simp only [define?] at ran
  split at ran
  · cases ran
    exact .inl (by simp [Scope.use])
  · split at ran
    · cases ran
      exact .inl rfl
    · split at ran
      · split at ran
        · cases ran
        · split at ran <;> cases ran
          · exact .inl rfl
          · exact .inr ⟨rfl, rfl⟩
      · cases ran
        exact .inr ⟨rfl, rfl⟩
      · split at ran
        · split at ran <;> cases ran
          · exact .inl rfl
          · exact .inl rfl
        · cases ran
          exact .inr ⟨rfl, rfl⟩

/-- After a definition of another slot the name of a slot is what it was. -/
theorem define?_nameOf_other (ran : define? units regions s slot pos = some (new, s')) (apart : slot ≠ other) :
    s'.scope.nameOf other = s.scope.nameOf other := by
  rcases define?_scope ran with names | ⟨scope, _⟩
  · simp [Scope.nameOf, names, Std.TreeMap.getElem?_insert, Std.LawfulEqCmp.compare_eq_iff_eq, apart]
  · rw [scope]

/-- After a definition its name is in use. -/
theorem define?_nameOf (ran : define? units regions s slot pos = some (new, s')) (filled : new.getD slot ≠ "") :
    s'.scope.nameOf slot = new.getD slot := by
  rcases define?_scope ran with names | ⟨scope, kept⟩
  · simp [Scope.nameOf, names, filled]
  · rw [scope, kept, Option.getD_some]

/-- What the pass makes of one statement: it reads under the names in use, and a slot that it defines gets the
name that is in use afterwards. -/
theorem step?_spec {owns : String → String → Prop} {k : Int} (owned : s.Owned owns k)
    (own : u.defined.isAbsent = false → owns u.defined.text u.defined.text) (room : k + 1 < 2 ^ 63)
    (ran : step? units regions s u pos = some (u', s')) :
    u'.readOperands = u.readOperands.map (·.rename (arrive regions s pos).scope) ∧
    u'.defined.isAbsent = u.defined.isAbsent ∧
      (u.defined.isAbsent = false → s'.scope.nameOf u.defined.text = u'.defined.text) ∧
      ∀ slot, ¬u.Defines slot → s'.scope.nameOf slot = (arrive regions s pos).scope.nameOf slot := by
  have arrived : (arrive regions s pos).Owned owns k := owned.arrive
  simp only [step?] at ran
  split at ran
  · rename_i absent
    cases ran
    refine ⟨Statement.readOperands_renameReads, congrArg _ Statement.defined_renameReads, fun defines => ?_,
      fun _ _ => rfl⟩
    rw [absent] at defines
    cases defines
  · rename_i present
    have defines : u.defined.isAbsent = false := by simpa using present
    obtain ⟨left, kind, variable_⟩ := Statement.defined_eq_left defines
    split at ran
    · cases ran
    · rename_i t defined
      cases ran
      obtain ⟨more, _, owned', mine⟩ := define?_owned arrived (own defines) room defined
      refine ⟨Statement.readOperands_renameReads, congrArg _ Statement.defined_renameReads, fun _ => ?_, ?_⟩
      · rw [Statement.defined_renameReads]
        exact define?_nameOf defined (owned'.named _ _ mine).ne_empty
      · exact fun slot other => define?_nameOf_other defined fun same => other ⟨defines, same⟩
    · rename_i n t defined
      cases ran
      obtain ⟨more, _, owned', mine⟩ := define?_owned arrived (own defines) room defined
      have slotName : IsSlotName n := owned'.named _ _ mine
      have kind' : (u.renameReads (arrive regions s pos).scope).kind.definesLocal = true := kind
      rw [Statement.defined_setLeft kind' (Value.isVariable_renamed slotName)]
      refine ⟨?_, ?_, ?_, ?_⟩
      · rw [← Statement.readOperands_renameReads]
        simp [Statement.readOperands, Statement.renameReads, kind]
      · rw [defines, Value.isAbsent_renamed slotName]
      · intro _
        rw [Value.text_renamed slotName]
        exact define?_nameOf defined slotName.ne_empty
      · exact fun slot other => define?_nameOf_other defined fun same => other ⟨defines, same⟩

namespace Trace

variable (trace : Trace units regions us state) (named : ∀ u ∈ units, u.WellNamed) (short : units.length < 2 ^ 62)
include trace named short

/-- At every position the names are owned, those given so far among them. -/
theorem owned {n : Nat} (inside : n ≤ units.length) :
    ∃ owns : String → String → Prop, (state n).Owned owns (99999 + n) ∧
      (∀ u ∈ units, u.defined.isAbsent = false → owns u.defined.text u.defined.text) ∧
      ∀ (i : Nat) (u u' : Statement), i < n → units[i]? = some u → us[i]? = some u' → u.defined.isAbsent = false →
        owns u'.left.text u.defined.text := by
  induction n with
  | zero =>
    refine ⟨_, trace.start ▸ owned_start named, fun u member defines => ⟨rfl, u, member, defines, rfl⟩, ?_⟩
    intro i _ _ before
    exact absurd before (Nat.not_lt_zero i)
  | succ n ih =>
    obtain ⟨owns, owned, own, given⟩ := ih (Nat.le_of_lt inside)
    have here : units[n]? = some units[n] := List.getElem?_eq_getElem inside
    obtain ⟨u', there, stepped⟩ := trace.step n _ here
    obtain ⟨more, extends_, owned', mine⟩ :=
      step?_owned owned (own _ (List.getElem_mem inside)) (by omega) stepped
    have bound : (99999 : Int) + n + 1 = 99999 + (n + 1 : Nat) := by omega
    refine ⟨more, bound ▸ owned', fun u member defines => extends_ _ _ (own u member defines), ?_⟩
    intro i u v before atI toI defines
    rcases Nat.lt_succ_iff_lt_or_eq.mp before with earlier | rfl
    · exact extends_ _ _ (given i u v earlier atI toI defines)
    · cases here.symm.trans atI
      cases there.symm.trans toI
      exact mine defines

/-- What the pass makes of the statement at a position. -/
theorem spec (here : units[pos]? = some u) :
    ∃ u', us[pos]? = some u' ∧ u'.readOperands = u.readOperands.map (·.rename (arrive regions (state pos) pos).scope) ∧
      u'.defined.isAbsent = u.defined.isAbsent ∧
      (u.defined.isAbsent = false → (state (pos + 1)).scope.nameOf u.defined.text = u'.defined.text) ∧
      ∀ slot, ¬u.Defines slot →
        (state (pos + 1)).scope.nameOf slot = (arrive regions (state pos) pos).scope.nameOf slot := by
  have inside := (List.getElem?_eq_some_iff.mp here).1
  obtain ⟨owns, owned, own, _⟩ := trace.owned named short (Nat.le_of_lt inside)
  obtain ⟨u', there, stepped⟩ := trace.step pos u here
  exact ⟨u', there, step?_spec owned (own u (List.mem_of_getElem? here)) (by omega) stepped⟩

/-- Two definitions of different slots give different names. -/
theorem apart {p q : Nat} {v v' : Statement} (atP : units[p]? = some u) (toP : us[p]? = some u')
    (atQ : units[q]? = some v) (toQ : us[q]? = some v') (definesP : u.defined.isAbsent = false)
    (definesQ : v.defined.isAbsent = false) (other : u.defined.text ≠ v.defined.text) :
    u'.defined.text ≠ v'.defined.text := by
  intro same
  obtain ⟨owns, owned, _, given⟩ := trace.owned named short (Nat.le_refl _)
  have gives : ∀ (i : Nat) (w w' : Statement), units[i]? = some w → us[i]? = some w' → w.defined.isAbsent = false →
      owns w'.defined.text w.defined.text := by
    intro i w w' atI toI defines
    obtain ⟨w'', toI', _, present, _⟩ := trace.spec named short atI
    cases toI'.symm.trans toI
    rw [← (Statement.defined_eq_left (present.trans defines)).1]
    exact given i w w' (List.getElem?_eq_some_iff.mp atI).1 atI toI defines
  exact other (owned.single _ _ _ (same ▸ gives p u u' atP toP definesP) (gives q v v' atQ toQ definesQ))

/-- The name of a slot is in use along a path without definitions of the slot, if it is the same at both ends of
every step. -/
theorem nameOf_along {mid : List Nat} {p q : Nat}
    (agrees : (q :: mid ++ [p]).IsChain fun a b =>
      (state (a + 1)).scope.nameOf slot = (arrive regions (state b) b).scope.nameOf slot)
    (clear : ∀ m ∈ mid, ∃ u, units[m]? = some u ∧ ¬u.Defines slot) :
    (arrive regions (state p) p).scope.nameOf slot = (state (q + 1)).scope.nameOf slot := by
  induction mid generalizing q with
  | nil => exact (List.isChain_cons_cons.mp agrees).1.symm
  | cons m mid ih =>
    obtain ⟨first, rest⟩ := List.isChain_cons_cons.mp agrees
    obtain ⟨u, here, other⟩ := clear m List.mem_cons_self
    obtain ⟨_, _, _, _, _, keeps⟩ := trace.spec named short here
    rw [ih rest fun m member => clear m (List.mem_cons_of_mem _ member), keeps slot other, ← first]

/-- A read is linked to the last definition on a path, if the name in use for the slot is the same at both ends of
every step of the path. -/
theorem linked_of_agrees {mid : List Nat} {p q k : Nat} {v : Value}
    (agrees : (q :: mid ++ [p]).IsChain fun a b =>
      (state (a + 1)).scope.nameOf slot = (arrive regions (state b) b).scope.nameOf slot)
    (defines : ∃ u, units[q]? = some u ∧ u.Defines slot)
    (clear : ∀ m ∈ mid, ∃ u, units[m]? = some u ∧ ¬u.Defines slot) (here : units[p]? = some u)
    (read : u.readOperands[k]? = some v) (slots : v.slot? = some slot) : Linked us q mid p k := by
  obtain ⟨d, atQ, present, rfl⟩ := defines
  obtain ⟨d', toQ, _, presentQ, gives, _⟩ := trace.spec named short atQ
  obtain ⟨u', toP, reads, _⟩ := trace.spec named short here
  have inUse := (trace.nameOf_along named short agrees clear).trans (gives present)
  have inside := (List.getElem?_eq_some_iff.mp here).1
  obtain ⟨owns, owned, _, _⟩ := trace.owned named short (Nat.le_of_lt inside)
  have slotNames : ∀ n, (arrive regions (state p) p).scope.names[d.defined.text]? = some n → IsSlotName n :=
    fun n entered => owned.named n _ (owned.arrive.scope _ n entered)
  refine ⟨d', toQ, u', toP, v.rename (arrive regions (state p) p).scope, ?_, presentQ.trans present, ?_, ?_⟩
  · rw [reads, List.getElem?_map, read, Option.map_some, Option.mem_def]
  · rw [Value.slot?_rename slots slotNames, inUse]
  · rintro m member w toM ⟨present', name⟩
    obtain ⟨e, atM, other⟩ := clear m member
    obtain ⟨e', toM', _, presentM, _⟩ := trace.spec named short atM
    cases toM'.symm.trans toM
    have presentM : e.defined.isAbsent = false := presentM.symm.trans present'
    have different : e.defined.text ≠ d.defined.text := fun same => other ⟨presentM, same⟩
    exact trace.apart named short atM toM' atQ toQ presentM present different name

end Trace

end Renaming

end MisuseSlice
