import MisuseSlice.Proofs.Body.DeadCode
import MisuseSlice.Proofs.Body.Links
import MisuseSlice.Proofs.CallGraph.Holdings

/-! Propagated constants against control flow. One map of constants is carried down the body for all paths. It is
empty wherever a statement jumps to, and a dead range is left only to such a position or to a jump. So what the map
says of a variable at a statement that is not dead was given by the last definition of the variable, on whatever path
control comes to the statement. -/
namespace MisuseSlice

namespace Renaming

variable {units renamed : List Statement} {regions : List Region} {s after : Renaming} {u u' : Statement} {pos : Nat}
  {name : String}

/-- Renaming keeps what a statement assigns or gives it another name. -/
theorem step?_left (stepped : step? units regions s u pos = some (u', after)) :
    u'.kind = u.kind ∧ (u.kind.definesLocal = true → u'.left = u.left ∨ ∃ n, u'.left = u.left.renamed n) := by
  have kept : u.kind.definesLocal = true → (u.renameReads (arrive regions s pos).scope).left = u.left := fun defines => by
    simp [Statement.renameReads, defines]
  simp only [step?] at stepped
  split at stepped
  · cases stepped
    exact ⟨rfl, fun defines => .inl (kept defines)⟩
  · split at stepped
    · cases stepped
    · cases stepped
      exact ⟨rfl, fun defines => .inl (kept defines)⟩
    · rename_i n _ _
      cases stepped
      exact ⟨rfl, fun defines => .inr ⟨n, congrArg (Value.renamed · n) (kept defines)⟩⟩

/-- Where the statements of a body assign variables, so do those of the renamed body that assign what is named like
one. -/
theorem present_of_writes {aliases : Std.TreeMap String Value} (ran : renameBody? units = some (renamed, aliases))
    (assigns : ∀ u ∈ units, u.kind.definesLocal = true → u.left.isVariable = true) (named : Statement.IsName name) :
    ∀ w ∈ renamed, w.Writes name → w.defined.isAbsent = false := by
  intro w member writes
  obtain ⟨regions, state, -, trace⟩ := exists_trace ran
  obtain ⟨i, there⟩ := List.mem_iff_getElem?.mp member
  have inside : i < units.length := by
    rw [← (renameBody?_replaces ran).length_eq]
    exact (List.getElem?_eq_some_iff.mp there).1
  obtain ⟨w', there', stepped⟩ := trace.step i _ (List.getElem?_eq_getElem inside)
  cases there.symm.trans there'
  obtain ⟨kind, left⟩ := step?_left stepped
  obtain ⟨defines, text⟩ := writes
  have variable_ : w.left.isVariable = true := by
    rcases left (kind ▸ defines) with same | ⟨n, renamed⟩
    · rw [same]
      exact assigns _ (List.getElem_mem inside) (kind ▸ defines)
    · rw [Statement.IsName, ← text, renamed, Value.text_renamed_eq, Value.read_text] at named
      rw [renamed, Statement.isVariable_iff, Value.kind_renamed, ← Statement.isVariable_iff]
      exact named
  rw [Statement.defined, defines, variable_, Value.isAbsent]
  simpa [text] using named.ne_empty

end Renaming

namespace Folding

variable {live : Bool} {method : String} {units : List Statement} {s : State} {u : Statement} {cs : Constants}
  {pos p q : Nat} {name : String} {c : Value}

/-- The statement gives its variable the constant, where these constants are known before it: it assigns the constant,
copies or casts an operand that is resolved to it, or is a call that is folded to it. -/
def Gives (cs : Constants) (u : Statement) (c : Value) : Prop :=
  (u.kind = .assignVariableConstant ∧ u.right = c) ∨
  ((u.kind = .assignVariableVariable ∨ u.kind = .cast) ∧ cs.resolve? u.right = some c) ∨
  (u.kind = .assignInvoke ∧ ∃ folded, call? cs u = some folded ∧ folded.right = c)

/-- A position to which a statement jumps. -/
theorem mem_branchTargets {t : Int} : t ∈ branchTargets units ↔ ∃ u ∈ units, t ∈ u.jumps :=
  List.mem_flatMap

/-- Nothing is known where paths join, and at any other position what was known before. -/
theorem known_eq_some (knows : (known live method units pos)[name]? = some c) :
    (pos : Int) ∉ branchTargets units ∧ (before live method units pos).constants[name]? = some c := by
  simp only [known] at knows
  split at knows
  · simp at knows
  · rename_i apart
    exact ⟨fun joins => apart (List.contains_iff_mem.mpr joins), knows⟩

/-- What is known of a variable after it is set is what it was set to. -/
theorem writes_or_kept_of_hold {v : Value} (defines : u.kind.definesLocal = true)
    (knows : (cs.insert u.left.text v)[name]? = some c) :
    (u.Writes name ∧ v = c) ∨ (¬u.Writes name ∧ cs[name]? = some c) := by
  rcases Maps.getElem?_insert_eq_some.mp knows with ⟨same, value⟩ | ⟨apart, kept⟩
  · exact .inl ⟨⟨defines, same⟩, value⟩
  · exact .inr ⟨fun writes => apart writes.2, kept⟩

/-- What is known after a definition is forgotten was known before, of another variable. -/
theorem not_writes_of_forget (present : u.Writes name → u.defined.isAbsent = false)
    (kept : (if u.defined.isAbsent then s else { s with constants := s.constants.erase u.defined.text }).constants[name]? =
      some c) : ¬u.Writes name ∧ s.constants[name]? = some c := by
  split at kept
  · rename_i absent
    refine ⟨fun writes => ?_, kept⟩
    rw [present writes] at absent
    cases absent
  · rename_i defines
    obtain ⟨apart, kept⟩ := Maps.getElem?_erase_eq_some.mp kept
    refine ⟨fun writes => apart ?_, kept⟩
    rw [← (Statement.defined_eq_left (by simpa using defines)).1, writes.2]

/-- A constant that is known after a statement was given by the statement or known before it. -/
theorem gives_or_known (present : u.Writes name → u.defined.isAbsent = false)
    (knows : (step live method units s u pos).2.constants[name]? = some c) :
    (u.Writes name ∧ Gives s.constants u c) ∨ (¬u.Writes name ∧ s.constants[name]? = some c) := by
  simp only [step] at knows
  split at knows
  · rename_i kind
    refine (writes_or_kept_of_hold (by simp [kind, Kind.definesLocal]) knows).imp_left fun held => ⟨held.1, .inl ⟨kind, held.2⟩⟩
  · rename_i kind
    split at knows
    · rename_i v resolved
      refine (writes_or_kept_of_hold (by simp [kind, Kind.definesLocal]) knows).imp_left fun held => ⟨held.1, ?_⟩
      exact .inr (.inl ⟨.inl kind, held.2 ▸ resolved⟩)
    · exact .inr (not_writes_of_forget present knows)
  · rename_i kind
    split at knows
    · rename_i v resolved
      refine (writes_or_kept_of_hold (by simp [kind, Kind.definesLocal]) knows).imp_left fun held => ⟨held.1, ?_⟩
      exact .inr (.inl ⟨.inr kind, held.2 ▸ resolved⟩)
    · exact .inr (not_writes_of_forget present knows)
  · rename_i kind
    split at knows
    · rename_i folded ran
      refine (writes_or_kept_of_hold (by simp [kind, Kind.definesLocal]) knows).imp_left fun held => ⟨held.1, ?_⟩
      exact .inr (.inr ⟨kind, folded, ran, held.2⟩)
    · exact .inr (not_writes_of_forget present knows)
  · rename_i kind
    exact .inr ⟨fun writes => by simp [Statement.Writes, kind, Kind.definesLocal] at writes, knows⟩
  · exact .inr (not_writes_of_forget present knows)

/-- The pass leaves at a live position what its step there makes of the statement. -/
theorem body_getElem? (here : units[p]? = some u) (alive : p ∉ (before live method units p).dead) :
    (body live method units).1[p]? = some (step live method units
      { before live method units p with constants := known live method units p } u p).1 := by
  have inside : p < units.length := (List.getElem?_eq_some_iff.mp here).1
  have parts : units = units.take p ++ u :: units.drop (p + 1) := by
    rw [← (List.getElem?_eq_some_iff.mp here).2, ← List.drop_eq_getElem_cons inside, List.take_append_drop]
  have length : (units.take p).length = p := by rw [List.length_take, Nat.min_eq_left (Nat.le_of_lt inside)]
  have made : (run live method units (branchTargets units) 0 (units.take p) {}).1.length = p :=
    run_replaces.length_eq.trans length
  have whole : (body live method units).1 =
      (run live method units (branchTargets units) 0 (units.take p) {}).1 ++
        (run live method units (branchTargets units) p (u :: units.drop (p + 1)) (before live method units p)).1 := by
    have split := @run_append live method units (branchTargets units) {} 0 (units.take p) (u :: units.drop (p + 1))
    rw [← parts, length, Nat.zero_add] at split
    simp only [body, split, before]
  rw [whole, List.getElem?_append_right (by omega), made, Nat.sub_self, run]
  simp only [List.contains_eq_mem, alive, decide_false, Bool.false_eq_true, ↓reduceIte, List.getElem?_cons_zero]
  rw [← List.contains_eq_mem, joined_eq]

/-! ### Dead ranges -/

/-- What is dead to the pass when it comes to a position is dead in the end. -/
theorem mem_before_dead_iff (inside : p < units.length) :
    p ∈ (before live method units p).dead ↔ p ∈ (body live method units).2.1 := by
  rw [mem_before (Nat.le_of_lt inside), mem_body_dead]
  constructor
  · rintro ⟨q, -, ruled⟩
    exact ⟨q, ruled⟩
  · rintro ⟨q, u, found, ruled⟩
    exact ⟨q, ruledOut_after ruled, u, found, ruled⟩

/-- Below a range that a verdict rules out stands a jump, or the position to which the `if` or the jump at the end of its
first side goes. -/
theorem ruledOut_succ {v : Verdict} (ruled : p ∈ ruledOut units u q v) (past : p + 1 ∉ ruledOut units u q v) :
    (∃ w ∈ units[p + 1]?, w.kind = .goto) ∨ (v ≠ .unknown ∧ ((p + 1 : Nat) : Int) = u.target) ∨
      ∃ w ∈ units, w.kind = .goto ∧ ((p + 1 : Nat) : Int) = w.target := by
  cases v with
  | unknown => simp [ruledOut] at ruled
  | holds =>
    simp only [ruledOut] at ruled past
    split at ruled
    · rename_i last found
      split at ruled
      · rename_i jumps
        simp only [found, jumps, ↓reduceIte] at past
        rw [mem_range_iff] at ruled past
        have place : u.target.toNat - 1 = p + 1 := by omega
        rw [Bool.and_eq_true, beq_iff_eq] at jumps
        exact .inl ⟨last, place ▸ found, jumps.1⟩
      · rename_i stays
        simp only [found, stays, Bool.false_eq_true, ↓reduceIte] at past
        rw [mem_range_iff] at ruled past
        exact .inr (.inl ⟨by simp, by omega⟩)
    · rename_i none
      simp only [none] at past
      rw [mem_range_iff] at ruled past
      exact .inr (.inl ⟨by simp, by omega⟩)
  | fails =>
    simp only [ruledOut] at ruled past
    split at ruled
    · simp at ruled
    · rename_i below
      simp only [below, ↓reduceIte] at past
      split at ruled
      · rename_i last found
        split at ruled
        · rename_i jumps
          simp only [found, jumps, ↓reduceIte] at past
          rw [Bool.and_eq_true, beq_iff_eq] at jumps
          rw [mem_range_iff] at ruled past
          exact .inr (.inr ⟨last, List.mem_of_getElem? found, jumps.1, by omega⟩)
        · simp at ruled
      · simp at ruled

/-- Below a dead range stands a jump, or a position that something jumps to. -/
theorem goto_below_dead (dead : p ∈ (body live method units).2.1) (alive : p + 1 ∉ (body live method units).2.1)
    (apart : ((p + 1 : Nat) : Int) ∉ branchTargets units) : ∃ w ∈ units[p + 1]?, w.kind = .goto := by
  obtain ⟨q, u, here, ruled⟩ := mem_body_dead.mp dead
  have past : p + 1 ∉ ruledOut units u q (decided live method units q) :=
    fun ruled => alive (mem_body_dead.mpr ⟨q, u, here, ruled⟩)
  rcases ruledOut_succ ruled past with jump | ⟨settled, joins⟩ | ⟨w, member, jump, joins⟩
  · exact jump
  · have branch : u.kind = .branchIf := by
      by_contra other
      exact settled (by simp [decided, Option.mem_def.mp here, other])
    exact absurd (mem_branchTargets.mpr ⟨u, List.mem_of_getElem? here, by simp [Statement.jumps, branch, joins]⟩) apart
  · exact absurd (mem_branchTargets.mpr ⟨w, member, by simp [Statement.jumps, jump, joins]⟩) apart

/-! ### Paths -/

/-- The last definition of a variable on a path, at a live position, gives the variable the constant. -/
def GivenOn (live : Bool) (method : String) (units : List Statement) (path : List Nat) (name : String) (c : Value) : Prop :=
  ∃ before q mid, path = before ++ q :: mid ∧
    (∀ m ∈ mid, ∀ w ∈ units[m]?, ¬w.Writes name) ∧ q ∉ (body live method units).2.1 ∧
    ∃ d ∈ units[q]?, d.Writes name ∧ Gives (known live method units q) d c

/-- A constant that the pass knows at a live statement was given on every path to it. -/
theorem givenOn_of_known (present : ∀ u ∈ units, u.Writes name → u.defined.isAbsent = false) {path : List Nat}
    (starts : (path ++ [p]).head? = some 0) (flows : IsPath units (path ++ [p])) (inside : p < units.length)
    (alive : p ∉ (body live method units).2.1) (stays : ∀ u ∈ units[p]?, u.kind ≠ .goto)
    (knows : (known live method units p)[name]? = some c) : GivenOn live method units path name c := by
  induction path using List.reverseRecOn generalizing p with
  | nil =>
    obtain rfl : p = 0 := by simpa using starts
    obtain ⟨-, knows⟩ := known_eq_some knows
    simp [before, run] at knows
  | append_singleton path q ih =>
    obtain ⟨apart, knows⟩ := known_eq_some knows
    obtain ⟨way, -, last⟩ := List.isChain_append.mp flows
    have begins : (path ++ [q]).head? = some 0 := by
      cases path with
      | nil => simpa using starts
      | cons _ _ => simpa using starts
    obtain ⟨u, here, goes⟩ : Flows units q p := last q (by simp) p (by simp)
    have here : units[q]? = some u := here
    have earlier := (List.getElem?_eq_some_iff.mp here).1
    have member := List.mem_of_getElem? here
    -- the position is not jumped to, so control falls into it
    obtain ⟨plain, rfl⟩ : u.kind ≠ .goto ∧ p = q + 1 := by
      rcases Statement.mem_successors goes with jump | falls
      · exact absurd (mem_branchTargets.mpr ⟨u, member, jump⟩) apart
      · exact falls
    have live_ : q ∉ (body live method units).2.1 := by
      intro dead
      obtain ⟨w, below, jumps⟩ := goto_below_dead dead alive apart
      exact stays w below jumps
    rw [before_succ here, if_neg (mt (mem_before_dead_iff earlier).mp live_)] at knows
    rcases gives_or_known (present u member) knows with ⟨writes, gives⟩ | ⟨other, knows⟩
    · exact ⟨path, q, [], rfl, by simp, live_, u, here, writes, gives⟩
    · have remains : ∀ w ∈ units[q]?, w.kind ≠ .goto := by
        intro w there
        cases here.symm.trans there
        exact plain
      obtain ⟨before, k, mid, rfl, clear, given⟩ := ih begins way earlier live_ remains knows
      refine ⟨before, k, mid ++ [q], by simp, ?_, given⟩
      intro m member w there
      rcases List.mem_append.mp member with member | final
      · exact clear m member w there
      · cases List.mem_singleton.mp final
        cases here.symm.trans there
        exact other

/-- Where a path ends in a definition of the variable, that definition gives the constant. -/
theorem GivenOn.of_last {path : List Nat} (given : GivenOn live method units (path ++ [q]) name c)
    (here : units[q]? = some u) (writes : u.Writes name) : Gives (known live method units q) u c := by
  obtain ⟨before, k, mid, same, clear, -, d, there, -, gives⟩ := given
  rcases List.eq_nil_or_concat mid with rfl | ⟨mid, last, rfl⟩
  · obtain ⟨-, rfl⟩ := List.append_inj' same rfl |>.imp_right List.singleton_inj.mp
    cases here.symm.trans there
    exact gives
  · have ends : path ++ [q] = (before ++ k :: mid) ++ [last] := by simpa using same
    obtain rfl := List.singleton_inj.mp (List.append_inj' ends rfl).2
    exact absurd writes (clear q (by simp) u here)

end Folding

namespace Body

variable {constants : String → Option Value} {live : Bool} {method : String} {units : List (Option Statement)}
  {renamed : List Statement} {b : Body} {log : Log}

/-- Where the statements of a method assign variables, so do those that folding gets and that assign what is named like
one. -/
theorem present_of_renamed (assigns : ∀ u, some u ∈ units → u.kind.definesLocal = true → u.left.isVariable = true)
    (renames : renamed? constants units = some renamed) {name : String} (named : Statement.IsName name) :
    ∀ w ∈ renamed, w.Writes name → w.defined.isAbsent = false := by
  obtain ⟨⟨us, aliases⟩, ran, rfl⟩ := Option.map_eq_some_iff.mp renames
  refine Renaming.present_of_writes ran (fun u member defines => ?_) named
  obtain ⟨v, placed, rfl⟩ := List.mem_map.mp member
  obtain ⟨i, below, rfl⟩ := List.mem_iff_getElem.mp placed
  rw [List.length_mapIdx] at below
  rw [List.getElem_mapIdx] at defines ⊢
  have listed : some (units.filterMap id)[i] ∈ units := by
    obtain ⟨w, member, same⟩ := List.mem_filterMap.mp (List.getElem_mem below)
    exact same ▸ member
  simp only [substitute] at defines ⊢
  split at defines
  · rename_i reads
    have field : (units.filterMap id)[i].kind = .assignVariableField := by
      simp only [Bool.and_eq_true, beq_iff_eq] at reads
      exact reads.1
    have left := assigns _ listed (by rw [field]; rfl)
    rw [if_pos reads]
    split <;> exact left
  · rename_i other
    rw [if_neg other]
    exact assigns (units.filterMap id)[i] listed defines

/-- Constant propagation is right on every path. The pass folds a live call, and decides a live `if`, by the constants
that it knows there. A variable that it resolves to a constant at a live statement, other than a jump that only goes on,
was given the constant by its last definition on every path from the start of the body to the statement. -/
theorem propagated_on_every_path (prepared : prepare? constants live method units = some (b, log))
    (assigns : ∀ u, some u ∈ units → u.kind.definesLocal = true → u.left.isVariable = true)
    (renames : renamed? constants units = some renamed) {p : Nat} {u : Statement} (here : renamed[p]? = some u)
    (alive : p ∉ b.dead) :
    (u.kind = .assignInvoke →
      b.source[p]? = some ((Folding.call? (Folding.known live method renamed p) u).getD u)) ∧
    (u.kind = .branchIf → verdicts constants live method units p =
      Folding.verdict live (Folding.known live method renamed p).resolve? u p) ∧
    (u.kind ≠ .goto → ∀ x c : Value, x.isVariable = true → Statement.IsName x.text →
      (Folding.known live method renamed p).resolve? x = some c →
        ∀ path, (path ++ [p]).head? = some 0 → IsPath renamed (path ++ [p]) →
          Folding.GivenOn live method renamed path x.text c) := by
  obtain ⟨renamed', names, source, dead⟩ := prepare?_folded prepared
  cases renames.symm.trans names
  rw [dead] at alive
  have inside := (List.getElem?_eq_some_iff.mp here).1
  have unmarked := mt (Folding.mem_before_dead_iff inside).mp alive
  refine ⟨fun kind => ?_, fun kind => ?_, fun plain x c variable_ named resolved path starts flows => ?_⟩
  · rw [source, Folding.body_getElem? here unmarked]
    simp only [Folding.step, kind]
    split <;> rename_i ran <;> rw [ran] <;> rfl
  · simp only [verdicts, renames, Folding.decided, here, kind, unmarked, not_false_eq_true, and_self, ↓reduceIte]
  · have open_ : x.isConstant = false := by
      rcases Statement.isVariable_iff.mp variable_ with kind | kind <;> simp [Value.isConstant, kind]
    rw [Constants.resolve?, open_, if_neg Bool.false_ne_true] at resolved
    refine Folding.givenOn_of_known (present_of_renamed assigns renames named) starts flows inside alive ?_ resolved
    intro w there
    cases here.symm.trans there
    exact plain

/-- A variable is set behind the place where the sides of a decided branch join, and copied before it is compared. -/
private def casting : List (Option Statement) :=
  ((Method.finalized { signature := "<a.B: void m(int)>", units :=
    ([.param "i0" 0 "int", .assign "i1" "5", .branch "i1" "==" "5" 5, .call "" "<lib.X: void x()>" [], .jump 6,
      .call "" "<lib.Y: void y()>" [], .assign "i2" "7", .castTo "i3" "int" "i2", .call "" "<lib.Z: void z(int)>" ["i3"],
      .branch "i3" "==" "7" 11, .assign "i3" "1", .retVoid] : List Statement).map some }).1).units

set_option maxRecDepth 100000 in
private theorem casting_facts :
    ∃ x ∈ prepare? (fun _ => none) true "<a.B: void m(int)>" casting, ∃ renamed ∈ renamed? (fun _ => none) casting,
      3 ∈ x.1.dead ∧ 9 ∉ x.1.dead ∧ (∃ u : Statement, u ∈ renamed[9]? ∧ u.kind = .branchIf) ∧
      (∀ o ∈ casting, ∀ u ∈ o, u.kind.definesLocal = true → u.left.isVariable = true) ∧
      (Folding.known true "<a.B: void m(int)>" renamed 9).resolve? (.read "i3") = some (.read "7") ∧
      IsPath renamed ([0, 1, 2, 3, 4, 6, 7, 8] ++ [9]) := by
  decide +kernel

/-- The path goes through a dead call and the jump behind it. -/
theorem casting_propagated :
    ∃ renamed, renamed? (fun _ => none) casting = some renamed ∧
      Folding.GivenOn true "<a.B: void m(int)>" renamed [0, 1, 2, 3, 4, 6, 7, 8] "i3" (.read "7") := by
  obtain ⟨⟨b, log⟩, prepared, renamed, renames, -, alive, ⟨u, here, kind⟩, assigns, resolved, flows⟩ := casting_facts
  refine ⟨renamed, renames, ?_⟩
  have variable_ : (Value.read "i3").isVariable = true := by decide +kernel
  exact (propagated_on_every_path prepared (fun u member => assigns _ member u rfl) renames here alive).2.2
    (by rw [kind]; decide) (.read "i3") _ variable_ variable_ resolved _ rfl flows

/-- A local variable whose text does not read as one. -/
private def worded : Value := { kind := .localName, text := "x y" }

/-- The variable is set again in a side of a branch, where it keeps its text, and compared behind. -/
private def resetting : List (Option Statement) :=
  ((Method.finalized { signature := "<a.B: void m(int)>", units :=
    ([.param "i0" 0 "int", { kind := .assignVariableConstant, left := worded, right := .read "5" },
      .branch "i0" "==" "0" 7,
      { kind := .assignInvoke, left := worded, invoke := "static", signature := "<lib.X: int f()>" },
      { kind := .branchIf, args := [worded, .read "5"], op := "==", target := 6 },
      .call "" "<lib.Y: void y(int)>" ["i0"], .call "" "<lib.Z: void z(int)>" ["i0"], .retVoid] :
        List Statement).map some }).1).units

set_option maxRecDepth 100000 in
private theorem resetting_facts :
    ∃ x ∈ prepare? (fun _ => none) true "<a.B: void m(int)>" resetting,
      ∃ renamed ∈ renamed? (fun _ => none) resetting,
        (∀ o ∈ resetting, ∀ u ∈ o, u.kind.definesLocal = true → u.left.isVariable = true) ∧
        (4 ∉ x.1.dead ∧ 5 ∈ x.1.dead) ∧ (∃ u : Statement, u ∈ renamed[4]? ∧ u.kind = .branchIf ∧ worded ∈ u.args) ∧
        (Folding.known true "<a.B: void m(int)>" renamed 4).resolve? worded = some (.read "5") ∧
        IsPath renamed ([0, 1, 2, 3] ++ [4]) ∧
        ∃ d : Statement, d ∈ renamed[3]? ∧
          d.kind = .assignInvoke ∧ d.left.text = worded.text ∧ Folder.find? d.signature = none := by
  decide +kernel

/-- The pass still takes the variable for the constant behind a call that sets it: under its text the assigned operand
is no variable, so that nothing is forgotten. -/
theorem resetting_unpropagated :
    ∃ (b : Body) (log : Log) (renamed : List Statement),
      prepare? (fun _ => none) true "<a.B: void m(int)>" resetting = some (b, log) ∧
      renamed? (fun _ => none) resetting = some renamed ∧
      (∀ u, some u ∈ resetting → u.kind.definesLocal = true → u.left.isVariable = true) ∧
      (4 ∉ b.dead ∧ 5 ∈ b.dead) ∧ (∃ u : Statement, renamed[4]? = some u ∧ u.kind = .branchIf ∧ worded ∈ u.args) ∧
      worded.isVariable = true ∧
      (Folding.known true "<a.B: void m(int)>" renamed 4).resolve? worded = some (.read "5") ∧
      IsPath renamed ([0, 1, 2, 3] ++ [4]) ∧
      ¬Folding.GivenOn true "<a.B: void m(int)>" renamed [0, 1, 2, 3] worded.text (.read "5") := by
  obtain ⟨⟨b, log⟩, prepared, renamed, renames, assigns, dead, ⟨u, here, branch, asks⟩, resolved, flows,
    d, there, call, text, unknown⟩ := resetting_facts
  refine ⟨b, log, renamed, prepared, renames, fun u member => assigns _ member u rfl, dead, ⟨u, here, branch, asks⟩,
    rfl, resolved, flows, fun given => ?_⟩
  have given : Folding.GivenOn true _ renamed ([0, 1, 2] ++ [3]) worded.text (.read "5") := given
  have gives := given.of_last there ⟨by simp [call, Kind.definesLocal], text⟩
  simp [Folding.Gives, Folding.call?, call, unknown] at gives

end Body

end MisuseSlice
