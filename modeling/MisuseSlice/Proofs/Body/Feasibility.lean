import MisuseSlice.Body.Feasibility
import MisuseSlice.Proofs.Body.DeadCode

/-! Feasibility against control flow. The walk over the retained positions knows one constant for a
variable, wherever it stands. That is the constant on a path through the body as long as what a retained
statement assigns is assigned nowhere else and assigned before it is read; and the side of an `if` that
the walk drops is a side that the path does not enter. -/
namespace MisuseSlice

/-- The statement hands the value of an operand to a variable. -/
def Statement.isTransfer (u : Statement) : Bool :=
  u.kind == .assignVariableConstant || u.kind == .assignVariableVariable || u.kind == .cast

/-- The operands through which constants are followed. -/
def Statement.followed (u : Statement) : List Value :=
  match u.kind with
  | .assignVariableVariable | .cast => [u.right]
  | .branchIf => u.args
  | _ => []

namespace Constants

/-- The constants that variables hold after a statement: a copy hands its operand's on, and what else gives
a variable a value makes it unknown. -/
def after (cs : Constants) (u : Statement) : Constants :=
  match u.kind with
  | .assignVariableConstant => cs.insert u.left.text u.right
  | .assignVariableVariable | .cast =>
    match cs.resolve? u.right with
    | some c => cs.insert u.left.text c
    | none => cs.erase u.left.text
  | k => if k.definesLocal then cs.erase u.left.text else cs

variable {cs : Constants} {u : Statement} {name : String}

theorem after_of_not_writes (other : ¬u.Writes name) : (cs.after u)[name]? = cs[name]? := by
  have apart : u.kind.definesLocal = true → u.left.text ≠ name := fun defines same => other ⟨defines, same⟩
  simp only [after]
  split
  · rename_i kind
    rw [Std.TreeMap.getElem?_insert]
    simp [apart (by simp [kind, Kind.definesLocal])]
  · rename_i kind
    have apart := apart (by simp [kind, Kind.definesLocal])
    split <;> simp [Std.TreeMap.getElem?_insert, Std.TreeMap.getElem?_erase, apart]
  · rename_i kind
    have apart := apart (by simp [kind, Kind.definesLocal])
    split <;> simp [Std.TreeMap.getElem?_insert, Std.TreeMap.getElem?_erase, apart]
  · split
    · rename_i defines
      simp [Std.TreeMap.getElem?_erase, apart defines]
    · rfl

end Constants

namespace KnownValues

variable {vs : KnownValues} {method name other : String} {v : Value}

theorem get?_set :
    (vs.set method name v).get? method other = if name = other then some v else vs.get? method other := by
  simp only [get?, set, Std.TreeMap.getD_insert_self, Std.TreeMap.getElem?_insert]
  simp [Std.LawfulEqCmp.compare_eq_iff_eq]

@[simp] theorem get?_empty : ({} : KnownValues).get? method name = none := by
  simp [get?]

end KnownValues

namespace Body

variable {b : Body} {live : Bool} {retained : List Int}

/-- No statement at another position writes what the one at `p` writes. -/
def SoleWriter (b : Body) (p : Nat) (u : Statement) : Prop :=
  ∀ q < b.size, ∀ v ∈ b.whole[q]?, v.Writes u.left.text → q = p

instance (b : Body) (p : Nat) (u : Statement) : Decidable (b.SoleWriter p u) :=
  inferInstanceAs (Decidable (∀ q < b.size, ∀ v ∈ b.whole[q]?, v.Writes u.left.text → q = p))

/-- What a retained statement hands to a variable, the variable is given by no other statement, and no
statement of the body writes what parameters are known by. -/
structure Settled (b : Body) (retained : List Int) : Prop where
  once : ∀ p < b.size, (p : Int) ∈ retained → ∀ u ∈ b.whole[p]?, u.isTransfer = true → b.SoleWriter p u
  bound : ∀ u ∈ b.whole, u.kind = .parameter → ∀ v ∈ b.whole, ¬v.Writes (KnownValues.paramName u.paramIndex)

/-- No statement outside a side jumps into it, but the one at `q`. -/
def EnteredFrom (b : Body) (q : Nat) (side : List Nat) : Prop :=
  ∀ p ∈ side, ∀ r < b.size, ∀ w ∈ b.whole[r]?, (p : Int) ∈ w.jumps → r = q ∨ r ∈ side

instance (b : Body) (q : Nat) (side : List Nat) : Decidable (b.EnteredFrom q side) :=
  inferInstanceAs (Decidable (∀ p ∈ side, ∀ r < b.size, ∀ w ∈ b.whole[r]?, (p : Int) ∈ w.jumps → r = q ∨ r ∈ side))

/-- The sides of the retained `if`s are entered from there only. -/
def Enclosed (b : Body) (retained : List Int) : Prop :=
  ∀ v, ∀ q < b.size, (q : Int) ∈ retained → ∀ u ∈ b.whole[q]?, u.kind = .branchIf →
    b.EnteredFrom q (Folding.ruledOut b.whole u q v)

/-- Every retained `if` on the path that compares two numbers goes the way that the comparison tells, where
variables hold the constants that the path gives them. -/
def Consistent (b : Body) (live : Bool) (retained : List Int) : Constants → List Nat → Prop
  | cs, p :: q :: rest =>
    (∀ u ∈ b.whole[p]?, u.kind = .branchIf → (p : Int) ∈ retained →
      (q : Int) ∈ u.decidedSuccessors p (Folding.verdict live cs.resolve? u p)) ∧
    b.Consistent live retained (b.whole[p]?.elim cs cs.after) (q :: rest)
  | _, _ => True

instance Consistent.decidable (b : Body) (live : Bool) (retained : List Int) :
    (cs : Constants) → (path : List Nat) → Decidable (b.Consistent live retained cs path)
  | _, [] => .isTrue trivial
  | _, [_] => .isTrue trivial
  | cs, p :: q :: rest =>
    have := decidable b live retained (b.whole[p]?.elim cs cs.after) (q :: rest)
    inferInstanceAs (Decidable (_ ∧ _))

/-- The retained statements that set what the operand names stand among the positions. -/
def SetAmong (b : Body) (retained : List Int) (before : List Nat) (x : Value) : Prop :=
  ∀ q < b.size, (q : Int) ∈ retained → ∀ w ∈ b.whole[q]?, w.isTransfer = true ∧ w.left.text = x.text → q ∈ before

instance (b : Body) (retained : List Int) (before : List Nat) (x : Value) : Decidable (b.SetAmong retained before x) :=
  inferInstanceAs (Decidable (∀ q < b.size, (q : Int) ∈ retained → ∀ w ∈ b.whole[q]?,
    w.isTransfer = true ∧ w.left.text = x.text → q ∈ before))

/-- What a retained statement on the path reads of the variables that retained statements set is set before,
on the path. -/
def ReadsSet (b : Body) (retained : List Int) : (before path : List Nat) → Prop
  | _, [] => True
  | before, p :: rest =>
    ((p : Int) ∈ retained → ∀ u ∈ b.whole[p]?, ∀ x ∈ u.followed, b.SetAmong retained before x) ∧
    b.ReadsSet retained (p :: before) rest

instance ReadsSet.decidable (b : Body) (retained : List Int) :
    (before path : List Nat) → Decidable (b.ReadsSet retained before path)
  | _, [] => .isTrue trivial
  | before, p :: rest =>
    have := decidable b retained (p :: before) rest
    inferInstanceAs (Decidable (_ ∧ _))

/-- Following copies through the retained statements leads from the name to the constant. -/
inductive Determines (b : Body) (retained : List Int) : String → Value → Prop
  | constant {p : Nat} {u : Statement} (keeps : (p : Int) ∈ retained) (here : b.whole[p]? = some u)
      (kind : u.kind = .assignVariableConstant) : Determines b retained u.left.text u.right
  | literal {p : Nat} {u : Statement} (keeps : (p : Int) ∈ retained) (here : b.whole[p]? = some u)
      (kind : u.kind = .assignVariableVariable ∨ u.kind = .cast) (known : u.right.isConstant = true) :
      Determines b retained u.left.text u.right
  | copy {p : Nat} {u : Statement} {c : Value} (keeps : (p : Int) ∈ retained) (here : b.whole[p]? = some u)
      (kind : u.kind = .assignVariableVariable ∨ u.kind = .cast) (open_ : u.right.isConstant = false)
      (source : Determines b retained u.right.text c) : Determines b retained u.left.text c

theorem lt_size {p : Nat} {u : Statement} (here : b.whole[p]? = some u) : p < b.size := by
  rw [← length_whole]
  exact (List.getElem?_eq_some_iff.mp here).1

namespace Determines

variable {name : String} {c : Value}

/-- A retained statement gives the name its value. -/
theorem written (determined : b.Determines retained name c) :
    ∃ (p : Nat) (u : Statement), (p : Int) ∈ retained ∧ b.whole[p]? = some u ∧ u.isTransfer = true ∧ u.Writes name := by
  cases determined with
  | constant keeps here kind =>
    exact ⟨_, _, keeps, here, by simp [Statement.isTransfer, kind], by simp [Statement.Writes, kind, Kind.definesLocal]⟩
  | literal keeps here kind known =>
    rcases kind with kind | kind <;>
    exact ⟨_, _, keeps, here, by simp [Statement.isTransfer, kind], by simp [Statement.Writes, kind, Kind.definesLocal]⟩
  | copy keeps here kind open_ source =>
    rcases kind with kind | kind <;>
    exact ⟨_, _, keeps, here, by simp [Statement.isTransfer, kind], by simp [Statement.Writes, kind, Kind.definesLocal]⟩

end Determines

/-- The known constants are those that the retained statements determine. -/
def Sound (b : Body) (retained : List Int) (vs : KnownValues) : Prop :=
  ∀ name c, vs.get? b.method name = some c → b.Determines retained name c

theorem Sound.set {vs : KnownValues} {name : String} {c : Value} (sound : b.Sound retained vs)
    (determined : b.Determines retained name c) : b.Sound retained (vs.set b.method name c) := by
  intro other d known
  rw [KnownValues.get?_set] at known
  split at known
  · rename_i same
    cases known
    exact same ▸ determined
  · exact sound other d known

/-- What the walk learns at a retained statement is determined. -/
theorem Sound.flow {vs : KnownValues} {p : Nat} {u : Statement} (sound : b.Sound retained vs)
    (settled : b.Settled retained) (keeps : (p : Int) ∈ retained) (here : b.whole[p]? = some u) :
    b.Sound retained (b.flow vs u) := by
  have copied : u.kind = .assignVariableVariable ∨ u.kind = .cast → ∀ c, vs.resolve? b.method u.right = some c →
      b.Determines retained u.left.text c := by
    intro kind c resolved
    simp only [KnownValues.resolve?] at resolved
    split at resolved
    · rename_i known
      cases resolved
      exact .literal keeps here kind known
    · rename_i open_
      exact .copy keeps here kind (by simpa using open_) (sound _ _ resolved)
  simp only [Body.flow]
  split
  · rename_i kind
    exact sound.set (.constant keeps here kind)
  · rename_i kind
    split
    · rename_i c resolved
      exact sound.set (copied (.inl kind) c resolved)
    · exact sound
  · rename_i kind
    split
    · rename_i c resolved
      exact sound.set (copied (.inr kind) c resolved)
    · exact sound
  · rename_i kind
    split
    · rename_i c bound
      obtain ⟨q, w, _, there, _, writes⟩ := (sound _ _ bound).written
      exact absurd writes (settled.bound u (List.mem_of_getElem? here) kind w (List.mem_of_getElem? there))
    · exact sound
  · exact sound

/-- A retained `if`, decided by constants that the retained statements determine, rules the position out. -/
def Blamed (b : Body) (live : Bool) (retained : List Int) (d : Nat) : Prop :=
  ∃ (q : Nat) (u : Statement) (vs : KnownValues), (q : Int) ∈ retained ∧ b.whole[q]? = some u ∧ u.kind = .branchIf ∧
    b.Sound retained vs ∧
    d ∈ Folding.ruledOut b.whole u q (Folding.verdict live (vs.resolve? b.method) u q)

theorem infeasibleFrom_blamed (settled : b.Settled retained) {kept : List Nat} {rest : List Int} {drop : List Nat}
    {vs : KnownValues} (part : rest ⊆ retained) (sound : b.Sound retained vs)
    (blamed : ∀ d ∈ drop, b.Blamed live retained d) :
    ∀ d ∈ (b.infeasibleFrom live kept rest drop vs).1, b.Blamed live retained d := by
  induction rest generalizing drop vs with
  | nil => exact blamed
  | cons pos rest ih =>
    have keeps := (List.cons_subset.mp part).1
    replace part := (List.cons_subset.mp part).2
    simp only [infeasibleFrom]
    split
    · exact ih part sound blamed
    · rename_i p
      split
      · exact ih part sound blamed
      · split
        · exact ih part sound blamed
        · rename_i u here
          refine ih part (sound.flow settled keeps here) ?_
          intro d member
          rcases Folding.mem_mark.mp member with old | new
          · exact blamed d old
          · simp only [dropped] at new
            split at new
            · rename_i kind
              have ruled := (List.mem_filter.mp new).2
              exact ⟨p, u, vs, keeps, here, by simpa using kind, sound, by simpa using ruled⟩
            · simp at new

/-- Every position that the walk drops is ruled out by a retained `if`. -/
theorem infeasible_blamed (settled : b.Settled retained) {d : Nat}
    (dropped : d ∈ (b.infeasible live retained {}).1) : b.Blamed live retained d :=
  infeasibleFrom_blamed settled (List.Subset.refl _) (by intro _ _ known; simp at known) (by simp) d dropped

/-- The constants of a path agree with what the retained statements determine, as far as the path has given
variables their values. -/
def Agrees (b : Body) (retained : List Int) (before : List Nat) (cs : Constants) : Prop :=
  ∀ name c, b.Determines retained name c → (∃ q ∈ before, ∃ w ∈ b.whole[q]?, w.Writes name) → cs[name]? = some c

/-- A retained statement on a path reads what the retained statements determine. -/
theorem Agrees.read {before rest : List Nat} {cs : Constants} {p : Nat} {u : Statement} {x c : Value}
    (agrees : b.Agrees retained before cs) (reads : b.ReadsSet retained before (p :: rest))
    (keeps : (p : Int) ∈ retained) (here : b.whole[p]? = some u) (follows : x ∈ u.followed)
    (determined : b.Determines retained x.text c) : cs[x.text]? = some c := by
  obtain ⟨q, w, kept, there, transfer, writes⟩ := determined.written
  have earlier := reads.1 keeps u here x follows q (lt_size there) kept w there ⟨transfer, writes.2⟩
  exact agrees _ _ determined ⟨q, earlier, w, there, writes⟩

/-- One statement of a path keeps the agreement. -/
theorem Agrees.step {before rest : List Nat} {cs : Constants} {p : Nat} {u : Statement}
    (agrees : b.Agrees retained before cs) (settled : b.Settled retained)
    (reads : b.ReadsSet retained before (p :: rest)) (here : b.whole[p]? = some u) :
    b.Agrees retained (p :: before) (cs.after u) := by
  intro name c determined written
  by_cases writes : u.Writes name
  · -- the only statement that writes the name is this one
    have here_of : ∀ {q : Nat} {w : Statement}, (q : Int) ∈ retained → b.whole[q]? = some w → w.isTransfer = true →
        w.left.text = name → q = p ∧ w = u := by
      intro q w kept there transfer same
      have place := settled.once q (lt_size there) kept w there transfer p (lt_size here) u here (same ▸ writes)
      subst place
      exact ⟨rfl, Option.some.inj (there.symm.trans here)⟩
    cases determined with
    | constant keeps there kind =>
      obtain ⟨rfl, rfl⟩ := here_of keeps there (by simp [Statement.isTransfer, kind]) rfl
      simp [Constants.after, kind]
    | literal keeps there kind known =>
      obtain ⟨rfl, rfl⟩ :=
        here_of keeps there (by rcases kind with kind | kind <;> simp [Statement.isTransfer, kind]) rfl
      rcases kind with kind | kind <;> simp [Constants.after, Constants.resolve?, kind, known]
    | copy keeps there kind open_ source =>
      obtain ⟨rfl, rfl⟩ :=
        here_of keeps there (by rcases kind with kind | kind <;> simp [Statement.isTransfer, kind]) rfl
      rcases kind with kind | kind
      · have read := agrees.read reads keeps here (by simp [Statement.followed, kind]) source
        simp [Constants.after, Constants.resolve?, kind, open_, read]
      · have read := agrees.read reads keeps here (by simp [Statement.followed, kind]) source
        simp [Constants.after, Constants.resolve?, kind, open_, read]
  · rw [Constants.after_of_not_writes writes]
    refine agrees name c determined ?_
    obtain ⟨q, member, w, there, writes'⟩ := written
    rcases List.mem_cons.mp member with rfl | earlier
    · cases Option.some.inj (here.symm.trans there)
      exact absurd writes' writes
    · exact ⟨q, earlier, w, there, writes'⟩

/-- Where the walk decides a retained `if`, a path that comes there decides it alike. -/
theorem Agrees.verdict {before rest : List Nat} {cs : Constants} {p : Nat} {u : Statement} {vs : KnownValues}
    (agrees : b.Agrees retained before cs) (reads : b.ReadsSet retained before (p :: rest))
    (keeps : (p : Int) ∈ retained) (here : b.whole[p]? = some u) (kind : u.kind = .branchIf)
    (sound : b.Sound retained vs) (settles : Folding.verdict live (vs.resolve? b.method) u p ≠ .unknown) :
    Folding.verdict live cs.resolve? u p = Folding.verdict live (vs.resolve? b.method) u p := by
  have same : ∀ x ∈ u.args, ∀ c, vs.resolve? b.method x = some c → cs.resolve? x = some c := by
    intro x argument c resolved
    simp only [KnownValues.resolve?] at resolved
    simp only [Constants.resolve?]
    split at resolved
    · rename_i known
      rw [if_pos known, resolved]
    · rename_i open_
      rw [if_neg open_]
      exact agrees.read reads keeps here (by simpa [Statement.followed, kind] using argument) (sound _ _ resolved)
  revert settles
  simp only [Folding.verdict]
  split
  · rename_i x y args
    split
    · simp
    · split
      · rename_i a c left right
        rw [same x (by simp [args]) a left, same y (by simp [args]) c right]
        exact fun _ => rfl
      · simp
  · simp

end Body

/-- A verdict rules out no position to which it sends control. -/
theorem Folding.not_decided_of_ruledOut {units : List Statement} {u : Statement} {pos p : Nat} {v : Verdict}
    (ruled : p ∈ ruledOut units u pos v) : (p : Int) ∉ u.decidedSuccessors pos v := by
  cases v with
  | unknown => simp [ruledOut] at ruled
  | holds =>
    have below : ∀ last : Int, last < u.target → p ∈ range (pos + 1) last → (p : Int) < u.target := by
      intro last before member
      have := mem_range_iff.mp member
      omega
    have inside : (p : Int) < u.target := by
      simp only [ruledOut] at ruled
      split at ruled
      · split at ruled
        · exact below _ (by omega) ruled
        · exact below _ (by omega) ruled
      · exact below _ (by omega) ruled
    simp only [Statement.decidedSuccessors, List.mem_singleton]
    omega
  | fails =>
    simp only [Statement.decidedSuccessors, List.mem_singleton]
    simp only [ruledOut] at ruled
    split at ruled
    · simp at ruled
    · split at ruled
      · split at ruled
        · have := mem_range_iff.mp ruled
          omega
        · simp at ruled
      · simp at ruled

namespace Body

variable {b : Body} {live : Bool} {retained : List Int}

/-- Control comes into a side of a retained `if` from there only. -/
theorem Enclosed.entered {q p r : Nat} {u : Statement} {v : Verdict} (enclosed : b.Enclosed retained)
    (keeps : (q : Int) ∈ retained) (here : b.whole[q]? = some u) (kind : u.kind = .branchIf)
    (ruled : p ∈ Folding.ruledOut b.whole u q v) (flows : Flows b.whole r p) :
    r = q ∨ r ∈ Folding.ruledOut b.whole u q v := by
  obtain ⟨w, there, goes⟩ := flows
  rcases Statement.mem_successors goes with jump | ⟨stays, rfl⟩
  · exact enclosed v q (lt_size here) keeps u here kind p ruled r (lt_size there) w there jump
  · rcases Folding.ruledOut_pred ruled with inside | ⟨_, same⟩ | ⟨w', above, jump⟩
    · exact .inr inside
    · exact .inl same
    · cases Option.mem_unique there above
      exact absurd jump stays

/-- A consistent path that is outside a side that the walk rules out stays outside. -/
theorem outside_of_consistent {q : Nat} {u : Statement} {vs : KnownValues} (settled : b.Settled retained)
    (enclosed : b.Enclosed retained) (keeps : (q : Int) ∈ retained) (here : b.whole[q]? = some u)
    (kind : u.kind = .branchIf) (sound : b.Sound retained vs) {before rest : List Nat} {cs : Constants} {p : Nat}
    (path : IsPath b.whole (p :: rest)) (consistent : b.Consistent live retained cs (p :: rest))
    (reads : b.ReadsSet retained before (p :: rest)) (agrees : b.Agrees retained before cs)
    (outside : p ∉ Folding.ruledOut b.whole u q (Folding.verdict live (vs.resolve? b.method) u q)) :
    ∀ d ∈ p :: rest, d ∉ Folding.ruledOut b.whole u q (Folding.verdict live (vs.resolve? b.method) u q) := by
  induction rest generalizing p before cs with
  | nil =>
    intro d member
    rw [List.mem_singleton.mp member]
    exact outside
  | cons r rest ih =>
    obtain ⟨flows, path⟩ := List.isChain_cons_cons.mp path
    obtain ⟨w, there, goes⟩ := flows
    obtain ⟨turns, consistent⟩ := consistent
    rw [there, Option.elim_some] at consistent
    have next : r ∉ Folding.ruledOut b.whole u q (Folding.verdict live (vs.resolve? b.method) u q) := by
      intro ruled
      rcases enclosed.entered keeps here kind ruled ⟨w, there, goes⟩ with rfl | inside
      · have settles : Folding.verdict live (vs.resolve? b.method) u p ≠ .unknown := by
          intro open_
          simp [open_, Folding.ruledOut] at ruled
        have turn := turns u here kind keeps
        rw [agrees.verdict reads keeps here kind sound settles] at turn
        exact Folding.not_decided_of_ruledOut ruled turn
      · exact outside inside
    intro d member
    rcases List.mem_cons.mp member with rfl | later
    · exact outside
    · exact ih path consistent reads.2 (agrees.step settled reads there) next d later

/-- The walk never drops a position of a consistent path from the start of the body, if what retained
statements hand to variables is given by no other statement, is set on the path before it is read, and the
sides of the retained `if`s are entered from there only. -/
theorem infeasible_spares_consistent (settled : b.Settled retained) (enclosed : b.Enclosed retained)
    {path : List Nat} (isPath : IsPath b.whole path) (starts : path.head? = some 0)
    (consistent : b.Consistent live retained {} path) (reads : b.ReadsSet retained [] path) :
    ∀ p ∈ path, p ∉ (b.infeasible live retained {}).1 := by
  intro p member dropped
  obtain ⟨q, u, vs, keeps, here, kind, sound, ruled⟩ := infeasible_blamed settled dropped
  cases path with
  | nil => simp at starts
  | cons first rest =>
    cases Option.some.inj starts
    have agrees : b.Agrees retained [] {} := by
      intro name c _ written
      simp at written
    have outside : 0 ∉ Folding.ruledOut b.whole u q (Folding.verdict live (vs.resolve? b.method) u q) :=
      fun start => Nat.not_lt_zero _ (Folding.ruledOut_after start)
    exact outside_of_consistent settled enclosed keeps here kind sound isPath consistent reads agrees outside p
      member ruled

/-- The body of a method with the statements. -/
private def bodyOf (units : List Statement) : Option Body :=
  let (m, _) := Method.finalized { signature := "<a.B: void m(int)>", units := units.map some }
  (prepare? (fun _ => none) true m.signature m.units).map (·.1)

/-- A constant is compared below an `if`. -/
private def comparing : Option Body := bodyOf
  [.param "i0" 0 "int", .assign "i1" "1", .branch "i0" "==" "0" 4, .call "" "<lib.Y: void y()>" [],
    .branch "i1" "==" "1" 6, .call "" "<lib.X: void x()>" [], .retVoid]

/-- A variable is assigned another constant under an `if`, and compared below it. -/
private def reassigning : Option Body := bodyOf
  [.param "i0" 0 "int", .assign "i1" "0", .branch "i0" "==" "0" 4, .assign "i1" "1", .branch "i1" "==" "1" 6,
    .call "" "<lib.X: void x()>" [], .retVoid]

set_option maxRecDepth 100000 in
private theorem comparing_prepares : comparing.isSome = true := by decide +kernel

set_option maxRecDepth 100000 in
private theorem comparing_settled : (comparing.get comparing_prepares).Settled [0, 1, 2, 3, 4, 5] :=
  ⟨by decide +kernel, by decide +kernel⟩

set_option maxRecDepth 100000 in
private theorem comparing_enclosed : (comparing.get comparing_prepares).Enclosed [0, 1, 2, 3, 4, 5] := by
  intro v
  cases v <;> decide +kernel

set_option maxRecDepth 100000 in
/-- The walk drops the call that cannot run, and nothing of the path around it. -/
theorem comparing_spares_path :
    ((comparing.get comparing_prepares).infeasible true [0, 1, 2, 3, 4, 5] {}).1 = [5] ∧
      ∀ p ∈ [0, 1, 2, 3, 4, 6], p ∉ ((comparing.get comparing_prepares).infeasible true [0, 1, 2, 3, 4, 5] {}).1 :=
  ⟨by decide +kernel,
    infeasible_spares_consistent comparing_settled comparing_enclosed (by decide +kernel) rfl (by decide +kernel)
      (by decide +kernel)⟩

set_option maxRecDepth 100000 in
/-- The walk can drop a call that runs: all is retained, the path around the second assignment is consistent,
and the constant of that assignment decides against the call. -/
theorem reassigning_drops_path :
    ∃ b ∈ reassigning, (∀ p < b.size, (p : Int) ∈ [0, 1, 2, 3, 4, 5, 6]) ∧ IsPath b.whole [0, 1, 2, 4, 5] ∧
      b.Consistent true [0, 1, 2, 3, 4, 5, 6] {} [0, 1, 2, 4, 5] ∧
      5 ∈ (b.infeasible true [0, 1, 2, 3, 4, 5, 6] {}).1 := by
  decide +kernel

end Body

end MisuseSlice
