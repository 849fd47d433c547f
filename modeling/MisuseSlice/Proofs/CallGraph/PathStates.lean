import MisuseSlice.CallGraph.Build
import MisuseSlice.Proofs.Body.DeadCode

/-! What is known on a path through a body. A path gives every variable what its last definition on the path gave it,
and every array what it was allocated with and what was stored into it since. A call may change the arrays that it
receives, and an operand that is not known may be any array that something else refers to. -/
namespace MisuseSlice

/-- What an operand stands for on a path. -/
inductive Datum where
  | constant (v : Value)
  /-- An array that was allocated on the path, by its number. -/
  | array (n : Nat)
  | unknown
  deriving DecidableEq, Repr

/-- The number of the array that is referred to. -/
def Datum.array? : Datum → Option Nat
  | .array n => some n
  | _ => none

/-- An array that was allocated on a path. -/
structure Cells where
  type : String
  /-- The texts of the elements, `none` where they are not known. -/
  elems : Option (List String)
  /-- A field, another array or a callee may refer to the array. -/
  isShared : Bool := false
  deriving DecidableEq, Repr

namespace Cells

/-- What the array is, whoever refers to it. -/
def contents (c : Cells) : String × Option (List String) := (c.type, c.elems)

/-- An element is set; where it is not known which or to what, the elements are not known. -/
def store (index : Option Int) (elem : Datum) (c : Cells) : Cells :=
  { c with elems :=
      match index, elem with
      | some i, .constant v =>
        c.elems.bind fun es => if 0 ≤ i ∧ i < es.length then some (es.set i.toNat v.text) else none
      | _, _ => none }

/-- Some elements may be set. -/
def blur (c : Cells) : Cells := { c with elems := none }

end Cells

/-- What is known on a path. -/
structure PathState where
  holds : String → Datum := fun _ => .unknown
  arrays : List Cells := []

namespace PathState

/-- What an operand stands for. -/
def read (σ : PathState) (v : Value) : Datum := if v.isConstant then .constant v else σ.holds v.text

/-- A variable is defined. -/
def define (σ : PathState) (name : String) (d : Datum) : PathState :=
  { σ with holds := fun n => if n = name then d else σ.holds n }

/-- The array that is referred to changes; behind an operand that is not known can be every shared array. -/
def change (σ : PathState) (d : Datum) (f : Cells → Cells) : PathState :=
  match d with
  | .constant _ => σ
  | .array n => { σ with arrays := σ.arrays.modify n f }
  | .unknown => { σ with arrays := σ.arrays.map fun c => if c.isShared then c.blur else c }

/-- Others refer to the array from now on. -/
def share (σ : PathState) (d : Datum) : PathState :=
  match d with
  | .array n => { σ with arrays := σ.arrays.modify n fun c => { c with isShared := true } }
  | _ => σ

/-- An array is allocated. Its elements are zero; how many there are is known where the size is a literal. -/
def allocate (σ : PathState) (u : Statement) : PathState :=
  { σ.define u.left.text (.array σ.arrays.length) with
    arrays := σ.arrays ++
      [{ type := u.type, elems := (MethodScan.size? u).map fun n => List.replicate n.toNat "0" }] }

/-- An element of an array is set. -/
def store (σ : PathState) (u : Statement) : PathState :=
  (σ.change (σ.read u.base) (Cells.store (Number.word? u.index.numericText) (σ.read u.right))).share (σ.read u.right)

/-- A call may change the arrays that it receives, and refer to them. -/
def call (σ : PathState) (u : Statement) : PathState :=
  ((u.base :: u.args).filter (!·.isAbsent)).foldl
    (fun σ v => (σ.change (σ.read v) Cells.blur).share (σ.read v)) σ

/-- What is known after a statement. A cast keeps an array, but it can convert a constant. -/
def step (σ : PathState) (u : Statement) : PathState :=
  match u.kind with
  | .assignVariableConstant | .assignVariableVariable => σ.define u.left.text (σ.read u.right)
  | .cast =>
    σ.define u.left.text (match σ.read u.right with | .array n => .array n | _ => .unknown)
  | .newArray => σ.allocate u
  | .assignArrayConstant | .assignArrayVariable => σ.store u
  | .assignFieldConstant | .assignFieldVariable => σ.share (σ.read u.right)
  | .invoke => σ.call u
  | .assignInvoke => (σ.call u).define u.left.text .unknown
  | _ => if u.kind.definesLocal then σ.define u.left.text .unknown else σ

/-- What is known after the statements of a path. -/
def run (σ : PathState) (trace : List Statement) : PathState := trace.foldl step σ

/-- What the array with a number is. -/
def contents? (σ : PathState) (n : Nat) : Option (String × Option (List String)) := σ.arrays[n]?.map Cells.contents

/-- The printed form of a datum, where it is known. -/
def text? (σ : PathState) (d : Datum) : Option String :=
  match d with
  | .constant v => some v.text
  | .array n =>
    match σ.contents? n with
    | some (type, some es) => some (Value.arrayLiteral type es).text
    | _ => none
  | .unknown => none

end PathState

/-- The statements at the positions of a path. -/
def trace (units : List Statement) (path : List Nat) : List Statement := path.filterMap (units[·]?)

namespace Statement

/-- The statement sets an element of the array that the variable holds. -/
def StoresThrough (u : Statement) (name : String) : Prop :=
  (u.kind = .assignArrayConstant ∨ u.kind = .assignArrayVariable) ∧ u.base.text = name

instance (u : Statement) (name : String) : Decidable (u.StoresThrough name) := inferInstanceAs (Decidable (_ ∧ _))

end Statement

namespace PathState

/-- What statements change of the array that the variable holds, they change by stores through the variable. -/
def Owned (x : String) : PathState → List Statement → Prop
  | _, [] => True
  | σ, u :: rest =>
    (∀ n ∈ (σ.holds x).array?, (σ.step u).contents? n = σ.contents? n ∨ u.StoresThrough x) ∧ Owned x (σ.step u) rest

/-- The statements do not change what the datum refers to. -/
def Kept (d : Datum) : PathState → List Statement → Prop
  | _, [] => True
  | σ, u :: rest => (∀ n ∈ d.array?, (σ.step u).contents? n = σ.contents? n) ∧ Kept d (σ.step u) rest

instance Owned.decidable (x : String) : (σ : PathState) → (units : List Statement) → Decidable (Owned x σ units)
  | _, [] => .isTrue trivial
  | σ, u :: rest =>
    have := Owned.decidable x (σ.step u) rest
    inferInstanceAs (Decidable (_ ∧ _))

instance Kept.decidable (d : Datum) : (σ : PathState) → (units : List Statement) → Decidable (Kept d σ units)
  | _, [] => .isTrue trivial
  | σ, u :: rest =>
    have := Kept.decidable d (σ.step u) rest
    inferInstanceAs (Decidable (_ ∧ _))

variable {σ : PathState} {u : Statement} {name x : String} {n : Nat} {d : Datum}

@[simp] theorem holds_change (σ : PathState) (d : Datum) (f : Cells → Cells) : (σ.change d f).holds = σ.holds := by
  cases d <;> rfl

@[simp] theorem holds_share (σ : PathState) (d : Datum) : (σ.share d).holds = σ.holds := by
  cases d <;> rfl

@[simp] theorem holds_call (σ : PathState) (u : Statement) : (σ.call u).holds = σ.holds := by
  rw [call]
  exact List.foldlRecOn (motive := fun τ : PathState => τ.holds = σ.holds) _ _ rfl fun τ same v _ => by simp [same]

theorem holds_define (σ : PathState) (d : Datum) : (σ.define name d).holds x = if x = name then d else σ.holds x := rfl

/-- A statement leaves the variables that it does not define. -/
theorem holds_step (undefined : ¬u.Writes x) : (σ.step u).holds x = σ.holds x := by
  have apart (kind : u.kind.definesLocal = true) : x ≠ u.left.text := fun eq => undefined ⟨kind, eq.symm⟩
  simp only [step]
  split <;> rename_i kind
  · rw [holds_define, if_neg (apart (by rw [kind]; rfl))]
  · rw [holds_define, if_neg (apart (by rw [kind]; rfl))]
  · rw [holds_define, if_neg (apart (by rw [kind]; rfl))]
  · rw [allocate, holds_define, if_neg (apart (by rw [kind]; rfl))]
  · simp [store]
  · simp [store]
  · simp
  · simp
  · simp
  · rw [holds_define, if_neg (apart (by rw [kind]; rfl)), holds_call]
  · split
    · rename_i defines
      rw [holds_define, if_neg (apart defines)]
    · rfl

@[simp] theorem contents?_share (σ : PathState) (d : Datum) (n : Nat) : (σ.share d).contents? n = σ.contents? n := by
  cases d with
  | constant v => rfl
  | unknown => rfl
  | array k =>
    simp only [share, contents?, List.getElem?_modify, Option.map_eq_map, Option.map_map]
    congr 1
    funext c
    simp only [Function.comp]
    split <;> rfl

theorem contents?_change_array (σ : PathState) (f : Cells → Cells) (n : Nat) :
    (σ.change (.array n) f).contents? n = σ.arrays[n]?.map fun c => (f c).contents := by
  simp only [change, contents?, List.getElem?_modify_eq, Option.map_eq_map, Option.map_map, Function.comp_def]

theorem text?_of_contents {σ τ : PathState} {d : Datum}
    (same : ∀ n ∈ d.array?, τ.contents? n = σ.contents? n) : τ.text? d = σ.text? d := by
  cases d with
  | constant v => rfl
  | unknown => rfl
  | array n => simp only [text?, same n rfl]

/-- What is not changed keeps its printed form. -/
theorem Kept.text?_run {σ : PathState} {d : Datum} {units : List Statement} (kept : Kept d σ units) :
    (σ.run units).text? d = σ.text? d := by
  induction units generalizing σ with
  | nil => rfl
  | cons u units ih => exact (ih kept.2).trans (text?_of_contents kept.1)

end PathState

/-- A path that starts at the first position comes to the end of a stretch of code into which nothing jumps from the
start of the stretch, through all of it. -/
theorem exists_before_stretch {units : List Statement} {before : List Nat} {s w : Nat} (le : s ≤ w)
    (path : IsPath units (before ++ [w])) (start : (before ++ [w]).head? = some 0)
    (straight : ∀ q : Nat, s < q → q ≤ w → ∀ u ∈ units, (q : Int) ∉ u.jumps) :
    ∃ pre, before = pre ++ List.range' s (w - s) := by
  induction w, le using Nat.le_induction generalizing before with
  | base => exact ⟨before, by simp⟩
  | succ w le ih =>
    rcases List.eq_nil_or_concat before with rfl | ⟨pre, q, rfl⟩
    · simp at start
    · rw [List.concat_eq_append] at path start ⊢
      -- the position before the last one can only be the one above it
      obtain ⟨earlier, last⟩ : IsPath units (pre ++ [q]) ∧ Flows units q (w + 1) := by
        rw [IsPath, List.isChain_append] at path
        exact ⟨path.1, path.2.2 q (by simp) (w + 1) (by simp)⟩
      obtain ⟨u, here, goes⟩ := last
      have above : q = w := by
        rcases Statement.mem_successors goes with jump | ⟨_, next⟩
        · exact absurd jump (straight (w + 1) (by omega) (Nat.le_refl _) u (List.mem_of_getElem? here))
        · omega
      subst above
      obtain ⟨first, rfl⟩ := ih earlier (by simpa using start) fun r low high => straight r low (by omega)
      refine ⟨first, ?_⟩
      rw [show q + 1 - s = (q - s) + 1 by omega, List.range'_concat, List.append_assoc]
      simp only [Nat.one_mul, Nat.add_sub_of_le le]

/-- The statements along a stretch of code. -/
theorem trace_range' {units : List Statement} {s k : Nat} (inside : s + k ≤ units.length) :
    trace units (List.range' s k) = (units.drop s).take k := by
  induction k generalizing s with
  | zero => simp [trace]
  | succ k ih =>
    have below : s < units.length := by omega
    have rest := ih (s := s + 1) (by omega)
    rw [trace] at rest ⊢
    rw [List.range'_succ, List.filterMap_cons_some (List.getElem?_eq_getElem below), rest,
      List.drop_eq_getElem_cons below, List.take_succ_cons]

end MisuseSlice
