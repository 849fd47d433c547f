import MisuseSlice.Proofs.CallGraph.Holdings
import MisuseSlice.Proofs.CallGraph.Sites

/-! Constants on the paths of a method. The scan for constant sites reads a body from its first statement to its last
and knows neither where paths join nor who else refers to an array. What it knows of straight-line code that has its
array to itself is right on every path. -/
namespace MisuseSlice

/-- Setting an element of a list of elements sets it in the list. -/
theorem literal_set {size i : Nat} (elems : Std.TreeMap Nat String) (t : String) :
    ((List.range size).map (elems.getD · "0")).set i t = (List.range size).map ((elems.insert i t).getD · "0") := by
  refine List.ext_getElem? fun k => ?_
  rw [List.getElem?_set, List.getElem?_map, List.getElem?_map, List.length_map, List.length_range]
  by_cases below : k < size
  · rw [List.getElem?_range below]
    by_cases same : i = k
    · simp [same, below]
    · simp [same, Std.TreeMap.getD_insert]
  · have outside : (List.range size)[k]? = none := List.getElem?_eq_none (by simpa using below)
    rw [outside]
    split
    · rw [if_neg (by omega)]
      rfl
    · rfl

/-- What the scan knows holds on the path: the constants of all variables, and the array of one. -/
structure Tracks (x : String) (s : MethodScan) (σ : PathState) : Prop where
  named : s.Named
  constants : ∀ name c, (s.holding name).1 = some c → σ.holds name = .constant c
  array : ∀ type size elems, (s.holding x).2 = some (type, size, some elems) →
    ∃ n, σ.holds x = .array n ∧ σ.contents? n = some (type, some ((List.range size).map (elems.getD · "0")))

namespace Tracks

variable {p : Provider} {x : String} {s s' : MethodScan} {σ : PathState} {u : Statement}

/-- A scan that starts knows nothing. -/
theorem start : Tracks x {} σ where
  named := MethodScan.named_empty
  constants name c known := by simp [MethodScan.holding] at known
  array type size elems known := by simp [MethodScan.holding] at known

theorem read_stored (tracks : Tracks x s σ) (fits : u.Fits) (constant : (s.stored u).isConstant = true) :
    σ.read u.right = .constant (s.stored u) := by
  rw [PathState.read]
  rcases MethodScan.stored_cases tracks.named fits constant with ⟨literal, _, same⟩ | ⟨plain, known⟩
  · rw [if_pos literal, same]
  · rw [if_neg (by simp [plain]), tracks.constants _ _ known]

/-- A store through the variable sets the element that the scan sets. -/
theorem contents?_store (tracks : Tracks x s σ) (fits : u.Fits) (through : u.StoresThrough x) {type : String} {size : Nat}
    {before after : Std.TreeMap Nat String} (known : (s.holding x).2 = some (type, size, some before))
    (set : MethodScan.setElement size (Number.word? u.index.numericText) (s.stored u) (some before) = some after) :
    ∃ n, (σ.step u).holds x = .array n ∧
      (σ.step u).contents? n = some (type, some ((List.range size).map (after.getD · "0"))) := by
  obtain ⟨n, held, contents⟩ := tracks.array _ _ _ known
  obtain ⟨i, index, below, constant, _, same, rfl⟩ := MethodScan.setElement_eq_some set
  cases same
  have named : Statement.IsName x := tracks.named x fun unknown => by
    rw [unknown] at known
    cases known
  have base : σ.read u.base = .array n := by
    rw [PathState.read, through.2, held, if_neg]
    simp [fits.not_isConstant (v := u.base) (by simp) (through.2 ▸ named)]
  have stepped : σ.step u = σ.store u := by
    rcases through.1 with kind | kind <;> simp only [PathState.step, kind]
  refine ⟨n, by simp [stepped, PathState.store, held], ?_⟩
  rw [stepped, PathState.store, PathState.contents?_share, base, PathState.contents?_change_array]
  obtain ⟨c, cell, same⟩ := Option.map_eq_some_iff.mp contents
  obtain ⟨rfl, elems⟩ := Prod.mk.inj same
  have inside : 0 ≤ (i : Int) ∧ (i : Int) < ((List.range size).map (before.getD · "0")).length := by simp [below]
  rw [cell, tracks.read_stored fits constant, index]
  simp [Cells.store, Cells.contents, elems, below, ← literal_set]

/-- A statement keeps that the scan knows what holds, if it changes the array of the variable by a store through the
variable only. -/
theorem step (tracks : Tracks x s σ) (fits : u.Fits) (ran : MethodScan.step p s u = .ok s')
    (owned : ∀ n ∈ (σ.holds x).array?, (σ.step u).contents? n = σ.contents? n ∨ u.StoresThrough x) :
    Tracks x s' (σ.step u) := by
  refine ⟨tracks.named.step fits ran, fun name c known => ?_, fun type size elems known => ?_⟩
  · rw [MethodScan.holding_step fits ran, MethodScan.transfer] at known
    split at known
    · rename_i defines
      split at known
      · rename_i kind
        cases known
        rw [← defines.2]
        simp [PathState.step, kind, PathState.define, PathState.read, fits.right (.inl kind)]
      · cases known
      · cases known
    · rename_i undefined
      rw [PathState.holds_step undefined]
      refine tracks.constants name c ?_
      split at known <;> exact known
  · rw [MethodScan.holding_step fits ran, MethodScan.transfer] at known
    split at known
    · rename_i defines
      split at known
      · cases known
      · rename_i kind
        dsimp only at known
        obtain ⟨n, literal, same⟩ := Option.map_eq_some_iff.mp known
        cases same
        refine ⟨σ.arrays.length, ?_, ?_⟩
        · simp [PathState.step, kind, PathState.allocate, PathState.define, defines.2]
        · simp [PathState.step, kind, PathState.allocate, PathState.contents?, literal, Cells.contents]
      · cases known
    · rename_i undefined
      split at known
      · rename_i through
        obtain ⟨⟨type', size', elems'⟩, found, same⟩ := Option.map_eq_some_iff.mp known
        simp only [Prod.mk.injEq] at same
        obtain ⟨rfl, rfl, set⟩ := same
        obtain ⟨_, _, _, _, before, rfl, _⟩ := MethodScan.setElement_eq_some set
        exact tracks.contents?_store fits through found set
      · rename_i unstored
        obtain ⟨n, held, contents⟩ := tracks.array _ _ _ known
        refine ⟨n, by rw [PathState.holds_step undefined, held], ?_⟩
        rw [(owned n (held ▸ rfl)).resolve_right unstored, contents]

/-- What the scan of statements knows holds after them, if they change the array of the variable by stores through the
variable only. -/
theorem foldlM {units : List Statement} (tracks : Tracks x s σ) (fits : ∀ u ∈ units, u.Fits)
    (owned : PathState.Owned x σ units) (ran : units.foldlM (MethodScan.step p) s = .ok s') : Tracks x s' (σ.run units) := by
  induction units generalizing s σ with
  | nil =>
    cases ran
    exact tracks
  | cons u units ih =>
    obtain ⟨t, stepped, rest⟩ := MethodScan.foldlM_cons_eq_ok.mp ran
    exact ih (tracks.step (fits u List.mem_cons_self) stepped owned.1) (fun u' later => fits u' (List.mem_cons_of_mem _ later))
      owned.2 rest

theorem isName (tracks : Tracks x s σ) (present : (s.held x).isAbsent = false) : Statement.IsName x := by
  refine tracks.named x fun unknown => ?_
  rcases MethodScan.held_cases present with ⟨type, size, elems, known⟩ | known
  · rw [unknown] at known
    cases known
  · rw [unknown] at known
    cases known

/-- What the scan holds is what the variable stands for. -/
theorem text?_holds (tracks : Tracks x s σ) (present : (s.held x).isAbsent = false) :
    σ.text? (σ.holds x) = some (s.held x).text := by
  rcases MethodScan.held_cases present with ⟨type, size, elems, known⟩ | known
  · obtain ⟨n, held, contents⟩ := tracks.array _ _ _ known
    rw [held, MethodScan.held_of_array known]
    simp only [PathState.text?, contents]
  · rw [tracks.constants _ _ known]
    rfl

end Tracks

namespace CallModel

variable {p : Program} {field sig : String} {v : Value} {units : List Statement} {before after : List Nat} {w : Nat}
  {u : Statement}

/-- The value that a write takes from a variable is computed on straight-line code: from some position on nothing jumps
between the statements up to the write, the scan of them alone holds a value, and whatever of the variable's array they
change on the path they change by stores through the variable. -/
def Straight (p : Provider) (units : List Statement) (before : List Nat) (w : Nat) (x : String) : Prop :=
  ∃ s ≤ w, (∀ q : Nat, s < q → q ≤ w → ∀ u ∈ units, (q : Int) ∉ u.jumps) ∧
    (∃ t, ((units.take w).drop s).foldlM (MethodScan.step p) {} = .ok t ∧ (t.held x).isAbsent = false) ∧
    ∀ pre, before = pre ++ List.range' s (w - s) →
      PathState.Owned x (PathState.run {} (trace units pre)) ((units.take w).drop s)

/-- Computed on straight-line code, a variable stands for what the scan of the body holds for it, on every path that starts
at the first statement. -/
theorem Straight.text?_holds {pr : Provider} {x : String} {t : MethodScan} (straight : Straight pr units before w x)
    (fits : ∀ u ∈ units, u.Fits) (inside : w < units.length) (path : IsPath units (before ++ [w]))
    (start : (before ++ [w]).head? = some 0) (scan : MethodScan.run pr (units.take w) = .ok t) :
    let σ := PathState.run {} (trace units before)
    Statement.IsName x ∧ σ.text? (σ.holds x) = some (t.held x).text := by
  intro σ
  obtain ⟨s, le, clear, ⟨poor, ran, present⟩, owned⟩ := straight
  -- the path comes to the write through the stretch
  obtain ⟨pre, rfl⟩ := exists_before_stretch le path start clear
  have stretch : trace units (List.range' s (w - s)) = (units.take w).drop s := by
    rw [trace_range' (by omega), List.drop_take]
  have fits' : ∀ u ∈ (units.take w).drop s, u.Fits :=
    fun u member => fits u (List.mem_of_mem_take (List.mem_of_mem_drop member))
  have tracks := (Tracks.start (σ := PathState.run {} (trace units pre))).foldlM fits' (owned pre rfl) ran
  have there : σ = (PathState.run {} (trace units pre)).run ((units.take w).drop s) := by
    rw [← stretch]
    simp only [σ, trace, List.filterMap_append, PathState.run, List.foldl_append]
  -- the scan of the whole body knows what the scan of the stretch knows
  obtain ⟨rich, first, rest⟩ := MethodScan.exists_scan_take scan s
  have named : rich.Named := MethodScan.named_empty.foldlM
    (fun u member => fits u (List.mem_of_mem_take (List.mem_of_mem_take member))) first
  have same := ((MethodScan.refines_empty rich).foldlM MethodScan.named_empty named fits' ran rest).held_eq present
  rw [there, same]
  exact ⟨tracks.isName present, tracks.text?_holds present⟩

/-- A field resolved as a constant is one. Let a method of a visited class be processed and its statements fit their
kinds. On every path of it that starts at the first statement, a write of the field stores the constant, if the written
value is computed on straight-line code and no statement after the write changes a written array. -/
theorem constant?_written (resolved : (ofProgram p).info.constant? field = some v)
    (static : (p.provider fun m => .ok (p.statements m)).IsStaticFinal field)
    (declared : (p.provider fun m => .ok (p.statements m)).Declares sig)
    (runs : ¬(p.provider fun m => .ok (p.statements m)).Fails sig)
    (fits : ∀ u ∈ p.statements sig, u.Fits)
    (path : IsPath (p.statements sig) (before ++ w :: after)) (start : (before ++ w :: after).head? = some 0)
    (here : (p.statements sig)[w]? = some u) (writes : u.SetsField field)
    (straight : u.kind = .assignFieldVariable →
      Straight (p.provider fun m => .ok (p.statements m)) (p.statements sig) before w u.right.text) :
    let σ := PathState.run {} (trace (p.statements sig) before)
    PathState.Kept (σ.read u.right) σ (trace (p.statements sig) (w :: after)) →
      (PathState.run {} (trace (p.statements sig) (before ++ w :: after))).text? (σ.read u.right) = some v.text := by
  intro σ kept
  obtain ⟨t, scan, _, text⟩ := written_of_constant? resolved static declared runs rfl here writes
  have onward : PathState.run {} (trace (p.statements sig) (before ++ w :: after)) =
      σ.run (trace (p.statements sig) (w :: after)) := by
    rw [trace, List.filterMap_append, PathState.run, List.foldl_append]
    rfl
  rw [onward, kept.text?_run, ← text]
  have fit : u.Fits := fits u (List.mem_of_getElem? here)
  rcases writes.1 with kind | kind
  · rw [MethodScan.written, kind, PathState.read, if_pos (fit.right (.inr kind))]
    rfl
  · have inside : w < (p.statements sig).length := (List.getElem?_eq_some_iff.mp here).1
    have arrives : IsPath (p.statements sig) (before ++ [w]) := by
      rw [IsPath, List.append_cons] at path
      exact path.left_of_append
    obtain ⟨name, holds⟩ := (straight kind).text?_holds fits inside arrives (by cases before <;> simpa using start) scan
    rw [MethodScan.written, kind, if_neg (by decide), PathState.read, fit.not_isConstant (by simp) name,
      if_neg Bool.false_ne_true]
    exact holds

/-- A program of one class whose initializer sets its static final field. -/
private def initializing (field : String) (units : List Statement) : Program :=
  (Program.finalize
    { package := "a"
      classes := [some
        { name := "a.B"
          fields := [{ signature := field, isStatic := true, isFinal := true }]
          methods := [some { signature := "<a.B: void <clinit>()>", isStatic := true, units := units.map some }] }] }).1

/-- An array that is filled with constants and written to the field. -/
private def filling : Program := initializing "<a.B: byte[] K>"
  [.newArray "r0" "byte" "2", .arrayStore "r0" "0" "1", .assign "i0" "7", .arrayStore "r0" "1" "i0",
    .assign "<a.B: byte[] K>" "r0", .retVoid]

/-- The field is resolved, it and the initializer are declared, and the initializer can be processed. -/
private theorem filling_resolved :
    let p := filling.provider fun m => .ok (filling.statements m)
    (ofProgram filling).info.constant? "<a.B: byte[] K>" = some (.arrayLiteral "byte" ["1", "7"]) ∧
    (∃ d ∈ p.field? "<a.B: byte[] K>", d.isStatic = true ∧ d.isFinal = true) ∧
    (∃ name ∈ p.declaredClasses, ∃ c ∈ p.classes[name]?, ∃ m ∈ c.methods,
      m.map (·.signature) = some "<a.B: void <clinit>()>") ∧
    (MethodScan.ofMethod p "<a.B: void <clinit>()>").toOption.isSome = true := by
  decide +kernel

private abbrev fillingUnits : List Statement := filling.statements "<a.B: void <clinit>()>"

private abbrev fillingWrite : Statement := { Statement.assign "<a.B: byte[] K>" "r0" with pos := 4 }

/-- The initializer runs straight through to the write of the field. -/
private theorem filling_straight :
    (∀ u ∈ fillingUnits, u.Fits ∧ u.jumps = []) ∧ IsPath fillingUnits [0, 1, 2, 3, 4, 5] ∧
    fillingUnits[4]? = some fillingWrite ∧
    (fillingWrite.kind = .assignFieldVariable ∧ fillingWrite.fieldSignature = "<a.B: byte[] K>") ∧
    fillingWrite.right.text = "r0" := by
  decide +kernel

/-- The array that the initializer writes to the field is changed by its stores before the write only. -/
private theorem filling_kept :
    ((fillingUnits.take 4).foldlM (MethodScan.step (filling.provider fun m => .ok (filling.statements m))) {}).toOption.map
      (fun t => (t.held "r0").isAbsent) = some false ∧
    PathState.Owned "r0" {} (fillingUnits.take 4) ∧
    (PathState.run {} (trace fillingUnits [0, 1, 2, 3])).read fillingWrite.right = .array 0 ∧
    PathState.Kept (.array 0) (PathState.run {} (trace fillingUnits [0, 1, 2, 3])) (trace fillingUnits [4, 5]) := by
  decide +kernel

theorem filling_written :
    (ofProgram filling).info.constant? "<a.B: byte[] K>" = some (.arrayLiteral "byte" ["1", "7"]) ∧
    (PathState.run {} (trace (filling.statements "<a.B: void <clinit>()>") [0, 1, 2, 3, 4, 5])).text? (.array 0) =
      some (Value.arrayLiteral "byte" ["1", "7"]).text := by
  obtain ⟨resolved, static, ⟨name, visited, c, found, m, member, named⟩, done⟩ := filling_resolved
  obtain ⟨fits, path, here, ⟨kind, writes⟩, right⟩ := filling_straight
  obtain ⟨held, owned, array, kept⟩ := filling_kept
  obtain ⟨m, rfl, signature⟩ := Option.map_eq_some_iff.mp named
  have runs : ¬(filling.provider fun m => .ok (filling.statements m)).Fails "<a.B: void <clinit>()>" := by
    rw [Provider.fails_iff]
    rintro ⟨why, failed⟩
    rw [failed] at done
    cases done
  have straight : Straight (filling.provider fun m => .ok (filling.statements m)) fillingUnits [0, 1, 2, 3] 4
      fillingWrite.right.text := by
    rw [right]
    refine ⟨0, by decide, fun q _ _ u member => by simp [(fits u member).2], ?_, fun pre same => ?_⟩
    · rw [List.drop_zero]
      revert held
      cases (fillingUnits.take 4).foldlM
          (MethodScan.step (filling.provider fun m => .ok (filling.statements m))) {} with
      | error why => exact nofun
      | ok t => exact fun held => ⟨t, rfl, Option.some.inj held⟩
    · obtain rfl : pre = [] := List.self_eq_append_left.mp same
      exact owned
  have parts : IsPath fillingUnits ([0, 1, 2, 3] ++ 4 :: [5]) := path
  have stored := constant?_written (w := 4) resolved static ⟨name, visited, c, found, m, member, signature⟩ runs
    (fun u member => (fits u member).1) parts rfl here ⟨.inr kind, writes⟩ (fun _ => straight)
  dsimp only at stored
  rw [array] at stored
  exact ⟨resolved, stored kept⟩

/-- A constant that is chosen by a branch and written to the field where the sides join. -/
private def joining : Program := initializing "<a.B: int F>"
  [.callAssign "i0" "" "<lib.X: int x()>" [], .branch "i0" "==" "0" 4, .assign "i1" "1", .jump 5, .assign "i1" "2",
    .assign "<a.B: int F>" "i1", .retVoid]

/-- The field is resolved to the constant of the side that comes last in the body, and on the path through the other
side the write stores the other constant. -/
theorem joining_written_otherwise :
    (ofProgram joining).info.constant? "<a.B: int F>" = some (Value.read "2") ∧
    IsPath (joining.statements "<a.B: void <clinit>()>") [0, 1, 2, 3, 5, 6] ∧
    ((joining.statements "<a.B: void <clinit>()>")[5]?.map fun u => (u.kind, u.fieldSignature, u.right)) =
      some (.assignFieldVariable, "<a.B: int F>", Value.read "i1") ∧
    (PathState.run {} (trace (joining.statements "<a.B: void <clinit>()>") [0, 1, 2, 3])).read (Value.read "i1") =
      .constant (Value.read "1") := by
  decide +kernel

end CallModel

end MisuseSlice
