import Mathlib
import MisuseSlice.Proofs.Breadth
import MisuseSlice.Proofs.Maps
import MisuseSlice.Proofs.Rule.Reports
import MisuseSlice.Proofs.Slice.Store

/-! Subslices are what a line leads to. An expansion goes in breadth over the slices that can be reached over calls, reads
of fields and parameters, and what is kept for a line is the expansion that it would start. -/
namespace MisuseSlice

/-- A line links to a slice: a call to the returns of its callee, the read of a field to the writes of the field, and a
parameter to the arguments of its method. -/
def SliceLine.LinksTo (l : SliceLine) (q : PartialSlice) : Prop :=
  (l.statement.kind.isInvoke = true ∧ q.kind = .returned ∧ q.caller = l.statement.signature) ∨
    (l.statement.kind = .assignVariableField ∧ q.kind = .fieldWrite ∧ q.target = l.statement.fieldSignature) ∨
    (l.statement.kind = .parameter ∧ q.kind = .parameter ∧ q.target = l.caller)

namespace SliceStore

/-- The slices of a store whose seed can run. -/
def feasible (s : SliceStore) : List PartialSlice := s.toList.filter fun p => !p.infeasible

/-- A slice leads to a slice of the store whose seed can run and to which one of its lines links. -/
def Leads (w : Workspace) (s : SliceStore) (p q : PartialSlice) : Prop :=
  q ∈ s.feasible ∧ ∃ l ∈ SliceIndex.linesOf w p, l.LinksTo q

end SliceStore

@[simp] theorem Kind.isInvoke_assignVariableField : Kind.assignVariableField.isInvoke = false := rfl

@[simp] theorem Kind.isInvoke_parameter : Kind.parameter.isInvoke = false := rfl

namespace SliceIndex

variable {ix : SliceIndex} {w : Workspace} {s : SliceStore} {p q : PartialSlice} {l : SliceLine} {name : String}

theorem addTo_getD {t : SliceTable} {key : String} :
    (addTo t key p).getD name [] = if key = name then t.getD name [] ++ [p] else t.getD name [] := by
  rw [addTo, Std.TreeMap.getD_insert]
  by_cases same : key = name
  · simp [same]
  · simp [same]

/-- A slice keeps its lines. -/
theorem mem_linesOf (member : l ∈ p.lines) : l ∈ linesOf w p := by
  unfold linesOf
  split
  · split
    · exact List.mem_append_left _ member
    · exact member
  · exact member

/-- A table of the index holds the wanted slices of the store whose seed can run under their names, in their order. -/
theorem table_ofStore {view : SliceIndex → SliceTable} {wanted : PartialSlice → Bool} {named : PartialSlice → String}
    (adds : ∀ ix p, view (add ix p) = if !p.infeasible && wanted p then addTo (view ix) (named p) p else view ix)
    (empty : view {} = {}) (name : String) :
    (view (ofStore s)).getD name [] = s.feasible.filter fun p => wanted p && named p == name := by
  have onto : ∀ (ps : List PartialSlice) (ix : SliceIndex), (view (ps.foldl add ix)).getD name [] =
      (view ix).getD name [] ++ ps.filter fun p => (wanted p && named p == name) && !p.infeasible := by
    intro ps
    induction ps with
    | nil => simp
    | cons p ps ih =>
      intro ix
      rw [List.foldl_cons, ih, adds, List.filter_cons]
      cases p.infeasible <;> cases wanted p <;> by_cases same : named p = name <;> simp [addTo_getD, same]
  rw [ofStore, onto, empty, SliceStore.feasible, List.filter_filter]
  simp

theorem byCaller_ofStore (name : String) :
    (ofStore s).byCaller.getD name [] = s.feasible.filter fun p => p.caller == name := by
  have table : (ofStore s).byCaller.getD name [] = s.feasible.filter fun p => true && p.caller == name :=
    table_ofStore (fun ix p => by unfold add; cases p.infeasible <;> cases p.kind <;> rfl) rfl name
  simpa using table

theorem returns_ofStore (name : String) :
    (ofStore s).returns.getD name [] = s.feasible.filter fun p => p.kind == .returned && p.caller == name :=
  table_ofStore (fun ix p => by unfold add; cases p.infeasible <;> cases p.kind <;> rfl) rfl name

theorem writers_ofStore (name : String) :
    (ofStore s).writers.getD name [] = s.feasible.filter fun p => p.kind == .fieldWrite && p.target == name :=
  table_ofStore (fun ix p => by unfold add; cases p.infeasible <;> cases p.kind <;> rfl) rfl name

theorem params_ofStore (name : String) :
    (ofStore s).params.getD name [] = s.feasible.filter fun p => p.kind == .parameter && p.target == name :=
  table_ofStore (fun ix p => by unfold add; cases p.infeasible <;> cases p.kind <;> rfl) rfl name

/-- The slices that a line leads to are those of the store to which it links. -/
theorem mem_linked : q ∈ (ofStore s).linked l ↔ q ∈ s.feasible ∧ l.LinksTo q := by
  unfold linked SliceLine.LinksTo
  dsimp only
  by_cases call : l.statement.kind.isInvoke = true
  · have other : l.statement.kind ≠ .assignVariableField ∧ l.statement.kind ≠ .parameter := by
      constructor <;> intro kind <;> simp [kind] at call
    simp [call, other, returns_ofStore]
  · by_cases field : l.statement.kind = .assignVariableField
    · simp [field, writers_ofStore]
    · by_cases parameter : l.statement.kind = .parameter
      · simp [parameter, params_ofStore]
      · simp [call, field, parameter]

/-- The slices that a slice leads to, in the order in which an expansion looks at them. -/
def next (ix : SliceIndex) (w : Workspace) (p : PartialSlice) : List PartialSlice := (linesOf w p).reverse.flatMap ix.linked

theorem mem_next : q ∈ (ofStore s).next w p ↔ s.Leads w p q := by
  simp only [next, List.mem_flatMap, List.mem_reverse, mem_linked, SliceStore.Leads]
  constructor
  · rintro ⟨l, member, inside, links⟩
    exact ⟨inside, l, member, links⟩
  · rintro ⟨inside, l, member, links⟩
    exact ⟨l, member, inside, links⟩

/-- The lines of slices, without those that have none. -/
def linesOfAll (w : Workspace) (ps : List PartialSlice) : List (List SliceLine) :=
  (ps.map (linesOf w)).filter fun lines => !lines.isEmpty

/-- With fuel for all that it looks at, an expansion gives the lines of what a search in breadth finds. The slices already
seen are known by their names. -/
theorem expandFrom_eq {slices pending seen found : List PartialSlice}
    (distinct : ∀ p ∈ slices, ∀ q ∈ slices, p.id = q.id → p = q) (closed : ∀ p ∈ slices, ∀ q ∈ ix.next w p, q ∈ slices)
    (visits : Breadth.Visits (ix.next w) pending seen found) {names : List String} {fuel : Nat}
    (inside : ∀ p ∈ pending, p ∈ slices) (known : ∀ p ∈ slices, p.id ∈ names ↔ p ∈ seen)
    (enough : pending.length + (found.flatMap (ix.next w)).length ≤ fuel) :
    expandFrom w ix fuel pending names = linesOfAll w found := by
  induction visits generalizing names fuel with
  | done => cases fuel <;> rfl
  | @known p pending seen found old rest ih =>
    obtain ⟨here, others⟩ := List.forall_mem_cons.mp inside
    have passed : names.contains p.id = true := List.contains_iff_mem.mpr ((known p here).mpr old)
    rw [List.length_cons] at enough
    obtain ⟨fuel, rfl⟩ : ∃ n, fuel = n + 1 := ⟨fuel - 1, by omega⟩
    rw [expandFrom, if_pos passed]
    exact ih others known (by omega)
  | @new p pending seen found fresh rest ih =>
    obtain ⟨here, others⟩ := List.forall_mem_cons.mp inside
    have unseen : ¬names.contains p.id = true := fun passed => fresh ((known p here).mp (List.contains_iff_mem.mp passed))
    have known' : ∀ q ∈ slices, q.id ∈ p.id :: names ↔ q ∈ p :: seen := by
      intro q member
      have same : q.id = p.id ↔ q = p := ⟨distinct q member p here, congrArg _⟩
      rw [List.mem_cons, List.mem_cons, known q member, same]
    rw [List.flatMap_cons, List.length_append, List.length_cons] at enough
    obtain ⟨fuel, rfl⟩ : ∃ n, fuel = n + 1 := ⟨fuel - 1, by omega⟩
    have onward : expandFrom w ix fuel (pending ++ ix.next w p) (p.id :: names) = linesOfAll w found :=
      ih (fun q member => (List.mem_append.mp member).elim (others q) (closed p here q)) known'
        (by rw [List.length_append]; omega)
    rw [expandFrom, if_neg unseen, linesOfAll, List.map_cons]
    cases empty : (linesOf w p).isEmpty with
    | true =>
      -- a slice without lines leads nowhere
      have dead : ix.next w p = [] := by rw [next, List.isEmpty_iff.mp empty]; rfl
      rw [dead, List.append_nil] at onward
      rw [List.filter_cons_of_neg (by simp [empty])]
      simpa [empty, linesOfAll] using onward
    | false =>
      rw [List.filter_cons_of_pos (by simp [empty])]
      simpa [empty, linesOfAll, next] using onward

/-- What an expansion of a slice looks at. -/
def cost (ix : SliceIndex) (w : Workspace) (p : PartialSlice) : Nat := ((linesOf w p).flatMap ix.linked).length

theorem length_next : (ix.next w p).length = ix.cost w p := by
  rw [next, cost, List.length_flatMap, List.length_flatMap, List.map_reverse, List.sum_reverse]

/-- The sum of a number over all slices of a table. -/
def weight (f : PartialSlice → Nat) (t : SliceTable) : Nat := Maps.total (fun ps => (ps.map f).sum) t

theorem weight_addTo (f : PartialSlice → Nat) (t : SliceTable) (name : String) :
    weight f (addTo t name p) = f p + weight f t := by
  rw [addTo, Std.TreeMap.getD_eq_getD_getElem?]
  cases found : t[name]? with
  | none =>
    rw [weight, Maps.total_insert_new _ (Maps.getElem?_eq_none_iff.mp found)]
    simp [weight]
  | some ps =>
    have replaced : (ps.map f).sum + weight f (t.insert name (ps ++ [p])) = ((ps ++ [p]).map f).sum + weight f t :=
      Maps.total_insert_found (fun ps => (ps.map f).sum) found
    simp only [List.map_append, List.sum_append, List.map_cons, List.map_nil, List.sum_singleton] at replaced
    simp only [Option.getD_some]
    omega

theorem byCaller_add : (ix.add p).byCaller = if p.infeasible then ix.byCaller else addTo ix.byCaller p.caller p := by
  unfold add
  cases p.infeasible <;> cases p.kind <;> rfl

/-- The slices of a store whose seed can run are all in the table by callers, once each. -/
theorem weight_byCaller (f : PartialSlice → Nat) : weight f (ofStore s).byCaller = (s.feasible.map f).sum := by
  have onto : ∀ (ps : List PartialSlice) (ix : SliceIndex),
      weight f (ps.foldl add ix).byCaller = weight f ix.byCaller + ((ps.filter fun p => !p.infeasible).map f).sum := by
    intro ps
    induction ps with
    | nil => simp
    | cons p ps ih =>
      intro ix
      rw [List.foldl_cons, ih, byCaller_add]
      cases here : p.infeasible
      · simp only [Bool.false_eq_true, ↓reduceIte, weight_addTo, List.filter_cons, here, Bool.not_false, List.map_cons,
          List.sum_cons]
        omega
      · simp [here]
  have start : weight f ({} : SliceIndex).byCaller = 0 := rfl
  rw [ofStore, onto, start, Nat.zero_add, SliceStore.feasible]

theorem foldl_add_eq_sum {α : Type} (f : α → Nat) (xs : List α) (n : Nat) :
    xs.foldl (fun n x => n + f x) n = n + (xs.map f).sum := by
  calc xs.foldl (fun n x => n + f x) n
      = (xs.map f).foldl (· + ·) (n + 0) := by rw [List.foldl_map, Nat.add_zero]
    _ = n + (xs.map f).foldl (· + ·) 0 := List.foldl_assoc
    _ = n + (xs.map f).sum := by rw [List.sum_eq_foldl]

/-- The bound of an index counts what its slices lead to. -/
theorem expandBound_ofStore : (ofStore s).expandBound w = (s.feasible.map ((ofStore s).cost w)).sum := by
  have sums : (ofStore s).expandBound w =
    (ofStore s).byCaller.toList.foldl (fun n e => e.2.foldl (fun n p => n + (ofStore s).cost w p) n) 0 := rfl
  rw [sums, ← weight_byCaller]
  simp only [foldl_add_eq_sum, Nat.zero_add, weight, Maps.total]

/-- An expansion from slices of a store whose seed can run is a search in breadth, and has fuel for all of it. -/
theorem exists_expansion (built : s.Built) {start : List PartialSlice} (runs : ∀ p ∈ start, p ∈ s.feasible) :
    ∃ visited, Breadth.Visits ((ofStore s).next w) start [] visited ∧
      ∀ fuel, start.length + (ofStore s).expandBound w ≤ fuel →
        expandFrom w (ofStore s) fuel start [] = linesOfAll w visited := by
  have closed : ∀ p ∈ s.feasible, ∀ q ∈ (ofStore s).next w p, q ∈ s.feasible := fun p _ q link => (mem_next.mp link).1
  have distinct : ∀ p ∈ s.feasible, ∀ q ∈ s.feasible, p.id = q.id → p = q := fun p left q right =>
    built.eq_of_id_eq (List.mem_of_mem_filter left) (List.mem_of_mem_filter right)
  obtain ⟨visited, visits⟩ := Breadth.exists_visits closed start [] runs
  have links : (visited.flatMap ((ofStore s).next w)).length ≤ (s.feasible.map ((ofStore s).cost w)).sum := by
    simpa only [length_next] using visits.links_le closed runs
  refine ⟨visited, visits, fun fuel enough => ?_⟩
  rw [expandBound_ofStore] at enough
  exact expandFrom_eq distinct closed visits runs (by simp) (by omega)

end SliceIndex

namespace Subslices

variable {w : Workspace} {ix : SliceIndex} {mark mark' name name' : String} {t t' : SliceTable} {l : SliceLine} {all : Bool}

/-- Names behind different marks are different texts. -/
theorem tables_apart :
    (tables ix).Pairwise fun a b => ∀ name name', a.1 ++ name ≠ b.1 ++ name' := by
  have apart : ∀ {a b : String}, a.toList.head? ≠ b.toList.head? → a.toList ≠ [] → b.toList ≠ [] →
      ∀ name name', a ++ name ≠ b ++ name' := by
    intro a b differ left right name name' same
    refine differ ?_
    have heads := congrArg (fun s : String => s.toList.head?) same
    simpa [String.toList_append, List.head?_append_of_ne_nil _ left, List.head?_append_of_ne_nil _ right] using heads
  simp only [tables, List.pairwise_cons, List.mem_cons, List.not_mem_nil, or_false, forall_eq_or_imp, forall_eq]
  refine ⟨⟨apart (by decide) (by decide) (by decide), apart (by decide) (by decide) (by decide)⟩,
    apart (by decide) (by decide) (by decide), by simp⟩

/-- The texts under which expansions are kept are all different. -/
theorem expansions_distinct :
    ((tables ix).flatMap fun e => expansions w ix e.1 e.2).Pairwise fun a b => ¬compare a.1 b.1 = .eq := by
  refine List.pairwise_flatMap.mpr ⟨fun a _ => ?_, tables_apart.imp fun apart x left y right same => ?_⟩
  · refine List.pairwise_map.mpr (Std.TreeMap.distinct_keys_toList.imp fun differ same => differ ?_)
    have names := Std.compare_eq_iff_eq.mp same
    exact Std.compare_eq_iff_eq.mpr (String.append_right_inj _ |>.mp names)
  · obtain ⟨x', -, rfl⟩ := List.mem_map.mp left
    obtain ⟨y', -, rfl⟩ := List.mem_map.mp right
    exact apart _ _ (Std.compare_eq_iff_eq.mp same)

/-- What is kept under a name of a table, behind the table's mark, is the expansion of what the table has there. -/
theorem kept_ofIndex (entered : (mark, t) ∈ tables ix) (name : String) :
    ((ofIndex w ix).kept[mark ++ name]?).map Thunk.get = t[name]?.map (ix.expand w) := by
  cases here : t[name]? with
  | some ps =>
    have member : (mark ++ name, Thunk.mk fun _ => ix.expand w ps) ∈
        (tables ix).flatMap fun e => expansions w ix e.1 e.2 :=
      List.mem_flatMap.mpr ⟨_, entered, List.mem_map.mpr ⟨_, Std.TreeMap.mem_toList_iff_getElem?_eq_some.mpr here, rfl⟩⟩
    rw [ofIndex, Std.TreeMap.getElem?_ofList_of_mem (Std.compare_eq_iff_eq.mpr rfl) expansions_distinct member]
    rfl
  | none =>
    have absent : (((tables ix).flatMap fun e => expansions w ix e.1 e.2).map Prod.fst).contains (mark ++ name) =
        false := by
      rw [Bool.eq_false_iff, ne_eq, List.contains_iff_mem, List.mem_map]
      rintro ⟨entry, member, key⟩
      obtain ⟨⟨mark', t'⟩, entered', member⟩ := List.mem_flatMap.mp member
      obtain ⟨⟨name', ps⟩, kept, rfl⟩ := List.mem_map.mp member
      by_cases table : (mark, t) = (mark', t')
      · obtain ⟨rfl, rfl⟩ := Prod.mk.inj table
        obtain rfl := (String.append_right_inj mark).mp key
        rw [Std.TreeMap.mem_toList_iff_getElem?_eq_some.mp kept] at here
        cases here
      · have symmetric : Std.Symm fun a b : String × SliceTable => ∀ name name', a.1 ++ name ≠ b.1 ++ name' :=
          ⟨fun a b apart name name' same => apart name' name same.symm⟩
        exact tables_apart.forall entered' entered (Ne.symm table) name' name key
    rw [ofIndex, Std.TreeMap.getElem?_ofList_of_contains_eq_false absent]
    rfl

/-- The slices from which the expansion of a line starts. -/
def starts (ix : SliceIndex) (l : SliceLine) (all : Bool) : List PartialSlice :=
  let u := l.statement
  if u.kind.isInvoke then (if all then ix.byCaller else ix.returns).getD u.signature []
  else if u.kind == .assignVariableField then ix.writers.getD u.fieldSignature []
  else []

/-- What is kept for a line is the expansion that it would start. -/
theorem found_ofIndex : (ofIndex w ix).found l all = ix.expand w (starts ix l all) := by
  have kept : ∀ {mark : String} {t : SliceTable} (name : String), (mark, t) ∈ tables ix →
      (((ofIndex w ix).kept[mark ++ name]?).map Thunk.get).getD [] = ix.expand w (t.getD name []) := by
    intro mark t name entered
    rw [kept_ofIndex entered, Std.TreeMap.getD_eq_getD_getElem?]
    cases t[name]? <;> rfl
  unfold found key? starts
  dsimp only
  by_cases call : l.statement.kind.isInvoke = true
  · cases all
    · simpa [call] using kept l.statement.signature (by simp [tables] : ("return:", ix.returns) ∈ tables ix)
    · simpa [call] using kept l.statement.signature (by simp [tables] : ("all:", ix.byCaller) ∈ tables ix)
  · by_cases field : l.statement.kind = .assignVariableField
    · simpa [field] using kept l.statement.fieldSignature (by simp [tables] : ("field:", ix.writers) ∈ tables ix)
    · simp [call, field, SliceIndex.expand, SliceIndex.expandFrom]

/-- An expansion of a line starts from slices of the store whose seed can run. -/
theorem starts_feasible {s : SliceStore} : ∀ p ∈ starts (.ofStore s) l all, p ∈ s.feasible := by
  intro p member
  unfold starts at member
  dsimp only at member
  split at member
  · cases all
    · exact List.mem_of_mem_filter (SliceIndex.returns_ofStore _ ▸ member)
    · exact List.mem_of_mem_filter (SliceIndex.byCaller_ofStore _ ▸ member)
  · split at member
    · exact List.mem_of_mem_filter (SliceIndex.writers_ofStore _ ▸ member)
    · cases member

/-- The subslices of a line are those of a fresh expansion that share no line with the slice. -/
theorem ofLine_ofIndex (slice : List SliceLine) :
    (ofIndex w ix).ofLine l slice all =
      (ix.expand w (starts ix l all)).filter fun sub => sub.all fun x => !(slice.map (·.key)).contains x.key := by
  rw [ofLine, found_ofIndex]
  refine List.filter_congr fun sub _ => ?_
  rw [List.not_any_eq_all_not]

end Subslices

/-- Checking leaves the subslices as they are. -/
theorem Checker.checkAll_evidence (c : Checker) (calls : List (Criterion × CombinedSlice)) :
    (c.checkAll calls).2.evidence = c.evidence := by
  rw [checkAll_eq]
  exact (c.notices_keeps _).2

/-- An order in which a search in breadth comes to the slices that can be reached from the given ones. -/
structure SliceStore.Traversal (w : Workspace) (s : SliceStore) (start visited : List PartialSlice) : Prop where
  nodup : visited.Nodup
  mem_iff : ∀ p, p ∈ visited ↔ ∃ a ∈ start, Relation.ReflTransGen (s.Leads w) a p
  in_order : visited = (start ++ visited.flatMap ((SliceIndex.ofStore s).next w)).eraseDups
  nearest_first : visited.Pairwise fun p q =>
    ∀ n, Breadth.Within ((SliceIndex.ofStore s).next w) start n q → Breadth.Within ((SliceIndex.ofStore s).next w) start n p

/-- Subslices are the slices that can be reached. From any slices of a store whose seed can run, an expansion ends, and
gives the lines of what they lead to, each slice once and in breadth; more fuel adds nothing. What a line gets, however
much was checked before, are the lines of a fresh expansion that share none with the slice of the line. -/
theorem subslices_reachable {w : Workspace} {s : SliceStore} (built : s.Built) {start : List PartialSlice}
    (runs : ∀ p ∈ start, p ∈ s.feasible) :
    (∃ visited, s.Traversal w start visited ∧
      (SliceIndex.ofStore s).expand w start = (visited.map (SliceIndex.linesOf w)).filter (fun lines => !lines.isEmpty) ∧
      ∀ fuel, start.length + (SliceIndex.ofStore s).expandBound w ≤ fuel →
        SliceIndex.expandFrom w (.ofStore s) fuel start [] = (SliceIndex.ofStore s).expand w start) ∧
    ∀ (c : Checker) (calls : List (Criterion × CombinedSlice)), c.evidence.subslices = .ofIndex w (.ofStore s) →
      ∀ l slice all, (∀ p ∈ Subslices.starts (.ofStore s) l all, p ∈ s.feasible) ∧
        (c.checkAll calls).2.evidence.subslices.ofLine l slice all =
          ((SliceIndex.ofStore s).expand w (Subslices.starts (.ofStore s) l all)).filter fun sub =>
            sub.all fun x => !(slice.map (·.key)).contains x.key := by
  refine ⟨?_, fun c calls same l slice all => ⟨Subslices.starts_feasible, ?_⟩⟩
  · obtain ⟨visited, visits, expands⟩ := SliceIndex.exists_expansion (w := w) built runs
    have expansion : (SliceIndex.ofStore s).expand w start = SliceIndex.linesOfAll w visited := expands _ (Nat.le_succ _)
    have leads : (fun p q => q ∈ (SliceIndex.ofStore s).next w p) = s.Leads w := by
      funext p q
      exact propext SliceIndex.mem_next
    have in_order := visits.found_eq
    simp only [List.not_mem_nil, not_false_eq_true, decide_true, List.filter_true] at in_order
    refine ⟨visited, ⟨visits.nodup, fun p => ?_, in_order, visits.nearest_first⟩, expansion, fun fuel enough => ?_⟩
    · rw [visits.mem_iff, leads]
    · rw [expands fuel enough, expansion]
  · rw [Checker.checkAll_evidence, same, Subslices.ofLine_ofIndex]

/-- The slice of the return of a method whose one line calls another method. -/
def returnSlice (method callee : String) : PartialSlice :=
  { id := method, caller := method, target := "", kind := .returned
    lines := [⟨method, { kind := .invoke, signature := callee }⟩] }

/-- Two methods that call each other. -/
def mutualReturns : SliceStore := (SliceStore.put {} (returnSlice "even" "odd")).put (returnSlice "odd" "even")

/-- A call of the first method, and a checker over the slices of both. -/
def evenCall : SliceLine := ⟨"main", { kind := .invoke, signature := "even" }⟩

def mutualChecker : Checker where
  rules := []
  evidence :=
    { workspace := .ofProgram {} {} true, subslices := .ofIndex (.ofProgram {} {} true) (.ofStore mutualReturns)
      retainedParams := {} }

/-- From a method that another one calls in turn, an expansion comes to both and ends. A call of the first method has
both as subslices, and in a slice that has the line of the first only the other. -/
theorem mutualReturns_reached :
    mutualReturns.Built ∧ (∀ p ∈ [returnSlice "even" "odd"], p ∈ mutualReturns.feasible) ∧
      (∃ visited, mutualReturns.Traversal (.ofProgram {} {} true) [returnSlice "even" "odd"] visited ∧
        returnSlice "even" "odd" ∈ visited ∧ returnSlice "odd" "even" ∈ visited) ∧
      ∀ calls, let kept := (mutualChecker.checkAll calls).2.evidence.subslices
        kept.ofLine evenCall [evenCall] false = [(returnSlice "even" "odd").lines, (returnSlice "odd" "even").lines] ∧
          kept.ofLine evenCall (returnSlice "even" "odd").lines false = [(returnSlice "odd" "even").lines] := by
  have built : mutualReturns.Built := (SliceStore.Built.empty.put _).put _
  have feasible : mutualReturns.feasible = [returnSlice "even" "odd", returnSlice "odd" "even"] := by decide +kernel
  have runs : ∀ p ∈ [returnSlice "even" "odd"], p ∈ mutualReturns.feasible := by simp [feasible]
  obtain ⟨⟨visited, traversal, -, -⟩, subslices⟩ := subslices_reachable (w := .ofProgram {} {} true) built runs
  have line : ⟨"even", { kind := .invoke, signature := "odd" }⟩ ∈
      SliceIndex.linesOf (.ofProgram {} {} true) (returnSlice "even" "odd") := SliceIndex.mem_linesOf (by simp [returnSlice])
  have leads : mutualReturns.Leads (.ofProgram {} {} true) (returnSlice "even" "odd") (returnSlice "odd" "even") :=
    ⟨by simp [feasible], _, line, .inl ⟨rfl, rfl, rfl⟩⟩
  have reached := (traversal.mem_iff _).mpr ⟨_, List.mem_singleton_self _, .single leads⟩
  have expansion : (SliceIndex.ofStore mutualReturns).expand (.ofProgram {} {} true)
      (Subslices.starts (.ofStore mutualReturns) evenCall false) =
        [(returnSlice "even" "odd").lines, (returnSlice "odd" "even").lines] := by decide +kernel
  refine ⟨built, runs, ⟨visited, traversal, (traversal.mem_iff _).mpr ⟨_, List.mem_singleton_self _, .refl⟩, reached⟩,
    fun calls => ⟨?_, ?_⟩⟩
  · rw [(subslices mutualChecker calls rfl evenCall _ false).2, expansion]
    decide +kernel
  · rw [(subslices mutualChecker calls rfl evenCall _ false).2, expansion]
    decide +kernel

end MisuseSlice
