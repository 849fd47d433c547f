import Mathlib
import MisuseSlice.CallGraph.Build
import MisuseSlice.Proofs.CallGraph.Edges
import MisuseSlice.Statement.Build

/-! What the call graph holds. The pass goes once over the methods of the visited classes, and each of them adds its
own calls and accesses or nothing at all. So the graph has exactly the edges of the methods that can be processed,
and it is the graph of the program in which the others are not declared. -/
namespace MisuseSlice

namespace Statement

/-- The statement calls the method. -/
def Calls (u : Statement) (callee : String) : Prop := u.kind.isInvoke = true ∧ u.signature = callee

/-- The statement reads or writes the field. -/
def Accesses (u : Statement) (field : String) : Prop :=
  (u.kind = .assignVariableField ∨ u.kind = .assignFieldConstant ∨ u.kind = .assignFieldVariable) ∧
    u.fieldSignature = field

/-- The statement allocates an array of a literal size that no array can have. -/
def Oversized (u : Statement) : Prop :=
  u.kind = .newArray ∧ ∃ n, MethodScan.size? u = some n ∧ MethodScan.arrayLimit < n

end Statement

namespace Provider

/-- A class that is visited declares a method with this signature. -/
def Declares (p : Provider) (sig : String) : Prop :=
  ∃ name ∈ p.declaredClasses, ∃ c, p.classes[name]? = some c ∧ ∃ m, some m ∈ c.methods ∧ m.signature = sig

/-- The method cannot be processed: its body cannot be had, or allocates an array that is too large. -/
def Fails (p : Provider) (sig : String) : Prop :=
  (∃ why, p.statements sig = .error why) ∨ ∃ units, p.statements sig = .ok units ∧ ∃ u ∈ units, u.Oversized

/-- The same program without the declarations of some methods. -/
def without (p : Provider) (gone : String → Bool) : Provider :=
  { p with classes := p.classes.map fun _ c =>
      { c with methods := c.methods.filter fun m => (m.map fun m => !gone m.signature).getD true } }

end Provider

namespace MethodScan

variable {p : Provider} {s s' : MethodScan} {u : Statement} {units : List Statement} {sig : String}

/-! ### The links of one method -/

/-- The scans know the same calls and accesses. -/
def SameLinks (s s' : MethodScan) : Prop := s'.callees = s.callees ∧ s'.fields = s.fields

theorem sameLinks_forgetDefined : SameLinks s (s.forgetDefined u) := by
  simp only [forgetDefined]
  split <;> exact ⟨rfl, rfl⟩

theorem sameLinks_addSite (field : String) (v : Value) : SameLinks s (s.addSite p field v) := by
  simp only [addSite]
  split
  · split
    · split <;> exact ⟨rfl, rfl⟩
    · exact ⟨rfl, rfl⟩
  · exact ⟨rfl, rfl⟩

theorem sameLinks_allocate (ran : s.allocate u = .ok s') : SameLinks s s' := by
  unfold allocate at ran
  dsimp only at ran
  split at ran
  · split at ran <;> cases ran
    exact ⟨rfl, rfl⟩
  · cases ran
    exact ⟨rfl, rfl⟩

theorem sameLinks_store : SameLinks s (s.store u) := by
  simp only [store]
  split <;> exact ⟨rfl, rfl⟩

theorem callees_addField (field : String) : (s.addField p field).callees = s.callees := by
  simp only [addField]
  split <;> rfl

theorem mem_fields_addField {f field : String} : f ∈ (s.addField p field).fields ↔
    f ∈ s.fields ∨ (field = f ∧ p.isDevClass (Signature.className f) = true) := by
  simp only [addField]
  split
  · rename_i dev
    rw [List.mem_append, List.mem_singleton]
    refine or_congr_right ⟨?_, fun h => h.1.symm⟩
    rintro rfl
    exact ⟨rfl, dev⟩
  · rename_i other
    refine ⟨.inl, ?_⟩
    rintro (old | ⟨rfl, dev⟩)
    · exact old
    · exact absurd dev other

/-- The callees, or the accessed fields. -/
def links (s : MethodScan) (isCall : Bool) : List String := if isCall then s.callees else s.fields

theorem SameLinks.mem_links (same : SameLinks s s') {isCall : Bool} {b : String} :
    b ∈ s'.links isCall ↔ b ∈ s.links isCall := by
  simp only [links, same.1, same.2]

/-- The statement makes a link to `b`: it calls the method, or accesses the field of the developer. -/
def StepLinks (p : Provider) (isCall : Bool) (u : Statement) (b : String) : Prop :=
  if isCall then u.Calls b else u.Accesses b ∧ p.isDevClass (Signature.className b) = true

/-- A statement that is neither a call nor an access makes no link. -/
theorem mem_links_of_same (same : SameLinks s s') (call : u.kind ≠ .invoke ∧ u.kind ≠ .assignInvoke)
    (access : u.kind ≠ .assignVariableField ∧ u.kind ≠ .assignFieldConstant ∧ u.kind ≠ .assignFieldVariable)
    {isCall : Bool} {b : String} : b ∈ s'.links isCall ↔ b ∈ s.links isCall ∨ StepLinks p isCall u b := by
  have none : ¬StepLinks p isCall u b := by
    cases isCall <;> simp [StepLinks, Statement.Calls, Statement.Accesses, Kind.isInvoke, call, access]
  rw [same.mem_links, or_iff_left none]

theorem mem_links_call (call : u.kind = .invoke ∨ u.kind = .assignInvoke) {isCall : Bool} {b : String} :
    b ∈ { s with callees := s.callees ++ [u.signature] }.links isCall ↔
      b ∈ s.links isCall ∨ StepLinks p isCall u b := by
  have invokes : u.kind.isInvoke = true := by rcases call with kind | kind <;> rw [kind] <;> rfl
  cases isCall with
  | true => simp [links, StepLinks, Statement.Calls, invokes, @eq_comm _ b]
  | false => rcases call with kind | kind <;> simp [links, StepLinks, Statement.Accesses, kind]

theorem mem_links_access
    (access : u.kind = .assignVariableField ∨ u.kind = .assignFieldConstant ∨ u.kind = .assignFieldVariable)
    {isCall : Bool} {b : String} :
    b ∈ (s.addField p u.fieldSignature).links isCall ↔ b ∈ s.links isCall ∨ StepLinks p isCall u b := by
  cases isCall with
  | true =>
    have other : u.kind.isInvoke = false := by rcases access with kind | kind | kind <;> rw [kind] <;> rfl
    simp [links, StepLinks, Statement.Calls, callees_addField, other]
  | false => simp [links, StepLinks, Statement.Accesses, mem_fields_addField, access]

/-- The scan at one statement adds the link that the statement makes. -/
theorem mem_links_step {isCall : Bool} {b : String} (ran : step p s u = .ok s') :
    b ∈ s'.links isCall ↔ b ∈ s.links isCall ∨ StepLinks p isCall u b := by
  simp only [step] at ran
  split at ran <;> rename_i kind
  · cases ran
    rw [sameLinks_forgetDefined.mem_links, mem_links_call (.inl kind)]
  · cases ran
    rw [sameLinks_forgetDefined.mem_links, mem_links_call (.inr kind)]
  · cases ran
    rw [sameLinks_forgetDefined.mem_links, mem_links_access (.inl kind)]
  · cases ran
    rw [(sameLinks_addSite _ _).mem_links, mem_links_access (.inr (.inl kind))]
  · cases ran
    rw [(sameLinks_addSite _ _).mem_links, mem_links_access (.inr (.inr kind))]
  · exact mem_links_of_same (sameLinks_allocate ran) (by simp [kind]) (by simp [kind])
  · cases ran
    exact mem_links_of_same sameLinks_store (by simp [kind]) (by simp [kind])
  · cases ran
    exact mem_links_of_same sameLinks_store (by simp [kind]) (by simp [kind])
  · cases ran
    exact mem_links_of_same ⟨rfl, rfl⟩ (by simp [kind]) (by simp [kind])
  · cases ran
    exact mem_links_of_same ⟨rfl, rfl⟩ (by simp [kind]) (by simp [kind])
  · cases ran
    exact mem_links_of_same sameLinks_forgetDefined (by simp_all) (by simp_all)

/-- The scan of statements goes on where the scan of the first one ends. -/
theorem foldlM_cons_eq_ok : (u :: units).foldlM (step p) s = .ok s' ↔
    ∃ t, step p s u = .ok t ∧ units.foldlM (step p) t = .ok s' := by
  rw [List.foldlM_cons]
  cases stepped : step p s u with
  | error why => exact iff_of_false nofun nofun
  | ok t => simp [bind, Except.bind]

/-- The scan of a body finds the links of its statements. -/
theorem mem_links_run {isCall : Bool} {b : String} (ran : run p units = .ok s) :
    b ∈ s.links isCall ↔ ∃ u ∈ units, StepLinks p isCall u b := by
  have onward : ∀ (units : List Statement) (s s' : MethodScan), units.foldlM (step p) s = .ok s' →
      (b ∈ s'.links isCall ↔ b ∈ s.links isCall ∨ ∃ u ∈ units, StepLinks p isCall u b) := by
    intro units
    induction units with
    | nil =>
      intro s s' ran
      cases ran
      simp
    | cons u units ih =>
      intro s s' ran
      obtain ⟨t, stepped, rest⟩ := foldlM_cons_eq_ok.mp ran
      rw [ih t s' rest, mem_links_step stepped, or_assoc, List.exists_mem_cons_iff]
  rw [onward units {} s ran]
  cases isCall <;> simp [links]

/-! ### Methods that cannot be processed -/

/-- Only an array that is too large stops the scan. -/
theorem step_error_iff : (∃ why, step p s u = .error why) ↔ u.Oversized := by
  simp only [step, Statement.Oversized]
  split <;> rename_i kind
  case h_6 =>
    unfold allocate
    dsimp only
    cases size? u with
    | none => simp
    | some n => by_cases large : arrayLimit < n <;> simp [large, kind]
  case h_11 => simp_all
  all_goals simp [kind]

theorem run_error_iff : (∃ why, run p units = .error why) ↔ ∃ u ∈ units, u.Oversized := by
  have onward : ∀ (units : List Statement) (s : MethodScan),
      (∃ why, units.foldlM (step p) s = .error why) ↔ ∃ u ∈ units, u.Oversized := by
    intro units
    induction units with
    | nil => intro s; simp [pure, Except.pure]
    | cons u units ih =>
      intro s
      rw [List.foldlM_cons, List.exists_mem_cons_iff]
      cases stepped : step p s u with
      | error why => exact iff_of_true ⟨why, rfl⟩ (.inl (step_error_iff.mp ⟨why, stepped⟩))
      | ok t =>
        have fits : ¬u.Oversized := fun large => by
          obtain ⟨why, failed⟩ := step_error_iff (p := p) (s := s).mpr large
          rw [stepped] at failed
          cases failed
        rw [or_iff_right fits, ← ih t]
        rfl
  exact onward units {}

/-- A method that is processed has a body, and its links are those of the body. -/
theorem ofMethod_eq_ok (done : ofMethod p sig = .ok (units, s)) : p.statements sig = .ok units ∧ run p units = .ok s := by
  simp only [ofMethod] at done
  cases body : p.statements sig with
  | error why =>
    rw [body] at done
    cases done
  | ok us =>
    rw [body] at done
    cases scan : run p us with
    | error why =>
      simp only [bind, Except.bind, scan] at done
      cases done
    | ok t =>
      simp only [bind, Except.bind, scan, pure, Except.pure] at done
      cases done
      exact ⟨rfl, scan⟩

end MethodScan

namespace Provider

variable {p : Provider} {a b : String} {isCall : Bool}

/-- A method that is processed has a statement that calls the other, or one that accesses the developer's field. -/
def Links (p : Provider) (isCall : Bool) (a b : String) : Prop :=
  ¬p.Fails a ∧ ∃ units, p.statements a = .ok units ∧ ∃ u ∈ units, MethodScan.StepLinks p isCall u b

/-- A method that is processed has a body with statements. -/
def HasBody (p : Provider) (a : String) : Prop := ¬p.Fails a ∧ ∃ units, p.statements a = .ok units ∧ units ≠ []

theorem fails_iff : p.Fails a ↔ ∃ why, MethodScan.ofMethod p a = .error why := by
  cases body : p.statements a with
  | error why =>
    refine iff_of_true (.inl ⟨why, body⟩) ⟨why, ?_⟩
    simp only [MethodScan.ofMethod, body]
    rfl
  | ok units =>
    have scanned : p.Fails a ↔ ∃ u ∈ units, u.Oversized := by simp [Fails, body]
    rw [scanned, ← MethodScan.run_error_iff (p := p)]
    simp only [MethodScan.ofMethod, body, bind, Except.bind]
    cases MethodScan.run p units with
    | error why => exact iff_of_true ⟨why, rfl⟩ ⟨why, rfl⟩
    | ok s => simp [pure, Except.pure]

theorem not_fails {units : List Statement} {s : MethodScan} (done : MethodScan.ofMethod p a = .ok (units, s)) :
    ¬p.Fails a := by
  rw [fails_iff, done]
  rintro ⟨why, failed⟩
  cases failed

theorem links_iff {units : List Statement} {s : MethodScan} (done : MethodScan.ofMethod p a = .ok (units, s)) :
    p.Links isCall a b ↔ b ∈ s.links isCall := by
  obtain ⟨body, scan⟩ := MethodScan.ofMethod_eq_ok done
  rw [MethodScan.mem_links_run scan, Links, and_iff_right (not_fails done)]
  simp [body]

theorem hasBody_iff {units : List Statement} {s : MethodScan} (done : MethodScan.ofMethod p a = .ok (units, s)) :
    p.HasBody a ↔ units ≠ [] := by
  rw [HasBody, and_iff_right (not_fails done)]
  simp [(MethodScan.ofMethod_eq_ok done).1]

end Provider

namespace CallModel

variable {p : Provider} {b : CallModel} {s : MethodScan} {m : Method} {sig : String} {concrete : Bool}

/-! ### One method -/

/-- What a method contributes are its links and whether it has a body. -/
theorem commit_spec (sig : String) (concrete : Bool) (s : MethodScan) (wf : b.graph.WellFormed) :
    (b.commit sig concrete s).graph.WellFormed ∧
      (∀ a, (b.commit sig concrete s).graph.IsConcrete a ↔ b.graph.IsConcrete a ∨ (a = sig ∧ concrete = true)) ∧
      ∀ k a c, (b.commit sig concrete s).graph.Joins k a c ↔ b.graph.Joins k a c ∨ (a = sig ∧ c ∈ s.links k) := by
  have made : (b.graph.addNode sig false).2.WellFormed := wf.addNode
  have number := @CallGraph.number?_addNode_self b.graph sig false
  -- the node, then its mark, then the calls, then the accesses
  generalize marked : (if concrete = true then (b.graph.addNode sig false).2.markConcrete (b.graph.addNode sig false).1
    else (b.graph.addNode sig false).2) = g
  have node : g.WellFormed ∧ g.number? sig = some (b.graph.addNode sig false).1 ∧
      (∀ a, g.IsConcrete a ↔ b.graph.IsConcrete a ∨ (a = sig ∧ concrete = true)) ∧
      ∀ k a c, g.Joins k a c ↔ b.graph.Joins k a c := by
    cases concrete with
    | true =>
      obtain ⟨whole, found, marks, joins⟩ := CallGraph.markConcrete_spec made number
      subst marked
      refine ⟨whole, found, fun a => ?_, fun k a c => (joins k a c).trans (CallGraph.joins_addNode wf)⟩
      rw [if_pos rfl, marks, CallGraph.isConcrete_addNode, and_iff_left rfl]
    | false =>
      subst marked
      refine ⟨made, number, fun a => ?_, fun k a c => CallGraph.joins_addNode wf⟩
      rw [if_neg Bool.false_ne_true, CallGraph.isConcrete_addNode]
      simp
  obtain ⟨whole, found, marks, joins⟩ := node
  obtain ⟨whole₁, found₁, marks₁, joins₁⟩ := CallGraph.foldl_link_spec s.callees true whole found
  obtain ⟨whole₂, found₂, marks₂, joins₂⟩ := CallGraph.foldl_link_spec s.fields false whole₁ found₁
  have graph : (b.commit sig concrete s).graph =
      s.fields.foldl (fun g f => g.link (b.graph.addNode sig false).1 f false)
        (s.callees.foldl (fun g c => g.link (b.graph.addNode sig false).1 c true) g) := by
    rw [← marked]
    rfl
  rw [graph]
  refine ⟨whole₂, fun a => (marks₂ a).trans ((marks₁ a).trans (marks a)), fun k a c => ?_⟩
  rw [joins₂, joins₁, joins]
  cases k <;> simp [MethodScan.links]

/-- The graph has grown by the links and the bodies of the methods with the signatures in `added`. -/
structure Grows (p : Provider) (added : String → Prop) (b b' : CallModel) : Prop where
  wellFormed : b'.graph.WellFormed
  concrete : ∀ a, b'.graph.IsConcrete a ↔ b.graph.IsConcrete a ∨ (added a ∧ p.HasBody a)
  joins : ∀ k a c, b'.graph.Joins k a c ↔ b.graph.Joins k a c ∨ (added a ∧ p.Links k a c)

/-- A method adds its own links, or nothing at all. -/
theorem addMethod_grows (wf : b.graph.WellFormed) : Grows p (· = m.signature) b (addMethod p b m) := by
  cases done : MethodScan.ofMethod p m.signature with
  | error why =>
    have failed : p.Fails m.signature := Provider.fails_iff.mpr ⟨why, done⟩
    simp only [addMethod, done]
    refine ⟨wf, fun a => ?_, fun k a c => ?_⟩
    · refine (or_iff_left ?_).symm
      rintro ⟨rfl, alive, _⟩
      exact alive failed
    · refine (or_iff_left ?_).symm
      rintro ⟨rfl, alive, _⟩
      exact alive failed
  | ok result =>
    obtain ⟨units, s⟩ := result
    obtain ⟨whole, marks, joins⟩ := commit_spec m.signature (!units.isEmpty) s wf
    simp only [addMethod, done]
    refine ⟨whole, fun a => ?_, fun k a c => ?_⟩
    · rw [marks]
      refine or_congr_right (and_congr_right ?_)
      rintro rfl
      simp [Provider.hasBody_iff done]
    · rw [joins]
      refine or_congr_right (and_congr_right ?_)
      rintro rfl
      exact (Provider.links_iff done).symm

/-! ### The whole pass -/

theorem foldl_grows {α : Type} {f : CallModel → α → CallModel} {added : α → String → Prop} {xs : List α}
    (step : ∀ b x, b.graph.WellFormed → Grows p (added x) b (f b x)) (wf : b.graph.WellFormed) :
    Grows p (fun a => ∃ x ∈ xs, added x a) b (xs.foldl f b) := by
  induction xs generalizing b with
  | nil => exact ⟨wf, fun a => by simp, fun k a c => by simp⟩
  | cons x xs ih =>
    have first := step b x wf
    have rest := ih first.wellFormed
    refine ⟨rest.wellFormed, fun a => ?_, fun k a c => ?_⟩
    · rw [List.foldl_cons, rest.concrete, first.concrete, List.exists_mem_cons_iff]
      tauto
    · rw [List.foldl_cons, rest.joins, first.joins, List.exists_mem_cons_iff]
      tauto

/-- A class adds what its methods add. -/
theorem addClass_grows {name : String} (wf : b.graph.WellFormed) :
    Grows p (fun a => ∃ c, p.classes[name]? = some c ∧ ∃ m, some m ∈ c.methods ∧ m.signature = a) b
      (addClass p b name) := by
  cases found : p.classes[name]? with
  | none =>
    simp only [addClass, found]
    exact ⟨wf, fun a => by simp, fun k a c => by simp⟩
  | some c =>
    simp only [addClass, found, Option.some.injEq, exists_eq_left']
    have begun : CallGraph.WellFormed { b with info := b.info.addSites (p.constantFields name) }.graph := wf
    have grown : Grows p (fun a => ∃ m ∈ c.methods.filterMap id, a = m.signature) _ _ :=
      foldl_grows (fun b m wf => addMethod_grows wf) begun
    refine ⟨grown.wellFormed, fun a => ?_, fun k a c' => ?_⟩
    · rw [grown.concrete]
      simp [eq_comm]
    · rw [grown.joins]
      simp [eq_comm]

/-- The pass adds the links and the bodies of the declared methods. -/
theorem pass_grows : Grows p p.Declares {} (p.declaredClasses.foldl (addClass p) {}) :=
  foldl_grows (fun _ _ wf => addClass_grows wf) .empty

/-- Bridges change neither the signature nor the body of a node. -/
theorem withBridges_spec {g : CallGraph} (wf : g.WellFormed) :
    (withBridges p g).WellFormed ∧ ∀ a, (withBridges p g).IsConcrete a ↔ g.IsConcrete a := by
  refine ⟨⟨fun s n => ?_, fun e member => ?_, ?_, wf.callees, wf.callers, wf.neighbors⟩, fun a => ?_⟩
  · refine (wf.numbered s n).trans ?_
    simp only [withBridges, List.getElem?_map, Option.map_eq_some_iff, exists_exists_and_eq_and]
  · rw [withBridges, List.length_map]
    exact wf.inside e member
  · rw [withBridges, List.length_map]
    exact wf.sizes
  · simp only [CallGraph.IsConcrete, withBridges, List.mem_map, exists_exists_and_eq_and]

/-- The graph holds exactly what the declared methods contribute. -/
theorem ofProvider_grows : Grows p p.Declares {} (ofProvider p) := by
  have pass := pass_grows (p := p)
  obtain ⟨whole, concrete⟩ := withBridges_spec (p := p) pass.wellFormed
  exact ⟨whole, fun a => (concrete a).trans (pass.concrete a), pass.joins⟩

/-! ### Methods that fail -/

/-- The graph and the tables, without what is said about methods that fail. -/
def tables (b : CallModel) : CallModel := { b with info := { b.info with skipped := [] }, log := [] }

theorem addSite_skipped (info : CallInfo) (skipped : List String) (field : String) (v : Value) :
    CallInfo.addSite { info with skipped } field v = { info.addSite field v with skipped } := by
  cases out : info.excluded.contains field <;> cases absent : v.isAbsent <;> cases known : info.constants[field]? <;>
    simp only [CallInfo.addSite, CallInfo.isExcluded, CallInfo.constant?, out, absent, known, if_true, Bool.false_eq_true,
      if_false]
  split <;> rfl

theorem addSites_skipped (info : CallInfo) (skipped : List String) (sites : Std.TreeMap String Value) :
    CallInfo.addSites { info with skipped } sites = { info.addSites sites with skipped } := by
  simp only [CallInfo.addSites]
  induction sites.toList generalizing info with
  | nil => rfl
  | cons e sites ih => rw [List.foldl_cons, List.foldl_cons, addSite_skipped, ih]

theorem addSwitches_skipped (info : CallInfo) (skipped : List String) (starts : List (Int × Nat)) :
    CallInfo.addSwitches { info with skipped } sig starts = { info.addSwitches sig starts with skipped } := by
  simp only [CallInfo.addSwitches]
  split <;> rfl

/-- What a method contributes depends on the graph and the tables alone. -/
theorem tables_commit : (b.commit sig concrete s).tables = (b.tables.commit sig concrete s).tables := by
  simp only [commit, tables, addSites_skipped, addSwitches_skipped]

theorem tables_addSites (sites : Std.TreeMap String Value) :
    CallModel.tables { b with info := b.info.addSites sites } =
      CallModel.tables { b.tables with info := b.tables.info.addSites sites } := by
  simp only [tables, addSites_skipped]

theorem tables_addMethod : (addMethod p b m).tables = (addMethod p b.tables m).tables := by
  simp only [addMethod]
  split
  · exact tables_commit
  · rfl

/-- A method that fails contributes nothing. -/
theorem tables_addMethod_of_fails (failed : p.Fails m.signature) : (addMethod p b m).tables = b.tables := by
  obtain ⟨why, done⟩ := Provider.fails_iff.mp failed
  simp only [addMethod, done]
  rfl

/-- Methods that fail can be left out of a list. -/
theorem tables_foldl_filter {ms : List Method} {gone : String → Bool} {b' : CallModel}
    (fails : ∀ sig, gone sig = true → p.Fails sig) (same : b.tables = b'.tables) :
    ((ms.filter fun m => !gone m.signature).foldl (addMethod p) b).tables = (ms.foldl (addMethod p) b').tables := by
  induction ms generalizing b b' with
  | nil => exact same
  | cons m ms ih =>
    cases absent : gone m.signature with
    | true =>
      rw [List.filter_cons_of_neg (by simp [absent]), List.foldl_cons]
      exact ih (same.trans (tables_addMethod_of_fails (fails _ absent)).symm)
    | false =>
      rw [List.filter_cons_of_pos (by simp [absent]), List.foldl_cons, List.foldl_cons]
      refine ih ?_
      rw [tables_addMethod, same, ← tables_addMethod]

/-- A class without methods that fail contributes the same. -/
theorem tables_addClass_without {gone : String → Bool} {name : String} {b' : CallModel}
    (fails : ∀ sig, gone sig = true → p.Fails sig) (same : b.tables = b'.tables) :
    (addClass (p.without gone) b name).tables = (addClass p b' name).tables := by
  have found : (p.without gone).classes[name]? = p.classes[name]?.map fun c =>
      { c with methods := c.methods.filter fun m => (m.map fun m => !gone m.signature).getD true } := by
    simp only [Provider.without, Std.TreeMap.getElem?_map]
  cases declared : p.classes[name]? with
  | none =>
    rw [declared] at found
    simp only [addClass, found, declared, Option.map_none]
    exact same
  | some c =>
    rw [declared] at found
    have kept : (c.methods.filter fun m => (m.map fun m => !gone m.signature).getD true).filterMap id =
        (c.methods.filterMap id).filter fun m => !gone m.signature := by
      induction c.methods with
      | nil => rfl
      | cons m ms ih => cases m <;> simp_all [List.filter_cons]; split <;> simp_all
    simp only [addClass, found, declared, Option.map_some, kept]
    refine tables_foldl_filter fails ?_
    change CallModel.tables { b with info := b.info.addSites (p.constantFields name) } = _
    rw [tables_addSites, same, ← tables_addSites]

/-- The super types of a class do not depend on its methods. -/
theorem superTypes_without {gone : String → Bool} (name : String) :
    (p.without gone).superTypes name = p.superTypes name := by
  have names : (p.without gone).superNames = p.superNames := by
    funext name
    simp only [Provider.superNames, Provider.without, Std.TreeMap.getElem?_map]
    cases p.classes[name]? <;> rfl
  have bound : (p.without gone).linkBound = p.linkBound := by
    simp only [Provider.linkBound, Provider.without, Std.TreeMap.toList_map, List.foldl_map]
  have search : ∀ fuel queue found,
      (p.without gone).superTypesFrom fuel queue found = p.superTypesFrom fuel queue found := by
    intro fuel
    induction fuel with
    | zero => exact fun _ _ => rfl
    | succ fuel ih =>
      intro queue found
      cases queue with
      | nil => rfl
      | cons name queue => simp only [Provider.superTypesFrom, names, ih]
  simp only [Provider.superTypes, bound, search]

theorem withBridges_without {gone : String → Bool} (g : CallGraph) :
    withBridges (p.without gone) g = withBridges p g := by
  have bridge : bridgeOf (p.without gone) g = bridgeOf p g := by
    funext n
    simp only [bridgeOf, superTypes_without]
    rfl
  simp only [withBridges, bridge]

/-- The graph and the tables are those of the program in which methods that fail are not declared. -/
theorem tables_ofProvider_without {gone : String → Bool} (fails : ∀ sig, gone sig = true → p.Fails sig) :
    (ofProvider (p.without gone)).tables = (ofProvider p).tables := by
  have pass : ∀ (names : List String) (b b' : CallModel), b.tables = b'.tables →
      (names.foldl (addClass (p.without gone)) b).tables = (names.foldl (addClass p) b').tables := by
    intro names
    induction names with
    | nil => exact fun _ _ same => same
    | cons name names ih => exact fun b b' same => ih _ _ (tables_addClass_without fails same)
  have same := pass p.declaredClasses {} {} rfl
  have bridged (g : CallGraph) (info : CallInfo) :
      CallModel.mk (withBridges (p.without gone) g) info [] = ⟨withBridges p g, info, []⟩ := by
    rw [withBridges_without]
  exact (bridged _ _).trans (congrArg (fun b => CallModel.mk (withBridges p b.graph) b.info []) same)

/-- The graph of what a provider gives has a call for each statement of a method that can be processed and calls,
an access for each that reads or writes a field of the developer, and a body for each method with statements. Methods
that cannot be processed may as well not be declared. -/
theorem ofProvider_exact (p : Provider) (gone : String → Bool) (fails : ∀ sig, gone sig = true → p.Fails sig) :
    (ofProvider p).graph.WellFormed ∧
    (∀ a b, (ofProvider p).graph.Joins true a b ↔
      p.Declares a ∧ ¬p.Fails a ∧ ∃ units, p.statements a = .ok units ∧ ∃ u ∈ units, u.Calls b) ∧
    (∀ a f, (ofProvider p).graph.Joins false a f ↔
      p.Declares a ∧ ¬p.Fails a ∧ ∃ units, p.statements a = .ok units ∧
        ∃ u ∈ units, u.Accesses f ∧ p.isDevClass (Signature.className f) = true) ∧
    (∀ a, (ofProvider p).graph.IsConcrete a ↔
      p.Declares a ∧ ¬p.Fails a ∧ ∃ units, p.statements a = .ok units ∧ units ≠ []) ∧
    (ofProvider (p.without gone)).graph = (ofProvider p).graph ∧
    (ofProvider (p.without gone)).info.constants = (ofProvider p).info.constants ∧
    (ofProvider (p.without gone)).info.excluded = (ofProvider p).info.excluded ∧
    (ofProvider (p.without gone)).info.switches = (ofProvider p).info.switches := by
  have grown := ofProvider_grows (p := p)
  have same := tables_ofProvider_without fails
  have graph := congrArg (fun b => b.graph) same
  have constants := congrArg (fun b => b.info.constants) same
  have excluded := congrArg (fun b => b.info.excluded) same
  have switches := congrArg (fun b => b.info.switches) same
  refine ⟨grown.wellFormed, fun a b => ?_, fun a f => ?_, fun a => ?_, graph, constants, excluded, switches⟩
  · rw [grown.joins, or_iff_right (by simp [CallGraph.Joins, CallGraph.number?])]
    rfl
  · rw [grown.joins, or_iff_right (by simp [CallGraph.Joins, CallGraph.number?])]
    rfl
  · rw [grown.concrete, or_iff_right (by simp [CallGraph.IsConcrete])]
    rfl

/-- A class of which one method has no body to be had and another allocates too much, beside a class that is not
declared. -/
private def faulty : Provider where
  declaredClasses := ["a.B", "a.C"]
  classes := Std.TreeMap.empty.insert "a.B"
    { name := "a.B"
      methods := [some { signature := "<a.B: void run()>" }, none, some { signature := "<a.B: void lost()>" },
        some { signature := "<a.B: void huge()>" }] }
  constantFields := fun _ => {}
  field? := fun _ => none
  isDevClass := fun name => name == "a.B"
  statements := fun sig =>
    if sig == "<a.B: void run()>" then
      .ok [.call "" "<a.B: void huge()>" [], .assign "i0" "<a.B: int size>", .retVoid]
    else if sig == "<a.B: void huge()>" then
      .ok [.call "" "<lib.X: void x()>" [], .newArray "r0" "byte" "99999999999999999"]
    else .error "malformed body"

private def isFaulty (sig : String) : Bool := sig == "<a.B: void lost()>" || sig == "<a.B: void huge()>"

/-- The method that can be processed has its call and its access; the call in the one that allocates too much does
not count. -/
theorem faulty_exact : (∀ sig, isFaulty sig = true → faulty.Fails sig) ∧
    (ofProvider faulty).graph.Joins true "<a.B: void run()>" "<a.B: void huge()>" ∧
    (ofProvider faulty).graph.Joins false "<a.B: void run()>" "<a.B: int size>" ∧
    ¬(ofProvider faulty).graph.Joins true "<a.B: void huge()>" "<lib.X: void x()>" ∧
    (ofProvider (faulty.without isFaulty)).graph = (ofProvider faulty).graph := by
  have huge : faulty.Fails "<a.B: void huge()>" :=
    .inr ⟨_, rfl, .newArray "r0" "byte" "99999999999999999", by simp, rfl, 99999999999999999, by decide +kernel, by decide⟩
  have fails : ∀ sig, isFaulty sig = true → faulty.Fails sig := by
    intro sig member
    simp only [isFaulty, Bool.or_eq_true, beq_iff_eq] at member
    rcases member with rfl | rfl
    · exact .inl ⟨_, rfl⟩
    · exact huge
  have run : faulty.Declares "<a.B: void run()>" :=
    ⟨"a.B", by decide, _, Std.TreeMap.getElem?_insert_self, _, List.mem_cons_self, rfl⟩
  have runs : ¬faulty.Fails "<a.B: void run()>" := by
    rintro (⟨why, failed⟩ | ⟨units, body, u, member, kind, _⟩)
    · cases failed
    · cases body
      have plain : ∀ u ∈ [Statement.call "" "<a.B: void huge()>" [], .assign "i0" "<a.B: int size>", .retVoid],
          u.kind ≠ .newArray := by decide +kernel
      exact plain u member kind
  obtain ⟨-, calls, accesses, -, graph, -⟩ := ofProvider_exact faulty isFaulty fails
  refine ⟨fails, (calls _ _).mpr ⟨run, runs, _, rfl, _, List.mem_cons_self, rfl, rfl⟩,
    (accesses _ _).mpr ⟨run, runs, _, rfl, .assign "i0" "<a.B: int size>", by simp,
      ⟨.inl (by decide +kernel), by decide +kernel⟩, by decide +kernel⟩,
    fun joins => ((calls _ _).mp joins).2.1 huge, graph⟩

end CallModel

end MisuseSlice
