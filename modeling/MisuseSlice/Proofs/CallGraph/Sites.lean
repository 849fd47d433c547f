import MisuseSlice.Proofs.CallGraph.Building
import MisuseSlice.Proofs.Folds
import MisuseSlice.Proofs.Maps

/-! Constant sites. A static final field is resolved only if every write of it that the pass comes to, in whatever
method, writes the same text: a write that differs, or one whose value the scan does not know, keeps the field
unresolved from then on. -/
namespace MisuseSlice

/-- The statement writes the field. -/
def Statement.SetsField (u : Statement) (field : String) : Prop :=
  (u.kind = .assignFieldConstant ∨ u.kind = .assignFieldVariable) ∧ u.fieldSignature = field

/-- The field is declared as static and final. -/
def Provider.IsStaticFinal (p : Provider) (field : String) : Prop :=
  ∃ d, p.field? field = some d ∧ d.isStatic = true ∧ d.isFinal = true

namespace MethodScan

variable {p : Provider} {s s' : MethodScan} {u : Statement} {units : List Statement} {field : String} {v : Value}

/-- The scan knows a write of the value into the field: its site is not constant, or has the value's text. -/
def Covers (s : MethodScan) (field : String) (v : Value) : Prop :=
  ∃ z, s.sites[field]? = some z ∧ (z.isAbsent = false → z.text = v.text)

theorem sites_forgetDefined : (s.forgetDefined u).sites = s.sites := by
  simp only [forgetDefined]
  split <;> rfl

theorem sites_allocate (ran : s.allocate u = .ok s') : s'.sites = s.sites := by
  unfold allocate at ran
  dsimp only at ran
  split at ran
  · split at ran <;> cases ran
    rfl
  · cases ran
    rfl

theorem sites_store : (s.store u).sites = s.sites := by
  simp only [store]
  split <;> rfl

theorem sites_addField (field : String) : (s.addField p field).sites = s.sites := by
  simp only [addField]
  split <;> rfl

/-- Only a write into a field changes the sites. -/
theorem sites_step (ran : step p s u = .ok s') :
    s'.sites = s.sites ∨ ∃ field, u.SetsField field ∧ s' = (s.addField p field).addSite p field (s.written u) := by
  simp only [step] at ran
  split at ran <;> rename_i kind
  · cases ran
    exact .inl sites_forgetDefined
  · cases ran
    exact .inl sites_forgetDefined
  · cases ran
    exact .inl (sites_forgetDefined.trans (sites_addField _))
  · cases ran
    exact .inr ⟨_, ⟨.inl kind, rfl⟩, rfl⟩
  · cases ran
    exact .inr ⟨_, ⟨.inr kind, rfl⟩, rfl⟩
  · exact .inl (sites_allocate ran)
  · cases ran
    exact .inl sites_store
  · cases ran
    exact .inl sites_store
  · cases ran
    exact .inl rfl
  · cases ran
    exact .inl rfl
  · cases ran
    exact .inl sites_forgetDefined

/-- A further site keeps what is covered. -/
theorem Covers.addSite (covers : s.Covers field v) (other : String) (v' : Value) :
    (s.addSite p other v').Covers field v := by
  obtain ⟨z, known, same⟩ := covers
  simp only [MethodScan.addSite]
  split
  · split
    · split
      · rename_i w found
        by_cases here : other = field
        · subst here
          cases found.symm.trans known
          refine ⟨_, Std.TreeMap.getElem?_insert_self, fun present => ?_⟩
          split at present
          · cases present
          · rename_i agrees
            rw [if_neg agrees]
            simp only [bne_iff_ne, ne_eq, Decidable.not_not] at agrees
            exact agrees ▸ same (by rw [Value.isAbsent, agrees]; exact present)
        · exact ⟨z, Maps.getElem?_insert_eq_some.mpr (.inr ⟨here, known⟩), same⟩
      · rename_i new
        by_cases here : other = field
        · subst here
          cases new.symm.trans known
        · exact ⟨z, Maps.getElem?_insert_eq_some.mpr (.inr ⟨here, known⟩), same⟩
    · exact ⟨z, known, same⟩
  · exact ⟨z, known, same⟩

/-- A site is covered once it is added. -/
theorem covers_addSite (declared : p.IsStaticFinal field) (v : Value) : (s.addSite p field v).Covers field v := by
  obtain ⟨d, found, static, final⟩ := declared
  simp only [addSite, found, static, final, Bool.and_self, ↓reduceIte]
  split
  · refine ⟨_, Std.TreeMap.getElem?_insert_self, fun present => ?_⟩
    split at present
    · cases present
    · rename_i agrees
      rw [if_neg agrees]
  · exact ⟨v, Std.TreeMap.getElem?_insert_self, fun _ => rfl⟩

theorem Covers.step (covers : s.Covers field v) (ran : MethodScan.step p s u = .ok s') : s'.Covers field v := by
  rcases sites_step ran with same | ⟨other, _, rfl⟩
  · rwa [Covers, same]
  · refine Covers.addSite ?_ other _
    rwa [Covers, sites_addField]

theorem covers_step (writes : u.SetsField field) (declared : p.IsStaticFinal field) (ran : step p s u = .ok s') :
    s'.Covers field (s.written u) := by
  obtain ⟨kind | kind, rfl⟩ := writes
  · simp only [MethodScan.step, kind] at ran
    cases ran
    exact covers_addSite declared _
  · simp only [MethodScan.step, kind] at ran
    cases ran
    exact covers_addSite declared _

/-- The scan of the statements before a position, where the scan of the body gets through. -/
theorem exists_scan_take (ran : run p units = .ok s) (w : Nat) :
    ∃ t, (units.take w).foldlM (step p) {} = .ok t ∧ (units.drop w).foldlM (step p) t = .ok s := by
  rw [run, ← List.take_append_drop w units, List.foldlM_append] at ran
  cases first : (units.take w).foldlM (step p) {} with
  | error why =>
    rw [first] at ran
    cases ran
  | ok t =>
    rw [first] at ran
    exact ⟨t, rfl, ran⟩

theorem Covers.foldlM (covers : s.Covers field v) (ran : units.foldlM (MethodScan.step p) s = .ok s') :
    s'.Covers field v := by
  induction units generalizing s with
  | nil =>
    cases ran
    exact covers
  | cons u units ih =>
    obtain ⟨t, stepped, rest⟩ := foldlM_cons_eq_ok.mp ran
    exact ih (covers.step stepped) rest

/-- The scan of a body covers what each of its writes writes, as the scan of the statements before it knows. -/
theorem covers_run (ran : run p units = .ok s) (declared : p.IsStaticFinal field) {w : Nat}
    (here : units[w]? = some u) (writes : u.SetsField field) :
    ∃ t, (units.take w).foldlM (step p) {} = .ok t ∧ s.Covers field (t.written u) := by
  obtain ⟨t, first, rest⟩ := exists_scan_take ran w
  refine ⟨t, first, ?_⟩
  rw [List.drop_eq_getElem_cons (List.getElem?_eq_some_iff.mp here).1, (List.getElem?_eq_some_iff.mp here).2] at rest
  obtain ⟨t', stepped, onward⟩ := foldlM_cons_eq_ok.mp rest
  exact (covers_step writes declared stepped).foldlM onward

end MethodScan

namespace CallInfo

variable {info : CallInfo} {field : String} {v : Value}

/-- An excluded field has no constant. -/
def Consistent (info : CallInfo) : Prop := ∀ field ∈ info.excluded, info.constants[field]? = none

/-- The site is accounted for: its field is excluded, or has the constant of the site. -/
def Covers (info : CallInfo) (field : String) (v : Value) : Prop :=
  field ∈ info.excluded ∨ (v.isAbsent = false ∧ ∃ c, info.constants[field]? = some c ∧ c.text = v.text)

/-- What a site does: nothing where its field is excluded or has its constant, else it sets the constant or excludes
the field. -/
theorem addSite_cases (info : CallInfo) (field : String) (v : Value) :
    (field ∈ info.excluded ∧ info.addSite field v = info) ∨
    (v.isAbsent = false ∧ (∃ c, info.constants[field]? = some c ∧ c.text = v.text) ∧ info.addSite field v = info) ∨
    (field ∉ info.excluded ∧ v.isAbsent = false ∧ info.constants[field]? = none ∧
      info.addSite field v = { info with constants := info.constants.insert field v }) ∨
    info.addSite field v =
      { info with excluded := field :: info.excluded, constants := info.constants.erase field } := by
  cases out : info.excluded.contains field with
  | true => exact .inl ⟨List.contains_iff_mem.mp out, by simp only [addSite, isExcluded, out, ↓reduceIte]⟩
  | false =>
    have kept : field ∉ info.excluded := fun member => by
      rw [List.contains_iff_mem.mpr member] at out
      cases out
    simp only [addSite, isExcluded, out, Bool.false_eq_true, ↓reduceIte, constant?]
    cases absent : v.isAbsent with
    | true => exact .inr (.inr (.inr rfl))
    | false =>
      cases known : info.constants[field]? with
      | none => exact .inr (.inr (.inl ⟨kept, rfl, rfl, rfl⟩))
      | some c =>
        by_cases same : c.text = v.text
        · exact .inr (.inl ⟨rfl, ⟨c, rfl, same⟩, by simp [same]⟩)
        · exact .inr (.inr (.inr (by simp [same])))

theorem Consistent.addSite (consistent : info.Consistent) (field : String) (v : Value) :
    (info.addSite field v).Consistent := by
  rcases addSite_cases info field v with ⟨_, same⟩ | ⟨_, _, same⟩ | ⟨kept, _, _, same⟩ | same <;> rw [same]
  · exact consistent
  · exact consistent
  · intro other member
    have apart : field ≠ other := fun eq => kept (eq ▸ member)
    simpa [Std.TreeMap.getElem?_insert, apart] using consistent other member
  · intro other member
    rcases List.mem_cons.mp member with rfl | member
    · simp
    · simp [Std.TreeMap.getElem?_erase, consistent other member]

theorem Covers.addSite (covers : info.Covers field v) (other : String) (v' : Value) :
    (info.addSite other v').Covers field v := by
  rcases addSite_cases info other v' with ⟨_, same⟩ | ⟨_, _, same⟩ | ⟨_, _, new, same⟩ | same <;> rw [same]
  · exact covers
  · exact covers
  · rcases covers with out | ⟨present, c, known, text⟩
    · exact .inl out
    · have apart : other ≠ field := fun eq => by
        rw [eq, known] at new
        cases new
      exact .inr ⟨present, c, Maps.getElem?_insert_eq_some.mpr (.inr ⟨apart, known⟩), text⟩
  · by_cases here : other = field
    · exact .inl (here ▸ List.mem_cons_self)
    · rcases covers with out | ⟨present, c, known, text⟩
      · exact .inl (List.mem_cons_of_mem _ out)
      · exact .inr ⟨present, c, Maps.getElem?_erase_eq_some.mpr ⟨here, known⟩, text⟩

theorem covers_addSite (info : CallInfo) (field : String) (v : Value) : (info.addSite field v).Covers field v := by
  rcases addSite_cases info field v with ⟨out, same⟩ | ⟨present, known, same⟩ | ⟨_, present, _, same⟩ | same <;> rw [same]
  · exact .inl out
  · exact .inr ⟨present, known⟩
  · exact .inr ⟨present, v, Std.TreeMap.getElem?_insert_self, rfl⟩
  · exact .inl List.mem_cons_self

theorem Consistent.addSites (consistent : info.Consistent) (sites : Std.TreeMap String Value) :
    (info.addSites sites).Consistent :=
  List.foldlRecOn (motive := Consistent) sites.toList _ consistent fun _ consistent _ _ => consistent.addSite _ _

theorem Covers.addSites (covers : info.Covers field v) (sites : Std.TreeMap String Value) :
    (info.addSites sites).Covers field v :=
  List.foldlRecOn (motive := (Covers · field v)) sites.toList _ covers fun _ covers _ _ => covers.addSite _ _

/-- Every site of the list is accounted for. -/
theorem covers_addSites {sites : Std.TreeMap String Value} (site : sites[field]? = some v) :
    (info.addSites sites).Covers field v :=
  (foldl_makes (f := fun (i : CallInfo) (e : String × Value) => i.addSite e.1 e.2) (I := fun _ => True) (Q := (Covers · field v))
    (Std.TreeMap.mem_toList_iff_getElem?_eq_some.mpr site) (fun _ _ _ _ => trivial) (fun _ _ _ _ covers => covers.addSite _ _) (fun info _ => covers_addSite info field v)
    trivial).2

theorem Consistent.addSwitches (consistent : info.Consistent) (method : String) (starts : List (Int × Nat)) :
    (info.addSwitches method starts).Consistent := by
  simp only [CallInfo.addSwitches]
  split <;> exact consistent

theorem Covers.addSwitches (covers : info.Covers field v) (method : String) (starts : List (Int × Nat)) :
    (info.addSwitches method starts).Covers field v := by
  simp only [CallInfo.addSwitches]
  split <;> exact covers

/-- The constant of a field is the text of all its sites. -/
theorem Covers.text_eq (covers : info.Covers field v) (consistent : info.Consistent) {c : Value}
    (constant : info.constant? field = some c) : v.isAbsent = false ∧ v.text = c.text := by
  rcases covers with out | ⟨present, c', known, text⟩
  · rw [constant?, consistent field out] at constant
    cases constant
  · rw [constant?, known] at constant
    cases constant
    exact ⟨present, text.symm⟩

end CallInfo

namespace CallModel

variable {p : Provider} {b : CallModel} {m : Method} {name sig field : String} {v : Value} {units : List Statement}
  {s : MethodScan}

theorem addMethod_consistent (consistent : b.info.Consistent) : (addMethod p b m).info.Consistent := by
  simp only [addMethod]
  split
  · exact (consistent.addSites _).addSwitches _ _
  · exact consistent

theorem addMethod_covers (covers : b.info.Covers field v) : (addMethod p b m).info.Covers field v := by
  simp only [addMethod]
  split
  · exact (covers.addSites _).addSwitches _ _
  · exact covers

theorem addClass_consistent (consistent : b.info.Consistent) : (addClass p b name).info.Consistent := by
  simp only [addClass]
  split
  · exact consistent
  · exact List.foldlRecOn (motive := fun b : CallModel => b.info.Consistent) _ _ (consistent.addSites _)
      fun _ consistent _ _ => addMethod_consistent consistent

theorem addClass_covers (covers : b.info.Covers field v) : (addClass p b name).info.Covers field v := by
  simp only [addClass]
  split
  · exact covers
  · exact List.foldlRecOn (motive := fun b : CallModel => b.info.Covers field v) _ _ (covers.addSites _)
      fun _ covers _ _ => addMethod_covers covers

/-- The sites of a method that is processed are accounted for. -/
theorem ofProvider_covers (declared : p.Declares sig) (done : MethodScan.ofMethod p sig = .ok (units, s))
    (site : s.sites[field]? = some v) :
    (ofProvider p).info.Consistent ∧ (ofProvider p).info.Covers field v := by
  obtain ⟨name, visited, c, found, m, listed, rfl⟩ := declared
  have here : ∀ b : CallModel, (addMethod p b m).info.Covers field v := fun b => by
    simp only [addMethod, done]
    exact (CallInfo.covers_addSites site).addSwitches _ _
  have through : ∀ b : CallModel, b.info.Consistent → (addClass p b name).info.Covers field v := fun b consistent => by
    simp only [addClass, found]
    exact (foldl_makes (f := addMethod p) (I := fun _ => True) (Q := fun b : CallModel => b.info.Covers field v)
      (List.mem_filterMap.mpr ⟨some m, listed, rfl⟩) (fun _ _ _ _ => trivial) (fun _ _ _ _ => addMethod_covers)
      (fun b _ => here b) trivial).2
  exact foldl_makes (f := addClass p) (I := fun b => b.info.Consistent) (Q := fun b => b.info.Covers field v) visited
    (fun _ _ _ => addClass_consistent) (fun _ _ _ _ => addClass_covers) through (by simp [CallInfo.Consistent])

/-- Where a static final field is resolved, each write of it in a method that is processed writes the constant, as
the scan of the statements before the write knows. -/
theorem written_of_constant? (resolved : (ofProvider p).info.constant? field = some v) (static : p.IsStaticFinal field)
    (declared : p.Declares sig) (runs : ¬p.Fails sig) (body : p.statements sig = .ok units) {w : Nat} {u : Statement}
    (here : units[w]? = some u) (writes : u.SetsField field) :
    ∃ t, (units.take w).foldlM (MethodScan.step p) {} = .ok t ∧ (t.written u).isAbsent = false ∧
      (t.written u).text = v.text := by
  obtain ⟨units', s, done⟩ : ∃ units s, MethodScan.ofMethod p sig = .ok (units, s) := by
    cases ran : MethodScan.ofMethod p sig with
    | error why => exact absurd (Provider.fails_iff.mpr ⟨why, ran⟩) runs
    | ok result => exact ⟨result.1, result.2, rfl⟩
  obtain ⟨same, scan⟩ := MethodScan.ofMethod_eq_ok done
  cases same.symm.trans body
  obtain ⟨t, before, z, site, text⟩ := MethodScan.covers_run scan static here writes
  obtain ⟨consistent, covers⟩ := ofProvider_covers declared done site
  obtain ⟨present, constant⟩ := covers.text_eq consistent resolved
  have written := text present
  refine ⟨t, before, ?_, written.symm.trans constant⟩
  rw [Value.isAbsent, ← written]
  exact present

end CallModel

end MisuseSlice
