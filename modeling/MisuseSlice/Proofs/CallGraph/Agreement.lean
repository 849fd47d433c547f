import MisuseSlice.Proofs.CallGraph.Sites

/-! The table of constant fields. A field is resolved where all its sites have one text, and excluded where a site has
none or two sites differ. Neither depends on the order in which the sites come, nor on the order of the writes that
make a site in a method. -/
namespace MisuseSlice

section SiteText

variable {writes writes' : List Value} {t : String}

/-- The text of the site that writes make: the text that they all have, empty where they differ. -/
def siteText : List Value → String
  | [] => ""
  | v :: writes => if writes.all (·.text == v.text) then v.text else ""

/-- A site has a text exactly if all its writes have it. -/
theorem siteText_eq (some_ : t ≠ "") : siteText writes = t ↔ writes ≠ [] ∧ ∀ v ∈ writes, v.text = t := by
  cases writes with
  | nil => simp [siteText, Ne.symm some_]
  | cons v writes =>
    simp only [siteText, List.all_eq_true, beq_iff_eq, List.forall_mem_cons]
    split
    · rename_i agree
      constructor
      · rintro rfl
        exact ⟨List.cons_ne_nil _ _, rfl, agree⟩
      · exact fun all => all.2.1
    · rename_i differ
      constructor
      · exact fun none => absurd none.symm some_
      · rintro ⟨-, rfl, all⟩
        exact absurd all differ

/-- The order of the writes does not matter to their site. -/
theorem siteText_perm (perm : writes.Perm writes') : siteText writes = siteText writes' := by
  have onward : ∀ {ws ws' : List Value}, ws.Perm ws' → siteText ws ≠ "" → siteText ws' = siteText ws := by
    intro ws ws' perm some_
    obtain ⟨filled, all⟩ := (siteText_eq some_).mp rfl
    refine (siteText_eq some_).mpr ⟨?_, fun v member => all v (perm.mem_iff.mpr member)⟩
    rintro rfl
    exact filled perm.eq_nil
  rcases eq_or_ne (siteText writes) "" with none | some_
  · rcases eq_or_ne (siteText writes') "" with none' | some_'
    · exact none.trans none'.symm
    · exact onward perm.symm some_'
  · exact (onward perm some_).symm

/-- A further write keeps the text of a site that has it, and leaves any other site without a text. -/
theorem siteText_concat (filled : writes ≠ []) (v : Value) :
    siteText (writes ++ [v]) = if siteText writes = v.text then v.text else "" := by
  obtain ⟨w, rest, rfl⟩ := List.exists_cons_of_ne_nil filled
  have whole : siteText (w :: rest ++ [v]) =
      if rest.all (·.text == w.text) = true ∧ v.text = w.text then w.text else "" := by
    simp [siteText]
  by_cases agree : rest.all (·.text == w.text) = true
  · have part : siteText (w :: rest) = w.text := if_pos agree
    rw [whole]
    by_cases same : w.text = v.text
    · rw [if_pos ⟨agree, same.symm⟩]
      simp only [part, same, ↓reduceIte]
    · rw [if_neg fun both => same both.2.symm]
      simp only [part, same, ↓reduceIte]
  · have part : siteText (w :: rest) = "" := if_neg agree
    rw [whole, if_neg fun both => agree both.1]
    split
    · rename_i none
      exact part.symm.trans none
    · rfl

end SiteText

namespace MethodScan

variable {p : Provider} {s s' : MethodScan} {u : Statement} {units : List Statement} {field : String} {v : Value}
  {writes : List Value}

/-- The site of the field is the one that the writes make, if there are any. -/
def Sums (s : MethodScan) (field : String) (writes : List Value) : Prop :=
  (writes = [] ∧ s.sites[field]? = none) ∨
    (writes ≠ [] ∧ ∃ z, s.sites[field]? = some z ∧ z.text = siteText writes)

instance (u : Statement) (field : String) : Decidable (u.SetsField field) := inferInstanceAs (Decidable (_ ∧ _))

/-- What the statements write into a field, in order, as far as a scan of them gets. -/
def writesFrom (p : Provider) (field : String) : MethodScan → List Statement → List Value
  | _, [] => []
  | s, u :: rest =>
    (if u.SetsField field then [s.written u] else []) ++
      match step p s u with
      | .ok s' => writesFrom p field s' rest
      | .error _ => []

theorem Sums.congr (sums : s.Sums field writes) (same : s'.sites[field]? = s.sites[field]?) : s'.Sums field writes := by
  rw [Sums, same]
  exact sums

/-- A write into the field is summed up. -/
theorem Sums.addSite (sums : s.Sums field writes) (static : p.IsStaticFinal field) (v : Value) :
    (s.addSite p field v).Sums field (writes ++ [v]) := by
  obtain ⟨d, found, isStatic, isFinal⟩ := static
  have filled : writes ++ [v] ≠ [] := by simp
  simp only [MethodScan.addSite, found, isStatic, isFinal, Bool.and_self, ↓reduceIte]
  rcases sums with ⟨rfl, none⟩ | ⟨some_, z, known, text⟩
  · refine .inr ⟨filled, v, ?_, by simp [siteText]⟩
    simp [none]
  · refine .inr ⟨filled, if z.text != v.text then Value.missing else v, by simp [known], ?_⟩
    rw [siteText_concat some_, ← text]
    by_cases same : z.text = v.text
    · simp [same]
    · simp [same, Value.missing]

/-- A write into another field changes nothing for the field. -/
theorem getElem?_sites_addSite {other : String} (apart : other ≠ field) :
    (s.addSite p other v).sites[field]? = s.sites[field]? := by
  have differs : compare other field ≠ .eq := fun same => apart (Std.compare_eq_iff_eq.mp same)
  simp only [MethodScan.addSite]
  split
  · split
    · split <;> simp [Std.TreeMap.getElem?_insert, differs]
    · rfl
  · rfl

theorem Sums.step (sums : s.Sums field writes) (static : p.IsStaticFinal field) (ran : MethodScan.step p s u = .ok s') :
    s'.Sums field (writes ++ if u.SetsField field then [s.written u] else []) := by
  by_cases sets : u.SetsField field
  · rw [if_pos sets]
    obtain ⟨kind, rfl⟩ := sets
    have added : MethodScan.step p s u = .ok ((s.addField p u.fieldSignature).addSite p u.fieldSignature (s.written u)) := by
      rcases kind with kind | kind <;> simp only [MethodScan.step, kind]
    cases ran.symm.trans added
    exact (sums.congr (by rw [sites_addField])).addSite static _
  · rw [if_neg sets, List.append_nil]
    rcases sites_step ran with same | ⟨other, others, rfl⟩
    · exact sums.congr (by rw [same])
    · have apart : other ≠ field := fun same => sets (same ▸ others)
      exact sums.congr (by rw [getElem?_sites_addSite apart, sites_addField])

/-- The scan of a body sums up what it writes into the field. -/
theorem Sums.foldlM (sums : s.Sums field writes) (static : p.IsStaticFinal field)
    (ran : units.foldlM (MethodScan.step p) s = .ok s') : s'.Sums field (writes ++ writesFrom p field s units) := by
  induction units generalizing s writes with
  | nil =>
    cases ran
    simpa [writesFrom] using sums
  | cons u units ih =>
    obtain ⟨t, stepped, rest⟩ := foldlM_cons_eq_ok.mp ran
    have onward := ih (sums.step static stepped) rest
    rw [List.append_assoc] at onward
    simpa only [writesFrom, stepped] using onward

/-- Only static final fields have sites. -/
theorem no_site (loose : ¬p.IsStaticFinal field) (new : s.sites[field]? = none)
    (ran : units.foldlM (step p) s = .ok s') : s'.sites[field]? = none := by
  induction units generalizing s with
  | nil =>
    cases ran
    exact new
  | cons u units ih =>
    obtain ⟨t, stepped, rest⟩ := foldlM_cons_eq_ok.mp ran
    refine ih ?_ rest
    rcases sites_step stepped with same | ⟨other, _, rfl⟩
    · rw [same, new]
    · by_cases here : other = field
      · subst here
        have unadded : (s.addField p other).addSite p other (s.written u) = s.addField p other := by
          simp only [addSite]
          split
          · rename_i d found
            rw [if_neg fun both => loose ⟨d, found, Bool.and_eq_true_iff.mp both⟩]
          · rfl
        rw [unadded, sites_addField, new]
      · rw [getElem?_sites_addSite here, sites_addField, new]

end MethodScan

namespace Provider

/-- What a method writes into a field, in order, if its body can be had and scanned. -/
def writes (p : Provider) (field : String) (m : Method) : List Value :=
  match MethodScan.ofMethod p m.signature with
  | .ok (units, _) => MethodScan.writesFrom p field {} units
  | .error _ => []

/-- The writes that make a method's site of a field. A method that does not write the field has no site, and only a
static final field has sites in methods. -/
def methodSite? (p : Provider) (field : String) (m : Method) : Option (List Value) :=
  if (p.field? field).any (fun d => d.isStatic && d.isFinal) && !(p.writes field m).isEmpty then some (p.writes field m)
  else none

/-- The sites of a field in a class: the constant that the declaration gives the field, then those of its methods. -/
def classSites (p : Provider) (field name : String) : List (List Value) :=
  match p.classes[name]? with
  | none => []
  | some c =>
    (p.constantFields name)[field]?.toList.map ([·]) ++
      (c.methods.filterMap id).flatMap fun m => (p.methodSite? field m).toList

/-- The sites of a field in the order in which they come, each with the writes that make it. -/
def sites (p : Provider) (field : String) : List (List Value) := p.declaredClasses.flatMap (p.classSites field)

theorem any_isStaticFinal {p : Provider} {field : String} :
    (p.field? field).any (fun d => d.isStatic && d.isFinal) = true ↔ p.IsStaticFinal field := by
  cases found : p.field? field with
  | none => simp [IsStaticFinal, found]
  | some d => simp [IsStaticFinal, found]

end Provider

/-- Sites with these texts make no constant: one of them has no text, or two differ. -/
def Clash (texts : List String) : Prop := "" ∈ texts ∨ ∃ s ∈ texts, ∃ s' ∈ texts, s ≠ s'

theorem Clash.append {texts : List String} (clash : Clash texts) (more : List String) : Clash (texts ++ more) := by
  rcases clash with none | ⟨s, member, s', member', differ⟩
  · exact .inl (List.mem_append_left _ none)
  · exact .inr ⟨s, List.mem_append_left _ member, s', List.mem_append_left _ member', differ⟩

namespace CallInfo

variable {info info' : CallInfo} {field other : String} {texts : List String} {v : Value}

/-- Where a field stands after sites with these texts. -/
inductive Stands (info : CallInfo) (field : String) (texts : List String) : Prop
  | siteless (empty : texts = []) (unknown : info.constants[field]? = none) (kept : field ∉ info.excluded)
  | resolved (c : Value) (known : info.constants[field]? = some c) (kept : field ∉ info.excluded)
      (present : c.text ≠ "") (some_ : texts ≠ []) (all : ∀ s ∈ texts, s = c.text)
  | excluded (out : field ∈ info.excluded) (unknown : info.constants[field]? = none) (clash : Clash texts)

theorem stands_empty (field : String) : ({} : CallInfo).Stands field [] :=
  .siteless rfl (by simp) (by simp)

/-- A field stands where it stood if its constant and its exclusion are the same. -/
theorem Stands.congr (stands : info.Stands field texts) (constants : info'.constants[field]? = info.constants[field]?)
    (excluded : field ∈ info'.excluded ↔ field ∈ info.excluded) : info'.Stands field texts := by
  cases stands with
  | siteless empty unknown kept => exact .siteless empty (constants.trans unknown) fun out => kept (excluded.mp out)
  | resolved c known kept present some_ all =>
    exact .resolved c (constants.trans known) (fun out => kept (excluded.mp out)) present some_ all
  | excluded out unknown clash => exact .excluded (excluded.mpr out) (constants.trans unknown) clash

/-- A site of the field moves it on. -/
theorem Stands.addSite (stands : info.Stands field texts) (v : Value) :
    (info.addSite field v).Stands field (texts ++ [v.text]) := by
  have excludes : Clash (texts ++ [v.text]) →
      Stands { info with excluded := field :: info.excluded, constants := info.constants.erase field } field
        (texts ++ [v.text]) :=
    .excluded List.mem_cons_self (by simp)
  have last : v.text ∈ texts ++ [v.text] := by simp
  cases stands with
  | siteless empty unknown kept =>
    simp only [CallInfo.addSite, isExcluded, List.contains_iff_mem, kept, ↓reduceIte, constant?, unknown]
    split
    · rename_i absent
      rw [Value.isAbsent, beq_iff_eq] at absent
      exact excludes (.inl (absent ▸ last))
    · rename_i present
      rw [Value.isAbsent, beq_iff_eq] at present
      refine .resolved v (by simp) kept present (by simp) fun s member => ?_
      simpa [empty] using member
  | resolved c known kept present some_ all =>
    simp only [CallInfo.addSite, isExcluded, List.contains_iff_mem, kept, ↓reduceIte, constant?, known]
    split
    · rename_i absent
      rw [Value.isAbsent, beq_iff_eq] at absent
      exact excludes (.inl (absent ▸ last))
    · split
      · rename_i differ
        obtain ⟨s, member⟩ := List.exists_mem_of_ne_nil texts some_
        refine excludes (.inr ⟨s, List.mem_append_left _ member, v.text, last, ?_⟩)
        rw [all s member]
        simpa using differ
      · rename_i agrees
        have agrees : c.text = v.text := by simpa using agrees
        refine .resolved c known kept present (by simp) fun s member => ?_
        rcases List.mem_append.mp member with old | new
        · exact all s old
        · exact (List.mem_singleton.mp new).trans agrees.symm
  | excluded out unknown clash =>
    have unchanged : info.addSite field v = info := by
      simp only [CallInfo.addSite, isExcluded, List.contains_iff_mem.mpr out, ↓reduceIte]
    rw [unchanged]
    exact .excluded out unknown (clash.append _)

/-- A site of another field leaves the field where it stands. -/
theorem Stands.addSite_of_ne (stands : info.Stands field texts) (apart : other ≠ field) (v : Value) :
    (info.addSite other v).Stands field texts := by
  have differs : compare other field ≠ .eq := fun same => apart (Std.compare_eq_iff_eq.mp same)
  rcases addSite_cases info other v with ⟨_, same⟩ | ⟨_, _, same⟩ | ⟨_, _, _, same⟩ | same <;> rw [same]
  · exact stands
  · exact stands
  · exact stands.congr (by simp [Std.TreeMap.getElem?_insert, differs]) Iff.rfl
  · exact stands.congr (by simp [Std.TreeMap.getElem?_erase, differs]) (by simp [Ne.symm apart])

/-- The values that the sites of a field have in a sequence of sites of any fields. -/
def valuesOf (field : String) (sites : List (String × Value)) : List Value :=
  (sites.filter (·.1 == field)).map (·.2)

/-- A sequence of sites moves a field on by the sites that are its own. -/
theorem Stands.foldl (stands : info.Stands field texts) (sites : List (String × Value)) :
    (sites.foldl (fun i (s : String × Value) => i.addSite s.1 s.2) info).Stands field
      (texts ++ (valuesOf field sites).map (·.text)) := by
  induction sites generalizing info texts with
  | nil => simpa [valuesOf] using stands
  | cons site sites ih =>
    obtain ⟨other, v⟩ := site
    rw [List.foldl_cons]
    by_cases same : other = field
    · subst same
      have onward := ih (stands.addSite v)
      rw [List.append_assoc] at onward
      simpa [valuesOf] using onward
    · have onward := ih (stands.addSite_of_ne same v)
      simpa [valuesOf, same] using onward

/-- The sites of a map move a field on by the one that the map has for it. -/
theorem Stands.addSites (stands : info.Stands field texts) (sites : Std.TreeMap String Value) :
    (info.addSites sites).Stands field (texts ++ (sites[field]?.toList.map (·.text))) := by
  have own : valuesOf field sites.toList = sites[field]?.toList := Maps.filter_toList
  rw [← own]
  exact stands.foldl sites.toList

theorem Stands.addSwitches (stands : info.Stands field texts) (method : String) (starts : List (Int × Nat)) :
    (info.addSwitches method starts).Stands field texts := by
  simp only [CallInfo.addSwitches]
  split
  · exact stands
  · exact stands.congr rfl Iff.rfl

/-- The table answers for a field as its sites say: it resolves the field to a text exactly if there are sites and all
of them have that text, and excludes it exactly if the sites clash. -/
structure Answers (info : CallInfo) (field : String) (texts : List String) : Prop where
  constant : ∀ t, (info.constant? field).map (·.text) = some t ↔ texts ≠ [] ∧ t ≠ "" ∧ ∀ s ∈ texts, s = t
  excluded : info.isExcluded field = true ↔ Clash texts

/-- Two tables give a field the same text, if any, and both or neither exclude it. -/
def SameAnswer (info info' : CallInfo) (field : String) : Prop :=
  (info.constant? field).map (·.text) = (info'.constant? field).map (·.text) ∧
    info.isExcluded field = info'.isExcluded field

theorem Stands.answers (stands : info.Stands field texts) : info.Answers field texts := by
  cases stands with
  | siteless empty unknown kept =>
    refine ⟨fun t => ?_, ?_⟩
    · simp [constant?, unknown, empty]
    · simp [isExcluded, kept, empty, Clash]
  | resolved c known kept present some_ all =>
    refine ⟨fun t => ?_, ?_⟩
    · rw [constant?, known, Option.map_some, Option.some.injEq]
      constructor
      · rintro rfl
        exact ⟨some_, present, all⟩
      · rintro ⟨-, -, same⟩
        obtain ⟨s, member⟩ := List.exists_mem_of_ne_nil texts some_
        exact (all s member).symm.trans (same s member)
    · rw [isExcluded, List.contains_iff_mem]
      refine iff_of_false kept ?_
      rintro (none | ⟨s, member, s', member', differ⟩)
      · exact present (all "" none).symm
      · exact differ ((all s member).trans (all s' member').symm)
  | excluded out unknown clash =>
    refine ⟨fun t => ?_, ?_⟩
    · rw [constant?, unknown]
      refine iff_of_false (by simp) ?_
      rintro ⟨-, present, same⟩
      rcases clash with none | ⟨s, member, s', member', differ⟩
      · exact present (same "" none).symm
      · exact differ ((same s member).trans (same s' member').symm)
    · rw [isExcluded, List.contains_iff_mem]
      exact iff_of_true out clash

/-- The table built from a sequence of sites. -/
def ofSites (sites : List (String × Value)) : CallInfo :=
  sites.foldl (fun i (s : String × Value) => i.addSite s.1 s.2) {}

/-- A sequence of sites leaves a field where the texts of its own sites put it. -/
theorem stands_ofSites (sites : List (String × Value)) :
    (ofSites sites).Stands field ((valuesOf field sites).map (·.text)) :=
  (stands_empty field).foldl sites

/-- What a table says of a field does not depend on the order of the field's sites. -/
theorem Answers.of_perm {texts' : List String} (answers : info.Answers field texts)
    (answers' : info'.Answers field texts') (perm : texts.Perm texts') : SameAnswer info info' field := by
  have filled : texts ≠ [] ↔ texts' ≠ [] :=
    not_congr ⟨fun none => (none ▸ perm).nil_eq.symm, fun none => (none ▸ perm).eq_nil⟩
  have clash : Clash texts ↔ Clash texts' := by simp only [Clash, perm.mem_iff]
  constructor
  · ext t
    rw [answers.constant, answers'.constant, filled]
    simp only [perm.mem_iff]
  · rw [Bool.eq_iff_iff, answers.excluded, answers'.excluded, clash]

/-- An excluded field has no constant. -/
theorem Answers.constant?_eq_none (answers : info.Answers field texts) (out : info.isExcluded field = true) :
    info.constant? field = none := by
  cases known : info.constant? field with
  | none => rfl
  | some c =>
    obtain ⟨-, present, same⟩ := (answers.constant c.text).mp (by rw [known]; rfl)
    rcases answers.excluded.mp out with none | ⟨s, member, s', member', differ⟩
    · exact absurd (same "" none).symm present
    · exact absurd ((same s member).trans (same s' member').symm) differ

end CallInfo

namespace CallModel

variable {p : Provider} {b : CallModel} {field name : String} {texts : List String} {m : Method}

/-- Steps that each add sites add all of them. -/
theorem stands_foldl {α : Type} {f : CallModel → α → CallModel} (own : α → List (List Value))
    (each : ∀ b a texts, b.info.Stands field texts → (f b a).info.Stands field (texts ++ (own a).map siteText))
    (stands : b.info.Stands field texts) (xs : List α) :
    (xs.foldl f b).info.Stands field (texts ++ (xs.flatMap own).map siteText) := by
  induction xs generalizing b texts with
  | nil => simpa using stands
  | cons a xs ih =>
    have onward := ih (each b a texts stands)
    rw [List.append_assoc, ← List.map_append] at onward
    simpa only [List.foldl_cons, List.flatMap_cons] using onward

/-- A method adds the one site that its writes make, if it writes the field. -/
theorem stands_addMethod (stands : b.info.Stands field texts) :
    (addMethod p b m).info.Stands field (texts ++ ((p.methodSite? field m).toList.map siteText)) := by
  simp only [addMethod]
  cases done : MethodScan.ofMethod p m.signature with
  | error why =>
    have none : p.methodSite? field m = none := by simp [Provider.methodSite?, Provider.writes, done]
    rw [none, Option.toList_none, List.map_nil, List.append_nil]
    exact stands.congr rfl Iff.rfl
  | ok result =>
    obtain ⟨units, s⟩ := result
    obtain ⟨-, ran⟩ := MethodScan.ofMethod_eq_ok done
    have writes : p.writes field m = MethodScan.writesFrom p field {} units := by simp only [Provider.writes, done]
    have site : s.sites[field]?.toList.map (·.text) = (p.methodSite? field m).toList.map siteText := by
      by_cases static : p.IsStaticFinal field
      · have sums := MethodScan.Sums.foldlM (.inl ⟨rfl, by simp⟩) static ran
        rw [List.nil_append, ← writes] at sums
        rcases sums with ⟨empty, unset⟩ | ⟨filled, z, set, text⟩
        · simp [Provider.methodSite?, empty, unset]
        · simp [Provider.methodSite?, Provider.any_isStaticFinal.mpr static, filled, set, text]
      · have loose := Bool.eq_false_iff.mpr fun applies => static (Provider.any_isStaticFinal.mp applies)
        have unset : s.sites[field]? = none := MethodScan.no_site static (by simp) ran
        simp [Provider.methodSite?, loose, unset]
    rw [← site]
    exact (stands.addSites s.sites).addSwitches _ _

/-- A class adds its sites. -/
theorem stands_addClass (stands : b.info.Stands field texts) :
    (addClass p b name).info.Stands field (texts ++ (p.classSites field name).map siteText) := by
  cases found : p.classes[name]? with
  | none => simpa [addClass, Provider.classSites, found] using stands
  | some c =>
    have constant : (b.info.addSites (p.constantFields name)).Stands field
        (texts ++ ((p.constantFields name)[field]?.toList.map ([·])).map siteText) := by
      have single : ∀ v : Value, siteText [v] = v.text := fun v => by simp [siteText]
      simpa [Function.comp_def, single] using stands.addSites (p.constantFields name)
    have methods := stands_foldl (b := { b with info := b.info.addSites (p.constantFields name) }) (f := addMethod p)
      (fun m => (p.methodSite? field m).toList) (fun _ _ _ stands => stands_addMethod stands) constant
      (c.methods.filterMap id)
    rw [List.append_assoc, ← List.map_append] at methods
    simpa only [addClass, Provider.classSites, found] using methods

/-- A field stands where its sites in the program put it. -/
theorem stands_ofProvider (p : Provider) (field : String) :
    (ofProvider p).info.Stands field ((p.sites field).map siteText) :=
  stands_foldl (b := {}) (f := addClass p) (p.classSites field) (fun _ _ _ stands => stands_addClass stands) (CallInfo.stands_empty field)
    p.declaredClasses

/-- Reordering the sites, and the writes in each of them, reorders the texts of the sites. -/
theorem siteTexts_perm {sites mid sites' : List (List Value)} (inside : List.Forall₂ List.Perm sites mid)
    (across : mid.Perm sites') : (sites.map siteText).Perm (sites'.map siteText) := by
  refine List.Perm.trans (.of_eq ?_) (across.map siteText)
  clear across
  induction inside with
  | nil => rfl
  | cons perm _ ih => rw [List.map_cons, List.map_cons, siteText_perm perm, ih]

/-- The table of constants is exact and does not depend on the order of sites. After any sequence of sites, and for any
program, it answers for a field as the texts of the field's sites say; a reordering of the sites, and of the writes in a
site, changes no answer; and no further site gives an excluded field a constant. -/
theorem constantTable_exact (field : String) :
    (∀ sites, (CallInfo.ofSites sites).Answers field ((CallInfo.valuesOf field sites).map (·.text))) ∧
    (∀ p, (ofProvider p).info.Answers field ((p.sites field).map siteText)) ∧
    (∀ sites sites', sites.Perm sites' → (CallInfo.ofSites sites).SameAnswer (CallInfo.ofSites sites') field) ∧
    (∀ p p' mid, List.Forall₂ List.Perm (p.sites field) mid → mid.Perm (p'.sites field) →
      (ofProvider p).info.SameAnswer (ofProvider p').info field) ∧
    (∀ sites more, (CallInfo.ofSites sites).isExcluded field = true →
      (CallInfo.ofSites (sites ++ more)).isExcluded field = true ∧
        (CallInfo.ofSites (sites ++ more)).constant? field = none) := by
  have sequence : ∀ sites,
      (CallInfo.ofSites sites).Answers field ((CallInfo.valuesOf field sites).map (·.text)) :=
    fun sites => (CallInfo.stands_ofSites sites).answers
  have program := fun p => (stands_ofProvider p field).answers
  refine ⟨sequence, program, fun sites sites' perm => ?_, fun p p' mid inside across => ?_, fun sites more out => ?_⟩
  · have texts : ((CallInfo.valuesOf field sites).map (·.text)).Perm ((CallInfo.valuesOf field sites').map (·.text)) :=
      ((perm.filter _).map _).map _
    exact (sequence sites).of_perm (sequence sites') texts
  · exact (program p).of_perm (program p') (siteTexts_perm inside across)
  · have out' : (CallInfo.ofSites (sites ++ more)).isExcluded field = true := by
      rw [(sequence _).excluded, CallInfo.valuesOf, List.filter_append, List.map_append, List.map_append]
      exact ((sequence sites).excluded.mp out).append _
    exact ⟨out', (sequence _).constant?_eq_none out'⟩

/-- A program of one class with a static final field that each of its methods sets to some constants in turn. -/
private def setting (first second : List String) : Provider :=
  let writes (texts : List String) : List (Option Statement) := texts.map fun t => some (.assign "<a.B: int F>" t)
  let p := (Program.finalize
    { package := "a"
      classes := [some
        { name := "a.B"
          fields := [{ signature := "<a.B: int F>", isStatic := true, isFinal := true }]
          methods := [some { signature := "<a.B: void m()>", isStatic := true, units := writes first },
            some { signature := "<a.B: void n()>", isStatic := true, units := writes second }] }] }).1
  p.provider fun m => .ok (p.statements m)

theorem setting_reordered :
    (ofProvider (setting ["1", "2"] ["1"])).info.SameAnswer (ofProvider (setting ["1"] ["2", "1"])).info "<a.B: int F>" ∧
    (CallInfo.ofSites [("f", .read "1"), ("g", .read "2"), ("f", .read "2")]).SameAnswer
      (CallInfo.ofSites [("f", .read "2"), ("f", .read "1"), ("g", .read "2")]) "f" ∧
    (CallInfo.ofSites [("f", .read "1"), ("f", .missing), ("f", .read "1")]).constant? "f" = none := by
  refine ⟨?_, ?_, ?_⟩
  · exact (constantTable_exact "<a.B: int F>").2.2.2.1 (setting ["1", "2"] ["1"]) (setting ["1"] ["2", "1"])
      [[.read "2", .read "1"], [.read "1"]] (by decide +kernel) (by decide +kernel)
  · exact (constantTable_exact "f").2.2.1 _ _ (by decide +kernel)
  · exact ((constantTable_exact "f").2.2.2.2 [("f", .read "1"), ("f", .missing)] [("f", .read "1")] (by decide +kernel)).2

end CallModel

end MisuseSlice
