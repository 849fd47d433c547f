import Mathlib
import MisuseSlice.Rule.Check
import MisuseSlice.Rule.Decode

/-! Rules that are read can be checked. A document with all its conditions gives a rule or a list of flaws, and in a rule
everything that a check looks at has been made ready; only a condition that is null is prepared for nowhere. -/
namespace MisuseSlice

/-- What a check of the condition looks at is there. -/
structure Condition.Ready (c : Condition) : Prop where
  regex : .constant ∈ c.spec.checks → ∃ r, c.regex = some r ∧ c.spec.constant.bind ConditionSpec.wholeRegex? = some r
  patterns : c.patterns.map some = (c.spec.algorithms.getD []).map Algorithm.Pattern.read?

/-- What the checks of a rule look at is there. -/
def Rule.Ready (r : Rule) : Prop := ∀ p ∈ r.patterns, ∀ c ∈ p.2.conditions, c.Ready

/-- A condition of the rule is null. Conditions are looked at only where the rule has an insecure pattern. -/
def RuleSpec.HasGap (r : RuleSpec) : Prop :=
  ∃ insecure, r.insecure = some insecure ∧
    (none ∈ insecure.conditions ∨ ∃ secure, r.secure = some secure ∧ none ∈ secure.conditions)

namespace ConditionSpec

variable {c : ConditionSpec}

theorem mem_checks_constant : .constant ∈ c.checks ↔ c.constant.isSome = true := by
  unfold checks
  split <;> split <;> split <;> split <;> simp_all

theorem filterMap_ready {α β : Type} {f : α → Option β} {xs : List α} (all : xs.filter (fun x => (f x).isNone) = []) :
    (xs.filterMap f).map some = xs.map f := by
  induction xs with
  | nil => rfl
  | cons x xs ih =>
    cases here : f x with
    | none => simp [here] at all
    | some y => simpa [here] using ih (by simpa [here] using all)

/-- A condition without flaws is made ready. -/
theorem ready_of_flaws (sound : c.flaws = []) : c.ready.Ready := by
  simp only [flaws, List.append_eq_nil_iff, List.map_eq_nil_iff] at sound
  obtain ⟨⟨⟨⟨⟨-, algorithms⟩, constant⟩, -⟩, -⟩, -⟩ := sound
  refine ⟨fun checked => ?_, filterMap_ready algorithms⟩
  obtain ⟨pattern, given⟩ : ∃ pattern, c.constant = some pattern :=
    Option.isSome_iff_exists.mp (mem_checks_constant.mp checked)
  have compiled : ∀ p ∈ c.constant, wholeRegex? p ≠ none := by simpa using constant
  obtain ⟨r, regex⟩ := Option.ne_none_iff_exists'.mp (compiled pattern given)
  have ready : c.constant.bind wholeRegex? = some r := by simp [given, regex]
  exact ⟨r, ready, ready⟩

end ConditionSpec

namespace RuleSpec

variable {r : RuleSpec} {p : RulePattern (Option ConditionSpec)} {q : RulePattern ConditionSpec}

/-- A pattern without null conditions is complete. -/
theorem complete?_isSome : (complete? p).isSome = true ↔ none ∉ p.conditions := by
  have gathered : ∀ cs : List (Option ConditionSpec), (cs.mapM id).isSome = true ↔ none ∉ cs := by
    intro cs
    induction cs with
    | nil => simp
    | cons c cs ih => cases c <;> cases whole : cs.mapM id <;> simp_all [List.mapM_cons]
  rw [complete?, Option.isSome_map, gathered]

/-- The conditions of a pattern without flaws have none. -/
theorem flawless_of_patternFlaws (sound : patternFlaws q = []) :
    ∀ c ∈ (ready q).conditions, ∃ spec : ConditionSpec, c = spec.ready ∧ spec.flaws = [] := by
  obtain ⟨-, conditions⟩ := List.append_eq_nil_iff.mp sound
  intro c member
  obtain ⟨spec, inside, rfl⟩ := List.mem_map.mp member
  have flawless := List.filterMap_eq_nil_iff.mp conditions spec inside
  by_cases empty : spec.flaws.isEmpty = true
  · exact ⟨spec, rfl, List.isEmpty_iff.mp empty⟩
  · simp [empty] at flawless

/-- The conditions of a rule that is made ready have no flaw. -/
theorem flawless_of_validate {rule : Rule} (valid : r.validate = .ok rule) :
    ∀ p ∈ rule.patterns, ∀ c ∈ p.2.conditions, ∃ spec : ConditionSpec, c = spec.ready ∧ spec.flaws = [] := by
  unfold validate at valid
  split at valid
  · cases valid
  split at valid
  · dsimp only at valid
    split at valid
    · rename_i sound
      cases valid
      obtain ⟨rest, other⟩ := List.append_eq_nil_iff.mp (List.isEmpty_iff.mp sound)
      obtain ⟨-, own⟩ := List.append_eq_nil_iff.mp rest
      intro p member c inside
      rcases List.mem_cons.mp member with rfl | member
      · exact flawless_of_patternFlaws own c inside
      · obtain ⟨p, marked, rfl⟩ := Option.map_eq_some_iff.mp (Option.mem_toList.mp member)
        obtain ⟨q, rfl, rfl⟩ := Option.map_eq_some_iff.mp marked
        exact flawless_of_patternFlaws (by simpa using other) c inside
    · cases valid
  · cases valid

theorem ready_of_validate {rule : Rule} (valid : r.validate = .ok rule) : rule.Ready := by
  intro p member c inside
  obtain ⟨spec, rfl, flawless⟩ := flawless_of_validate valid p member c inside
  exact ConditionSpec.ready_of_flaws flawless

theorem complete?_eq_none : complete? p = none ↔ none ∈ p.conditions := by
  rw [← not_iff_not, ← complete?_isSome, Option.isSome_iff_ne_none]

/-- The secure pattern is complete if there is none, or it has no null condition. -/
theorem secure_eq_none : r.secure.mapM complete? = none ↔ ∃ secure, r.secure = some secure ∧ none ∈ secure.conditions := by
  cases r.secure with
  | none => simp
  | some secure => simp [complete?_eq_none]

/-- What validation does: it fails at a null condition, it makes a rule ready, or it names flaws. -/
theorem validate_cases (r : RuleSpec) :
    (r.HasGap ∧ r.validate = .error .nullCondition) ∨
      (¬r.HasGap ∧ ((∃ rule, r.validate = .ok rule ∧ rule.Ready) ∨
        ∃ flaws, r.validate = .error (.flawed flaws) ∧ flaws ≠ [])) := by
  cases given : r.insecure with
  | none =>
    refine .inr ⟨?_, .inr ⟨_, by rw [validate, given], by simp⟩⟩
    rintro ⟨insecure, here, -⟩
    simp [given] at here
  | some insecure =>
    have gap : r.HasGap ↔ complete? insecure = none ∨ r.secure.mapM complete? = none := by
      rw [complete?_eq_none, secure_eq_none]
      simp [HasGap, given]
    rw [gap]
    cases first : complete? insecure with
    | none => exact .inl ⟨.inl rfl, by simp [validate, given, first]⟩
    | some whole =>
      cases second : r.secure.mapM complete? with
      | none => exact .inl ⟨.inr rfl, by simp [validate, given, first, second]⟩
      | some secure =>
        refine .inr ⟨by simp, ?_⟩
        by_cases sound : r.flaws whole secure = []
        · obtain ⟨rule, valid⟩ : ∃ rule, r.validate = .ok rule := by
            simp [validate, given, first, second, sound]
          exact .inl ⟨rule, valid, ready_of_validate valid⟩
        · exact .inr ⟨r.flaws whole secure, by simp [validate, given, first, second, sound], sound⟩

end RuleSpec

namespace Evidence

variable {e : Evidence} {caller : String} {secure : Bool} {c : Condition} {counter : Option (RulePattern Condition)}
  {lines : List SliceLine}

/-- A check other than that of constants looks at no regular expression. -/
theorem checkHits_regex {check : Check} (other : check ≠ .constant) (regex : Option Text.Regex) :
    e.checkHits caller secure { c with regex } counter lines check = e.checkHits caller secure c counter lines check := by
  cases check with
  | constant => exact absurd rfl other
  | schemeTypes | algorithms | signatures => rfl

/-- The regular expression of a condition without a check of constants does not matter. -/
theorem hits_regex (unchecked : .constant ∉ c.spec.checks) (regex : Option Text.Regex) :
    e.hits caller secure { c with regex } counter lines = e.hits caller secure c counter lines := by
  have same : ∀ checks : List Check, .constant ∉ checks →
      checks.mapM (e.checkHits caller secure { c with regex } counter lines) =
        checks.mapM (e.checkHits caller secure c counter lines) := by
    intro checks
    induction checks with
    | nil => exact fun _ => rfl
    | cons check checks ih =>
      intro absent
      obtain ⟨other, absent⟩ := not_or.mp (mt List.mem_cons.mpr absent)
      rw [List.mapM_cons, List.mapM_cons, checkHits_regex (Ne.symm other), ih absent]
  rw [hits, hits, same _ unchecked]

end Evidence

theorem Rule.ofBytes_of_decode {bytes : Text.Bytes} {spec : RuleSpec}
    (decodes : Document.decode bytes RuleSpec.decode = .ok spec) : Rule.ofBytes bytes = spec.validate := by
  unfold Rule.ofBytes
  generalize Document.decode bytes RuleSpec.decode = result at decodes
  subst decodes
  rfl

/-- Reading a rule never gets stuck, null conditions apart. Every document that decodes either has a null condition, and then
nothing is read from it, or it gives a rule or some flaws. In a rule each condition with a check of constants has the
regular expression of its pattern, each target algorithm has its own, and the other conditions are checked in the same way
whatever regular expression they have. -/
theorem Rule.ofBytes_ready {bytes : Text.Bytes} {spec : RuleSpec} (decodes : Document.decode bytes RuleSpec.decode = .ok spec) :
    (Rule.ofBytes bytes = .error .nullCondition ↔ spec.HasGap) ∧
    (¬spec.HasGap → (∃ rule, Rule.ofBytes bytes = .ok rule) ∨
      ∃ flaws, Rule.ofBytes bytes = .error (.flawed flaws) ∧ flaws ≠ []) ∧
    ∀ rule, Rule.ofBytes bytes = .ok rule → rule.Ready ∧
      ∀ p ∈ rule.patterns, ∀ c ∈ p.2.conditions, .constant ∉ c.spec.checks →
        ∀ (e : Evidence) caller secure counter lines regex,
          e.hits caller secure { c with regex } counter lines = e.hits caller secure c counter lines := by
  have others : ∀ rule : Rule, ∀ p ∈ rule.patterns, ∀ c ∈ p.2.conditions, .constant ∉ c.spec.checks →
      ∀ (e : Evidence) caller secure counter lines regex,
        e.hits caller secure { c with regex } counter lines = e.hits caller secure c counter lines := by
    intro rule p _ c _ unchecked e caller secure counter lines regex
    exact Evidence.hits_regex unchecked regex
  rw [Rule.ofBytes_of_decode decodes]
  rcases spec.validate_cases with ⟨gap, failed⟩ | ⟨whole, ⟨rule, made, ready⟩ | ⟨flaws, failed, some_⟩⟩
  · rw [failed]
    exact ⟨by simp [gap], fun whole => absurd gap whole, by simp⟩
  · rw [made]
    refine ⟨by simp [whole], fun _ => .inl ⟨rule, rfl⟩, ?_⟩
    rintro _ ⟨⟩
    exact ⟨ready, others rule⟩
  · rw [failed]
    exact ⟨by simp [whole], fun _ => .inr ⟨flaws, rfl, some_⟩, by simp⟩

/-- A document from which something else than that it is unreadable is told decodes. -/
theorem Rule.exists_decode (bytes : Text.Bytes) (readable : ∀ cause, Rule.ofBytes bytes ≠ .error (.unreadable cause)) :
    ∃ spec, Document.decode bytes RuleSpec.decode = .ok spec := by
  unfold Rule.ofBytes at readable
  cases decoded : Document.decode bytes RuleSpec.decode with
  | ok spec => exact ⟨spec, rfl⟩
  | error cause =>
    rw [decoded] at readable
    exact absurd rfl (readable cause)

theorem Rule.exists_of_isSome (bytes : Text.Bytes) (reads : (Rule.ofBytes bytes).toOption.isSome = true) :
    ∃ spec rule, Document.decode bytes RuleSpec.decode = .ok spec ∧ Rule.ofBytes bytes = .ok rule := by
  cases read : Rule.ofBytes bytes with
  | error e => simp [read, Except.toOption] at reads
  | ok rule =>
    obtain ⟨spec, decodes⟩ := Rule.exists_decode bytes (by simp [read])
    exact ⟨spec, rule, decodes, rfl⟩

/-- A document from which a null condition keeps a rule decodes, and has one. -/
theorem Rule.exists_gap {bytes : Text.Bytes} (stuck : (Rule.ofBytes bytes).map (fun _ => ()) = .error .nullCondition) :
    ∃ spec, Document.decode bytes RuleSpec.decode = .ok spec ∧ spec.HasGap ∧
      Rule.ofBytes bytes = .error .nullCondition := by
  cases read : Rule.ofBytes bytes with
  | ok rule => simp [read, Except.map] at stuck
  | error e =>
    obtain rfl : e = .nullCondition := by simpa [read, Except.map] using stuck
    obtain ⟨spec, decodes⟩ := Rule.exists_decode bytes (by simp [read])
    rw [Rule.ofBytes_of_decode decodes] at read
    refine ⟨spec, decodes, ?_, rfl⟩
    rcases spec.validate_cases with ⟨gap, -⟩ | ⟨-, ⟨rule, made, -⟩ | ⟨flaws, failed, -⟩⟩
    · exact gap
    · simp [made] at read
    · simp [failed] at read

/-- A rule with a check of constants. -/
def constantRule : Text.Bytes :=
  Text.bytesOf
    "slicingSignatures: \x7b'<a: b c()>': []\x7d\ninsecureRule: \x7bruleID: 1, conditions: \x7btargetConstantRegex: a\x7d\x7d"

set_option maxRecDepth 100000 in
/-- A rule with a check of constants is read, and has its regular expression ready. -/
theorem constantRule_ready :
    ∃ spec rule, Document.decode constantRule RuleSpec.decode = .ok spec ∧ Rule.ofBytes constantRule = .ok rule ∧
      rule.Ready := by
  obtain ⟨spec, rule, decodes, read⟩ := Rule.exists_of_isSome constantRule (by decide +kernel)
  exact ⟨spec, rule, decodes, read, ((Rule.ofBytes_ready decodes).2.2 rule read).1⟩

/-- A rule with a null condition. -/
def gapRule : Text.Bytes := Text.bytesOf "insecureRule: \x7bconditions: [null]\x7d"

set_option maxRecDepth 100000 in
/-- A rule with a null condition decodes, and is neither made ready nor refused for a flaw. -/
theorem gapRule_stuck :
    ∃ spec, Document.decode gapRule RuleSpec.decode = .ok spec ∧ spec.HasGap ∧
      Rule.ofBytes gapRule = .error .nullCondition :=
  Rule.exists_gap (by decide +kernel)

end MisuseSlice
