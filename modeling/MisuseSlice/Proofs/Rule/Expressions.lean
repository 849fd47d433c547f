import Mathlib
import MisuseSlice.Proofs.Comparison
import MisuseSlice.Proofs.Folds
import MisuseSlice.Proofs.Rule.Validation

/-! Expressions of rules. Validation asks no more of an expression than a character of an operator. It is decided for every
integer exactly if the first operator found in it has a numeral behind it; any other expression answers nothing, and a check
of constants with it never holds. -/
namespace MisuseSlice

/-- A text writes an integer constant, with or without the mark of a long one. -/
def Value.IsInteger (text : String) : Prop := (Value.read text).kind = .intConst ∨ (Value.read text).kind = .longConst

/-- An integer constant is written by a sign and digits, with a suffix or none. -/
theorem Value.IsInteger.exists_literal {x : String} (integer : IsInteger x) :
    ∃ l : Number.Literal, l.IsDecimal ∧ l.hasDigits = true ∧ l.fraction = none ∧
      (Text.trim x).toList = l.body ++ l.suffix.toList ∧ ∀ c ∈ l.suffix, c ∈ ['F', 'D', 'L'] := by
  have typed : Number.literalType? (Text.trim x) = some .int ∨ Number.literalType? (Text.trim x) = some .long := by
    unfold IsInteger Value.read classify at integer
    repeat' split at integer
    all_goals simp_all [null]
  have parts : ∃ l, Number.Literal.read? (Text.trim x).toList = some l ∧ (l.type? = some .int ∨ l.type? = some .long) := by
    rcases typed with typed | typed
    · obtain ⟨l, read, typed⟩ := Option.bind_eq_some_iff.mp typed
      exact ⟨l, read, .inl typed⟩
    · obtain ⟨l, read, typed⟩ := Option.bind_eq_some_iff.mp typed
      exact ⟨l, read, .inr typed⟩
  obtain ⟨l, read, typed⟩ := parts
  have shape : l.hasDigits = true ∧ l.fraction = none ∧ l.exponent = none ∧ ∀ c ∈ l.suffix, c = 'L' := by
    unfold Number.Literal.type? at typed
    repeat' split at typed
    all_goals simp_all
  obtain ⟨digits, whole, unscaled, suffix⟩ := shape
  obtain ⟨written, decimal⟩ := Number.Literal.read?_unscaled unscaled read
  exact ⟨l, decimal, digits, whole, written, fun c member => by simp [suffix c member]⟩

namespace Comparison

/-- What an expression asks for: the first operator, in the order in which they are searched for, that stands in it, and what
is written behind the first place where it stands. -/
structure Asks (expression op right : String) : Prop where
  sought : ∃ earlier later, operators = earlier ++ op :: later ∧ ∀ o ∈ earlier, ¬o.toList <:+: expression.toList
  placed : ∃ left, expression = left ++ op ++ right ∧
    ∀ left' right', expression = left' ++ op ++ right' → left.toList.length ≤ left'.toList.length

/-- An expression compares with a number. -/
def IsComparison (expression : String) : Prop := ∃ op right q, Asks expression op right ∧ number? right = some q

variable {x y op expression right : String}

theorem Asks.operator (asks : Asks expression op right) : op ∈ operators := by
  obtain ⟨earlier, later, order, -⟩ := asks.sought
  simp [order]

/-- Each operator stands for a relation. -/
theorem exists_relation : ∀ op ∈ operators, ∃ r, relation? op = some r := by
  simp [operators, relation?]

/-- An integer literal is read as the number that it denotes. -/
theorem number?_integer (integer : Value.IsInteger x) : number? x = some (valueOf x) := by
  obtain ⟨l, decimal, digits, whole, written, marked⟩ := integer.exists_literal
  have value : valueOf x = l.value := by rw [valueOf, written, Number.decimal_written decimal marked]
  rw [number?, written, dropEndWhile_marks decimal marked, Number.rational?_body decimal digits,
    if_pos (.inr (by simp [Number.Literal.after, whole])), value]

/-- White space around an expression hides no operator, and adds none. -/
theorem cut?_trim (operator : op ∈ operators) (expression : String) :
    (Text.cut? (Text.trim expression) op).map (fun parts => (op, Text.trim parts.2)) =
      (Text.cut? expression op).map (fun parts => (op, Text.trim parts.2)) := by
  obtain ⟨some_, marks⟩ := operator_marks op operator
  obtain ⟨front, back, parts, blankFront, blankBack⟩ := Text.exists_around_trimWhere Text.isBlank expression.toList
  have free : ∀ c, Text.isBlank c = true → c ∉ op.toList := fun c blank member => by
    simpa [isMark_of_isBlank blank] using marks c member
  have trimmed : ∀ cs, Text.trim (String.ofList (cs ++ back)) = Text.trim (String.ofList cs) := by
    intro cs
    rw [Text.trim, Text.trim, String.toList_ofList, String.toList_ofList, Text.trimWhere_append_dropped blankBack]
  have whole : Text.splitFirst? op.toList expression.toList =
      (Text.splitFirst? op.toList (Text.trim expression).toList).map (Prod.map (front ++ ·) (· ++ back)) := by
    conv_lhs => rw [parts]
    rw [Text.splitFirst?_append_left some_ fun c member => free c (blankFront c member),
      Text.splitFirst?_append_right some_ fun c member => free c (blankBack c member), Option.map_map, Text.trim,
      String.toList_ofList]
    rfl
  simp only [Text.cut?, whole, Option.map_map]
  cases Text.splitFirst? op.toList (Text.trim expression).toList with
  | none => simp only [Option.map_none]
  | some parts => exact congrArg (fun right => some (op, right)) (trimmed parts.2).symm

/-- Searching an expression for its operator finds what it asks for. -/
theorem operatorOf?_eq_some_iff {found : String × String} :
    operatorOf? expression = some found ↔ ∃ op right, Asks expression op right ∧ found = (op, Text.trim right) := by
  have untrimmed : operatorOf? expression =
      operators.findSome? fun op => (Text.cut? expression op).map fun parts => (op, Text.trim parts.2) := by
    rw [operatorOf?, ← List.head?_filterMap, ← List.head?_filterMap]
    exact congrArg List.head? (List.filterMap_congr fun op operator => cut?_trim operator expression)
  have absent : ∀ o, (Text.cut? expression o).map (fun parts => (o, Text.trim parts.2)) = none ↔
      ¬o.toList <:+: expression.toList := by
    intro o
    rw [Option.map_eq_none_iff, Text.cut?, Option.map_eq_none_iff, Text.splitFirst?_eq_none_iff]
  rw [untrimmed, List.findSome?_eq_some_iff]
  constructor
  · rintro ⟨earlier, op, later, order, here, before⟩
    obtain ⟨⟨left, right⟩, cut, rfl⟩ := Option.map_eq_some_iff.mp here
    obtain ⟨⟨left, right⟩, split, parts⟩ := Option.map_eq_some_iff.mp cut
    cases parts
    obtain ⟨around, first⟩ := Text.splitFirst?_eq_some_iff.mp split
    refine ⟨op, String.ofList right, ⟨⟨earlier, later, order, fun o member => (absent o).mp (before o member)⟩,
      String.ofList left, ?_, fun left' right' parts => ?_⟩, rfl⟩
    · simp [← String.toList_inj, around]
    · simpa using first left'.toList right'.toList (by simp [parts])
  · rintro ⟨op, right, ⟨⟨earlier, later, order, before⟩, left, parts, first⟩, rfl⟩
    refine ⟨earlier, op, later, order, ?_, fun o member => (absent o).mpr (before o member)⟩
    have split : Text.splitFirst? op.toList expression.toList = some (left.toList, right.toList) := by
      refine Text.splitFirst?_eq_some_iff.mpr ⟨by simp [parts], fun left' right' around => ?_⟩
      simpa using first (String.ofList left') (String.ofList right') (by simp [← String.toList_inj, around])
    simp [Text.cut?, split]

/-- An expression is decided as what it asks for. -/
theorem evaluate_asks (asks : Asks expression op right) (live : Bool) (x : String) :
    evaluate live x expression = resolve live x op right := by
  have found := operatorOf?_eq_some_iff.mpr ⟨op, right, asks, rfl⟩
  simp only [evaluate, found, resolve_trim]

/-- An expression that asks for a comparison with a number is decided for every integer, as the numbers compare. -/
theorem evaluate_integer {q : Rat} {r : Rat → Rat → Prop} (asks : Asks expression op right) (numeral : number? right = some q)
    (relates : relation? op = some r) (integer : Value.IsInteger x) :
    (evaluate true x expression = .holds ↔ r (valueOf x) q) ∧
      (evaluate true x expression = .fails ↔ ¬r (valueOf x) q) := by
  rw [evaluate_asks asks]
  exact resolve_numbers (number?_integer integer) numeral relates

/-- An expression that asks for no comparison with a number answers nothing, whatever it is evaluated for. -/
theorem evaluate_of_not_isComparison (malformed : ¬IsComparison expression) (live : Bool) (x : String) :
    evaluate live x expression = .unknown := by
  cases found : operatorOf? expression with
  | none => simp [evaluate, found]
  | some parts =>
    obtain ⟨op, right, asks, rfl⟩ := operatorOf?_eq_some_iff.mp found
    have refused : number? right = none := by
      by_contra numeral
      obtain ⟨q, numeral⟩ := Option.ne_none_iff_exists'.mp numeral
      exact malformed ⟨op, right, q, asks, numeral⟩
    rw [evaluate_asks asks, resolve, refused]
    split
    · rfl
    · split <;> simp_all

/-- An expression is decided for every integer exactly if it compares with a number. -/
theorem decided_iff_isComparison :
    (∀ x, Value.IsInteger x → evaluate true x expression ≠ .unknown) ↔ IsComparison expression := by
  constructor
  · intro decided
    by_contra malformed
    exact decided "0" (.inl (by decide +kernel)) (evaluate_of_not_isComparison malformed true "0")
  · rintro ⟨op, right, q, asks, numeral⟩ x integer unknown
    obtain ⟨r, relates⟩ := exists_relation op asks.operator
    have exact_ := evaluate_integer asks numeral relates integer
    rw [unknown] at exact_
    simp only [reduceCtorEq, false_iff, not_not] at exact_
    exact exact_.1 exact_.2

end Comparison

/-- The comparison that a check of constants makes: that for the length of a constant, or else that for its size. -/
def ConditionSpec.expression (c : ConditionSpec) : String := if c.length != "" then c.length else c.size

namespace Evidence

open Comparison

variable {e : Evidence} {c : Condition}

/-- Without a search that finds a line there is no match. -/
theorem search_eq_none {lines : List SliceLine} {f : SliceLine → Option Hit} (nowhere : ∀ l, f l = none) :
    search lines f = none := by
  simp [search, nowhere]

theorem searchSub_eq_none {p : SliceLine → Bool} (nowhere : ∀ l, p l = false) (l : SliceLine) (sub : List SliceLine) :
    searchSub l p sub = none := by
  simp [searchSub, nowhere]

theorem bounded (given : c.spec.expression ≠ "") : (c.spec.length == "" && c.spec.size == "") = false := by
  unfold ConditionSpec.expression at given
  split at given <;> simp_all

section

variable (given : c.spec.expression ≠ "") (silent : ∀ x, evaluate e.workspace.live x c.spec.expression = .unknown)

include given silent

/-- No constant fits a condition whose expression answers nothing. -/
theorem fits_eq_false (v : Value) : e.fits c v = false := by
  have both := bounded given
  unfold fits
  dsimp only
  generalize parts : (if (c.spec.length != "") = true then _ else _ : String × String) = asked
  have expression : asked.2 = c.spec.expression := by
    rw [← parts, ConditionSpec.expression]
    split
    · rfl
    · split <;> rfl
  rw [both, expression, silent]
  simp

theorem isFixedArray_eq_false (l : SliceLine) : e.isFixedArray c.spec.expression l = false := by
  simp [isFixedArray, given, silent]

theorem findConstant_eq_none (lines : List SliceLine) : e.findConstant lines c = none := by
  have unfit : ∀ l, ((e.constantsOf l).any (e.fits c)) = false := by simp [fits_eq_false given silent]
  refine search_eq_none fun l => ?_
  have missed : ∀ sub, searchSub l (fun _ => false) sub = none := searchSub_eq_none (fun _ => rfl) l
  simp [bounded given, unfit, missed]

theorem findArray_eq_none (lines : List SliceLine) : e.findArray lines c = none := by
  have unfixed := isFixedArray_eq_false given silent
  refine search_eq_none fun l => ?_
  change (if e.isFixedArray c.spec.expression l then _ else _) = none
  rw [unfixed l, if_neg Bool.false_ne_true, List.findSome?_eq_none_iff]
  intro sub _
  cases sub with
  | nil => rfl
  | cons first sub =>
    have uninit : e.isArrayInit c.spec.expression (first :: sub) = false := by
      cases sub <;> simp [isArrayInit, unfixed]
    change (if e.isArrayInit c.spec.expression (first :: sub) then _ else searchSub l _ _) = none
    rw [uninit, if_neg Bool.false_ne_true]
    exact searchSub_eq_none unfixed l (first :: sub)

/-- A condition with a check of constants whose expression answers nothing never holds. -/
theorem hits_eq_none (checked : .constant ∈ c.spec.checks) (caller : String) (secure : Bool)
    (counter : Option (RulePattern Condition)) (lines : List SliceLine) : e.hits caller secure c counter lines = none := by
  have missed : e.checkHits caller secure c counter lines .constant = none := by
    simp [checkHits, findConstant_eq_none given silent, findArray_eq_none given silent, settle]
  rw [hits, Option.map_eq_none_iff]
  cases all : c.spec.checks.mapM (e.checkHits caller secure c counter lines) with
  | none => rfl
  | some found =>
    obtain ⟨hits, -, found⟩ := exists_of_mapM_eq_some all .constant checked
    rw [missed] at found
    cases found

end

end Evidence

/-- An expression of a condition without flaws has a character of an operator. -/
theorem ConditionSpec.isMark_of_flaws {spec : ConditionSpec} {expression : String} (flawless : spec.flaws = [])
    (asked : expression ∈ [spec.length, spec.size]) (given : expression ≠ "") :
    ∃ mark ∈ expression.toList, Comparison.isMark mark = true := by
  obtain ⟨-, sound⟩ := List.append_eq_nil_iff.mp flawless
  have accepted := List.filter_eq_nil_iff.mp (List.map_eq_nil_iff.mp sound) expression asked
  have marked : isExpression expression = true := by
    by_contra unmarked
    exact accepted (by simp [given, unmarked])
  obtain ⟨mark, member, known⟩ := List.any_eq_true.mp marked
  refine ⟨mark, member, Comparison.isMark_iff.mpr ?_⟩
  simpa [or_left_comm, or_comm] using known

/-- Validation lets more expressions pass than evaluation decides. In a rule that is made ready every expression has a
character of an operator. It is decided for all integers exactly if it compares with a number, and then as the numbers
compare. Any other expression answers nothing for whatever it is evaluated, and a condition with a check of constants that
makes this comparison never holds. -/
theorem Rule.expressions_decided {r : RuleSpec} {rule : Rule} (valid : r.validate = .ok rule) :
    ∀ p ∈ rule.patterns, ∀ c ∈ p.2.conditions, ∀ expression ∈ [c.spec.length, c.spec.size], expression ≠ "" →
      (∃ mark ∈ expression.toList, Comparison.isMark mark = true) ∧
      ((∀ x, Value.IsInteger x → Comparison.evaluate true x expression ≠ .unknown) ↔
        Comparison.IsComparison expression) ∧
      (∀ op right q relation, Comparison.Asks expression op right → Comparison.number? right = some q →
        Comparison.relation? op = some relation → ∀ x, Value.IsInteger x →
          (Comparison.evaluate true x expression = .holds ↔ relation (Comparison.valueOf x) q) ∧
          (Comparison.evaluate true x expression = .fails ↔ ¬relation (Comparison.valueOf x) q)) ∧
      (¬Comparison.IsComparison expression →
        (∀ live x, Comparison.evaluate live x expression = .unknown) ∧
        (c.spec.expression = expression → .constant ∈ c.spec.checks →
          ∀ (e : Evidence) caller secure counter lines, e.hits caller secure c counter lines = none)) := by
  intro p member c inside expression asked given
  obtain ⟨spec, rfl, flawless⟩ := RuleSpec.flawless_of_validate valid p member c inside
  refine ⟨ConditionSpec.isMark_of_flaws flawless asked given, Comparison.decided_iff_isComparison, ?_, ?_⟩
  · intro op right q relation asks numeral relates x integer
    exact Comparison.evaluate_integer asks numeral relates integer
  · intro malformed
    have silent := Comparison.evaluate_of_not_isComparison malformed
    refine ⟨silent, ?_⟩
    rintro rfl checked e caller secure counter lines
    exact Evidence.hits_eq_none given (silent _) checked caller secure counter lines

/-- The conditions of a rule as they are written. -/
def Rule.specs (r : Rule) : List ConditionSpec := r.patterns.flatMap fun p => p.2.conditions.map (·.spec)

theorem RuleSpec.exists_of_specs {r : RuleSpec} {specs : List ConditionSpec}
    (read : r.validate.toOption.map Rule.specs = some specs) :
    ∃ rule, r.validate = .ok rule ∧ ∀ spec ∈ specs, ∃ p ∈ rule.patterns, ∃ c ∈ p.2.conditions, c.spec = spec := by
  cases valid : r.validate with
  | error e => simp [valid, Except.toOption] at read
  | ok rule =>
    obtain rfl : rule.specs = specs := by simpa [valid, Except.toOption] using read
    refine ⟨rule, rfl, fun spec member => ?_⟩
    obtain ⟨p, pattern, inside⟩ := List.mem_flatMap.mp member
    obtain ⟨c, condition, rfl⟩ := List.mem_map.mp inside
    exact ⟨p, pattern, c, condition, rfl⟩

/-- A condition on constants of some size. -/
def sizeCondition (size : String) : ConditionSpec := { constant := some ".*", size }

/-- A rule on constants of some sizes. -/
def sizeRule (sizes : List String) : RuleSpec :=
  { signatures := [("<a.B: void m(int)>", [0])],
    insecure := some { id := "1-1", conditions := sizes.map fun size => some (sizeCondition size) } }

set_option maxRecDepth 100000 in
/-- A comparison with a size is accepted and is decided for every integer. -/
theorem size_expression_decided :
    ∃ rule, (sizeRule ["x < 2048"]).validate = .ok rule ∧
      (∃ p ∈ rule.patterns, ∃ c ∈ p.2.conditions, c.spec = sizeCondition "x < 2048") ∧
      ∀ x, Value.IsInteger x → Comparison.evaluate true x "x < 2048" ≠ .unknown := by
  have read : (sizeRule ["x < 2048"]).validate.toOption.map Rule.specs = some [sizeCondition "x < 2048"] := by decide +kernel
  obtain ⟨rule, valid, conditions⟩ := RuleSpec.exists_of_specs read
  obtain ⟨p, pattern, c, condition, written⟩ := conditions _ List.mem_cons_self
  have comparison : Comparison.IsComparison "x < 2048" := by
    by_contra malformed
    exact absurd (Comparison.evaluate_of_not_isComparison malformed true "0") (by decide +kernel)
  have asked : "x < 2048" ∈ [c.spec.length, c.spec.size] := by simp [written, sizeCondition]
  exact ⟨rule, valid, ⟨p, pattern, c, condition, written⟩,
    (Rule.expressions_decided valid p pattern c condition _ asked (by decide)).2.1.mpr comparison⟩

set_option maxRecDepth 100000 in
/-- A lone exclamation mark is accepted as an operator, and so is a unit behind the number. Neither expression is decided for
a number, and the conditions with them never hold. -/
theorem size_expressions_undecided :
    ∃ rule, (sizeRule ["x ! 2048", "x < 2048 bits"]).validate = .ok rule ∧ Value.IsInteger "1024" ∧
      ∀ size ∈ ["x ! 2048", "x < 2048 bits"], Comparison.evaluate true "1024" size = .unknown ∧
        ∃ p ∈ rule.patterns, ∃ c ∈ p.2.conditions, c.spec = sizeCondition size ∧
          ∀ (e : Evidence) caller secure counter lines, e.hits caller secure c counter lines = none := by
  have read : (sizeRule ["x ! 2048", "x < 2048 bits"]).validate.toOption.map Rule.specs =
      some (["x ! 2048", "x < 2048 bits"].map sizeCondition) := by decide +kernel
  obtain ⟨rule, valid, conditions⟩ := RuleSpec.exists_of_specs read
  have unknown : ∀ size ∈ ["x ! 2048", "x < 2048 bits"], size ≠ "" ∧ Comparison.evaluate true "1024" size = .unknown := by
    decide +kernel
  have integer : Value.IsInteger "1024" := .inl (by decide +kernel)
  refine ⟨rule, valid, integer, fun size member => ⟨(unknown size member).2, ?_⟩⟩
  obtain ⟨p, pattern, c, condition, written⟩ := conditions _ (List.mem_map_of_mem member)
  have malformed : ¬Comparison.IsComparison size := fun comparison =>
    Comparison.decided_iff_isComparison.mpr comparison "1024" integer (unknown size member).2
  have expression : c.spec.expression = size := by simp [written, sizeCondition, ConditionSpec.expression]
  have checked : .constant ∈ c.spec.checks := ConditionSpec.mem_checks_constant.mpr (by simp [written, sizeCondition])
  refine ⟨p, pattern, c, condition, written, fun e => Evidence.hits_eq_none ?_ (fun x => ?_) checked⟩
  · rw [expression]
    exact (unknown size member).1
  · rw [expression]
    exact Comparison.evaluate_of_not_isComparison malformed _ x

end MisuseSlice
