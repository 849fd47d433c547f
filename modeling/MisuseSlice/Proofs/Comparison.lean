import Mathlib
import MisuseSlice.Proofs.Interval
import MisuseSlice.Proofs.Number.Decimals

/-! Comparisons of literals. A comparison of two decimal literals, whether they are given as operands or one of them
stands in an expression behind a name and an operator, is decided as the numbers that they denote compare. -/
namespace MisuseSlice

/-- A text writes a numeric constant that has no exponent. -/
structure Value.IsDecimal (text : String) : Prop where
  numeric : (Value.read text).isNumeric = true
  plain : 'e' ∉ text.toList ∧ 'E' ∉ text.toList

/-- A text that is a numeric constant is the text of a literal. -/
theorem Value.literalType?_of_isNumeric {t : String} (numeric : (classify t).isNumeric = true) :
    t ≠ "" ∧ t ≠ "null" ∧ (Number.literalType? t).isSome := by
  unfold classify at numeric
  repeat' split at numeric
  all_goals simp_all [isNumeric, null]

/-- A text that starts with a digit and ends in no white space is trimmed. -/
theorem Text.trim_of_digit {t : String} {c : Char} {rest : List Char} (parts : t.toList = c :: rest)
    (digit : Number.isDecimal c = true) (last : ∀ c ∈ t.toList.getLast?, isBlank c = false) : trim t = t := by
  have first : ∀ d ∈ t.toList.head?, isBlank d = false := by
    intro d first
    obtain rfl : c = d := by simpa [parts] using first
    have range := Number.isDecimal_iff.mp digit
    simp only [isBlank, Bool.or_eq_false_iff, Bool.and_eq_false_iff, decide_eq_false_iff_not, beq_eq_false_iff_ne]
    omega
  rw [trim, trimWhere_of_ends first last, String.ofList_toList]

/-- A literal that starts with a digit and ends in no white space is a numeric constant. -/
theorem Value.isDecimal_of_digit {t : String} {c : Char} {rest : List Char} (parts : t.toList = c :: rest)
    (digit : Number.isDecimal c = true) (last : ∀ c ∈ t.toList.getLast?, Text.isBlank c = false)
    (typed : (Number.literalType? t).isSome) (plain : 'e' ∉ t.toList ∧ 'E' ∉ t.toList) : IsDecimal t := by
  have apart : ∀ d, Number.isDecimal d = false → d ≠ c := fun d other same => by simp [same, digit] at other
  have filled : t ≠ "" := by
    rintro rfl
    cases parts
  have named : t ≠ "null" := by
    rintro rfl
    cases parts
    exact absurd digit (by decide)
  have string : Text.startsWith t "\"" = false := Text.startsWith_eq_false parts (apart '"' (by decide)) []
  have class_ : Text.startsWith t "class \"" = false :=
    Text.startsWith_eq_false parts (apart 'c' (by decide)) "lass \"".toList
  have array : Text.startsWith t "\x7b" = false := Text.startsWith_eq_false parts (apart '\x7b' (by decide)) []
  refine ⟨?_, plain⟩
  obtain ⟨type, typed⟩ := Option.isSome_iff_exists.mp typed
  rw [read, Text.trim_of_digit parts digit last, classify, if_neg filled, if_neg named, string, class_, array, typed]
  cases type <;> rfl

namespace Comparison

/-- The number that a decimal literal denotes. -/
def valueOf (literal : String) : Rat := Number.decimal (Text.trim literal).toList

/-- A literal denotes zero or has not too many digits after its point. -/
def Within (literal : String) : Prop :=
  valueOf literal = 0 ∨ Number.places (Text.trim literal).toList ≤ Number.maxPlaces

/-- A character of an operator. -/
def isMark (c : Char) : Bool := ['<', '>', '=', '!'].contains c

variable {x y op : String}

/-- A decimal literal is the text of a literal, white space at its ends apart. -/
theorem exists_trimmed (decimal : Value.IsDecimal x) :
    ∃ l : Number.Literal, l.IsDecimal ∧ l.hasDigits = true ∧ (Text.trim x).toList = l.body ++ l.suffix.toList ∧
      ∀ c ∈ l.suffix, c ∈ ['F', 'D', 'L'] := by
  obtain ⟨-, -, typed⟩ := Value.literalType?_of_isNumeric decimal.numeric
  exact Number.exists_literal typed
    ⟨fun here => decimal.plain.1 (Text.mem_of_mem_trim here), fun here => decimal.plain.2 (Text.mem_of_mem_trim here)⟩

theorem isUnconstrained_decimal (decimal : Value.IsDecimal x) : isUnconstrained x = false := by
  obtain ⟨filled, named, -⟩ := Value.literalType?_of_isNumeric decimal.numeric
  simp [isUnconstrained, filled, named]

/-- Dropping the marks of types at the end of a literal leaves its sign and digits. -/
theorem dropEndWhile_marks {l : Number.Literal} (digits : l.IsDecimal) (marked : ∀ c ∈ l.suffix, c ∈ ['F', 'D', 'L']) :
    Text.dropEndWhile ("LlFfDd".toList.contains ·) (l.body ++ l.suffix.toList) = l.body := by
  have mark : ∀ c, "LlFfDd".toList.contains c = true ↔ c ∈ ['L', 'l', 'F', 'f', 'D', 'd'] := fun c =>
    List.contains_iff_mem
  refine Text.dropEndWhile_append (fun c member => ?_) fun c member => ?_
  · rw [Bool.eq_false_iff, ne_eq, mark]
    rcases digits.body member with digit | rfl | rfl
    · intro letter
      simp only [List.mem_cons, List.not_mem_nil, or_false] at letter
      rcases letter with rfl | rfl | rfl | rfl | rfl | rfl <;> exact absurd digit (by decide)
    · decide
    · decide
  · have here := marked c (Option.mem_toList.mp member)
    rw [mark]
    simp only [List.mem_cons, List.not_mem_nil, or_false] at here
    rcases here with rfl | rfl | rfl <;> simp

/-- A decimal literal is read as the number that it denotes if it is within the limit, and is refused otherwise. -/
theorem number?_decimal (decimal : Value.IsDecimal x) [Decidable (Within x)] :
    number? x = if Within x then some (valueOf x) else none := by
  obtain ⟨l, digits, some_, written, marked⟩ := exists_trimmed decimal
  have value : valueOf x = l.value := by rw [valueOf, written, Number.decimal_written digits marked]
  have places : Number.places (Text.trim x).toList = l.after.length := by
    rw [written, Number.places_written digits marked]
  rw [number?, written, dropEndWhile_marks digits marked, Number.rational?_body digits some_, ← value, ← places]
  exact if_congr Iff.rfl rfl rfl

/-- A numeral is neither empty nor null. -/
theorem isUnconstrained_of_number? {q : Rat} (read : number? x = some q) : isUnconstrained x = false := by
  have refused : ∀ t ∈ ["", "null"],
      Number.rational? (String.ofList (Text.dropEndWhile (fun c => "LlFfDd".toList.contains c) t.toList)) = none := by
    decide +kernel
  have apart : ∀ t ∈ ["", "null"], Text.trim x ≠ t := by
    rintro t member rfl
    rw [number?, refused _ member] at read
    cases read
  simp [isUnconstrained, apart "" (by simp), apart "null" (by simp)]

/-- Comparing two numerals is exact. -/
theorem resolve_numbers {a b : Rat} {r : Rat → Rat → Prop} (left : number? x = some a) (right : number? y = some b)
    (asks : relation? op = some r) :
    (resolve true x op y = .holds ↔ r a b) ∧ (resolve true x op y = .fails ↔ ¬r a b) := by
  have exact_ := Interval.isExact_decide (a := .point a) (b := .point b) le_rfl le_rfl asks
  have only : ∀ {z w : Rat}, Interval.Mem z (.point w) ↔ z = w := by
    intro z w
    exact ⟨fun within => le_antisymm within.2 within.1, fun same => same ▸ ⟨le_rfl, le_rfl⟩⟩
  simp only [resolve, isUnconstrained_of_number? left, isUnconstrained_of_number? right, left, right, ↓reduceIte,
    Bool.or_self, Bool.false_eq_true]
  constructor
  · rw [exact_.holds_iff]
    simp [only]
  · rw [exact_.fails_iff]
    simp [only]

/-- Comparing two decimal literals is exact within the limit, and answers nothing beyond it. -/
theorem resolve_decimal {r : Rat → Rat → Prop} (left : Value.IsDecimal x) (right : Value.IsDecimal y)
    (asks : relation? op = some r) :
    (Within x → Within y → (resolve true x op y = .holds ↔ r (valueOf x) (valueOf y)) ∧
      (resolve true x op y = .fails ↔ ¬r (valueOf x) (valueOf y))) ∧
    (¬(Within x ∧ Within y) → resolve true x op y = .unknown) := by
  classical
  constructor
  · intro x_in y_in
    exact resolve_numbers (by rw [number?_decimal left, if_pos x_in]) (by rw [number?_decimal right, if_pos y_in]) asks
  · intro beyond
    simp only [resolve, isUnconstrained_decimal left, isUnconstrained_decimal right, number?_decimal left,
      number?_decimal right]
    by_cases x_in : Within x
    · have y_out : ¬Within y := fun y_in => beyond ⟨x_in, y_in⟩
      simp [x_in, y_out]
    · simp [x_in]

theorem mem_operators {r : Rat → Rat → Prop} (asks : relation? op = some r) : op ∈ operators := by
  unfold relation? at asks
  split at asks <;> cases asks <;> decide

/-- The search for operators in an operator finds that operator as a whole. -/
theorem find_operator :
    ∀ op ∈ operators, operators.findSome? (fun o => (Text.splitFirst? o.toList op.toList).map (Prod.mk o)) =
      some (op, [], []) := by
  simp [operators, Text.splitFirst?, Text.dropFront?]

theorem operator_marks : ∀ op ∈ operators, op.toList ≠ [] ∧ ∀ c ∈ op.toList, isMark c = true := by
  simp [operators, isMark]

theorem isMark_iff {c : Char} : isMark c = true ↔ c = '<' ∨ c = '>' ∨ c = '=' ∨ c = '!' := by
  simp [isMark]

theorem isMark_of_isBlank {c : Char} (blank : Text.isBlank c = true) : isMark c = false := by
  rw [Bool.eq_false_iff]
  intro mark
  rcases isMark_iff.mp mark with rfl | rfl | rfl | rfl <;> exact absurd blank (by decide)

/-- What an operator found leaves of a text, with the operand behind it trimmed. -/
def operandBehind (rest : List Char) (found : String × List Char × List Char) : String × String :=
  (found.1, Text.trim (String.ofList (found.2.2 ++ rest)))

section

variable {name : String} (operator : op ∈ operators) (front : ∀ c ∈ name.toList, isMark c = false)

include operator

/-- Trimming an expression does not reach its operator. -/
theorem trim_expression :
    (Text.trim (name ++ op ++ y)).toList =
      name.toList.dropWhile Text.isBlank ++ op.toList ++ Text.dropEndWhile Text.isBlank y.toList := by
  obtain ⟨some_, marks⟩ := operator_marks op operator
  have unblank : ∀ c ∈ op.toList, Text.isBlank c = false := fun c member =>
    Bool.eq_false_iff.mpr fun blank => by simpa [isMark_of_isBlank blank] using marks c member
  rw [Text.trim, String.toList_ofList, String.toList_append, String.toList_append, Text.trimWhere_around some_ unblank]

include front

/-- What an operator leaves of an expression is what it leaves of the expression's operator, with the operand behind. -/
theorem cut?_expression (back : ∀ c ∈ y.toList, isMark c = false) :
    ∀ o ∈ operators, (Text.cut? (Text.trim (name ++ op ++ y)) o).map (fun parts => (o, Text.trim parts.2)) =
      ((Text.splitFirst? o.toList op.toList).map (Prod.mk o)).map
        (operandBehind (Text.dropEndWhile Text.isBlank y.toList)) := by
  intro o member
  obtain ⟨filled, marks⟩ := operator_marks o member
  have apart : ∀ {cs : List Char}, (∀ c ∈ cs, isMark c = false) → ∀ c ∈ cs, c ∉ o.toList := by
    intro cs free c inside here
    simpa [free c inside] using marks c here
  have frontFree : ∀ c ∈ name.toList.dropWhile Text.isBlank, isMark c = false := fun c member =>
    front c ((List.dropWhile_sublist _).subset member)
  have backFree : ∀ c ∈ Text.dropEndWhile Text.isBlank y.toList, isMark c = false := fun c member =>
    back c (List.mem_reverse.mp ((List.dropWhile_sublist _).subset (List.mem_reverse.mp member)))
  rw [Text.cut?, trim_expression operator, List.append_assoc, Text.splitFirst?_append_left filled (apart frontFree),
    Text.splitFirst?_append_right filled (apart backFree)]
  simp only [Option.map_map]
  rfl

/-- The operator of an expression is found behind a name and before an operand that have no characters of operators. -/
theorem operatorOf?_expression (back : ∀ c ∈ y.toList, isMark c = false) :
    operatorOf? (name ++ op ++ y) = some (op, Text.trim y) := by
  have operand : Text.trim (String.ofList (Text.dropEndWhile Text.isBlank y.toList)) = Text.trim y := by
    rw [Text.trim, String.toList_ofList, Text.trimWhere_dropEndWhile, Text.trim]
  calc operatorOf? (name ++ op ++ y)
      = operators.findSome? fun o =>
          (Text.cut? (Text.trim (name ++ op ++ y)) o).map fun parts => (o, Text.trim parts.2) := rfl
    _ = (operators.findSome? fun o => (Text.splitFirst? o.toList op.toList).map (Prod.mk o)).map
          (operandBehind (Text.dropEndWhile Text.isBlank y.toList)) := by
        rw [← List.head?_filterMap, List.filterMap_congr (cut?_expression operator front back), List.head?_filterMap,
          List.map_findSome?]
        rfl
    _ = some (op, Text.trim y) := by
        simp only [find_operator op operator, Option.map_some, operandBehind, List.nil_append, operand]

end

/-- White space at the ends of an operand does not matter. -/
theorem resolve_trim (live : Bool) : resolve live x op (Text.trim y) = resolve live x op y := by
  have unconstrained : isUnconstrained (Text.trim y) = isUnconstrained y := by
    rw [isUnconstrained, Text.trim_trim, isUnconstrained]
  have number : number? (Text.trim y) = number? y := by rw [number?, Text.trim_trim, number?]
  rw [resolve, unconstrained, number, resolve]

theorem trim_append_blank {space : String} (blank : ∀ c ∈ space.toList, Text.isBlank c = true) :
    Text.trim (space ++ y) = Text.trim y := by
  rw [Text.trim, String.toList_append, Text.trimWhere, List.dropWhile_append_of_pos blank, Text.trim, Text.trimWhere]

/-- A decimal literal has no character of an operator. -/
theorem isMark_decimal (decimal : Value.IsDecimal y) : ∀ c ∈ y.toList, isMark c = false := by
  intro c member
  obtain ⟨l, digits, -, written, marked⟩ := exists_trimmed decimal
  rcases Text.mem_trimWhere_or (p := Text.isBlank) member with blank | inside
  · exact isMark_of_isBlank blank
  · have here : c ∈ l.body ++ l.suffix.toList := by rwa [← written, Text.trim, String.toList_ofList]
    rw [Bool.eq_false_iff]
    intro mark
    have mark := isMark_iff.mp mark
    rcases List.mem_append.mp here with body | suffix
    · have digit := digits.body body
      rcases mark with rfl | rfl | rfl | rfl <;> exact absurd digit (by decide)
    · have letter := marked c (Option.mem_toList.mp suffix)
      rcases mark with rfl | rfl | rfl | rfl <;> exact absurd letter (by decide)

/-- An expression is decided as the comparison of its operands, whatever the name and the white space in it are. -/
theorem evaluate_expression (before name between after : String) (live : Bool) (decimal : Value.IsDecimal y)
    (operator : op ∈ operators) (free : ∀ c ∈ name.toList, c ∉ ['<', '>', '=', '!'])
    (spaces : ∀ space ∈ [before, between, after], ∀ c ∈ space.toList, Text.isBlank c = true) :
    evaluate live x (before ++ name ++ between ++ op ++ after ++ y) = resolve live x op y := by
  have blank : ∀ space ∈ [before, between, after], ∀ c ∈ space.toList, isMark c = false := fun space member c inside =>
    isMark_of_isBlank (spaces space member c inside)
  have front : ∀ c ∈ (before ++ name ++ between).toList, isMark c = false := by
    intro c member
    simp only [String.toList_append, List.mem_append] at member
    rcases member with (member | member) | member
    · exact blank before (by simp) c member
    · exact Bool.eq_false_iff.mpr fun mark => free c member (List.contains_iff_mem.mp mark)
    · exact blank between (by simp) c member
  have back : ∀ c ∈ (after ++ y).toList, isMark c = false := by
    intro c member
    rcases List.mem_append.mp (String.toList_append ▸ member) with member | member
    · exact blank after (by simp) c member
    · exact isMark_decimal decimal c member
  have parts : before ++ name ++ between ++ op ++ after ++ y = before ++ name ++ between ++ op ++ (after ++ y) :=
    String.append_assoc
  rw [parts, evaluate, operatorOf?_expression operator front back]
  simp only [trim_append_blank (spaces after (by simp)), resolve_trim]

/-- Literals are compared exactly. For two decimal literals of which each denotes zero or has at most a million digits
after its point, a comparison holds or fails as the numbers that they denote are in the relation or not; beyond that
limit nothing is answered. An expression with any name and any white space is decided in the same way. -/
theorem evaluate_literals (before name between after : String) {r : Rat → Rat → Prop} (left : Value.IsDecimal x)
    (right : Value.IsDecimal y) (asks : relation? op = some r) (free : ∀ c ∈ name.toList, c ∉ ['<', '>', '=', '!'])
    (spaces : ∀ space ∈ [before, between, after], ∀ c ∈ space.toList, Text.isBlank c = true) :
    evaluate true x (before ++ name ++ between ++ op ++ after ++ y) = resolve true x op y ∧
      (Within x → Within y → (resolve true x op y = .holds ↔ r (valueOf x) (valueOf y)) ∧
        (resolve true x op y = .fails ↔ ¬r (valueOf x) (valueOf y))) ∧
      (¬(Within x ∧ Within y) → resolve true x op y = .unknown) :=
  ⟨evaluate_expression before name between after true right (mem_operators asks) free spaces, resolve_decimal left right asks⟩

/-- A float and an integer are compared in an expression. -/
theorem float_less_integer :
    Value.IsDecimal "1.5F" ∧ Value.IsDecimal "2" ∧ valueOf "1.5F" < valueOf "2" ∧
      evaluate true "1.5F" (" " ++ "len" ++ "  " ++ "<" ++ " " ++ "2") = .holds := by
  have left : Value.IsDecimal "1.5F" := ⟨by decide +kernel, by simp⟩
  have right : Value.IsDecimal "2" := ⟨by decide +kernel, by simp⟩
  have values : valueOf "1.5F" = 3 / 2 ∧ valueOf "2" = 2 := by decide +kernel
  have less : valueOf "1.5F" < valueOf "2" := by rw [values.1, values.2]; norm_num
  have short : Number.places (Text.trim "1.5F").toList ≤ Number.maxPlaces ∧
      Number.places (Text.trim "2").toList ≤ Number.maxPlaces := by decide +kernel
  have spaces : ∀ space ∈ [" ", "  ", " "], ∀ c ∈ space.toList, Text.isBlank c = true := by simp [Text.isBlank]
  have asks : relation? "<" = some (· < ·) := rfl
  obtain ⟨same, decided, -⟩ := evaluate_literals " " "len" "  " " " left right asks (by simp) spaces
  exact ⟨left, right, less, same.trans ((decided (.inr short.1) (.inr short.2)).1.mpr less)⟩

/-- A number just above zero, with the given number of zeros after its point. -/
def tiny (zeros : Nat) : String := String.ofList ('0' :: '.' :: (List.replicate zeros '0' ++ ['1']))

/-- The literal that a number just above zero is written with. -/
def tinyLiteral (zeros : Nat) : Number.Literal :=
  { negative := false, whole := ['0'], fraction := some (List.replicate zeros '0' ++ ['1']), exponent := none,
    suffix := none }

theorem tiny_written (zeros : Nat) :
    (tiny zeros).toList = (tinyLiteral zeros).body ++ (tinyLiteral zeros).suffix.toList := by
  simp [tiny, tinyLiteral, Number.Literal.body, Number.Literal.digits]

theorem tinyLiteral_decimal (zeros : Nat) : (tinyLiteral zeros).IsDecimal := by
  have zero : Number.isDecimal '0' = true := by decide
  have one : Number.isDecimal '1' = true := by decide
  refine ⟨by simpa [tinyLiteral] using zero, ?_⟩
  rintro f ⟨⟩ c member
  rcases List.mem_append.mp member with member | member
  · rw [List.eq_of_mem_replicate member, zero]
  · rw [List.mem_singleton.mp member, one]

theorem literalType?_tiny (zeros : Nat) : Number.literalType? (tiny zeros) = some .double := by
  have zero : Number.isDecimal '0' = true := by decide
  have one : Number.isDecimal '1' = true := by decide
  have point : Number.isDecimal '.' = false := by decide
  have all : ∀ c ∈ List.replicate zeros '0' ++ ['1'], Number.isDecimal c = true :=
    (tinyLiteral_decimal zeros).fraction _ rfl
  have taken := List.takeWhile_eq_self_iff.mpr all
  have dropped := List.dropWhile_eq_nil_iff.mpr all
  simp [Number.literalType?, tiny, Number.Literal.read?, Number.splitMinus, Number.splitFraction, zero, point, taken,
    dropped, Number.Literal.type?, Number.Literal.hasDigits]

theorem tiny_last (zeros : Nat) : ∀ c ∈ (tiny zeros).toList.getLast?, Text.isBlank c = false := by
  have last : (tiny zeros).toList.getLast? = some '1' := by
    rw [tiny, String.toList_ofList, ← List.cons_append, ← List.cons_append, List.getLast?_concat]
  rintro c here
  rw [last] at here
  obtain rfl := Option.some.inj here
  decide

theorem trim_tiny (zeros : Nat) : Text.trim (tiny zeros) = tiny zeros :=
  Text.trim_of_digit String.toList_ofList (by decide) (tiny_last zeros)

theorem isDecimal_tiny (zeros : Nat) : Value.IsDecimal (tiny zeros) := by
  refine Value.isDecimal_of_digit String.toList_ofList (by decide) (tiny_last zeros) (by simp [literalType?_tiny]) ?_
  simp [tiny]

/-- A number just above zero is above zero, and has one digit after its point more than zeros there. -/
theorem valueOf_tiny (zeros : Nat) :
    0 < valueOf (tiny zeros) ∧ Number.places (Text.trim (tiny zeros)).toList = zeros + 1 := by
  have digits := tinyLiteral_decimal zeros
  have marked : ∀ c ∈ (tinyLiteral zeros).suffix, c ∈ ['F', 'D', 'L'] := by simp [tinyLiteral]
  rw [valueOf, trim_tiny, tiny_written, Number.decimal_written digits marked, Number.places_written digits marked]
  have positive : 0 < Number.decimalValue ('0' :: (List.replicate zeros '0' ++ ['1'])) := by
    rw [Number.decimalValue, ← List.cons_append, List.foldl_append]
    exact Nat.succ_pos _
  constructor
  · simp only [Number.Literal.value, Number.signed, tinyLiteral, Number.Literal.after]
    simpa using positive
  · simp [tinyLiteral, Number.Literal.after]

/-- A number just above zero is not known to be above zero if it has too many digits after its point. -/
theorem unknown_tiny {zeros : Nat} (many : Number.maxPlaces ≤ zeros) :
    valueOf "0" < valueOf (tiny zeros) ∧ resolve true (tiny zeros) ">" "0" = .unknown ∧
      evaluate true (tiny zeros) (" " ++ "n" ++ " " ++ ">" ++ " " ++ "0") = .unknown := by
  have right : Value.IsDecimal "0" := ⟨by decide +kernel, by simp⟩
  have zero : valueOf "0" = 0 := by decide +kernel
  obtain ⟨positive, places⟩ := valueOf_tiny zeros
  have beyond : ¬Within (tiny zeros) := by
    rintro (none | short)
    · exact positive.ne' none
    · omega
  have asks : relation? ">" = some (· > ·) := rfl
  have unknown := (resolve_decimal (isDecimal_tiny zeros) right asks).2 fun both => beyond both.1
  have spaces : ∀ space ∈ [" ", " ", " "], ∀ c ∈ space.toList, Text.isBlank c = true := by simp [Text.isBlank]
  refine ⟨by rw [zero]; exact positive, unknown, ?_⟩
  rw [evaluate_expression " " "n" " " " " true right (mem_operators asks) (by simp) spaces, unknown]

/-- A number just above zero with a million zeros after its point is a decimal literal that is not compared exactly. -/
theorem tiny_not_decided :
    Value.IsDecimal (tiny 1000000) ∧ Value.IsDecimal "0" ∧ valueOf "0" < valueOf (tiny 1000000) ∧
      resolve true (tiny 1000000) ">" "0" = .unknown ∧
      evaluate true (tiny 1000000) (" " ++ "n" ++ " " ++ ">" ++ " " ++ "0") = .unknown :=
  ⟨isDecimal_tiny 1000000, ⟨by decide +kernel, by simp⟩, unknown_tiny le_rfl⟩

end Comparison

end MisuseSlice
