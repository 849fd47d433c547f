import Mathlib
import MisuseSlice.Body.Renaming

/-! Names of slots. A slot is named by a letter and a number, with a mark where it is a temporary. A fresh
name carries a number above all that were noted, so it is none of the names noted before. -/
namespace MisuseSlice

/-- A lower-case letter and a number, after a mark where the slot is a temporary. -/
def IsSlotName (name : String) : Prop :=
  ∃ (mark : List Char) (letter : Char) (digits : List Char), name.toList = mark ++ letter :: digits ∧
    (mark = [] ∨ mark = ['$']) ∧ 'a' ≤ letter ∧ letter ≤ 'z' ∧ digits ≠ [] ∧
    ∀ c ∈ digits, Number.isDecimal c = true

namespace Number

theorem isDecimal_iff {c : Char} : isDecimal c = true ↔ 48 ≤ c.toNat ∧ c.toNat ≤ 57 := by
  simp only [isDecimal, Bool.and_eq_true, decide_eq_true_eq]
  exact Iff.rfl

/-- Decimal digits denote the number that printing writes with them. -/
theorem digitsValue?_decimal {digits : List Char} (decimal : ∀ c ∈ digits, isDecimal c = true) :
    digitsValue? 10 digits = some (Nat.ofDigitChars 10 digits 0) := by
  have fold : ∀ f : Option Nat → Char → Option Nat,
      (∀ n, ∀ c ∈ digits, f (some n) c = some (n * 10 + (c.toNat - 48))) →
      ∀ n : Nat, digits.foldl f (some n) = some (Nat.ofDigitChars 10 digits n) := by
    intro f adds
    induction digits with
    | nil => exact fun _ => rfl
    | cons c rest ih =>
      intro n
      have others := ih (fun c member => decimal c (List.mem_cons_of_mem _ member))
        (fun n c member => adds n c (List.mem_cons_of_mem _ member))
      rw [List.foldl_cons, Nat.ofDigitChars_cons, adds n c List.mem_cons_self, others, Nat.mul_comm]
      rfl
  refine fold _ (fun n c member => ?_) 0
  have here := isDecimal_iff.mp (decimal c member)
  have digit : digit? c = some (c.toNat - 48) := if_pos ⟨here.1, here.2⟩
  have small : c.toNat - 48 < 10 := by omega
  simp only [digit, small, ↓reduceIte]

/-- Decimal digits are read as the number that they denote, if that is a machine word. -/
theorem integer_decimal {digits : List Char} (some_ : digits ≠ []) (decimal : ∀ c ∈ digits, isDecimal c = true)
    (word : Nat.ofDigitChars 10 digits 0 < 2 ^ 63) :
    integer 10 64 digits = .ok (Nat.ofDigitChars 10 digits 0 : Nat) := by
  have value : natural 10 digits = .ok (Nat.ofDigitChars 10 digits 0) := by
    simp only [natural, List.isEmpty_iff, some_, ↓reduceIte]
    rw [if_neg (by decide), if_neg (by decide)]
    rw [show ((10 : Int).toNat) = 10 from rfl, digitsValue?_decimal decimal]
  have fits : Nat.ofDigitChars 10 digits 0 < Nat.pow 2 (64 - 1) := word
  have unsigned : ∀ c, Number.isDecimal c = true → c ≠ '+' ∧ c ≠ '-' := by
    rintro c here
    constructor <;> rintro rfl <;> simp [isDecimal] at here
  obtain ⟨c, rest, rfl⟩ := List.exists_cons_of_ne_nil some_
  obtain ⟨plus, minus⟩ := unsigned c (decimal c List.mem_cons_self)
  simp [integer, plus, minus, value, fits]

/-- A row of decimal digits denotes less than the next power of ten. -/
theorem ofDigitChars_lt {digits : List Char} (decimal : ∀ c ∈ digits, isDecimal c = true) (n : Nat) :
    Nat.ofDigitChars 10 digits n < (n + 1) * 10 ^ digits.length := by
  induction digits generalizing n with
  | nil => simp [Nat.ofDigitChars_nil]
  | cons c rest ih =>
    have here := isDecimal_iff.mp (decimal c List.mem_cons_self)
    have zero : '0'.toNat = 48 := rfl
    have more := ih (fun c member => decimal c (List.mem_cons_of_mem _ member)) (10 * n + (c.toNat - '0'.toNat))
    rw [Nat.ofDigitChars_cons]
    calc Nat.ofDigitChars 10 rest (10 * n + (c.toNat - '0'.toNat))
        < (10 * n + (c.toNat - '0'.toNat) + 1) * 10 ^ rest.length := more
      _ ≤ ((n + 1) * 10) * 10 ^ rest.length := Nat.mul_le_mul_right _ (by omega)
      _ = (n + 1) * 10 ^ (c :: rest).length := by rw [Nat.mul_assoc, List.length_cons, Nat.pow_succ']

/-- The digits of a number are decimal. -/
theorem isDecimal_toDigits {n : Nat} {c : Char} (member : c ∈ Nat.toDigits 10 n) : isDecimal c = true := by
  have digit := Nat.isDigit_of_mem_toDigits (by decide) (Nat.le_refl 10) member
  simpa [Char.isDigit, isDecimal_iff, UInt32.le_iff_toNat_le] using digit

end Number

namespace Number

theorem isUpper_iff {c : Char} : c.isUpper = true ↔ 65 ≤ c.toNat ∧ c.toNat ≤ 90 := by
  simp [Char.isUpper, UInt32.le_iff_toNat_le, ← Char.toNat_val]

theorem isLower_iff {c : Char} : c.isLower = true ↔ 97 ≤ c.toNat ∧ c.toNat ≤ 122 := by
  simp [Char.isLower, UInt32.le_iff_toNat_le, ← Char.toNat_val]

theorem isAlpha_of_isDecimal {c : Char} (decimal : isDecimal c = true) : (c.isAlpha || c == '_') = false := by
  have here := isDecimal_iff.mp decimal
  rw [Bool.eq_false_iff]
  intro alpha
  simp only [Char.isAlpha, Bool.or_eq_true, beq_iff_eq, isUpper_iff, isLower_iff] at alpha
  rcases alpha with (upper | lower) | rfl
  · omega
  · omega
  · exact absurd here.2 (by decide)

end Number

/-- The letters and the number of a slot name are told apart. -/
theorem slotParts?_of_slotName {name : String} {mark digits : List Char} {letter : Char}
    (parts : name.toList = mark ++ letter :: digits) (marked : mark = [] ∨ mark = ['$']) (low : 'a' ≤ letter)
    (high : letter ≤ 'z') (some_ : digits ≠ []) (decimal : ∀ c ∈ digits, Number.isDecimal c = true) :
    slotParts? name = some (String.ofList (mark ++ [letter]), digits) := by
  have range : 97 ≤ letter.toNat ∧ letter.toNat ≤ 122 := ⟨low, high⟩
  have isLetter : (letter.isAlpha || letter == '_') = true := by
    simp [Char.isAlpha, Number.isLower_iff.mpr range]
  have unmarked : letter ≠ '$' := by
    rintro rfl
    exact absurd range.1 (by decide)
  obtain ⟨c, rest, rfl⟩ := List.exists_cons_of_ne_nil some_
  have head := Number.isAlpha_of_isDecimal (decimal c List.mem_cons_self)
  have taken : (letter :: c :: rest).takeWhile (fun c => c.isAlpha || c == '_') = [letter] := by
    simp only [List.takeWhile, isLetter, head]
  have dropped : (letter :: c :: rest).dropWhile (fun c => c.isAlpha || c == '_') = c :: rest := by
    simp only [List.dropWhile, isLetter, head]
  have all : (c :: rest).all Number.isDecimal = true := List.all_eq_true.mpr decimal
  rcases marked with rfl | rfl
  · simp only [List.nil_append] at parts
    simp [slotParts?, parts, unmarked, taken, dropped, all]
  · simp [slotParts?, parts, taken, dropped, all]

namespace Text

/-- A text with no white space at its ends is trimmed. -/
theorem trimWhere_of_ends {p : Char → Bool} {cs : List Char} (first : ∀ c ∈ cs.head?, p c = false)
    (last : ∀ c ∈ cs.getLast?, p c = false) : trimWhere p cs = cs := by
  have front : cs.dropWhile p = cs := by
    cases cs with
    | nil => rfl
    | cons c rest => simp only [List.dropWhile, first c rfl]
  have back : cs.reverse.dropWhile p = cs.reverse := by
    rw [← List.head?_reverse] at last
    cases back : cs.reverse with
    | nil => rfl
    | cons c rest =>
      rw [back] at last
      simp only [List.dropWhile, last c rfl]
  rw [trimWhere, dropEndWhile, front, back, List.reverse_reverse]

/-- A trimmed text is trimmed already. -/
theorem trim_trim (s : String) : trim (trim s) = trim s := by
  have unblank : ∀ {cs : List Char} {c : Char}, c ∈ (cs.dropWhile isBlank).head? → isBlank c = false := by
    intro cs c head
    have kept := List.head?_dropWhile_not isBlank cs
    rw [Option.mem_def.mp head] at kept
    exact kept
  simp only [trim, String.toList_ofList]
  rw [trimWhere_of_ends]
  · intro c first
    obtain ⟨rest, whole⟩ : trimWhere isBlank s.toList <+: s.toList.dropWhile isBlank :=
      List.rdropWhile_prefix isBlank (s.toList.dropWhile isBlank)
    have head : c ∈ (s.toList.dropWhile isBlank).head? := by
      rw [← whole, List.head?_append, Option.mem_def.mp first]
      rfl
    exact unblank head
  · intro c last
    rw [trimWhere, dropEndWhile, List.getLast?_reverse] at last
    exact unblank last

/-- A text does not end in a character other than its last. -/
theorem endsWith_of_last {s : String} {c : Char} (last : s.toList.getLast? ≠ some c) :
    endsWith s (String.ofList [c]) = false := by
  rw [← List.head?_reverse] at last
  rw [endsWith, String.toList_ofList, List.reverse_singleton]
  cases back : s.toList.reverse with
  | nil => rfl
  | cons b rest =>
    rw [back] at last
    have apart : c ≠ b := fun same => last (by rw [same]; rfl)
    simp [dropFront?, apart]

end Text

/-- A text that starts with neither a digit nor a point nor a minus is no numeric literal. -/
theorem Number.literalType?_of_head {name : String} {c : Char} {rest : List Char} (parts : name.toList = c :: rest)
    (sign : c ≠ '-') (point : c ≠ '.') (digit : isDecimal c = false) : literalType? name = none := by
  have whole : ∀ l, Literal.read? (c :: rest) = some l → l.whole = [] ∧ l.fraction = none := by
    intro l read
    simp [Literal.read?, splitMinus, splitFraction, sign, point, digit] at read
    split at read
    · split at read
      · split at read <;> cases read <;> exact ⟨rfl, rfl⟩
      · cases read
    · split at read <;> cases read <;> exact ⟨rfl, rfl⟩
  rw [literalType?, parts]
  cases read : Literal.read? (c :: rest) with
  | none => rfl
  | some l =>
    obtain ⟨empty, plain⟩ := whole l read
    simp [Literal.type?, Literal.hasDigits, empty, plain]

namespace Value

/-- A text is no constant and no reference if it starts and ends like a word. -/
theorem classify_of_word {t : String} {c : Char} {rest : List Char} (parts : t.toList = c :: rest)
    (named : t ≠ "null") (start : c ∉ ['"', '\x7b', '<', '@']) (plain : c = 'c' → rest.head? ≠ some 'l')
    (unclosed : Text.endsWith t ">" = false) (literal : Number.literalType? t = none) :
    classify t = match t.toList with
      | '$' :: rest => { kind := if isIdentifier rest then .temporary else .other, text := t }
      | cs => { kind := if isIdentifier cs then .localName else .other, text := t } := by
  have filled : t ≠ "" := by
    rintro rfl
    cases parts
  simp only [List.mem_cons, List.not_mem_nil, or_false, not_or] at start
  obtain ⟨quote, brace, angle, at_⟩ := start
  have class_ : Text.startsWith t "class \"" = false := by
    by_cases first : 'c' = c
    · subst first
      cases rest with
      | nil => simp [Text.startsWith, parts, Text.dropFront?]
      | cons d rest =>
        have second : 'l' ≠ d := by
          rintro rfl
          exact plain rfl rfl
        simp [Text.startsWith, parts, Text.dropFront?, second]
    · simp [Text.startsWith, parts, Text.dropFront?, first]
  have other : ∀ (x : Char) (xs : List Char), x ≠ c → Text.startsWith t (String.ofList (x :: xs)) = false := by
    intro x xs apart
    simp [Text.startsWith, parts, Text.dropFront?, apart]
  have string : Text.startsWith t "\"" = false := other _ [] (Ne.symm quote)
  have array : Text.startsWith t "\x7b" = false := other _ [] (Ne.symm brace)
  have field : Text.startsWith t "<" = false := other _ [] (Ne.symm angle)
  have parameter : paramRefType? t = none := by simp [paramRefType?, parts, Text.dropFront?, Ne.symm at_]
  unfold classify
  rw [if_neg filled, if_neg named]
  by_cases dollar : c = '$'
  · subst dollar
    simp [string, class_, array, literal, field, unclosed, parameter, parts]
  · simp [string, class_, array, literal, field, unclosed, parameter, parts, dollar]

/-- A value shows the text from which it is inferred. -/
theorem text_classify (t : String) : (classify t).text = t := by
  simp only [classify]
  repeat' split
  all_goals simp_all [null]

/-- A value is inferred again from its own text. -/
theorem read_text (name : String) : read (read name).text = read name := by
  rw [read, read, text_classify, Text.trim_trim]

/-- A slot name ends with a digit. -/
theorem getLast?_of_slotName {name : String} (slot : IsSlotName name) :
    ∃ c, name.toList.getLast? = some c ∧ Number.isDecimal c = true := by
  obtain ⟨mark, letter, digits, parts, _, _, _, some_, decimal⟩ := slot
  refine ⟨digits.getLast some_, ?_, decimal _ (List.getLast_mem some_)⟩
  rw [parts, List.getLast?_append, List.getLast?_cons, List.getLast?_eq_some_getLast some_]
  rfl

/-- A lower-case letter and digits make an identifier. -/
theorem isIdentifier_of_letter {letter : Char} {digits : List Char} (range : 97 ≤ letter.toNat ∧ letter.toNat ≤ 122)
    (decimal : ∀ c ∈ digits, Number.isDecimal c = true) : isIdentifier (letter :: digits) = true := by
  have first : letter.isAlpha = true := by simp [Char.isAlpha, Number.isLower_iff.mpr range]
  simp only [isIdentifier, first, Bool.true_or, Bool.true_and, List.all_eq_true]
  intro x member
  have here := Number.isDecimal_iff.mp (decimal x member)
  have isDigit : x.isDigit = true := by
    simpa [Char.isDigit, UInt32.le_iff_toNat_le, ← Char.toNat_val] using here
  simp [isWordChar, Char.isAlphanum, isDigit]

/-- Nothing is cut off a slot name. -/
theorem trim_slotName {name : String} (slot : IsSlotName name) : Text.trim name = name := by
  obtain ⟨last, ends, digit⟩ := getLast?_of_slotName slot
  obtain ⟨mark, letter, digits, parts, marked, low, high, _⟩ := slot
  have range : 97 ≤ letter.toNat ∧ letter.toNat ≤ 122 := ⟨low, high⟩
  have blankless : ∀ c : Char, 33 ≤ c.toNat → c.toNat ≤ 122 → Text.isBlank c = false := by
    intro c low high
    simp [Text.isBlank]
    omega
  rw [Text.trim, Text.trimWhere_of_ends, String.ofList_toList]
  · intro c first
    rw [parts] at first
    rcases marked with rfl | rfl <;> cases first
    · exact blankless _ (by omega) range.2
    · rfl
  · intro c final
    rw [ends] at final
    cases final
    have := Number.isDecimal_iff.mp digit
    exact blankless _ (by omega) (by omega)

/-- A slot name is read as the variable of that name: a temporary if it is marked, and else a local one. -/
theorem read_eq_of_slotName {name : String} (slot : IsSlotName name) :
    read name = { kind := if name.toList.head? = some '$' then .temporary else .localName, text := name } := by
  have trimmed := trim_slotName slot
  obtain ⟨last, ends, digit⟩ := getLast?_of_slotName slot
  obtain ⟨mark, letter, digits, parts, marked, low, high, some_, decimal⟩ := slot
  have range : 97 ≤ letter.toNat ∧ letter.toNat ≤ 122 := ⟨low, high⟩
  have identifier := isIdentifier_of_letter range decimal
  have letterNot : ∀ x : Char, x.toNat < 97 ∨ 122 < x.toNat → letter ≠ x := by
    rintro x outside rfl
    omega
  have letterDigit : Number.isDecimal letter = false := by
    rw [Bool.eq_false_iff, ne_eq, Number.isDecimal_iff]
    omega
  have unclosed : Text.endsWith name ">" = false := by
    refine Text.endsWith_of_last ?_
    rw [ends]
    rintro same
    cases same
    simp [Number.isDecimal] at digit
  have unnamed : name ≠ "null" := by
    rintro rfl
    have : last = 'l' := (Option.some.inj ends).symm
    subst this
    simp [Number.isDecimal] at digit
  rw [read, trimmed]
  rcases marked with rfl | rfl
  · have parts : name.toList = letter :: digits := parts
    have start : letter ∉ ['"', '\x7b', '<', '@'] := by
      simp only [List.mem_cons, List.not_mem_nil, or_false, not_or]
      exact ⟨letterNot _ (by decide), letterNot _ (by decide), letterNot _ (by decide), letterNot _ (by decide)⟩
    have second : letter = 'c' → digits.head? ≠ some 'l' := by
      intro _ head
      exact absurd (decimal 'l' (List.mem_of_mem_head? head)) (by decide)
    have literal := Number.literalType?_of_head parts (letterNot _ (by decide)) (letterNot _ (by decide)) letterDigit
    rw [classify_of_word parts unnamed start second unclosed literal, parts]
    simp [letterNot '$' (by decide), identifier]
  · have parts : name.toList = '$' :: letter :: digits := parts
    have literal := Number.literalType?_of_head parts (by decide) (by decide) (by decide)
    rw [classify_of_word parts unnamed (by decide) (fun same => absurd same (by decide)) unclosed literal, parts]
    simp [identifier]

theorem read_of_slotName {name : String} (slot : IsSlotName name) :
    (read name).text = name ∧ (read name).isVariable = true := by
  rw [read_eq_of_slotName slot]
  refine ⟨rfl, ?_⟩
  simp only [isVariable]
  split <;> rfl

/-- A value under another name is what is read of the name, with the value's type. -/
theorem kind_renamed (v : Value) (n : String) : (v.renamed n).kind = (read n).kind := by
  simp only [renamed]
  split <;> rfl

theorem text_renamed_eq (v : Value) (n : String) : (v.renamed n).text = (read n).text := by
  simp only [renamed]
  split <;> rfl

/-- A value under another name is the variable of that name. -/
theorem text_renamed {v : Value} {n : String} (slotName : IsSlotName n) : (v.renamed n).text = n :=
  (text_renamed_eq v n).trans (read_of_slotName slotName).1

theorem isVariable_renamed {v : Value} {n : String} (slotName : IsSlotName n) : (v.renamed n).isVariable = true := by
  have variable_ := (read_of_slotName slotName).2
  rw [isVariable, ← kind_renamed v n] at variable_
  exact variable_

end Value

namespace Counters

variable {counters : Counters} {name l : String} {k : Int}

/-- The number of the name, if it has one, is noted. -/
def Covers (counters : Counters) (name : String) : Prop :=
  ∀ l digits n, slotParts? name = some (l, digits) → Number.integer 10 64 digits = .ok n → n ≤ counters.getD l 0

/-- The numbers noted lie within a bound. -/
def Within (counters : Counters) (k : Int) : Prop := ∀ l, 0 ≤ counters.getD l 0 ∧ counters.getD l 0 ≤ k

theorem getD_insert {n : Int} {l' : String} :
    (counters.insert l n).getD l' 0 = if l = l' then n else counters.getD l' 0 := by
  rw [Std.TreeMap.getD_insert]
  simp [Std.LawfulEqCmp.compare_eq_iff_eq]

theorem Covers.mono {more : Counters} (covers : counters.Covers name)
    (grows : ∀ l, counters.getD l 0 ≤ more.getD l 0) : more.Covers name :=
  fun l digits n parts value => Int.le_trans (covers l digits n parts value) (grows l)

theorem getD_observe_le : counters.getD l 0 ≤ (counters.observe name).getD l 0 := by
  simp only [observe]
  split
  · split
    · split
      · rw [getD_insert]
        split
        · rename_i same
          subst same
          omega
        · exact Int.le_refl _
      · exact Int.le_refl _
    · exact Int.le_refl _
  · exact Int.le_refl _

theorem observe_covers : (counters.observe name).Covers name := by
  intro l digits n parts value
  simp only [observe, parts, value]
  split
  · refine Int.le_of_eq ?_
    rw [getD_insert, if_pos rfl]
  · omega

theorem getD_foldl_le {α : Type} (xs : List α) (f : Counters → α → Counters)
    (grows : ∀ cs x l, cs.getD l 0 ≤ (f cs x).getD l 0) (counters : Counters) (l : String) :
    counters.getD l 0 ≤ (xs.foldl f counters).getD l 0 := by
  induction xs generalizing counters with
  | nil => exact Int.le_refl _
  | cons x xs ih => exact Int.le_trans (grows counters x l) (ih (f counters x))

/-- What one element of a list notes stays noted. -/
theorem foldl_covers {α : Type} {xs : List α} {f : Counters → α → Counters}
    (grows : ∀ cs x l, cs.getD l 0 ≤ (f cs x).getD l 0) {x : α} (member : x ∈ xs)
    (notes : ∀ cs, (f cs x).Covers name) (counters : Counters) : (xs.foldl f counters).Covers name := by
  obtain ⟨front, back, rfl⟩ := List.append_of_mem member
  rw [List.foldl_append, List.foldl_cons]
  exact (notes _).mono (getD_foldl_le back f grows _)

theorem getD_observeAll_le {vs : List Value} :
    counters.getD l 0 ≤ (vs.foldl (fun cs v => cs.observe v.text) counters).getD l 0 :=
  getD_foldl_le vs (fun cs v => cs.observe v.text) (fun _ _ _ => getD_observe_le) counters l

/-- The numbers of all operands of a body are noted. -/
theorem ofStatements_covers {units : List Statement} {u : Statement} {v : Value} (member : u ∈ units)
    (operand : v ∈ u.operands) : (ofStatements units).Covers v.text := by
  unfold ofStatements
  refine foldl_covers ?_ member ?_ _
  · exact fun _ _ _ => getD_observeAll_le
  · intro cs
    refine foldl_covers ?_ operand ?_ cs
    · exact fun _ _ _ => getD_observe_le
    · exact fun _ => observe_covers

theorem Within.foldl {α : Type} {xs : List α} {f : Counters → α → Counters} (within : counters.Within k)
    (keeps : ∀ cs x, x ∈ xs → cs.Within k → (f cs x).Within k) : (xs.foldl f counters).Within k := by
  induction xs generalizing counters with
  | nil => exact within
  | cons x xs ih =>
    exact ih (keeps _ x List.mem_cons_self within) fun cs y member => keeps cs y (List.mem_cons_of_mem _ member)

/-- A fresh name is the name of a slot and none that was noted; it is noted with the next number. -/
theorem fresh_spec {slot : String} (named : IsSlotName slot) (within : counters.Within k) (room : k + 1 < 2 ^ 63) :
    IsSlotName (counters.fresh slot).1 ∧ ¬counters.Covers (counters.fresh slot).1 ∧
      (counters.fresh slot).2.Covers (counters.fresh slot).1 ∧
      (∀ l, counters.getD l 0 ≤ (counters.fresh slot).2.getD l 0) ∧ (counters.fresh slot).2.Within (k + 1) := by
  obtain ⟨mark, letter, digits, parts, marked, low, high, some_, decimal⟩ := named
  have letters_ : letters slot = String.ofList (mark ++ [letter]) := by
    simp only [letters, slotParts?_of_slotName parts marked low high some_ decimal]
  obtain ⟨lower, upper⟩ := within (letters slot)
  obtain ⟨m, number⟩ := Int.eq_ofNat_of_zero_le (show 0 ≤ counters.getD (letters slot) 0 + 1 by omega)
  have word : Int.bmod (counters.getD (letters slot) 0 + 1) 0x10000000000000000 = m := by
    rw [Int.bmod_eq_of_le (by omega) (by omega), number]
  have fresh_eq : counters.fresh slot = (letters slot ++ Text.ofInt m, counters.insert (letters slot) m) := by
    simp only [fresh, word]
  have written : (letters slot ++ Text.ofInt m).toList = mark ++ letter :: Nat.toDigits 10 m := by
    simp [letters_, Text.ofInt]
  have digitsOf : ∀ c ∈ Nat.toDigits 10 m, Number.isDecimal c = true := fun c member =>
    Number.isDecimal_toDigits member
  have partsOf := slotParts?_of_slotName written marked low high Nat.toDigits_ne_nil digitsOf
  have value : Number.integer 10 64 (Nat.toDigits 10 m) = .ok (m : Int) := by
    rw [Number.integer_decimal Nat.toDigits_ne_nil digitsOf] <;> rw [Nat.ofDigitChars_ten_toDigits]
    omega
  rw [fresh_eq]
  refine ⟨⟨mark, letter, _, written, marked, low, high, Nat.toDigits_ne_nil, digitsOf⟩, ?_, ?_, ?_, ?_⟩
  · intro covers
    have bound := covers _ _ _ partsOf value
    rw [← letters_] at bound
    omega
  · intro l ds n parts' value'
    rw [partsOf] at parts'
    cases parts'
    rw [value] at value'
    cases value'
    refine Int.le_of_eq ?_
    rw [getD_insert, if_pos letters_]
  · intro l
    rw [getD_insert]
    split
    · rename_i same
      subst same
      omega
    · exact Int.le_refl _
  · intro l
    obtain ⟨low, high⟩ := within l
    rw [getD_insert]
    split
    · omega
    · exact ⟨low, by omega⟩

/-- A fresh name is marked exactly if the slot is. -/
theorem head?_fresh {slot : String} (named : IsSlotName slot) :
    (counters.fresh slot).1.toList.head? = slot.toList.head? := by
  obtain ⟨mark, letter, digits, parts, marked, low, high, some_, decimal⟩ := named
  have letters_ : letters slot = String.ofList (mark ++ [letter]) := by
    simp only [letters, slotParts?_of_slotName parts marked low high some_ decimal]
  simp only [fresh, String.toList_append, letters_, String.toList_ofList, parts]
  rcases marked with rfl | rfl <;> rfl

end Counters

/-- The names that the format gives to the slots of local variables and of temporaries. -/
def Value.IsSlot (v : Value) : Prop := v.isLocalSlot = true ∨ v.isStackSlot = true

instance (v : Value) : Decidable v.IsSlot := inferInstanceAs (Decidable (_ ∨ _))

/-- The operands that are variables, or are written as if they were numbered ones, are slots. -/
def Statement.WellNamed (u : Statement) : Prop :=
  ∀ v ∈ u.operands, v.isVariable = true ∨ (slotParts? v.text).isSome = true → v.IsSlot

instance (u : Statement) : Decidable u.WellNamed := inferInstanceAs (Decidable (∀ v ∈ _, _ → _))

theorem Value.IsSlot.slotName {v : Value} (slot : v.IsSlot) :
    ∃ (mark : List Char) (letter : Char) (digits : List Char), v.text.toList = mark ++ letter :: digits ∧
      (mark = [] ∨ mark = ['$']) ∧ 'a' ≤ letter ∧ letter ≤ 'z' ∧ digits ≠ [] ∧
      (∀ c ∈ digits, Number.isDecimal c = true) ∧ digits.length ≤ 5 := by
  have plain : ∀ cs, isSlotName cs = true → ∃ letter digits, cs = letter :: digits ∧ 'a' ≤ letter ∧ letter ≤ 'z' ∧
      digits ≠ [] ∧ (∀ c ∈ digits, Number.isDecimal c = true) ∧ digits.length ≤ 5 := by
    intro cs slot
    cases cs with
    | nil => cases slot
    | cons letter digits =>
      simp only [isSlotName, Bool.and_eq_true, decide_eq_true_eq, List.all_eq_true] at slot
      obtain ⟨⟨⟨⟨low, high⟩, decimal⟩, some_⟩, few⟩ := slot
      exact ⟨letter, digits, rfl, low, high, List.ne_nil_of_length_pos some_, decimal, few⟩
  rcases slot with unmarked | marked
  · obtain ⟨letter, digits, parts, rest⟩ := plain _ unmarked
    exact ⟨[], letter, digits, parts, .inl rfl, rest⟩
  · simp only [isStackSlot] at marked
    split at marked
    · rename_i cs parts
      obtain ⟨letter, digits, rfl, rest⟩ := plain _ marked
      exact ⟨['$'], letter, digits, parts, .inr rfl, rest⟩
    · cases marked

theorem Value.IsSlot.isSlotName {v : Value} (slot : v.IsSlot) : IsSlotName v.text := by
  obtain ⟨mark, letter, digits, parts, marked, low, high, some_, decimal, -⟩ := slot.slotName
  exact ⟨mark, letter, digits, parts, marked, low, high, some_, decimal⟩

namespace Counters

variable {counters : Counters} {k : Int}

/-- Names of at most five digits have numbers below a hundred thousand. -/
theorem Within.observe {v : Value} (within : counters.Within 99999)
    (named : (slotParts? v.text).isSome = true → v.IsSlot) : (counters.observe v.text).Within 99999 := by
  simp only [Counters.observe]
  split
  · rename_i l digits parts
    obtain ⟨mark, letter, digits', written, marked, low, high, some_, decimal, few⟩ :=
      (named (by rw [parts]; rfl)).slotName
    rw [slotParts?_of_slotName written marked low high some_ decimal] at parts
    cases parts
    have small : Nat.ofDigitChars 10 digits 0 < 10 ^ 5 := by
      have bound := Number.ofDigitChars_lt decimal 0
      rw [Nat.zero_add, Nat.one_mul] at bound
      exact Nat.lt_of_lt_of_le bound (Nat.pow_le_pow_right (by decide) few)
    split
    · rename_i n value
      rw [Number.integer_decimal some_ decimal (by omega)] at value
      cases value
      split
      · intro l
        obtain ⟨low, high⟩ := within l
        rw [getD_insert]
        split <;> omega
      · exact within
    · exact within
  · exact within

/-- The numbers of a well-named body lie below a hundred thousand. -/
theorem ofStatements_within {units : List Statement} (named : ∀ u ∈ units, u.WellNamed) :
    (ofStatements units).Within 99999 := by
  unfold ofStatements
  refine Within.foldl ?_ ?_
  · intro l
    simp
  · intro cs u member within
    refine Within.foldl within ?_
    exact fun cs v operand within => within.observe fun parts => named u member v operand (.inr parts)

end Counters

end MisuseSlice
