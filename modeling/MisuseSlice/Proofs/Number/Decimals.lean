import Mathlib
import MisuseSlice.Number.Rational
import MisuseSlice.Value
import MisuseSlice.Proofs.Body.Names
import MisuseSlice.Proofs.Text.Cutting

/-! Decimal literals. A literal without an exponent is read as the number that its digits denote, however many they are
before the point; a number other than zero with too many digits after the point is refused. -/
namespace MisuseSlice

namespace Number

/-- The number of digits that a text has after its point. -/
def places (cs : List Char) : Nat := ((cs.dropWhile (· != '.')).filter isDecimal).length

/-- The number that a decimal text denotes, whatever mark stands at its end: all its digits make a whole number, which is
divided by ten once for each digit after the point and is negative after a minus. -/
def decimal (cs : List Char) : Rat :=
  let size : Rat := decimalValue (cs.filter isDecimal) / 10 ^ places cs
  if '-' ∈ cs then -size else size

/-- The largest number of digits after the point of a number other than zero. -/
def maxPlaces : Nat := 1000000

/-- The digits of a literal are decimal. -/
structure Literal.IsDecimal (l : Literal) : Prop where
  whole : ∀ c ∈ l.whole, isDecimal c = true
  fraction : ∀ f ∈ l.fraction, ∀ c ∈ f, isDecimal c = true

/-- The digits after the point. -/
def Literal.after (l : Literal) : List Char := l.fraction.getD []

/-- A literal without its sign, its exponent and its suffix. -/
def Literal.digits (l : Literal) : List Char := l.whole ++ (l.fraction.map ('.' :: ·)).getD []

/-- A literal without its exponent and its suffix. -/
def Literal.body (l : Literal) : List Char := if l.negative then '-' :: l.digits else l.digits

theorem Literal.IsDecimal.after {l : Literal} (decimal : l.IsDecimal) : ∀ c ∈ l.after, Number.isDecimal c = true := by
  cases parts : l.fraction with
  | none => simp [Literal.after, parts]
  | some f => simpa [Literal.after, parts] using decimal.fraction f parts

theorem splitMinus_eq {cs : List Char} {negative : Bool} {rest : List Char} (split : splitMinus cs = (negative, rest)) :
    cs = if negative then '-' :: rest else rest := by
  unfold splitMinus at split
  split at split <;> cases split <;> rfl

theorem splitFraction_eq {cs : List Char} {fraction : Option (List Char)} {rest : List Char}
    (split : splitFraction cs = (fraction, rest)) :
    cs = (fraction.map ('.' :: ·)).getD [] ++ rest ∧ ∀ f ∈ fraction, ∀ c ∈ f, isDecimal c = true := by
  unfold splitFraction at split
  split at split <;> cases split
  · refine ⟨by simp, ?_⟩
    rintro f ⟨⟩ c member
    exact List.mem_takeWhile_imp member
  · exact ⟨rfl, by simp⟩

/-- A text is read as a literal by its sign, its digits and its fraction; what stands behind them is an exponent or a suffix. -/
theorem Literal.read?_parts {cs : List Char} {l : Literal} (read : Literal.read? cs = some l) :
    ∃ behind, cs = (if l.negative then ['-'] else []) ++ (l.whole ++ ((l.fraction.map ('.' :: ·)).getD [] ++ behind)) ∧
      l.IsDecimal ∧
      (l.exponent = none ∧ behind = l.suffix.toList ∨ l.exponent ≠ none ∧ ∃ c ∈ behind, c = 'e' ∨ c = 'E') := by
  unfold Literal.read? at read
  cases signed : splitMinus cs with | mk negative rest
  cases pointed : splitFraction (rest.dropWhile isDecimal) with | mk fraction behind
  have parts := splitMinus_eq signed
  obtain ⟨behind_eq, fractionDigits⟩ := splitFraction_eq pointed
  have written : cs = (if negative then ['-'] else []) ++ (rest.takeWhile isDecimal ++
      ((fraction.map ('.' :: ·)).getD [] ++ behind)) := by
    rw [← behind_eq, List.takeWhile_append_dropWhile, parts]
    cases negative <;> rfl
  have ended : ∃ exponent suffix,
      l = { negative, whole := rest.takeWhile isDecimal, fraction, exponent, suffix } ∧
        (exponent = none ∧ behind = suffix.toList ∨ exponent ≠ none ∧ ∃ c ∈ behind, c = 'e' ∨ c = 'E') := by
    simp only [signed, pointed] at read
    rcases behind with - | ⟨c, behind⟩
    · exact ⟨none, none, (Option.some.inj read).symm, .inl ⟨rfl, rfl⟩⟩
    · dsimp only at read
      split at read
      · rename_i mark
        cases scaled : exponentOf? behind with
        | none => simp [scaled] at read
        | some found =>
          obtain ⟨e, last⟩ := found
          rw [scaled] at read
          rcases last with - | ⟨d, - | ⟨d', last⟩⟩
          · exact ⟨some e, none, (Option.some.inj read).symm, .inr ⟨by simp, c, List.mem_cons_self, mark⟩⟩
          · exact ⟨some e, some d, (Option.some.inj read).symm, .inr ⟨by simp, c, List.mem_cons_self, mark⟩⟩
          · cases read
      · rcases behind with - | ⟨d, behind⟩
        · exact ⟨none, some c, (Option.some.inj read).symm, .inl ⟨rfl, rfl⟩⟩
        · cases read
  obtain ⟨exponent, suffix, rfl, kind⟩ := ended
  exact ⟨behind, written, ⟨fun c member => List.mem_takeWhile_imp member, fractionDigits⟩, kind⟩

/-- A literal that is read without an exponent is written out as its text. -/
theorem Literal.read?_unscaled {cs : List Char} {l : Literal} (unscaled : l.exponent = none)
    (read : Literal.read? cs = some l) : cs = l.body ++ l.suffix.toList ∧ l.IsDecimal := by
  obtain ⟨behind, written, decimal, ⟨-, rfl⟩ | ⟨scaled, -⟩⟩ := Literal.read?_parts read
  · refine ⟨written.trans ?_, decimal⟩
    unfold Literal.body Literal.digits
    split <;> simp
  · exact absurd unscaled scaled

/-- A text without the marks of exponents is read as a literal without one. -/
theorem Literal.unscaled_of_plain {cs : List Char} {l : Literal} (plain : 'e' ∉ cs ∧ 'E' ∉ cs)
    (read : Literal.read? cs = some l) : l.exponent = none := by
  obtain ⟨behind, written, -, ⟨unscaled, -⟩ | ⟨-, c, member, mark⟩⟩ := Literal.read?_parts read
  · exact unscaled
  · have inside : c ∈ cs := by simp [written, member]
    rcases mark with rfl | rfl
    · exact absurd inside plain.1
    · exact absurd inside plain.2

/-- A scan after further digits. -/
def Scan.pass (s : Scan) (digits : List Char) : Scan :=
  { s with
    value := digits.foldl (fun n c => n * 10 + (c.toNat - 48)) s.value
    count := s.count + digits.length
    last := if digits = [] then s.last else .digit }

/-- A scan after a point. -/
def Scan.passPoint (s : Scan) : Scan :=
  { s with point := some s.count, last := .other, misplaced := s.misplaced || s.last == .underscore }

/-- Scanning passes over decimal digits. -/
theorem scanDigits_digits {digits : List Char} (decimal : ∀ c ∈ digits, isDecimal c = true) (pointAllowed : Bool) (s : Scan)
    (rest : List Char) :
    scanDigits 10 pointAllowed s (digits ++ rest) = scanDigits 10 pointAllowed (s.pass digits) rest := by
  induction digits generalizing s with
  | nil => rfl
  | cons c digits ih =>
    have here := isDecimal_iff.mp (decimal c List.mem_cons_self)
    have digit : digit? c = some (c.toNat - 48) := if_pos ⟨here.1, here.2⟩
    have small : c.toNat - 48 < 10 := by omega
    have point : c ≠ '.' := by rintro rfl; exact absurd here.1 (by decide)
    have underscore : c ≠ '_' := by rintro rfl; exact absurd here.2 (by decide)
    rw [List.cons_append, scanDigits]
    simp only [point, false_and, ↓reduceIte, underscore, digit, small]
    rw [ih (fun c member => decimal c (List.mem_cons_of_mem _ member))]
    simp [Scan.pass, Nat.add_assoc, Nat.add_comm 1]

/-- Scanning passes over the digits and the point of a literal. -/
theorem scanDigits_literal {l : Literal} (decimal : l.IsDecimal) (s : Scan) :
    scanDigits 10 true s l.digits =
      (match l.fraction with | none => s.pass l.whole | some f => (s.pass l.whole).passPoint.pass f, []) := by
  rw [Literal.digits, scanDigits_digits decimal.whole]
  cases parts : l.fraction with
  | none => rfl
  | some f =>
    have pointed : scanDigits 10 true (s.pass l.whole) ('.' :: f) = scanDigits 10 false (s.pass l.whole).passPoint f := rfl
    have digits := scanDigits_digits (decimal.fraction f parts) false (s.pass l.whole).passPoint []
    rw [List.append_nil] at digits
    exact pointed.trans (digits.trans rfl)

/-- A scan to the end of a text that is no mark of a base tells the mantissa. -/
theorem mantissa?_of_scan {cs : List Char} {s : Scan} (plain : ∀ c ∈ cs, isDecimal c = true ∨ c = '.')
    (scanned : scanDigits 10 true ⟨0, 0, none, .other, false⟩ cs = (s, [])) (placed : s.misplaced = false)
    (ended : s.last ≠ .underscore) (some_ : s.count ≠ 0) :
    mantissa? true cs =
      some { base := 10, value := s.value, fraction := (s.point.map (s.count - ·)).getD 0, rest := [] } := by
  have unmarked : ∀ m, m ∈ cs → m ∉ ['b', 'B', 'o', 'O', 'x', 'X'] := by
    intro m member mark
    simp only [List.mem_cons, List.not_mem_nil, or_false] at mark
    rcases mark with rfl | rfl | rfl | rfl | rfl | rfl <;> simpa [isDecimal] using plain _ member
  unfold mantissa?
  split
  · rename_i m rest
    have mark := unmarked m (by simp)
    simp only [List.mem_cons, List.not_mem_nil, or_false, not_or] at mark
    have zero : scanDigits 10 true ⟨0, 0, none, .other, false⟩ ('0' :: m :: rest) =
      scanDigits 10 true ⟨0, 1, none, .digit, false⟩ (m :: rest) := rfl
    simp [mark, ← zero, scanned, placed, ended, some_]
  · have zero : scanDigits 10 true ⟨0, 0, none, .other, false⟩ ['0'] =
      scanDigits 10 true ⟨0, 1, none, .digit, false⟩ [] := rfl
    simp [← zero, scanned, placed, ended, some_]
  · simp [scanned, placed, ended, some_]

theorem Literal.IsDecimal.plain {l : Literal} (decimal : l.IsDecimal) : ∀ c ∈ l.digits, isDecimal c = true ∨ c = '.' := by
  intro c member
  rcases List.mem_append.mp member with member | member
  · exact .inl (decimal.whole c member)
  · cases parts : l.fraction with
    | none => simp [parts] at member
    | some f =>
      simp only [parts, Option.map_some, Option.getD_some, List.mem_cons] at member
      exact member.elim .inr fun member => .inl (decimal.fraction f parts c member)

/-- A literal without exponent and suffix has no other characters than digits, a point and a minus. -/
theorem Literal.IsDecimal.body {l : Literal} (decimal : l.IsDecimal) {c : Char} (member : c ∈ l.body) :
    isDecimal c = true ∨ c = '.' ∨ c = '-' := by
  unfold Literal.body at member
  split at member
  · rcases List.mem_cons.mp member with rfl | member
    · exact .inr (.inr rfl)
    · exact (decimal.plain c member).imp_right .inl
  · exact (decimal.plain c member).imp_right .inl

/-- The mantissa of a literal is made of all its digits. -/
theorem mantissa?_literal {l : Literal} (decimal : l.IsDecimal) (some_ : l.hasDigits = true) :
    mantissa? true l.digits = some
      { base := 10, value := decimalValue (l.whole ++ l.after), fraction := l.after.length, rest := [] } := by
  have counted : l.whole.length + l.after.length ≠ 0 := by
    cases parts : l.fraction with
    | none => simpa [Literal.hasDigits, Literal.after, parts] using some_
    | some f =>
      simp only [Literal.hasDigits, parts, Bool.or_eq_true, Bool.not_eq_true', List.isEmpty_eq_false_iff] at some_
      simp only [Literal.after, parts, Option.getD_some, ne_eq, Nat.add_eq_zero_iff, List.length_eq_zero_iff]
      tauto
  rw [mantissa?_of_scan decimal.plain (scanDigits_literal decimal _)]
  · cases parts : l.fraction <;>
      simp [Literal.after, parts, Scan.pass, Scan.passPoint, decimalValue, List.foldl_append]
  · cases parts : l.fraction <;> simp [Scan.pass, Scan.passPoint]
    split <;> simp
  · cases parts : l.fraction <;> simp [Scan.pass, Scan.passPoint] <;> split <;> simp
  · cases parts : l.fraction <;> simpa [Literal.after, parts, Scan.pass, Scan.passPoint] using counted

theorem pow_neg (base n : Nat) : pow base (-(n : Int)) = 1 / (base : Rat) ^ n := by
  cases n with
  | zero => simp [pow]
  | succ n =>
    have negative : (-((n + 1 : Nat) : Int)) = .negSucc n := rfl
    rw [negative, pow, Nat.pow_eq, Nat.cast_pow]

/-- The number that the digits of a literal denote, its sign before them. -/
def Literal.value (l : Literal) : Rat :=
  signed l.negative (decimalValue (l.whole ++ l.after) / 10 ^ l.after.length)

theorem splitSign_body {l : Literal} (decimal : l.IsDecimal) : splitSign l.body = (l.negative, l.digits) := by
  cases negative : l.negative with
  | true => simp [Literal.body, negative, splitSign]
  | false =>
    have unsigned : ∀ c ∈ l.digits, c ≠ '+' ∧ c ≠ '-' := by
      intro c member
      constructor <;> rintro rfl <;> simpa [Number.isDecimal] using decimal.plain _ member
    cases parts : l.digits with
    | nil => simp [Literal.body, negative, splitSign, parts]
    | cons c rest =>
      have first := unsigned c (by simp [parts])
      simp [Literal.body, negative, splitSign, parts, first]

/-- A literal without exponent and suffix is read as its value if that is zero or has not too many digits after the
point, and is refused otherwise. -/
theorem rational?_body {l : Literal} (decimal : l.IsDecimal) (some_ : l.hasDigits = true) :
    rational? (String.ofList l.body) =
      if l.value = 0 ∨ l.after.length ≤ maxPlaces then some l.value else none := by
  have whole : '/' ∉ l.body := by
    have inside : '/' ∉ l.digits := fun member => by simpa [Number.isDecimal] using decimal.plain _ member
    unfold Literal.body
    split <;> simp [inside]
  have scaled : scaling { base := 10, value := decimalValue (l.whole ++ l.after), fraction := l.after.length, rest := [] }
      10 0 = (-(l.after.length : Int), -(l.after.length : Int)) := by simp [scaling]
  have zero_iff : l.value = 0 ↔ decimalValue (l.whole ++ l.after) = 0 := by
    unfold Literal.value signed
    split <;> simp
  rw [rational?, String.toList_ofList, Text.splitFirst?_of_notMem whole]
  simp only [splitSign_body decimal, mantissa?_literal decimal some_, exponent?, scaled]
  by_cases zero : decimalValue (l.whole ++ l.after) = 0
  · simp [zero, zero_iff.mpr zero]
  · have value : l.value = signed l.negative
        ((decimalValue (l.whole ++ l.after) : Rat) * pow 5 (-l.after.length) * pow 2 (-l.after.length)) := by
      rw [Literal.value, pow_neg, pow_neg, mul_assoc, one_div_mul_one_div, ← mul_pow, mul_one_div]
      norm_num
    by_cases short : l.after.length ≤ maxPlaces
    · have fits : ¬1000000 < l.after.length ∧ ¬10000000 < l.after.length := by unfold maxPlaces at short; omega
      simp [zero, short, fits, value]
    · have long : 1000000 < l.after.length := by unfold maxPlaces at short; omega
      simp [zero, zero_iff, short, long]

/-- A text without an exponent that writes a numeric constant is a literal written out, with a mark of its type or none. -/
theorem exists_literal {t : String} (typed : (literalType? t).isSome) (plain : 'e' ∉ t.toList ∧ 'E' ∉ t.toList) :
    ∃ l : Literal, l.IsDecimal ∧ l.hasDigits = true ∧ t.toList = l.body ++ l.suffix.toList ∧
      ∀ c ∈ l.suffix, c ∈ ['F', 'D', 'L'] := by
  obtain ⟨type, typed⟩ := Option.isSome_iff_exists.mp typed
  obtain ⟨l, read, typed⟩ := Option.bind_eq_some_iff.mp typed
  obtain ⟨written, decimal⟩ := Literal.read?_unscaled (Literal.unscaled_of_plain plain read) read
  have digits : l.hasDigits = true := by
    by_contra none
    simp [Literal.type?, none] at typed
  refine ⟨l, decimal, digits, written, fun c suffix => ?_⟩
  simp only [Literal.type?, digits, Option.mem_def.mp suffix, Bool.not_true, Bool.false_eq_true, ↓reduceIte] at typed
  split at typed <;> simp_all

section

variable {l : Literal} (decimal : l.IsDecimal) (marked : ∀ c ∈ l.suffix, c ∈ ['F', 'D', 'L'])

include marked in
theorem suffix_plain : ∀ c ∈ l.suffix.toList, isDecimal c = false ∧ c ≠ '.' ∧ c ≠ '-' := by
  intro c member
  have mark := marked c (Option.mem_toList.mp member)
  simp only [List.mem_cons, List.not_mem_nil, or_false] at mark
  rcases mark with rfl | rfl | rfl <;> decide

include decimal marked

theorem filter_written : (l.body ++ l.suffix.toList).filter isDecimal = l.whole ++ l.after := by
  have whole : l.whole.filter isDecimal = l.whole := List.filter_eq_self.mpr decimal.whole
  have after : l.after.filter isDecimal = l.after := List.filter_eq_self.mpr decimal.after
  have suffix : l.suffix.toList.filter isDecimal = [] :=
    List.filter_eq_nil_iff.mpr fun c member => by simp [(suffix_plain marked c member).1]
  have minus : isDecimal '-' = false := by decide
  have point : isDecimal '.' = false := by decide
  have digits : l.digits.filter isDecimal = l.whole ++ l.after := by
    cases parts : l.fraction with
    | none => simp [Literal.digits, Literal.after, parts, whole]
    | some f =>
      simp only [Literal.after, parts, Option.getD_some] at after
      simp [Literal.digits, Literal.after, parts, whole, after, point]
  rw [List.filter_append, suffix, List.append_nil, Literal.body]
  split <;> simp [digits, minus]

/-- The digits after the point of the text of a literal are those of the literal. -/
theorem places_written : places (l.body ++ l.suffix.toList) = l.after.length := by
  have pointless : ∀ c ∈ (if l.negative then ['-'] else []) ++ l.whole, (c != '.') = true := by
    intro c member
    rcases List.mem_append.mp member with member | member
    · split at member <;> simp_all
    · simpa using fun here : c = '.' => by simpa [here, isDecimal] using decimal.whole c member
  have body : l.body = ((if l.negative then ['-'] else []) ++ l.whole) ++ (l.fraction.map ('.' :: ·)).getD [] := by
    unfold Literal.body Literal.digits
    split <;> simp
  have suffix := suffix_plain marked
  have undigited : l.suffix.toList.filter isDecimal = [] :=
    List.filter_eq_nil_iff.mpr fun c member => by simp [(suffix c member).1]
  rw [places, body, List.append_assoc, List.dropWhile_append_of_pos pointless]
  cases parts : l.fraction with
  | none =>
    have passed : l.suffix.toList.dropWhile (· != '.') = [] := by simpa using fun c member => (suffix c member).2.1
    simp [Literal.after, parts, passed]
  | some f =>
    have digits : f.filter isDecimal = f := List.filter_eq_self.mpr (decimal.fraction f parts)
    have point : isDecimal '.' = false := by decide
    simp [Literal.after, parts, digits, undigited, point]

theorem minus_mem_written : '-' ∈ l.body ++ l.suffix.toList ↔ l.negative = true := by
  have digits : '-' ∉ l.digits := fun member => by simpa [isDecimal] using decimal.plain _ member
  have suffix : '-' ∉ l.suffix.toList := fun member => (suffix_plain marked _ member).2.2 rfl
  unfold Literal.body
  split <;> simp_all

/-- The number that the text of a literal denotes is the value of the literal. -/
theorem decimal_written : Number.decimal (l.body ++ l.suffix.toList) = l.value := by
  simp only [Number.decimal, Literal.value, signed, filter_written decimal marked, places_written decimal marked,
    minus_mem_written decimal marked]

end

end Number

end MisuseSlice
