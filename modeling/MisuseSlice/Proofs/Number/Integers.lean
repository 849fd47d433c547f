import Mathlib
import MisuseSlice.Number.Integer
import MisuseSlice.Proofs.Body.Names
import MisuseSlice.Proofs.Text.Cutting
import MisuseSlice.Text.Blank

/-! Reading integers. With a base from 2 to 36 the reader accepts a sign and digits of the base, and gives the number that
they denote if it fits. What is a digit is told by a table; tables differ only in characters beyond the first 128. -/
namespace MisuseSlice.Number

/-- Which characters are digits, and their values. The letters follow on the decimal digits, and white space is no digit. -/
structure DigitTable where
  value : Char → Option Nat
  basic : ∀ c, c.toNat < 128 → value c = digit? c
  blank : ∀ c, Text.isBlank c = true → value c = none

theorem basic_of_digit? {c : Char} {d : Nat} (digit : digit? c = some d) : c.toNat < 128 := by
  unfold digit? at digit
  split at digit
  · rename_i range
    exact Nat.lt_of_le_of_lt range.2 (by decide)
  split at digit
  · rename_i range
    exact Nat.lt_of_le_of_lt range.2 (by decide)
  split at digit
  · rename_i range
    exact Nat.lt_of_le_of_lt range.2 (by decide)
  · cases digit

theorem digit?_of_isBlank {c : Char} (blank : Text.isBlank c = true) : digit? c = none := by
  have ranges : ∀ a b : Char, a ≤ c ∧ c ≤ b ↔ a.toNat ≤ c.toNat ∧ c.toNat ≤ b.toNat := fun a b => Iff.rfl
  simp only [Text.isBlank, Bool.or_eq_true, Bool.and_eq_true, decide_eq_true_eq, beq_iff_eq] at blank
  simp only [digit?, ranges, Char.reduceToNat]
  rw [if_neg (by omega), if_neg (by omega), if_neg (by omega)]

namespace DigitTable

/-- The table without digits beyond the first 128 characters. -/
def plain : DigitTable := ⟨digit?, fun _ _ => rfl, fun _ => digit?_of_isBlank⟩

/-- All characters are digits of the base, and denote the number, the first one counting most. -/
structure Counts (t : DigitTable) (base : Nat) (cs : List Char) (n : Nat) : Prop where
  digits : ∀ c ∈ cs, ∃ d < base, t.value c = some d
  value : n = Nat.ofDigits base (cs.reverse.map fun c => (t.value c).getD 0)

/-- The text is an optional sign with at least one digit of the base behind it, and denotes the number. -/
def Denotes (t : DigitTable) (base : Nat) (cs : List Char) (n : Int) : Prop :=
  ∃ sign digits, ∃ m : Nat, cs = sign ++ digits ∧ digits ≠ [] ∧ t.Counts base digits m ∧
    (sign = ['-'] ∧ n = -m ∨ (sign = [] ∨ sign = ['+']) ∧ n = m)

/-- The text denotes a number of 32 bits in a base from 2 to 36. -/
def Parses (t : DigitTable) (base : Int) (cs : List Char) (n : Int) : Prop :=
  2 ≤ base ∧ base ≤ 36 ∧ t.Denotes base.toNat cs n ∧ -2 ^ 31 ≤ n ∧ n < 2 ^ 31

variable {t : DigitTable} {base : Nat} {cs : List Char} {n : Int}

/-- A text that denotes a number has no characters but signs and digits. -/
theorem Denotes.mem (denotes : t.Denotes base cs n) {c : Char} (member : c ∈ cs) :
    c = '-' ∨ c = '+' ∨ ∃ d, t.value c = some d := by
  obtain ⟨sign, digits, m, rfl, -, counts, signed⟩ := denotes
  rcases List.mem_append.mp member with member | member
  · rcases signed with ⟨rfl, -⟩ | ⟨rfl | rfl, -⟩ <;> simp_all
  · obtain ⟨d, -, value⟩ := counts.digits c member
    exact .inr (.inr ⟨d, value⟩)

/-- A text that denotes a number has no white space. -/
theorem Denotes.trimmed (denotes : t.Denotes base cs n) : Text.trimWhere Text.isBlank cs = cs := by
  have unblank : ∀ c ∈ cs, Text.isBlank c = false := by
    intro c member
    rw [Bool.eq_false_iff]
    intro blank
    rcases denotes.mem member with rfl | rfl | ⟨d, value⟩
    · exact absurd blank (by decide)
    · exact absurd blank (by decide)
    · rw [t.blank c blank] at value
      cases value
  exact Text.trimWhere_of_ends (fun c first => unblank c (List.mem_of_mem_head? first))
    fun c last => unblank c (List.mem_of_getLast? last)

theorem Denotes.basic (denotes : plain.Denotes base cs n) : ∀ c ∈ cs, c.toNat < 128 := by
  intro c member
  rcases denotes.mem member with rfl | rfl | ⟨d, value⟩
  · decide
  · decide
  · exact basic_of_digit? value

/-- All tables read a text of the first 128 characters in the same way. -/
theorem denotes_iff_plain (basic : ∀ c ∈ cs, c.toNat < 128) : t.Denotes base cs n ↔ plain.Denotes base cs n := by
  have counts : ∀ sign digits m, cs = sign ++ digits → (t.Counts base digits m ↔ plain.Counts base digits m) := by
    intro sign digits m parts
    have same : ∀ c ∈ digits, t.value c = plain.value c := fun c member => t.basic c (basic c (by simp [parts, member]))
    have values : digits.reverse.map (fun c => (t.value c).getD 0) = digits.reverse.map fun c => (plain.value c).getD 0 :=
      List.map_congr_left fun c member => by rw [same c (List.mem_reverse.mp member)]
    constructor
    · rintro ⟨known, value⟩
      exact ⟨fun c member => by simpa only [← same c member] using known c member, by rw [← values, value]⟩
    · rintro ⟨known, value⟩
      exact ⟨fun c member => by simpa only [same c member] using known c member, by rw [values, value]⟩
  constructor
  · rintro ⟨sign, digits, m, parts, some_, counted, signed⟩
    exact ⟨sign, digits, m, parts, some_, (counts _ _ _ parts).mp counted, signed⟩
  · rintro ⟨sign, digits, m, parts, some_, counted, signed⟩
    exact ⟨sign, digits, m, parts, some_, (counts _ _ _ parts).mpr counted, signed⟩

theorem Counts.unique {digits : List Char} {m m' : Nat} (counts : t.Counts base digits m) (other : t.Counts base digits m') :
    m = m' := counts.value.trans other.value.symm

/-- A sign is no digit. -/
theorem Counts.notMem {digits : List Char} {m : Nat} (counts : t.Counts base digits m) :
    '+' ∉ digits ∧ '-' ∉ digits := by
  have signs : t.value '+' = none ∧ t.value '-' = none := by
    rw [t.basic _ (by decide), t.basic _ (by decide)]
    decide
  constructor
  · intro member
    obtain ⟨d, -, value⟩ := counts.digits _ member
    simp [signs.1] at value
  · intro member
    obtain ⟨d, -, value⟩ := counts.digits _ member
    simp [signs.2] at value

theorem denotes_minus {rest : List Char} :
    t.Denotes base ('-' :: rest) n ↔ rest ≠ [] ∧ ∃ m : Nat, t.Counts base rest m ∧ n = -m := by
  constructor
  · rintro ⟨sign, digits, m, parts, some_, counts, ⟨rfl, value⟩ | ⟨rfl | rfl, value⟩⟩
    · obtain rfl := (List.cons.inj parts).2
      exact ⟨some_, m, counts, value⟩
    · obtain rfl : digits = '-' :: rest := parts.symm
      exact absurd List.mem_cons_self counts.notMem.2
    · exact absurd (List.cons.inj parts).1 (by decide)
  · rintro ⟨some_, m, counts, value⟩
    exact ⟨['-'], rest, m, rfl, some_, counts, .inl ⟨rfl, value⟩⟩

theorem denotes_plus {rest : List Char} :
    t.Denotes base ('+' :: rest) n ↔ rest ≠ [] ∧ ∃ m : Nat, t.Counts base rest m ∧ n = m := by
  constructor
  · rintro ⟨sign, digits, m, parts, some_, counts, ⟨rfl, value⟩ | ⟨rfl | rfl, value⟩⟩
    · exact absurd (List.cons.inj parts).1 (by decide)
    · obtain rfl : digits = '+' :: rest := parts.symm
      exact absurd List.mem_cons_self counts.notMem.1
    · obtain rfl := (List.cons.inj parts).2
      exact ⟨some_, m, counts, value⟩
  · rintro ⟨some_, m, counts, value⟩
    exact ⟨['+'], rest, m, rfl, some_, counts, .inr ⟨.inr rfl, value⟩⟩

theorem denotes_unsigned (plus : ∀ rest, cs ≠ '+' :: rest) (minus : ∀ rest, cs ≠ '-' :: rest) :
    t.Denotes base cs n ↔ cs ≠ [] ∧ ∃ m : Nat, t.Counts base cs m ∧ n = m := by
  constructor
  · rintro ⟨sign, digits, m, rfl, some_, counts, ⟨rfl, value⟩ | ⟨rfl | rfl, value⟩⟩
    · exact absurd rfl (minus digits)
    · exact ⟨some_, m, counts, value⟩
    · exact absurd rfl (plus digits)
  · rintro ⟨some_, m, counts, value⟩
    exact ⟨[], cs, m, rfl, some_, counts, .inr ⟨.inl rfl, value⟩⟩

/-- A text starts with one of the signs or with none. -/
theorem sign_cases (cs : List Char) : (∃ rest, cs = '+' :: rest) ∨ (∃ rest, cs = '-' :: rest) ∨
    (∀ rest, cs ≠ '+' :: rest) ∧ ∀ rest, cs ≠ '-' :: rest := by
  by_cases plus : ∃ rest, cs = '+' :: rest
  · exact .inl plus
  by_cases minus : ∃ rest, cs = '-' :: rest
  · exact .inr (.inl minus)
  · exact .inr (.inr ⟨fun rest same => plus ⟨rest, same⟩, fun rest same => minus ⟨rest, same⟩⟩)

/-- A text denotes no more than one number. -/
theorem Denotes.unique {n' : Int} (denotes : t.Denotes base cs n) (other : t.Denotes base cs n') : n = n' := by
  rcases sign_cases cs with ⟨rest, rfl⟩ | ⟨rest, rfl⟩ | ⟨plus, minus⟩
  · obtain ⟨-, m, counts, rfl⟩ := denotes_plus.mp denotes
    obtain ⟨-, m', counts', rfl⟩ := denotes_plus.mp other
    rw [counts.unique counts']
  · obtain ⟨-, m, counts, rfl⟩ := denotes_minus.mp denotes
    obtain ⟨-, m', counts', rfl⟩ := denotes_minus.mp other
    rw [counts.unique counts']
  · obtain ⟨-, m, counts, rfl⟩ := (denotes_unsigned plus minus).mp denotes
    obtain ⟨-, m', counts', rfl⟩ := (denotes_unsigned plus minus).mp other
    rw [counts.unique counts']

end DigitTable

open DigitTable

/-- Digits are read as the number that they denote, and nothing else is read. -/
theorem digitsValue?_eq_some_iff {base : Nat} {cs : List Char} {n : Nat} :
    digitsValue? base cs = some n ↔ plain.Counts base cs n := by
  let digit (c : Char) : Nat := (digit? c).getD 0
  -- what was read before counts with the power of the base that the rest leaves it
  have fold : ∀ f : Option Nat → Char → Option Nat, (∀ c, f none c = none) →
      (∀ k c d, digit? c = some d → d < base → f (some k) c = some (k * base + d)) →
      (∀ k c, (¬∃ d < base, digit? c = some d) → f (some k) c = none) →
      ∀ k, cs.foldl f (some k) = some n ↔ (∀ c ∈ cs, ∃ d < base, digit? c = some d) ∧
        n = Nat.ofDigits base (cs.reverse.map digit) + base ^ cs.length * k := by
    intro f stays reads refuses
    have lost : ∀ cs : List Char, cs.foldl f none = none := fun cs => List.foldl_fixed' stays cs
    induction cs with
    | nil => simp [eq_comm]
    | cons c rest ih =>
      intro k
      rw [List.foldl_cons]
      by_cases known : ∃ d < base, digit? c = some d
      · obtain ⟨d, small, value⟩ := known
        have here : digit c = d := by simp [digit, value]
        have total : ∀ m : Nat, m + base ^ rest.length * (k * base + d) =
            m + base ^ rest.length * d + base ^ (rest.length + 1) * k := fun m => by ring
        rw [reads k c d value small, ih]
        simp [Nat.ofDigits_append, here, total, value, small]
      · rw [refuses k c known, lost]
        simp only [List.forall_mem_cons, known, false_and, reduceCtorEq]
  refine (fold _ (fun c => rfl) (fun k c d value small => ?_) (fun k c unknown => ?_) 0).trans ?_
  · simp [value, small]
  · cases value : digit? c with
    | none => rfl
    | some d =>
      have large : ¬d < base := fun small => unknown ⟨d, small, value⟩
      simp [large]
  · rw [Nat.mul_zero, Nat.add_zero]
    exact ⟨fun ⟨digits, value⟩ => ⟨digits, value⟩, fun ⟨digits, value⟩ => ⟨digits, value⟩⟩

section

variable {base : Int} {bits : Nat} {cs digits : List Char} {m : Nat} {n : Int} (low : 2 ≤ base) (high : base ≤ 36)

include low high

theorem natural_eq_ok_iff : natural base digits = .ok m ↔ digits ≠ [] ∧ plain.Counts base.toNat digits m := by
  have based : ¬base = 0 ∧ ¬(base < 2 ∨ 36 < base) := by omega
  rw [← digitsValue?_eq_some_iff, natural]
  simp only [based, List.isEmpty_iff, ↓reduceIte]
  by_cases empty : digits = []
  · simp [empty]
  · cases value : digitsValue? base.toNat digits <;> simp [empty]

/-- Where the test on the digits is that their number fits with its sign, the reader gives that number if it fits. -/
theorem fitted_eq_ok_iff (sign : Nat → Int) (fits : Nat → Prop) [DecidablePred fits] (limit : Nat)
    (within : ∀ m, fits m ↔ -limit ≤ sign m ∧ sign m < limit) :
    ((natural base digits).bind fun m => if fits m then .ok (sign m) else .error .outOfRange) = .ok n ↔
      (digits ≠ [] ∧ ∃ m, plain.Counts base.toNat digits m ∧ n = sign m) ∧ -limit ≤ n ∧ n < limit := by
  have fitted : ∀ m, (if fits m then Except.ok (sign m) else .error IntegerError.outOfRange) = .ok n ↔
      fits m ∧ n = sign m := by
    intro m
    by_cases fit : fits m <;> simp [fit, eq_comm]
  constructor
  · intro read
    cases value : natural base digits with
    | error e =>
      rw [value] at read
      cases read
    | ok m =>
      rw [value] at read
      obtain ⟨some_, counts⟩ := (natural_eq_ok_iff low high).mp value
      obtain ⟨inside, rfl⟩ := (fitted m).mp read
      exact ⟨⟨some_, m, counts, rfl⟩, (within m).mp inside⟩
  · rintro ⟨⟨some_, m, counts, rfl⟩, range⟩
    rw [(natural_eq_ok_iff low high).mpr ⟨some_, counts⟩]
    exact (fitted m).mpr ⟨(within m).mpr range, rfl⟩

/-- With a base from 2 to 36 the reader accepts the texts that denote a number, if it fits. -/
theorem integer_eq_ok_iff : integer base bits cs = .ok n ↔
    plain.Denotes base.toNat cs n ∧ -2 ^ (bits - 1) ≤ n ∧ n < 2 ^ (bits - 1) := by
  let limit : Nat := Nat.pow 2 (bits - 1)
  have power : (2 : Int) ^ (bits - 1) = limit := by simp [limit]
  have positive : 0 < limit := Nat.pow_pos (by decide)
  rw [power]
  rcases sign_cases cs with ⟨rest, rfl⟩ | ⟨rest, rfl⟩ | ⟨plus, minus⟩
  · have read : integer base bits ('+' :: rest) =
        (natural base rest).bind fun m => if m < limit then .ok (m : Int) else .error .outOfRange := by
      cases value : natural base rest <;> simp [integer, value, limit, Except.bind]
    rw [denotes_plus, read]
    exact fitted_eq_ok_iff low high (·) (· < limit) limit fun m => by omega
  · have read : integer base bits ('-' :: rest) =
        (natural base rest).bind fun m => if m ≤ limit then .ok (-(m : Int)) else .error .outOfRange := by
      cases value : natural base rest <;> simp [integer, value, limit, Except.bind]
    rw [denotes_minus, read]
    exact fitted_eq_ok_iff low high (-·) (· ≤ limit) limit fun m => by omega
  · have read : integer base bits cs =
        (natural base cs).bind fun m => if m < limit then .ok (m : Int) else .error .outOfRange := by
      cases cs with
      | nil => rfl
      | cons c rest => cases value : natural base (c :: rest) <;> simp [integer, value, limit, Except.bind]
    rw [denotes_unsigned plus minus, read]
    exact fitted_eq_ok_iff low high (·) (· < limit) limit fun m => by omega

end

/-- With another base than these, and without a mark of a base, nothing is read. -/
theorem integer_ne_ok {base : Int} {bits : Nat} {cs : List Char} (marked : base ≠ 0) (other : ¬(2 ≤ base ∧ base ≤ 36))
    (n : Int) : integer base bits cs ≠ .ok n := by
  have refused : ∀ digits m, natural base digits ≠ .ok m := by
    intro digits m
    have outside : base < 2 ∨ 36 < base := by omega
    simp only [natural, marked, outside, ↓reduceIte]
    split <;> simp
  unfold integer
  dsimp only
  split
  · simp
  · rename_i m read
    exact absurd read (refused _ m)

end MisuseSlice.Number
