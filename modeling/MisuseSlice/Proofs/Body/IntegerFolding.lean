import Mathlib
import MisuseSlice.Body.Folding
import MisuseSlice.Proofs.Number.Integers
import MisuseSlice.Proofs.Slicer.Ascents

/-! Folding of calls that give integers. An absolute value is computed without the limit of 32 bits, which only the least
number passes. Digits are read as the library methods read them, but for white space at the ends of a text, for marks of a
base where the radix is zero, and for digits beyond the first 128 characters. -/
namespace MisuseSlice

open Number

/-- The value is an integer constant that denotes the number. -/
def Value.IsInt (v : Value) (n : Int) : Prop :=
  v.kind = .intConst ∧ '+' ∉ v.text.toList ∧ DigitTable.plain.Denotes 10 v.text.toList n

namespace Number

theorem isDecimal_iff_digit? {c : Char} : isDecimal c = true ↔ ∃ d < 10, digit? c = some d := by
  rw [isDecimal_iff]
  have ranges : ∀ a b : Char, a ≤ c ∧ c ≤ b ↔ a.toNat ≤ c.toNat ∧ c.toNat ≤ b.toNat := fun a b => Iff.rfl
  simp only [digit?, ranges, Char.reduceToNat]
  constructor
  · intro range
    exact ⟨c.toNat - 48, by omega, if_pos range⟩
  · rintro ⟨d, small, value⟩
    split at value
    · assumption
    split at value
    · cases value
      omega
    split at value
    · cases value
      omega
    · cases value

/-- A text without a plus that denotes a number in decimal is made of a minus or nothing and decimal digits. -/
theorem DigitTable.Denotes.parts {cs : List Char} {n : Int} (denotes : plain.Denotes 10 cs n) (unsigned : '+' ∉ cs) :
    ∃ (negative : Bool) (digits : List Char) (m : Nat), cs = (if negative then '-' :: digits else digits) ∧ digits ≠ [] ∧
      (∀ c ∈ digits, isDecimal c = true) ∧ plain.Counts 10 digits m ∧ n = if negative then -(m : Int) else m := by
  obtain ⟨sign, digits, m, rfl, some_, counts, signed⟩ := denotes
  have decimal : ∀ c ∈ digits, isDecimal c = true := fun c member => isDecimal_iff_digit?.mpr (counts.digits c member)
  rcases signed with ⟨rfl, rfl⟩ | ⟨rfl | rfl, rfl⟩
  · exact ⟨true, digits, m, rfl, some_, decimal, counts, rfl⟩
  · exact ⟨false, digits, m, rfl, some_, decimal, counts, rfl⟩
  · exact absurd (List.mem_append_left digits List.mem_cons_self) unsigned

/-- The printed form of an integer denotes it. -/
theorem denotes_ofInt (n : Int) : DigitTable.plain.Denotes 10 (Text.ofInt n).toList n := by
  have decimal : ∀ c ∈ Nat.toDigits 10 n.natAbs, isDecimal c = true := fun c => isDecimal_toDigits
  have counts : DigitTable.plain.Counts 10 (Nat.toDigits 10 n.natAbs) n.natAbs := by
    rw [← digitsValue?_eq_some_iff, digitsValue?_decimal decimal, Nat.ofDigitChars_ten_toDigits]
  have some_ : Nat.toDigits 10 n.natAbs ≠ [] := Nat.toDigits_ne_nil
  rw [Text.toList_ofInt]
  split
  · exact ⟨['-'], _, _, rfl, some_, counts, .inl ⟨rfl, by omega⟩⟩
  · exact ⟨[], _, _, rfl, some_, counts, .inr ⟨.inl rfl, by omega⟩⟩

theorem plus_not_mem_ofInt (n : Int) : '+' ∉ (Text.ofInt n).toList := by
  have digits : '+' ∉ Nat.toDigits 10 n.natAbs := fun member => by
    have decimal := isDecimal_toDigits member
    simp [isDecimal] at decimal
  rw [Text.toList_ofInt]
  split
  · exact fun member => (List.mem_cons.mp member).elim (by decide) digits
  · exact digits

end Number

namespace Value

/-- A text that denotes a number in decimal, and has no plus, is read as an integer constant. -/
theorem read_integer {t : String} {n : Int} (denotes : DigitTable.plain.Denotes 10 t.toList n) (unsigned : '+' ∉ t.toList) :
    read t = { kind := .intConst, text := t, type := "int" } := by
  have trimmed : Text.trim t = t := by rw [Text.trim, denotes.trimmed, String.ofList_toList]
  obtain ⟨negative, digits, m, parts, some_, decimal, -, -⟩ := denotes.parts unsigned
  obtain ⟨d, rest, rfl⟩ := List.exists_cons_of_ne_nil some_
  have first : ∃ c rest, t.toList = c :: rest ∧ (c = '-' ∨ isDecimal c = true) := by
    cases negative
    · exact ⟨d, rest, parts, .inr (decimal d List.mem_cons_self)⟩
    · exact ⟨'-', d :: rest, parts, .inl rfl⟩
  obtain ⟨c, others, start, mark⟩ := first
  have apart : ∀ e, e ≠ '-' → isDecimal e = false → e ≠ c := by
    rintro e other letter rfl
    rcases mark with rfl | digit
    · exact other rfl
    · simp [letter] at digit
  have filled : t ≠ "" := by
    rintro rfl
    cases start
  have named : t ≠ "null" := by
    rintro rfl
    exact apart 'n' (by decide) (by decide) (List.cons.inj start).1
  have string : Text.startsWith t "\"" = false :=
    Text.startsWith_eq_false start (apart '"' (by decide) (by decide)) []
  have class_ : Text.startsWith t "class \"" = false :=
    Text.startsWith_eq_false start (apart 'c' (by decide) (by decide)) "lass \"".toList
  have array : Text.startsWith t "\x7b" = false :=
    Text.startsWith_eq_false start (apart '\x7b' (by decide) (by decide)) []
  have typed : literalType? t = some .int := by
    have digit : d ≠ '-' := by
      rintro rfl
      exact absurd (decimal '-' List.mem_cons_self) (by decide)
    have split : splitMinus t.toList = (negative, d :: rest) := by
      cases negative <;> simp [parts, splitMinus, digit]
    have taken := List.takeWhile_eq_self_iff.mpr decimal
    have dropped := List.dropWhile_eq_nil_iff.mpr decimal
    simp [literalType?, Literal.read?, split, splitFraction, taken, dropped, Literal.type?, Literal.hasDigits]
  rw [read, trimmed, classify, if_neg filled, if_neg named, string, class_, array, typed]
  rfl

/-- The printed form of an integer is read as that integer. -/
theorem isInt_read_ofInt (n : Int) : (read (Text.ofInt n)).IsInt n := by
  rw [read_integer (denotes_ofInt n) (plus_not_mem_ofInt n)]
  exact ⟨rfl, plus_not_mem_ofInt n, denotes_ofInt n⟩

theorem IsInt.unique {v : Value} {m n : Int} (first : v.IsInt m) (second : v.IsInt n) : m = n :=
  first.2.2.unique second.2.2

/-- An integer constant has no suffix. -/
theorem IsInt.numericText {v : Value} {n : Int} (int : v.IsInt n) : v.numericText = v.text := by
  obtain ⟨negative, digits, m, parts, -, decimal, -, -⟩ := int.2.2.parts int.2.1
  have kept : ∀ c ∈ v.text.toList, "LFDlfd".toList.contains c = false := by
    intro c member
    have mark : c = '-' ∨ isDecimal c = true := by
      rw [parts] at member
      cases negative
      · exact .inr (decimal c member)
      · exact (List.mem_cons.mp member).imp_right (decimal c)
    rw [Bool.eq_false_iff]
    intro suffix
    have suffix : c ∈ ['L', 'F', 'D', 'l', 'f', 'd'] := List.contains_iff_mem.mp suffix
    simp only [List.mem_cons, List.not_mem_nil, or_false] at suffix
    rcases mark with rfl | digit
    · simp at suffix
    · rcases suffix with rfl | rfl | rfl | rfl | rfl | rfl <;> exact absurd digit (by decide)
  have none_ : ∀ c ∈ ([] : List Char), "LFDlfd".toList.contains c = true := by simp
  have whole := Text.dropEndWhile_append kept none_
  rw [List.append_nil] at whole
  rw [Value.numericText, withoutSuffix, whole, String.ofList_toList]

end Value

namespace Folder

/-- The absolute value of an integer constant is computed as that of an unbounded integer. -/
theorem absolute?_int {a : Value} {n : Int} (int : a.IsInt n) : ∃ v, absolute? [a] = some v ∧ v.IsInt |n| := by
  obtain ⟨negative, digits, m, parts, some_, decimal, counts, value⟩ := int.2.2.parts int.2.1
  have numeric : a.isNumeric = true := by simp [Value.isNumeric, int.1]
  have suffix : Text.stripFront a.text a.text = "" := by
    have whole : Text.dropFront? a.text.toList a.text.toList = some [] := Text.dropFront?_eq_some_iff.mpr (by simp)
    simp [Text.stripFront, whole]
  have unsigned : Text.stripFront a.text "-" = String.ofList digits := by
    cases negative with
    | true =>
      have front : Text.dropFront? ['-'] a.text.toList = some digits := Text.dropFront?_eq_some_iff.mpr parts
      simp [Text.stripFront, front]
    | false =>
      have written : a.text.toList = digits := parts
      have front : Text.dropFront? "-".toList digits = none := by
        rw [Option.eq_none_iff_forall_ne_some]
        rintro rest split
        exact counts.notMem.2 (by simp [Text.dropFront?_eq_some_iff.mp split])
      simp only [Text.stripFront, written, front]
      rw [← written, String.ofList_toList]
  have size : |n| = m := by
    cases negative
    · simp [value]
    · simp [value]
  have denotes : DigitTable.plain.Denotes 10 (String.ofList digits).toList m := by
    rw [String.toList_ofList]
    exact ⟨[], digits, m, rfl, some_, counts, .inr ⟨.inl rfl, rfl⟩⟩
  have plus : '+' ∉ (String.ofList digits).toList := by
    rw [String.toList_ofList]
    exact counts.notMem.1
  refine ⟨_, by rw [absolute?, if_pos numeric, int.numericText, suffix, unsigned, String.append_empty], ?_⟩
  rw [Value.read_integer denotes plus, size]
  exact ⟨rfl, plus, denotes⟩

/-- A string constant is read in the radix that is given, or in decimal, white space at its ends apart. -/
theorem integerOf?_text {a : Value} {args : List Value} {radix : Int} (string : a.kind = .stringConst)
    (given : args = [a] ∧ radix = 10 ∨ ∃ r : Value, args = [a, r] ∧ r.IsInt radix ∧ -2 ^ 31 ≤ radix ∧ radix < 2 ^ 31) :
    integerOf? args = (Number.integer radix 32 (Text.trim (Text.shown a.content)).toList).toOption.map fun n =>
      Value.read (Text.ofInt n) := by
  have text : (if a.kind == .stringConst then Text.trim (Text.shown a.content) else a.numericText) =
      Text.trim (Text.shown a.content) := if_pos (by simp [string])
  rcases given with ⟨rfl, rfl⟩ | ⟨r, rfl, int, low, high⟩
  · unfold integerOf?
    dsimp only
    rw [text]
    cases Number.integer 10 32 (Text.trim (Text.shown a.content)).toList <;> rfl
  · have radix_ : Number.integer 10 64 r.text.toList = .ok radix :=
      (Number.integer_eq_ok_iff (by decide) (by decide)).mpr ⟨int.2.2, by omega, by omega⟩
    unfold integerOf?
    dsimp only
    rw [text, radix_, if_pos (by simp [int.1])]
    cases Number.integer radix 32 (Text.trim (Text.shown a.content)).toList <;> rfl

end Folder

/-- Where the folded call and the library read a text otherwise: a zero radix takes the base from the text, white space at
the ends is dropped, and a digit beyond the first 128 characters is refused. -/
inductive Number.DigitTable.Differs (t : DigitTable) (radix : Int) (s : List Char) : Prop
  | marked {n : Int} (zero : radix = 0) (reads : integer 0 32 (Text.trimWhere Text.isBlank s) = .ok n)
  | spaced {n : Int} (around : Text.trimWhere Text.isBlank s ≠ s)
    (reads : plain.Parses radix (Text.trimWhere Text.isBlank s) n)
  | foreign {n : Int} {c : Char} (returns : t.Parses radix s n) (member : c ∈ s) (beyond : 128 ≤ c.toNat)

/-- Reading a text without the white space at its ends is reading it as the library does, unless the two differ on it. -/
theorem Number.integer_iff_parses (t : DigitTable) (radix : Int) (s : List Char) :
    (∀ m, integer radix 32 (Text.trimWhere Text.isBlank s) = .ok m ↔ t.Parses radix s m) ↔ ¬t.Differs radix s := by
  by_cases inside : 2 ≤ radix ∧ radix ≤ 36
  · obtain ⟨low, high⟩ := inside
    have reads : ∀ m, integer radix 32 (Text.trimWhere Text.isBlank s) = .ok m ↔
        DigitTable.plain.Parses radix (Text.trimWhere Text.isBlank s) m := fun m =>
      (integer_eq_ok_iff low high).trans ⟨fun denotes => ⟨low, high, denotes⟩, fun parses => parses.2.2⟩
    simp only [reads]
    constructor
    · intro same differs
      cases differs with
      | marked zero => omega
      | spaced around parses => exact around ((same _).mp parses).2.2.1.trimmed
      | foreign returns member beyond =>
        have parses := ((same _).mpr returns).2.2.1
        rw [returns.2.2.1.trimmed] at parses
        exact absurd (parses.basic _ member) (not_lt.mpr beyond)
    · intro agrees m
      constructor
      · intro parses
        have trimmed : Text.trimWhere Text.isBlank s = s := by
          by_contra around
          exact agrees (.spaced around parses)
        rw [trimmed] at parses
        exact ⟨low, high, (DigitTable.denotes_iff_plain parses.2.2.1.basic).mpr parses.2.2.1, parses.2.2.2⟩
      · intro returns
        have basic : ∀ c ∈ s, c.toNat < 128 := fun c member => by
          by_contra beyond
          exact agrees (.foreign returns member (not_lt.mp beyond))
        rw [returns.2.2.1.trimmed]
        exact ⟨low, high, (DigitTable.denotes_iff_plain basic).mp returns.2.2.1, returns.2.2.2⟩
  · have never : ∀ (t : DigitTable) s m, ¬t.Parses radix s m := fun t s m parses => inside ⟨parses.1, parses.2.1⟩
    by_cases zero : radix = 0
    · subst zero
      constructor
      · intro same differs
        cases differs with
        | marked _ reads => exact never _ _ _ ((same _).mp reads)
        | spaced _ parses => exact never _ _ _ parses
        | foreign returns => exact never _ _ _ returns
      · intro agrees m
        exact ⟨fun reads => absurd (.marked rfl reads) agrees, fun returns => absurd returns (never _ _ _)⟩
    · refine ⟨fun _ differs => ?_, fun _ m => ?_⟩
      · cases differs with
        | marked here => exact zero here
        | spaced _ parses => exact never _ _ _ parses
        | foreign returns => exact never _ _ _ returns
      · exact ⟨fun reads => absurd reads (integer_ne_ok zero inside m), fun returns => absurd returns (never _ _ _)⟩

namespace Folding

/-- A call is folded to the integer that the method returns, where it returns one, and is left as it is where it fails. -/
structure Computes (cs : Constants) (u : Statement) (returns : Int → Prop) : Prop where
  given : ∀ m, (∃ v : Value, v.IsInt m ∧ call? cs u = some (.assignConstant u.left v u.pos)) ↔ returns m
  refused : call? cs u = none ↔ ∀ m, ¬returns m

variable {cs : Constants} {u : Statement} {returns : Int → Prop}

/-- A static call on constants is folded as its arguments are. -/
theorem call?_static {f : Folder} {args : List Value} (static : u.base.isAbsent = true)
    (folder : Folder.find? u.signature = some f) (arguments : cs.resolveAll? u.args = some args) :
    call? cs u = (f.fold? Value.missing args).map fun v => .assignConstant u.left v u.pos := by
  simp [call?, folder, static, arguments]

/-- A call that is folded to an integer or not at all computes what gives the same integers. -/
theorem computes_iff {folded : Option Value} (integral : ∀ v ∈ folded, ∃ m, v.IsInt m)
    (call : call? cs u = folded.map fun v => .assignConstant u.left v u.pos) :
    Computes cs u returns ↔ ∀ m, (∃ v ∈ folded, v.IsInt m) ↔ returns m := by
  have given : ∀ m, (∃ v : Value, v.IsInt m ∧ call? cs u = some (.assignConstant u.left v u.pos)) ↔
      ∃ v ∈ folded, v.IsInt m := by
    intro m
    rw [call]
    constructor
    · rintro ⟨v, int, same⟩
      obtain ⟨v', here, same⟩ := Option.map_eq_some_iff.mp same
      have right : v' = v := by simpa [Statement.assignConstant] using same
      exact ⟨v, right ▸ here, int⟩
    · rintro ⟨v, here, int⟩
      exact ⟨v, int, Option.map_eq_some_iff.mpr ⟨v, here, rfl⟩⟩
  constructor
  · intro computes m
    rw [← given m, computes.given m]
  · intro same
    refine ⟨fun m => (given m).trans (same m), ?_⟩
    simp only [call, Option.map_eq_none_iff, ← same]
    constructor
    · rintro rfl m ⟨v, here, -⟩
      cases here
    · intro nothing
      by_contra some_
      obtain ⟨v, here⟩ := Option.ne_none_iff_exists'.mp some_
      obtain ⟨m, int⟩ := integral v here
      exact nothing m ⟨v, here, int⟩

theorem find?_abs (owner : u.calleeClass = "java.lang.Math") (name : u.calleeName = "abs") :
    Folder.find? u.signature = some .abs := by
  unfold Statement.calleeClass at owner
  unfold Statement.calleeName at name
  simp [Folder.find?, Folder.all, Folder.accepts, Folder.callee, owner, name]

/-- The methods that read an integer from a text are folded in the same way. -/
theorem find?_parse (owner : u.calleeClass = "java.lang.Integer") (name : u.calleeName ∈ ["parseInt", "valueOf"]) :
    ∃ f, Folder.find? u.signature = some f ∧ ∀ base args, f.fold? base args = Folder.integerOf? args := by
  unfold Statement.calleeClass at owner
  simp only [Statement.calleeName, List.mem_cons, List.not_mem_nil, or_false] at name
  rcases name with name | name
  · exact ⟨.parseInt, by simp [Folder.find?, Folder.all, Folder.accepts, Folder.callee, owner, name], fun _ _ => rfl⟩
  · exact ⟨.valueOf, by simp [Folder.find?, Folder.all, Folder.accepts, Folder.callee, owner, name], fun _ _ => rfl⟩

/-- The absolute value of a number of 32 bits is that of the number, but for the least one. -/
theorem toInt_abs {n : Int} (low : -2 ^ 31 ≤ n) (high : n < 2 ^ 31) : (Int32.ofInt n).abs.toInt = |n| ↔ n ≠ -2 ^ 31 := by
  have bits : (Int32.ofInt n).abs.toInt = (BitVec.ofInt 32 n).abs.toInt := rfl
  have number : (BitVec.ofInt 32 n).toInt = n := by
    rw [BitVec.toInt_ofInt, Int.bmod_eq_of_le] <;> omega
  rw [bits, BitVec.abs_eq, BitVec.msb_eq_toInt, number]
  by_cases negative : n < 0
  · simp only [negative, decide_true, ↓reduceIte, BitVec.toInt_neg, number, abs_of_neg]
    by_cases least : n = -2 ^ 31
    · subst least
      decide
    · rw [Int.bmod_eq_of_le (by omega) (by omega)]
      exact iff_of_true rfl least
  · simp only [negative, decide_false, Bool.false_eq_true, ↓reduceIte, number]
    rw [abs_of_nonneg (by omega)]
    simp only [true_iff]
    omega

/-- Folding computes what the library computes, but for what is named here. A call of the absolute value on a constant of 32
bits is folded to the absolute value of the number, which is that of two's complement for every number but the least. A
call that reads an integer from a text, in decimal or in the radix given, is folded exactly where the library returns a
number, and to that number, unless the two differ on the text. -/
theorem call?_integers (t : DigitTable) (static : u.base.isAbsent = true) :
    (u.calleeClass = "java.lang.Math" → u.calleeName = "abs" → ∀ a n, cs.resolveAll? u.args = some [a] → a.IsInt n →
      -2 ^ 31 ≤ n → n < 2 ^ 31 →
        Computes cs u (· = |n|) ∧ (Computes cs u (· = (Int32.ofInt n).abs.toInt) ↔ n ≠ -2 ^ 31)) ∧
    (u.calleeClass = "java.lang.Integer" → u.calleeName ∈ ["parseInt", "valueOf"] → ∀ a args radix,
      cs.resolveAll? u.args = some args → a.kind = .stringConst →
      (args = [a] ∧ radix = 10 ∨ ∃ r : Value, args = [a, r] ∧ r.IsInt radix ∧ -2 ^ 31 ≤ radix ∧ radix < 2 ^ 31) →
        (Computes cs u (t.Parses radix (Text.shown a.content).toList) ↔
          ¬t.Differs radix (Text.shown a.content).toList)) := by
  constructor
  · intro owner name a n arguments int low high
    obtain ⟨v, folded, size⟩ := Folder.absolute?_int int
    have call : call? cs u = (some v).map fun v => .assignConstant u.left v u.pos := by
      rw [call?_static static (find?_abs owner name) arguments, ← folded]
      rfl
    have gives : ∀ m, (∃ v' ∈ some v, v'.IsInt m) ↔ m = |n| := by
      intro m
      constructor
      · rintro ⟨_, ⟨⟩, int⟩
        exact int.unique size
      · rintro rfl
        exact ⟨v, rfl, size⟩
    have integral : ∀ v' ∈ some v, ∃ m, v'.IsInt m := by
      rintro _ ⟨⟩
      exact ⟨_, size⟩
    refine ⟨(computes_iff integral call).mpr gives, ?_⟩
    rw [computes_iff integral call, ← toInt_abs low high]
    simp only [gives]
    exact ⟨fun same => ((same _).mp rfl).symm, fun same m => by rw [same]⟩
  · intro owner name a args radix arguments string given
    obtain ⟨f, folder, folds⟩ := find?_parse owner name
    have call := call?_static static folder arguments
    rw [folds, Folder.integerOf?_text string given] at call
    have text : (Text.trim (Text.shown a.content)).toList = Text.trimWhere Text.isBlank (Text.shown a.content).toList := by
      rw [Text.trim, String.toList_ofList]
    rw [text] at call
    have integral : ∀ v ∈ ((integer radix 32 (Text.trimWhere Text.isBlank (Text.shown a.content).toList)).toOption.map
        fun n => Value.read (Text.ofInt n)), ∃ m, v.IsInt m := by
      intro v member
      obtain ⟨m, -, rfl⟩ := Option.map_eq_some_iff.mp member
      exact ⟨m, Value.isInt_read_ofInt m⟩
    rw [computes_iff integral call, ← integer_iff_parses t radix (Text.shown a.content).toList]
    refine forall_congr' fun m => iff_congr ?_ Iff.rfl
    have ok_ : ∀ (r : Except IntegerError Int) (m : Int), r.toOption = some m ↔ r = .ok m := by
      intro r m
      cases r <;> simp [Except.toOption]
    constructor
    · rintro ⟨v, member, int⟩
      obtain ⟨m', read, rfl⟩ := Option.map_eq_some_iff.mp member
      rw [← (Value.isInt_read_ofInt m').unique int, ← ok_, read]
    · intro read
      exact ⟨_, Option.map_eq_some_iff.mpr ⟨m, (ok_ _ _).mpr read, rfl⟩, Value.isInt_read_ofInt m⟩

/-- The value of a digit of the first 128 characters, or of an Arabic one. -/
private def arabicDigit? (c : Char) : Option Nat :=
  if 0x660 ≤ c.toNat ∧ c.toNat ≤ 0x669 then some (c.toNat - 0x660) else digit? c

private theorem arabicDigit?_basic (c : Char) (small : c.toNat < 128) : arabicDigit? c = digit? c := if_neg (by omega)

private theorem arabicDigit?_of_isBlank (c : Char) (blank : Text.isBlank c = true) : arabicDigit? c = none := by
  have range : ¬(0x660 ≤ c.toNat ∧ c.toNat ≤ 0x669) := by
    simp only [Text.isBlank, Bool.or_eq_true, Bool.and_eq_true, decide_eq_true_eq, beq_iff_eq] at blank
    omega
  rw [arabicDigit?, if_neg range, digit?_of_isBlank blank]

/-- The Arabic digits beside those of the first 128 characters. -/
private def arabicDigits : DigitTable := ⟨arabicDigit?, arabicDigit?_basic, arabicDigit?_of_isBlank⟩

/-- A static call on constants whose result is set. -/
private def integerCall (signature : String) (args : List String) : Statement := .callAssign "i0" "" signature args

/-- The absolute value of a constant is that of the library, and so is the number of a text in base 16. -/
theorem integerCalls_computed :
    Computes {} (integerCall "<java.lang.Math: int abs(int)>" ["-5"]) (· = (Int32.ofInt (-5)).abs.toInt) ∧
      Computes {} (integerCall "<java.lang.Integer: int parseInt(java.lang.String,int)>" ["\"fF\"", "16"])
        (arabicDigits.Parses 16 ['f', 'F']) := by
  have printed : "-5" = Text.ofInt (-5) ∧ "16" = Text.ofInt 16 := by decide +kernel
  have five : (Value.read "-5").IsInt (-5) := by
    rw [printed.1]
    exact Value.isInt_read_ofInt (-5)
  have radix : (Value.read "16").IsInt 16 := by
    rw [printed.2]
    exact Value.isInt_read_ofInt 16
  have content : (Text.shown (Value.read "\"fF\"").content).toList = ['f', 'F'] := by decide +kernel
  have agrees : ¬arabicDigits.Differs 16 ['f', 'F'] := by
    intro differs
    cases differs with
    | marked zero => exact absurd zero (by decide)
    | spaced around => exact around (by decide)
    | foreign _ member beyond =>
      simp only [List.mem_cons, List.not_mem_nil, or_false] at member
      rcases member with rfl | rfl <;> exact absurd beyond (by decide)
  constructor
  · have sizes := (@call?_integers {} (integerCall "<java.lang.Math: int abs(int)>" ["-5"]) arabicDigits
      (by decide +kernel)).1 (by decide +kernel) (by decide +kernel) (Value.read "-5") (-5) (by decide +kernel) five (by decide) (by decide)
    exact sizes.2.mpr (by decide)
  · have reads := (@call?_integers {}
      (integerCall "<java.lang.Integer: int parseInt(java.lang.String,int)>" ["\"fF\"", "16"]) arabicDigits
      (by decide +kernel)).2 (by decide +kernel) (by decide +kernel) (Value.read "\"fF\"")
      [Value.read "\"fF\"", Value.read "16"] 16 (by decide +kernel) (by decide +kernel)
      (.inr ⟨_, rfl, radix, by decide, by decide⟩)
    rw [content] at reads
    exact reads.mpr agrees

/-- The absolute value of the least number of 32 bits is folded to a number that does not fit. White space is dropped before
a number is read, and a zero radix takes the base from the text. -/
theorem integerCalls_folded_otherwise :
    ¬Computes {} (integerCall "<java.lang.Math: int abs(int)>" ["-2147483648"])
        (· = (Int32.ofInt (-2147483648)).abs.toInt) ∧
      call? {} (integerCall "<java.lang.Math: int abs(int)>" ["-2147483648"]) =
        some (.assignConstant (.read "i0") (.read "2147483648") 0) ∧
      call? {} (integerCall "<java.lang.Integer: int parseInt(java.lang.String)>" ["\" 5 \""]) =
        some (.assignConstant (.read "i0") (.read "5") 0) ∧
      call? {} (integerCall "<java.lang.Integer: int parseInt(java.lang.String,int)>" ["\"0x10\"", "0"]) =
        some (.assignConstant (.read "i0") (.read "16") 0) := by
  have call : call? {} (integerCall "<java.lang.Math: int abs(int)>" ["-2147483648"]) =
      some (.assignConstant (.read "i0") (.read "2147483648") 0) := by decide +kernel
  refine ⟨fun computes => ?_, call, by decide +kernel⟩
  obtain ⟨v, int, same⟩ := (computes.given _).mpr rfl
  rw [call] at same
  have printed : v = Value.read (Text.ofInt 2147483648) := by
    have text : "2147483648" = Text.ofInt 2147483648 := by decide +kernel
    rw [← text]
    have right : Value.read "2147483648" = v := congrArg Statement.right (Option.some.inj same)
    exact right.symm
  rw [printed] at int
  exact absurd ((Value.isInt_read_ofInt 2147483648).unique int) (by decide +kernel)

end Folding

end MisuseSlice
