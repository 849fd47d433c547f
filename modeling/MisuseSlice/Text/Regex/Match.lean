import MisuseSlice.Text.Regex.Basic

/-!
Matching. The sets of an expression carry marks: one is marked when a match can have read its last character
there. Reading a character moves the marks, so the work for each character is bounded by the size of the
expression, whatever the number of ways to match.
-/
namespace MisuseSlice.Text

/-- An expression with marks on its sets. -/
inductive Marked where
  | empty
  | edge (e : Edge)
  | set (s : CharSet) (marked : Bool)
  | seq (r s : Marked)
  | alt (r s : Marked)
  | star (r : Marked)

namespace Marked

/-- The expression `n` times in a row. -/
def power (m : Marked) (n : Nat) : Marked :=
  if n = 0 then empty
  else if n = 1 then m
  else seq (power m (n / 2)) (power m (n - n / 2))
termination_by n
decreasing_by all_goals omega

/-- The expression without marks. -/
def ofRegex : Regex → Marked
  | .empty => empty
  | .edge e => edge e
  | .char fold n => set (.single fold n) false
  | .set s => set s false
  | .seq r s => seq (ofRegex r) (ofRegex s)
  | .alt r s => alt (ofRegex r) (ofRegex s)
  | .group r => ofRegex r
  | .times r low high =>
    let m := ofRegex r
    seq (power m low)
      (match high with
        | some h => power (alt empty m) (h - low)
        | none => star m)

/-- Matches the empty text between the given neighbours. -/
def nullable (before after : Option Char) : Marked → Bool
  | empty => true
  | edge e => e.holds before after
  | set _ _ => false
  | seq r s => nullable before after r && nullable before after s
  | alt r s => nullable before after r || nullable before after s
  | star _ => true

/-- A match that has begun can end between the given neighbours. -/
def final (before after : Option Char) : Marked → Bool
  | empty => false
  | edge _ => false
  | set _ marked => marked
  | seq r s => final before after s || (final before after r && nullable before after s)
  | alt r s => final before after r || final before after s
  | star r => final before after r

/-- The marks after reading `c`, whose variants in case are given. A match can enter the expression where
`enter`. -/
def advance (before : Option Char) (c : Char) (variants : List Nat) (enter : Bool) : Marked → Marked
  | empty => empty
  | edge e => edge e
  | set s marked =>
    if enter then set s (s.contains c.toNat variants)
    else if marked then set s false
    else set s marked
  | seq r s =>
    let through := final before (some c) r || (enter && nullable before (some c) r)
    seq (advance before c variants enter r) (advance before c variants through s)
  | alt r s => alt (advance before c variants enter r) (advance before c variants enter s)
  | star r => star (advance before c variants (enter || final before (some c) r) r)

/-- A match ends at this place or at a later one. -/
def findFrom : (before : Option Char) → Marked → List Char → Bool
  | before, m, [] => nullable before none m || final before none m
  | before, m, c :: cs =>
    nullable before (some c) m || final before (some c) m ||
      findFrom (some c) (advance before c (caseVariants c.toNat) true m) cs

end Marked

/-- Some part of the text matches. -/
def Regex.matchesIn (r : Regex) (s : String) : Bool :=
  Marked.findFrom none (.ofRegex r) s.toList

end MisuseSlice.Text
