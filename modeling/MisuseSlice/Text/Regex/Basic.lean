import MisuseSlice.Text.Casing
import MisuseSlice.Text.Category
import MisuseSlice.Text.Script

/-!
Regular expressions. An expression may ask about the characters around a place (start, end, word edges). The
sets of characters in it speak of code points, since an expression may also name one that no text can hold.
Expressions that nest too deeply or stand for too long a text are not accepted.
-/
namespace MisuseSlice.Text

/-- What a part of a set asks of a code point. -/
inductive Property where
  | range (first last : Nat)
  | category (name : String)
  | script (name : String)
  deriving DecidableEq, Repr

/-- The code point has the property. -/
def Property.holds (n : Nat) : Property → Bool
  | range first last => first ≤ n && n ≤ last
  | category name => inCategory name n
  | script name => inScript name n

/-- A set of code points: unions of properties, each of them possibly complemented. -/
structure CharSet where
  items : List (Bool × List Property)
  negated : Bool := false
  /-- A code point counts as having a property when one that differs in case only does. -/
  fold : Bool := false
  deriving DecidableEq, Repr

namespace CharSet

/-- The set holds a code point, of which the variants in case are given. -/
def contains (s : CharSet) (n : Nat) (variants : List Nat) : Bool :=
  let points := if s.fold then variants else [n]
  let inItem (i : Bool × List Property) : Bool :=
    (points.any fun m => i.2.any (·.holds m)) != i.1
  (s.items.any inItem) != s.negated

/-- The set of one code point, or of its variants in case. -/
def single (fold : Bool) (n : Nat) : CharSet :=
  { items := [(false, [.range n n])], fold }

/-- All code points, or all but the newline. -/
def dot (newline : Bool) : CharSet :=
  if newline then { items := [(false, [.range 0 0x10FFFF])] }
  else { items := [(true, [.range 10 10])] }

end CharSet

/-- A condition on a place in a text. -/
inductive Edge where
  | textStart | textEnd | lineStart | lineEnd | wordEdge | noWordEdge
  deriving DecidableEq, Repr

/-- A letter, digit or underscore of ASCII. -/
def isWord (c : Char) : Bool := c.isAlphanum || c == '_'

/-- The condition holds between the given neighbours. -/
def Edge.holds (e : Edge) (before after : Option Char) : Bool :=
  let word (c : Option Char) : Bool := match c with | some c => isWord c | none => false
  match e with
  | .textStart => before.isNone
  | .textEnd => after.isNone
  | .lineStart => before.isNone || before == some '\n'
  | .lineEnd => after.isNone || after == some '\n'
  | .wordEdge => word before != word after
  | .noWordEdge => word before == word after

/-- A regular expression. -/
inductive Regex where
  | empty
  | edge (e : Edge)
  | char (fold : Bool) (n : Nat)
  | set (s : CharSet)
  | seq (r s : Regex)
  | alt (r s : Regex)
  | group (r : Regex)
  /-- Between `low` and `high` times, without an upper bound for `none`. -/
  | times (r : Regex) (low : Nat) (high : Option Nat)
  deriving DecidableEq, Repr

namespace Regex

/-- How deeply an expression nests. Sequences in sequences and alternatives in alternatives do not count as
nested; a run of characters counts as one, and so do alternatives of single characters. -/
structure Nesting where
  depth : Nat
  /-- The depth of its deepest part, for a sequence. -/
  inSeq : Nat
  /-- The depth of its deepest part, for alternatives. -/
  inAlt : Nat
  /-- Whether case is ignored in it, for a run of characters. -/
  run : Option Bool := none
  /-- It matches single characters. -/
  single : Bool := false

namespace Nesting

/-- A part without parts. -/
def leaf : Nesting := { depth := 1, inSeq := 1, inAlt := 1 }

/-- A part around another. -/
def around (n : Nesting) : Nesting :=
  { depth := n.depth + 1, inSeq := n.depth + 1, inAlt := n.depth + 1 }

/-- One part after another. -/
def seq (a b : Nesting) : Nesting :=
  if a.run.isSome && a.run == b.run then { leaf with run := a.run }
  else
    let deepest := max a.inSeq b.inSeq
    { depth := deepest + 1, inSeq := deepest, inAlt := deepest + 1 }

/-- One part or another. -/
def alt (a b : Nesting) : Nesting :=
  if a.single && b.single then { leaf with single := true }
  else
    let deepest := max a.inAlt b.inAlt
    { depth := deepest + 1, inSeq := deepest + 1, inAlt := deepest }

end Nesting

/-- How deeply an expression nests. -/
def nesting : Regex → Nesting
  | empty | edge _ => .leaf
  | char fold _ => { Nesting.leaf with run := some fold, single := true }
  | set _ => { Nesting.leaf with single := true }
  | seq r s => r.nesting.seq s.nesting
  | alt r s => r.nesting.alt s.nesting
  | group r => r.nesting.around
  | times r _ _ => r.nesting.around

/-- The size of an expression with its repetitions written out, and the greatest size of a part of it. -/
def sizes : Regex → Nat × Nat
  | empty | edge _ | char _ _ | set _ => (1, 1)
  | seq r s =>
    let (m, rest) := r.sizes
    let (n, more) := s.sizes
    withPart (m + n) (max rest more)
  | alt r s =>
    let (m, rest) := r.sizes
    let (n, more) := s.sizes
    withPart (m + n + 1) (max rest more)
  | group r =>
    let (n, rest) := r.sizes
    withPart (n + 2) rest
  | times r low high =>
    let (n, rest) := r.sizes
    match high with
    | none => withPart (if low = 0 then n + 2 else low * n + 1) rest
    | some h => withPart (max 1 (h * n + (h - low))) rest
where
  withPart (own below : Nat) : Nat × Nat := (own, max own below)

/-- The expression is neither nested too deeply nor too large. -/
def isModerate (r : Regex) : Bool :=
  r.nesting.depth ≤ 1000 && r.sizes.2 ≤ 3355443

end Regex

end MisuseSlice.Text
