import MisuseSlice.Text.Quoted

/-!
Tokens of documents. A document is written in blocks that show their nesting by indentation, or in flow form
between brackets. Tokens mark where blocks begin and end, where entries, keys and values start, and what names,
tags and scalars stand in between. A cursor is a place in the text that is read into tokens.
-/
namespace MisuseSlice.Document

/-- How a scalar is written. -/
inductive Style where
  | plain | singleQuoted | doubleQuoted | literal | folded
  deriving DecidableEq, Repr, Inhabited

/-- What a token stands for. -/
inductive TokenKind where
  | version (major minor : Nat)
  /-- A handle for tags that stands for how they start. -/
  | tagHandle (handle start : String)
  | documentStart
  | documentEnd
  | streamEnd
  | blockSequenceStart
  | blockMappingStart
  | blockEnd
  | flowSequenceStart
  | flowSequenceEnd
  | flowMappingStart
  | flowMappingEnd
  | blockEntry
  | flowEntry
  | key
  | value
  | alias (name : String)
  | anchor (name : String)
  | tag (handle suffix : String)
  | scalar (text : String) (style : Style)
  deriving DecidableEq, Repr, Inhabited

/-- A directive before a document. -/
def TokenKind.isDirective : TokenKind → Bool
  | version _ _ | tagHandle _ _ => true
  | _ => false

/-- A token and the line on which it starts, counted from one. -/
structure Token where
  kind : TokenKind
  line : Nat
  deriving DecidableEq, Repr, Inhabited

/-- A place in a text: what is left, and how far it is from the start. -/
structure Cursor where
  rest : List Char
  /-- The number of characters that are left. -/
  left : Nat := rest.length
  index : Nat := 0
  line : Nat := 0
  column : Nat := 0
  /-- Only white space stands between the last line break and this place. -/
  fresh : Bool := false

/-- A space or a tab. -/
def isGap (c : Char) : Bool := c == ' ' || c == '\t'

/-- A character that ends a line. -/
def isBreak (c : Char) : Bool :=
  c == '\n' || c == '\r' || c.toNat == 0x85 || c.toNat == 0x2028 || c.toNat == 0x2029

/-- White space, a line break or the end of the text comes first. -/
def gapFirst : List Char → Bool
  | [] => true
  | c :: _ => isGap c || isBreak c

/-- A line break or the end of the text comes first. -/
def breakFirst : List Char → Bool
  | [] => true
  | c :: _ => isBreak c

/-- A letter, a digit, an underscore or a dash. -/
def isNameChar (c : Char) : Bool := c.isAlphanum || c == '_' || c == '-'

namespace Cursor

/-- Passes one character. -/
def skip (c : Cursor) : Cursor :=
  match c.rest with
  | [] => c
  | x :: r =>
    { c with
      rest := r, left := c.left - 1, index := c.index + 1, column := c.column + 1,
      fresh := c.fresh && isGap x }

/-- Passes several characters of one line. -/
def skipMany : Nat → Cursor → Cursor
  | 0, c => c
  | n + 1, c => skipMany n c.skip

/-- Passes a line break, which reads as a newline unless it is one of the Unicode separators. -/
def breakLine (c : Cursor) : List Char × Cursor :=
  match c.rest with
  | '\r' :: '\n' :: r =>
    (['\n'], { rest := r, left := c.left - 2, index := c.index + 2, line := c.line + 1, fresh := true })
  | b :: r =>
    (if b.toNat == 0x2028 || b.toNat == 0x2029 then [b] else ['\n'],
      { rest := r, left := c.left - 1, index := c.index + 1, line := c.line + 1, fresh := true })
  | [] => ([], c)

/-- Passes the characters of a line that satisfy `p`. -/
def skipWhile (p : Char → Bool) (c : Cursor) : Cursor :=
  c.skipMany (c.rest.takeWhile p).length

/-- Passes characters and line breaks up to the character with the given index. -/
def passTo (index : Nat) : (fuel : Nat) → Cursor → Cursor
  | 0, c => c
  | fuel + 1, c =>
    if index ≤ c.index then c
    else if breakFirst c.rest then passTo index fuel c.breakLine.2
    else passTo index fuel c.skip

/-- A mark between documents stands here: three equal characters at the start of a line. -/
def atMark (c : Cursor) (mark : Char) : Bool :=
  c.column == 0 &&
    match c.rest with
    | a :: b :: d :: r => a == mark && b == mark && d == mark && gapFirst r
    | _ => false

/-- One of the two marks between documents stands here. -/
def atDocumentMark (c : Cursor) : Bool := c.atMark '-' || c.atMark '.'

end Cursor

end MisuseSlice.Document
