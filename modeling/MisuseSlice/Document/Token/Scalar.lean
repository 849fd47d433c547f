import MisuseSlice.Document.Token

/-!
Scalars as tokens. A plain or quoted scalar may go on over several lines, which are folded: a single line break
reads as a space and each further one as a newline. A block scalar keeps its lines, or folds those that do not
start with white space.
-/
namespace MisuseSlice.Document

/-- The state of reading a plain or quoted scalar: the text so far, last character first, and the
white space that may have to be joined to it. -/
structure Folding where
  text : List Char := []
  gaps : List Char := []
  firstBreak : List Char := []
  /-- The line breaks after the first one, last first. -/
  moreBreaks : List Char := []
  /-- A line break was passed since the last character. -/
  broken : Bool := false
  cursor : Cursor

namespace Folding

/-- A single line break folds into a space; each further one is kept. -/
def join (f : Folding) : Folding :=
  if f.broken then
    let joined :=
      if f.firstBreak == ['\n'] then
        (if f.moreBreaks.isEmpty then [' '] else f.moreBreaks)
      else f.moreBreaks ++ f.firstBreak
    { f with text := joined ++ f.text, gaps := [], firstBreak := [], moreBreaks := [], broken := false }
  else { f with text := f.gaps ++ f.text, gaps := [] }

/-- Adds one character. -/
def push (f : Folding) (c : Char) : Folding :=
  { f with text := c :: f.text, cursor := f.cursor.skip }

/-- Passes white space and line breaks. With `indent`, a tab may not stand before that column on a
new line. -/
def passGaps (indent : Option Int) : (fuel : Nat) → Folding → Option Folding
  | 0, f => some f
  | fuel + 1, f =>
    match f.cursor.rest with
    | c :: _ =>
      if isGap c then
        let tabbed :=
          match indent with
          | some i => f.broken && decide ((f.cursor.column : Int) < i) && c == '\t'
          | none => false
        if tabbed then none
        else if f.broken then passGaps indent fuel { f with cursor := f.cursor.skip }
        else passGaps indent fuel { f with gaps := c :: f.gaps, cursor := f.cursor.skip }
      else if isBreak c then
        let (b, next) := f.cursor.breakLine
        if f.broken then
          passGaps indent fuel { f with moreBreaks := b ++ f.moreBreaks, cursor := next }
        else
          passGaps indent fuel
            { f with gaps := [], firstBreak := b, broken := true, cursor := next }
      else some f
    | [] => some f

/-- Reads the characters of a plain scalar up to white space or an indicator that ends it. -/
def plainWord (inFlow : Bool) : (fuel : Nat) → Folding → Folding
  | 0, f => f
  | fuel + 1, f =>
    match f.cursor.rest with
    | [] => f
    | c :: r =>
      if isGap c || isBreak c then f
      else if c == ':' && gapFirst r then f
      else if inFlow && (c == ',' || c == '?' || c == '[' || c == ']' || c == '\x7b' || c == '\x7d')
      then f
      else plainWord inFlow fuel (f.join.push c)

/-- Reads a plain scalar, which may go on over lines that are indented enough. -/
def plain (inFlow : Bool) (indent : Int) : (fuel : Nat) → Folding → Option Folding
  | 0, f => some f
  | fuel + 1, f =>
    if f.cursor.atDocumentMark || f.cursor.rest.head? == some '#' then some f
    else
      let f := plainWord inFlow f.cursor.left f
      match f.cursor.rest with
      | c :: _ =>
        if isGap c || isBreak c then
          match passGaps (some indent) f.cursor.left f with
          | none => none
          | some f =>
            if !inFlow && decide ((f.cursor.column : Int) < indent) then some f
            else plain inFlow indent fuel f
        else some f
      | [] => some f

/-- The character for the letter of a one-letter escape. -/
def namedEscape? (c : Char) : Option Char :=
  match c with
  | '0' => some (Char.ofNat 0)
  | 'a' => some (Char.ofNat 7)
  | 'b' => some (Char.ofNat 8)
  | 't' => some '\t'
  | '\t' => some '\t'
  | 'n' => some '\n'
  | 'v' => some (Char.ofNat 11)
  | 'f' => some (Char.ofNat 12)
  | 'r' => some '\r'
  | 'e' => some (Char.ofNat 0x1B)
  | ' ' => some ' '
  | '"' => some '"'
  | '\'' => some '\''
  | '/' => some '/'
  | '\\' => some '\\'
  | 'N' => some (Char.ofNat 0x85)
  | '_' => some (Char.ofNat 0xA0)
  | 'L' => some (Char.ofNat 0x2028)
  | 'P' => some (Char.ofNat 0x2029)
  | _ => none

/-- Reads the escape after a backslash. -/
def escape? (f : Folding) : Option Folding :=
  match f.cursor.rest with
  | '\\' :: c :: r =>
    match namedEscape? c with
    | some x => some { f with text := x :: f.text, cursor := f.cursor.skipMany 2 }
    | none =>
      let count := if c == 'x' then 2 else if c == 'u' then 4 else if c == 'U' then 8 else 0
      if count == 0 then none
      else
        match Text.hexDigits? count 0 r with
        | some (v, _) =>
          if Text.isScalar v then
            some { f with text := Char.ofNat v :: f.text, cursor := f.cursor.skipMany (2 + count) }
          else none
        | none => none
  | _ => none

/-- Reads the characters of a quoted scalar up to white space or the closing quote. -/
def quotedWord (single : Bool) : (fuel : Nat) → Folding → Option Folding
  | 0, f => some f
  | fuel + 1, f =>
    match f.cursor.rest with
    | [] => some f
    | c :: r =>
      if isGap c || isBreak c then some f
      else if single then
        if c == '\'' then
          if r.head? == some '\'' then
            quotedWord single fuel { f with text := '\'' :: f.text, cursor := f.cursor.skipMany 2 }
          else some f
        else quotedWord single fuel (f.push c)
      else if c == '"' then some f
      else if c == '\\' then
        match r with
        | b :: _ =>
          if isBreak b then
            let (_, next) := f.cursor.skip.breakLine
            some { f with cursor := next, broken := true }
          else
            match escape? f with
            | some f => quotedWord single fuel f
            | none => none
        | [] => none
      else quotedWord single fuel (f.push c)

/-- Reads a quoted scalar from after its opening quote to its closing one. -/
def quoted (single : Bool) : (fuel : Nat) → Folding → Option Folding
  | 0, _ => none
  | fuel + 1, f =>
    if f.cursor.atDocumentMark || f.cursor.rest.isEmpty then none
    else
      match quotedWord single f.cursor.left f with
      | none => none
      | some f =>
        if f.cursor.rest.head? == some (if single then '\'' else '"') then
          some { f with cursor := f.cursor.skip }
        else
          match passGaps none f.cursor.left f with
          | none => none
          | some f => quoted single fuel f.join

end Folding

/-- The state of reading a block scalar. -/
structure Block where
  text : List Char := []
  firstBreak : List Char := []
  /-- The line breaks after the first one, last first. -/
  moreBreaks : List Char := []
  /-- The line before started with white space. -/
  gapBefore : Bool := false
  indent : Nat
  cursor : Cursor

namespace Block

/-- Passes indentation and empty lines. An indentation of zero is not known yet. -/
def passBreaks : (fuel deepest : Nat) → Block → Option (Nat × Block)
  | 0, deepest, b => some (deepest, b)
  | fuel + 1, deepest, b =>
    let room := if b.indent == 0 then b.cursor.left else b.indent - b.cursor.column
    let spaces := ((b.cursor.rest.take room).takeWhile (· == ' ')).length
    let cursor := b.cursor.skipMany spaces
    let deepest := max deepest cursor.column
    match cursor.rest with
    | c :: _ =>
      if c == '\t' && (b.indent == 0 || cursor.column < b.indent) then none
      else if isBreak c then
        let (br, next) := cursor.breakLine
        passBreaks fuel deepest { b with moreBreaks := br ++ b.moreBreaks, cursor := next }
      else some (deepest, { b with cursor })
    | [] => some (deepest, { b with cursor })

/-- Reads the lines of a block scalar. -/
def lines (literal : Bool) : (fuel : Nat) → Block → Option Block
  | 0, b => some b
  | fuel + 1, b =>
    match b.cursor.rest with
    | [] => some b
    | c :: _ =>
      if b.cursor.column != b.indent then some b
      else
        let gapHere := isGap c
        let text :=
          if !literal && !b.gapBefore && !gapHere && b.firstBreak == ['\n'] then
            (if b.moreBreaks.isEmpty then ' ' :: b.text else b.text)
          else b.firstBreak ++ b.text
        let text := b.moreBreaks ++ text
        let line := b.cursor.rest.takeWhile (!isBreak ·)
        let (br, next) := (b.cursor.skipMany line.length).breakLine
        match passBreaks next.left 0
            { b with text := line.reverse ++ text, firstBreak := br, moreBreaks := [],
                     gapBefore := gapHere, cursor := next } with
        | some (_, b) => lines literal fuel b
        | none => none

end Block

/-- How the line breaks at the end of a block scalar are kept. -/
inductive Chomping where
  | strip | clip | keep

namespace Cursor

/-- A quoted scalar: its text, and the place after it. -/
def quoted? (c : Cursor) (single : Bool) : Option (String × Cursor) :=
  (Folding.quoted single (c.left + 1) { cursor := c.skip }).map fun f =>
    (String.ofList f.text.reverse, f.cursor)

/-- A plain scalar, which may go on over lines at `indent` or deeper: its text, the place after it, and whether
a line break was passed there. -/
def plain? (c : Cursor) (inFlow : Bool) (indent : Int) : Option (String × Cursor × Bool) :=
  (Folding.plain inFlow indent (c.left + 1) { cursor := c }).map fun f =>
    (String.ofList f.text.reverse, f.cursor, f.broken)

/-- Passes a comment, if one stands here. -/
def skipComment (c : Cursor) : Cursor :=
  if c.rest.head? == some '#' then c.skipWhile (!isBreak ·) else c

/-- The marks after the indicator of a block scalar: chomping and indentation, in either order. -/
def blockHeader? (c : Cursor) : Option (Chomping × Nat × Cursor) :=
  let chomp (c : Cursor) : Chomping × Cursor :=
    match c.rest with
    | '+' :: _ => (.keep, c.skip)
    | '-' :: _ => (.strip, c.skip)
    | _ => (.clip, c)
  let depth (c : Cursor) : Option (Nat × Cursor) :=
    match c.rest with
    | d :: _ =>
      if d == '0' then none
      else if '1' ≤ d && d ≤ '9' then some (d.toNat - 48, c.skip)
      else some (0, c)
    | [] => some (0, c)
  match chomp c with
  | (.clip, c) =>
    (depth c).map fun (n, c) => let (k, c) := if n == 0 then (.clip, c) else chomp c; (k, n, c)
  | (k, c) => (depth c).map fun (n, c) => (k, n, c)

/-- A block scalar inside a block at `outer`: its text, and the place after it. -/
def block? (c : Cursor) (literal : Bool) (outer : Int) : Option (String × Cursor) :=
  match blockHeader? c.skip with
  | none => none
  | some (chomping, depth, c) =>
    let c := (c.skipWhile isGap).skipComment
    if !breakFirst c.rest then none
    else
      let (_, c) := c.breakLine
      let indent := if depth == 0 then 0 else (max outer 0).toNat + depth
      match Block.passBreaks (c.left + 1) 0 { indent, cursor := c } with
      | none => none
      | some (deepest, b) =>
        let indent := if indent == 0 then max (max deepest (outer + 1).toNat) 1 else indent
        match Block.lines literal (b.cursor.left + 1) { b with indent } with
        | none => none
        | some b =>
          let text := b.text.reverse ++
            (match chomping with
              | .strip => []
              | .clip => b.firstBreak
              | .keep => b.firstBreak ++ b.moreBreaks.reverse)
          some (String.ofList text, b.cursor)

end Cursor

end MisuseSlice.Document
