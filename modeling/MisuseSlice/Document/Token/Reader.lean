import MisuseSlice.Document.Token.Tag

/-!
Reading a text into tokens. Blocks begin and end by indentation. A key of a mapping is known only once its colon is
seen, so a place where a key may start is noted, and its marks are put in front of it later. A token can be used
once no mark can come before it any more and two more tokens are read.
-/
namespace MisuseSlice.Document

/-- A place that may turn out to be a key once its colon is seen. -/
structure KeyPlace where
  /-- The place must be a key, since the line has the indentation of the block. -/
  required : Bool
  /-- The number of tokens before it. -/
  token : Nat
  index : Nat
  line : Nat
  column : Nat
  /-- The tokens from here on wait until it is known whether this is a key. -/
  held : Bool := true

/-- What is known inside one pair of brackets, or outside all of them. -/
structure Level where
  place : Option KeyPlace := none
  /-- The number of tokens before the last place noted here, or before the opening bracket. -/
  token : Nat := 0

/-- The state of reading tokens. -/
structure Reader where
  cursor : Cursor
  /-- The text goes no further than what is left. -/
  complete : Bool := true
  /-- Up to this place each line loses its first character. -/
  marked : Nat := 0
  tokens : Array Token := #[]
  /-- The column of the current block, -1 outside all blocks. -/
  indent : Int := -1
  indents : List Int := []
  /-- A key may start here. -/
  keyAllowed : Bool := true
  level : Level := {}
  /-- The enclosing levels. -/
  outer : List Level := []

/-- Blocks and brackets are nested at most this deep. -/
def maxNesting : Nat := 10000

namespace Reader

/-- The place is between brackets. -/
def inFlow (r : Reader) : Bool := !r.outer.isEmpty

/-- Adds a token. -/
def emit (r : Reader) (k : TokenKind) (line : Nat) : Reader :=
  { r with tokens := r.tokens.push ⟨k, line + 1⟩ }

/-- Ends the blocks that are deeper than `column`. -/
def unroll (column : Int) : List Int → Reader → Reader
  | [], r => r
  | i :: is, r =>
    if !r.inFlow && column < r.indent then
      unroll column is { (r.emit .blockEnd r.cursor.line) with indent := i, indents := is }
    else r

/-- Ends the blocks that are deeper than `column`. -/
def endBlocks (r : Reader) (column : Int) : Reader :=
  unroll column r.indents r

/-- A key stands on one line and is at most 1024 characters long. -/
def isCurrent (r : Reader) (p : KeyPlace) : Bool :=
  r.cursor.line ≤ p.line && r.cursor.index ≤ p.index + 1024

/-- The number of tokens that can be used; those after them wait. -/
def settled (r : Reader) : Nat :=
  (r.level :: r.outer).foldl (fun n l =>
    match l.place with
    | some p => if p.held && (p.required || r.isCurrent p) then min n p.token else n
    | none => n) (r.tokens.size - 2)

/-- Adds a token in front of the one with the number `before`, or after all tokens. -/
def insert (r : Reader) (before : Option Nat) (t : Token) : Reader :=
  { r with tokens := before.elim (r.tokens.push t) (r.tokens.insertIdxIfInBounds · t) }

/-- Begins a block at `column` unless the current one is as deep. Its token goes to the place
`before`. -/
def beginBlock? (r : Reader) (column : Nat) (kind : TokenKind) (before : Option Nat) (line : Nat) :
    Option Reader :=
  if !r.inFlow && r.indent < (column : Int) then
    if maxNesting ≤ r.indents.length then none
    else some { r.insert before ⟨kind, line + 1⟩ with indents := r.indent :: r.indents, indent := column }
  else some r

/-- Gives up the possible key; a required one may not be given up. -/
def dropPlace? (r : Reader) : Option Reader :=
  match r.level.place with
  | some p => if p.required then none else some { r with level := { r.level with place := none } }
  | none => some r

/-- Notes that a key may start here. -/
def notePlace? (r : Reader) : Option Reader :=
  if r.keyAllowed then
    r.dropPlace?.map fun r =>
      let here : KeyPlace :=
        { required := !r.inFlow && r.indent == (r.cursor.column : Int), token := r.tokens.size,
          index := r.cursor.index, line := r.cursor.line, column := r.cursor.column }
      { r with level := { place := some here, token := r.tokens.size } }
  else some r

/-- Passes comments, as long as only white space and ends of lines stand between them. -/
def passComments : (fuel : Nat) → Cursor → Cursor
  | 0, c => c
  | fuel + 1, c =>
    let c := c.skipComment
    match c.rest with
    | b :: rest =>
      let between := (rest.takeWhile fun x => isGap x || x == '\n' || x == '\r').length
      if (b == '\n' || b == '\r') && between + 1 < Source.blockSize && rest[between]? == some '#' then
        passComments fuel (c.passTo (c.index + 1 + between) (between + 1))
      else c
    | [] => c

/-- Passes white space, comments and line breaks before a token. -/
def passSpace : (fuel : Nat) → Reader → Reader
  | 0, r => r
  | fuel + 1, r =>
    let tabs := r.inFlow || !r.keyAllowed
    let cursor := if r.cursor.column == 0 && r.cursor.index + 4 ≤ r.marked then r.cursor.skip else r.cursor
    let cursor := cursor.skipWhile fun c => c == ' ' || (tabs && c == '\t')
    let cursor := if cursor.rest.head? == some '#' then passComments (fuel + 1) cursor else cursor
    match cursor.rest with
    | c :: _ =>
      if isBreak c then
        let (_, next) := cursor.breakLine
        passSpace fuel { r with cursor := next, keyAllowed := r.keyAllowed || !r.inFlow }
      else { r with cursor }
    | [] => { r with cursor }

/-- Passes a comment on the line of the token before it. -/
def passLineComment (r : Reader) : Reader :=
  let gaps := (r.cursor.rest.takeWhile isGap).length
  if !r.cursor.fresh && gaps < Source.blockSize && r.cursor.rest[gaps]? == some '#' then
    { r with cursor := (r.cursor.skipMany gaps).skipComment }
  else r

/-- A one-character token. -/
def single (r : Reader) (k : TokenKind) : Reader :=
  { (r.emit k r.cursor.line) with cursor := r.cursor.skip }

/-- An opening bracket. -/
def openFlow? (r : Reader) (k : TokenKind) : Option Reader :=
  match r.notePlace? with
  | none => none
  | some r =>
    if maxNesting ≤ r.outer.length then none
    else
      some { (r.single k) with
        outer := r.level :: r.outer, level := { token := r.tokens.size }, keyAllowed := true }

/-- A closing bracket. If no place was noted since the opening one, that one no longer waits. -/
def closeFlow? (r : Reader) (k : TokenKind) : Option Reader :=
  r.dropPlace?.map fun r =>
    let closed := { (r.single k) with keyAllowed := false }
    match r.outer with
    | l :: ls =>
      let place := l.place.map fun p => if p.token == r.level.token then { p with held := false } else p
      { closed with level := { l with place }, outer := ls }
    | [] => closed

/-- A comma between brackets. -/
def flowEntry? (r : Reader) : Option Reader :=
  r.dropPlace?.map fun r => { (r.single .flowEntry) with keyAllowed := true }

/-- The dash of a block entry. -/
def blockEntry? (r : Reader) : Option Reader :=
  if !r.inFlow && !r.keyAllowed then none
  else
    match r.beginBlock? r.cursor.column .blockSequenceStart none r.cursor.line with
    | none => none
    | some r => r.dropPlace?.map fun r => { (r.single .blockEntry) with keyAllowed := true }

/-- The question mark before a key. -/
def explicitKey? (r : Reader) : Option Reader :=
  if !r.inFlow && !r.keyAllowed then none
  else
    match r.beginBlock? r.cursor.column .blockMappingStart none r.cursor.line with
    | none => none
    | some r => r.dropPlace?.map fun r => { (r.single .key) with keyAllowed := !r.inFlow }

/-- The place where a key starts that a colon here would end; a required key has to be one. -/
def keyHere? (r : Reader) : Option (Option KeyPlace) :=
  match r.level.place with
  | none => some none
  | some p => if r.isCurrent p then some (some p) else if p.required then none else some none

/-- A colon, which makes the place noted last a key. The marks of the key come after all tokens where the token at
that place is in use already. -/
def colon? (r : Reader) : Option Reader :=
  match r.keyHere? with
  | none => none
  | some (some p) =>
    let before := if p.token < r.settled then none else some p.token
    ((r.insert before ⟨.key, p.line + 1⟩).beginBlock? p.column .blockMappingStart before p.line).map fun r =>
      { (r.single .value) with level := { r.level with place := none }, keyAllowed := false }
  | some none =>
    let r := { r with level := { r.level with place := none } }
    if r.inFlow then some { (r.single .value) with keyAllowed := false }
    else if !r.keyAllowed then none
    else
      (r.beginBlock? r.cursor.column .blockMappingStart none r.cursor.line).map fun r =>
        { (r.single .value) with keyAllowed := true }

/-- A token that may start a key, with the place after it. -/
def content? (r : Reader) (read : Reader → Option (TokenKind × Cursor × Bool)) : Option Reader :=
  match r.notePlace? with
  | none => none
  | some r =>
    (read r).map fun (kind, next, keyAllowed) =>
      { (r.emit kind r.cursor.line) with cursor := next, keyAllowed }

/-- An anchor or an alias: a name after its indicator. -/
def named? (r : Reader) (k : String → TokenKind) : Option Reader :=
  r.content? fun r => r.cursor.name?.map fun (name, next) => (k name, next, false)

/-- The tag of a node. -/
def tag? (r : Reader) : Option Reader :=
  r.content? fun r => r.cursor.tag?.map fun ((handle, suffix), next) => (.tag handle suffix, next, false)

/-- A scalar between quotes. -/
def quoted? (r : Reader) (single : Bool) : Option Reader :=
  r.content? fun r => (r.cursor.quoted? single).map fun (text, next) =>
    (.scalar text (if single then .singleQuoted else .doubleQuoted), next, false)

/-- A plain scalar; a key may start after it where a line ended. -/
def plain? (r : Reader) : Option Reader :=
  r.content? fun r => (r.cursor.plain? r.inFlow (r.indent + 1)).map fun (text, next, broken) =>
    (.scalar text .plain, next, broken)

/-- A block scalar. -/
def block? (r : Reader) (literal : Bool) : Option Reader :=
  match r.dropPlace? with
  | none => none
  | some r => (r.cursor.block? literal r.indent).map fun (text, next) =>
    { (r.emit (.scalar text (if literal then .literal else .folded)) r.cursor.line) with
      cursor := next, keyAllowed := true }

/-- Ends all blocks before a token between documents. -/
def betweenDocuments? (r : Reader) : Option Reader :=
  (r.endBlocks (-1)).dropPlace?.map fun r => { r with keyAllowed := false }

/-- A mark between documents. -/
def documentMark? (r : Reader) (k : TokenKind) : Option Reader :=
  r.betweenDocuments?.map fun r => { (r.emit k r.cursor.line) with cursor := r.cursor.skipMany 3 }

/-- A directive line before a document. -/
def directive? (r : Reader) : Option Reader :=
  match r.betweenDocuments? with
  | none => none
  | some r => r.cursor.directive?.map fun (kind, next) => { (r.emit kind r.cursor.line) with cursor := next }

/-- The end of the text. -/
def streamEnd? (r : Reader) : Option Reader :=
  r.betweenDocuments?.map fun r => r.emit .streamEnd r.cursor.line

/-- A plain scalar may start with `c` before `rest`. -/
def startsPlain (inFlow : Bool) (c : Char) (rest : List Char) : Bool :=
  !(isGap c || isBreak c || "-?:,[]\x7b\x7d#&*!|>'\"%@`".toList.contains c) ||
    (c == '-' && !(match rest with | d :: _ => isGap d | [] => false)) ||
    (!inFlow && (c == '?' || c == ':') && !gapFirst rest)

/-- Reads a token inside a document that starts with `c`. -/
def inside? (r : Reader) (c : Char) (rest : List Char) : Option Reader :=
  if c == '[' then openFlow? r .flowSequenceStart
  else if c == '\x7b' then openFlow? r .flowMappingStart
  else if c == ']' then closeFlow? r .flowSequenceEnd
  else if c == '\x7d' then closeFlow? r .flowMappingEnd
  else if c == ',' then flowEntry? r
  else if c == '-' && gapFirst rest then blockEntry? r
  else if c == '?' && (r.inFlow || gapFirst rest) then explicitKey? r
  else if c == ':' && (r.inFlow || gapFirst rest) then colon? r
  else if c == '*' then named? r .alias
  else if c == '&' then named? r .anchor
  else if c == '!' then tag? r
  else if c == '|' && !r.inFlow then block? r true
  else if c == '>' && !r.inFlow then block? r false
  else if c == '\'' then quoted? r true
  else if c == '"' then quoted? r false
  else if startsPlain r.inFlow c rest then plain? r
  else none

/-- The text may go on, but fewer than `n` characters of it can be read. -/
def lacks (r : Reader) (n : Nat) : Bool := !r.complete && (r.cursor.rest.take n).length < n

/-- Reads the next token; `none` where no token can be read. -/
def next? (r : Reader) : Option Reader :=
  let r := passSpace (r.cursor.left + 1) r
  let r := r.endBlocks r.cursor.column
  if r.lacks 4 then none
  else
    match r.cursor.rest with
    | [] => streamEnd? r
    | c :: rest =>
      if r.cursor.column == 0 && c == '%' then directive? r
      else if r.cursor.atMark '-' then documentMark? r .documentStart
      else if r.cursor.atMark '.' then documentMark? r .documentEnd
      else
        match r.inside? c rest with
        | none => none
        | some r =>
          if r.lacks 1 then none
          else some (if (r.tokens.back?.map (·.kind)) == some .blockEntry then r else r.passLineComment)

end Reader

/-- The tokens of a text up to its end, or up to where no token can be read. -/
structure Tokens where
  all : Array Token
  /-- The number of tokens that can be used if the end was not reached. -/
  settled : Nat
  complete : Bool

namespace Tokens

/-- The token at a place; beyond the last one is the end. -/
def at? (ts : Tokens) (i : Nat) : Option Token :=
  if ts.complete then some (ts.all[i]?.getD ⟨.streamEnd, 0⟩)
  else if i < ts.settled then ts.all[i]? else none

/-- Reads tokens as far as possible. -/
def readFrom : (fuel : Nat) → Reader → Tokens
  | 0, r => ⟨r.tokens, 0, false⟩
  | fuel + 1, r =>
    match r.next? with
    | none => ⟨r.tokens, r.settled, false⟩
    | some r =>
      match r.tokens.back? with
      | some ⟨.streamEnd, _⟩ => ⟨r.tokens, r.tokens.size, true⟩
      | _ => readFrom fuel r

/-- The tokens of a source. -/
def ofSource (s : Source) : Tokens :=
  readFrom (s.chars.length + 2) { cursor := { rest := s.chars }, complete := s.complete, marked := s.marked }

end Tokens

end MisuseSlice.Document
