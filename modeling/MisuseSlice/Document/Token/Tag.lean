import MisuseSlice.Document.Source
import MisuseSlice.Document.Token.Scalar

/-!
Names, tags and directives as tokens. A tag is a handle between exclamation marks and a suffix; handles are
short for how tags start, and directives before a document declare them.
-/
namespace MisuseSlice.Document.Cursor

/-- Characters of tags besides those of names. -/
def isTagChar (c : Char) : Bool := isNameChar c || ";/?:@&=+$,.!~*'()[]%".toList.contains c

/-- The name of an anchor or an alias after its indicator. -/
def name? (c : Cursor) : Option (String × Cursor) :=
  let start := c.skip
  let name := start.rest.takeWhile isNameChar
  let next := start.skipMany name.length
  let closed :=
    match next.rest with
    | [] => true
    | c :: _ => isGap c || isBreak c || "?:,]\x7d%@`".toList.contains c
  if name.isEmpty || !closed then none else some (String.ofList name, next)

/-- A byte written as a percent sign and two digits. -/
private def escapedByte? (c : Cursor) : Option (UInt8 × Cursor) :=
  match c.rest with
  | '%' :: r => (Text.hexDigits? 2 0 r).map fun (n, _) => (n.toUInt8, c.skipMany 3)
  | _ => none

/-- Bytes that continue a character. -/
private def escapedTail? : (count : Nat) → Cursor → Option (Text.Bytes × Cursor)
  | 0, c => some ([], c)
  | count + 1, c =>
    match escapedByte? c with
    | some (b, c) =>
      if b / 64 == 2 then (escapedTail? count c).map fun (bs, c) => (b :: bs, c) else none
    | none => none

/-- A character of a tag that is written by its bytes. -/
private def escapedChar? (c : Cursor) : Option (List Char × Cursor) :=
  match escapedByte? c with
  | none => none
  | some (b, c) =>
    match leadWidth b with
    | 0 => none
    | width + 1 => (escapedTail? width c).map fun (bs, c) => ((Text.shown (b :: bs)).toList, c)

/-- Reads the characters of a tag. -/
private def tagChars? : (fuel : Nat) → List Char → Cursor → Option (List Char × Cursor)
  | 0, _, _ => none
  | fuel + 1, read, c =>
    match c.rest with
    | '%' :: _ =>
      match escapedChar? c with
      | some (cs, c) => tagChars? fuel (read ++ cs) c
      | none => none
    | x :: _ => if isTagChar x then tagChars? fuel (read ++ [x]) c.skip else some (read, c)
    | [] => some (read, c)

/-- The characters of a tag, of which there is at least one. -/
private def someTagChars? (c : Cursor) : Option (List Char × Cursor) :=
  match tagChars? (c.left + 1) [] c with
  | some (cs, next) => if next.index == c.index then none else some (cs, next)
  | none => none

/-- What may be a handle: an exclamation mark, a name, and perhaps another one. -/
private def handle (c : Cursor) : List Char × Cursor :=
  let name := c.skip.rest.takeWhile isNameChar
  let next := c.skip.skipMany name.length
  if next.rest.head? == some '!' then ('!' :: name ++ ['!'], next.skip) else ('!' :: name, next)

/-- A tag: its handle, which is empty where the tag is written in full, and its suffix. -/
def tag? (c : Cursor) : Option ((String × String) × Cursor) :=
  let read? : Option ((List Char × List Char) × Cursor) :=
    match c.rest with
    | '!' :: '<' :: _ =>
      match someTagChars? (c.skipMany 2) with
      | some (suffix, next) => if next.rest.head? == some '>' then some (([], suffix), next.skip) else none
      | none => none
    | _ =>
      let (h, next) := handle c
      if 1 < h.length && h.getLast? == some '!' then
        (someTagChars? next).map fun (suffix, next) => ((h, suffix), next)
      else
        (tagChars? (next.left + 1) (h.drop 1) next).map fun (suffix, next) =>
          (if suffix.isEmpty then ([], ['!']) else (['!'], suffix), next)
  match read? with
  | some ((h, suffix), next) =>
    if gapFirst next.rest then some ((String.ofList h, String.ofList suffix), next) else none
  | none => none

/-- A version number of one or two digits. -/
private def versionNumber? (c : Cursor) : Option (Nat × Cursor) :=
  let digits := c.rest.takeWhile Char.isDigit
  if digits.isEmpty || 2 < digits.length then none
  else some (digits.foldl (fun n d => n * 10 + (d.toNat - 48)) 0, c.skipMany digits.length)

/-- The version that a directive names. -/
private def version? (c : Cursor) : Option (TokenKind × Cursor) := do
  let (major, c) ← versionNumber? (c.skipWhile isGap)
  if c.rest.head? != some '.' then none
  else
    let (minor, c) ← versionNumber? c.skip
    some (.version major minor, c)

/-- The handle that a directive declares, and how its tags start. -/
private def tagHandle? (c : Cursor) : Option (TokenKind × Cursor) := do
  let c := c.skipWhile isGap
  let (h, next) := handle c
  if c.rest.head? != some '!' || (h != ['!'] && (h.length == 1 || h.getLast? != some '!')) then none
  else if !((next.rest.head?.map isGap).getD false) then none
  else
    let (start, next) ← someTagChars? (next.skipWhile isGap)
    if gapFirst next.rest then some (.tagHandle (String.ofList h) (String.ofList start), next) else none

/-- A directive up to the end of its line; only the version and tag directives exist. -/
def directive? (c : Cursor) : Option (TokenKind × Cursor) := do
  let name := c.skip.rest.takeWhile isNameChar
  let next := c.skip.skipMany name.length
  let (kind, next) ←
    if !gapFirst next.rest then none
    else if name == "YAML".toList then version? next
    else if name == "TAG".toList then tagHandle? next
    else none
  let next := (next.skipWhile isGap).skipComment
  if breakFirst next.rest then some (kind, next.breakLine.2) else none

end MisuseSlice.Document.Cursor
