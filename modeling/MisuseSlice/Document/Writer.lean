import MisuseSlice.Document.Content
import MisuseSlice.Document.Scalar

/-!
Documents in block style. Every level is indented by two columns, and a list or record in a list starts
on the line of its dash. A text is written plain where it reads back as a text, between quotes where it
does not, and line by line where it has several lines. Bytes that are no text are written in base 64, under a
tag that tells so.
-/
namespace MisuseSlice.Document

/-- A character that can stand in a document without an escape. -/
def isWritable (c : Char) : Bool :=
  let n := c.toNat
  n == 0x0A || (0x20 ≤ n && n ≤ 0x7E) || (0xA0 ≤ n && n ≤ 0xFFFD && n != 0xFEFF)

/-- A number in base sixty, such as `1:30`, which old readers take for one. -/
def isSexagesimal (s : String) : Bool :=
  let cs := match s.toList with
    | '-' :: r => r
    | '+' :: r => r
    | r => r
  let isPlace (p : List Char) : Bool :=
    match p with
    | [d] => Number.isDecimal d
    | [t, d] => '0' ≤ t && t ≤ '5' && Number.isDecimal d
    | _ => false
  let isTail (p : List Char) : Bool := p.all fun c => Number.isDecimal c || c == '_'
  let (whole, fraction) := (Text.splitFirst? ['.'] cs).getD (cs, [])
  match whole.splitOn ':' with
  | first :: places =>
    (match first with
      | d :: r => Number.isDecimal d && isTail r
      | [] => false) && !places.isEmpty && places.all isPlace && isTail fraction
  | [] => false

/-- A word that old readers take for a truth value. -/
def isOldTruth (s : String) : Bool :=
  ["y", "Y", "yes", "Yes", "YES", "on", "On", "ON", "n", "N", "no", "No", "NO", "off", "Off", "OFF"].contains s

/-- A plain scalar with this text is read as a text. -/
def readsAsText (s : String) : Bool :=
  plainValue s == .text && !isSexagesimal s && !isOldTruth s

/-- A character at the start of a text that makes it something else than a plain scalar; `last` tells
that a gap or the end follows. -/
def opensOther (c : Char) (last : Bool) : Bool :=
  "#,[]\x7b\x7d&*!|>'\"%@`".toList.contains c || (last && (c == '?' || c == ':' || c == '-'))

/-- A colon before a gap, or a number sign after one, beyond the first character. -/
def hasMark : (previous : Char) → List Char → Bool
  | _, [] => false
  | p, c :: rest =>
    (c == ':' && gapFirst rest) || (c == '#' && (isGap p || isBreak p || p.toNat == 0)) || hasMark c rest

/-- The text would be taken for something else than a plain scalar. -/
def hasIndicator (cs : List Char) : Bool :=
  match cs with
  | [] => false
  | c :: rest =>
    opensOther c (gapFirst rest) || hasMark c rest ||
      (Text.dropFront? "---".toList cs).isSome || (Text.dropFront? "...".toList cs).isSome

/-- A character that satisfies `p` stands right before one that satisfies `q`. -/
def hasPair (p q : Char → Bool) : List Char → Bool
  | a :: b :: rest => (p a && q b) || hasPair p q (b :: rest)
  | _ => false

/-- A character that satisfies `p` stands at an end of the text. -/
def atEnd (p : Char → Bool) (cs : List Char) : Bool :=
  (cs.head?.map p).getD false || (cs.getLast?.map p).getD false

private def isSpace (c : Char) : Bool := c == ' '

/-- A character that has no place outside double quotes, tabs apart. -/
def needsEscape (c : Char) : Bool := c != '\t' && !isWritable c

/-- The text can be written as a plain scalar. -/
def allowsPlain (cs : List Char) : Bool :=
  !atEnd (fun c => isSpace c || isBreak c) cs && !cs.any (fun c => isBreak c || c == '\t' || needsEscape c) &&
    !hasIndicator cs

/-- The text can be written between single quotes. -/
def allowsSingle (cs : List Char) : Bool :=
  !hasPair isBreak isSpace cs && !hasPair isSpace isBreak cs && !cs.any fun c => c == '\t' || needsEscape c

/-- The text can be written line by line. -/
def allowsLiteral (cs : List Char) : Bool :=
  !cs.isEmpty && cs.getLast? != some ' ' && !hasPair isSpace isBreak cs && !cs.any needsEscape

/-- How a text is written. -/
def styleOf (s : String) : Style :=
  let cs := s.toList
  if cs.contains '\n' then (if allowsLiteral cs then .literal else .doubleQuoted)
  else if !readsAsText s then .doubleQuoted
  else if allowsPlain cs then .plain
  else if allowsSingle cs then .singleQuoted
  else .doubleQuoted

/-- The escape of a character between double quotes. -/
def escapeDouble (c : Char) : List Char :=
  let n := c.toNat
  let coded (mark : Char) (width : Nat) : List Char :=
    '\\' :: mark :: (Text.padded 16 width n).map Char.toUpper
  if c == '"' || c == '\\' then ['\\', c]
  else if isWritable c && !isBreak c then [c]
  else if n == 0 then ['\\', '0']
  else if n == 7 then ['\\', 'a']
  else if n == 8 then ['\\', 'b']
  else if n == 9 then ['\\', 't']
  else if n == 10 then ['\\', 'n']
  else if n == 11 then ['\\', 'v']
  else if n == 12 then ['\\', 'f']
  else if n == 13 then ['\\', 'r']
  else if n == 27 then ['\\', 'e']
  else if n == 0x85 then ['\\', 'N']
  else if n == 0x2028 then ['\\', 'L']
  else if n == 0x2029 then ['\\', 'P']
  else if n ≤ 0xFF then coded 'x' 2
  else if n ≤ 0xFFFF then coded 'u' 4
  else coded 'U' 8

private def spaces (n : Nat) : List Char := List.replicate n ' '

/-- Text in which every line but the first is indented; `fresh` tells that a line starts. -/
def indented (column : Nat) : (fresh : Bool) → List Char → List Char
  | _, [] => []
  | fresh, c :: rest =>
    if isBreak c then c :: indented column true rest
    else (if fresh then spaces column else []) ++ c :: indented column false rest

/-- The text keeps more than one break at its end. -/
def keepsBreaks (cs : List Char) : Bool :=
  match cs.reverse with
  | [a] => isBreak a
  | a :: b :: _ => isBreak a && isBreak b
  | [] => false

/-- The first line of a text that is written line by line. -/
def literalHeader (cs : List Char) : List Char :=
  '|' :: (if (cs.head?.map fun c => isSpace c || isBreak c).getD false then ['2'] else []) ++
    (if keepsBreaks cs then ['+'] else if (cs.getLast?.map isBreak).getD false then [] else ['-'])

/-- The lines of a text. A break at its start ends the first line, and one at its end ends the last. -/
def literalBody (column : Nat) (cs : List Char) : List Char :=
  (if (cs.head?.map isBreak).getD false then [] else ['\n']) ++ indented column true cs ++
    (if (cs.getLast?.map isBreak).getD false then [] else ['\n'])

/-- A text with the end of its line; further lines stand at `column`. -/
def writeText (column : Nat) (s : String) : List Char :=
  let cs := s.toList
  match styleOf s with
  | .plain => cs ++ ['\n']
  | .singleQuoted =>
    '\'' :: (indented column false cs).flatMap (fun c => if c == '\'' then ['\'', '\''] else [c]) ++ ['\'', '\n']
  | .literal => literalHeader cs ++ literalBody column cs
  | _ => '"' :: cs.flatMap escapeDouble ++ ['"', '\n']

/-- Characters in lines of `width`, each with its end; on the current line there is room for `room` more. -/
def inLines (width : Nat) : (room : Nat) → List Char → List Char
  | _, [] => ['\n']
  | 0, c :: rest => '\n' :: c :: inLines width (width - 1) rest
  | room + 1, c :: rest => c :: inLines width room rest

/-- Bytes with the end of their line; lines of 70 digits stand at `column` where one line does not do. -/
def writeBinary (column : Nat) (bs : Text.Bytes) : List Char :=
  let cs := Text.toBase64 bs
  let lines := inLines 70 70 cs
  "!!binary ".toList ++ (if cs.length < 70 then lines else literalHeader lines ++ literalBody column lines)

namespace Content

/-- The content starts on the line after its key. -/
def isNested : Content → Bool
  | list items => !items.isEmpty
  | record entries => !entries.isEmpty
  | _ => false

mutual

/-- The lines of a content whose first line is at `column`. -/
def block (column : Nat) : Content → List Char
  | .null => spaces column ++ "null\n".toList
  | .truth b => spaces column ++ (if b then "true\n" else "false\n").toList
  | .integer n => spaces column ++ (Text.ofInt n ++ "\n").toList
  | .text s => spaces column ++ writeText column s
  | .binary bs => spaces column ++ writeBinary column bs
  | .list items =>
    if items.isEmpty then spaces column ++ "[]\n".toList else blockItems column items
  | .record entries =>
    if entries.isEmpty then spaces column ++ "\x7b\x7d\n".toList else blockEntries column entries

/-- The lines of list items. -/
def blockItems (column : Nat) : List Content → List Char
  | [] => []
  | c :: rest =>
    spaces column ++ '-' :: ' ' :: (block (column + 2) c).drop (column + 2) ++ blockItems column rest

/-- The lines of record entries. -/
def blockEntries (column : Nat) : List (String × Content) → List Char
  | [] => []
  | e :: rest => blockEntry column e ++ blockEntries column rest

/-- The lines of a record entry. -/
def blockEntry (column : Nat) : String × Content → List Char
  | (key, c) =>
    spaces column ++ key.toList ++ ':' ::
      (if c.isNested then '\n' :: block (column + 2) c
        else ' ' :: (block (column + 2) c).drop (column + 2))

end

mutual

/-- The content ends in a text that keeps its breaks, after which the document has to be closed. -/
def endsOpen : Content → Bool
  | .text s => styleOf s == .literal && keepsBreaks s.toList
  | .list items => endsOpenItems items
  | .record entries => endsOpenEntries entries
  | _ => false

/-- The last item ends so. -/
def endsOpenItems : List Content → Bool
  | [] => false
  | c :: rest => if rest.isEmpty then endsOpen c else endsOpenItems rest

/-- The last entry ends so. -/
def endsOpenEntries : List (String × Content) → Bool
  | [] => false
  | e :: rest => if rest.isEmpty then endsOpenEntry e else endsOpenEntries rest

/-- The entry ends so. -/
def endsOpenEntry : String × Content → Bool
  | (_, c) => endsOpen c

end

/-- The document of a content. -/
def render (c : Content) : String :=
  String.ofList (c.block 0 ++ (if c.endsOpen then "...\n".toList else []))

end Content

end MisuseSlice.Document
