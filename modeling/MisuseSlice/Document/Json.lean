import MisuseSlice.Document.Content

/-!
Contents in the notation with braces. Every entry stands on a line of its own, indented by one tab for
each level, and the characters that matter in web pages are escaped.
-/
namespace MisuseSlice.Document.Content

/-- The escape of a character between double quotes. -/
def escapeJson (c : Char) : List Char :=
  let n := c.toNat
  if c == '"' || c == '\\' then ['\\', c]
  else if n == 8 then ['\\', 'b']
  else if n == 12 then ['\\', 'f']
  else if n == 10 then ['\\', 'n']
  else if n == 13 then ['\\', 'r']
  else if n == 9 then ['\\', 't']
  else if n < 0x20 || c == '<' || c == '>' || c == '&' || n == 0x2028 || n == 0x2029 then
    '\\' :: 'u' :: Text.padded 16 4 n
  else [c]

/-- A text between double quotes. -/
def quoteJson (s : String) : List Char := '"' :: s.toList.flatMap escapeJson ++ ['"']

/-- The start of a line at a level. -/
private def lineAt (level : Nat) : List Char := '\n' :: List.replicate level '\t'

mutual

/-- The text of a content that stands at a level. -/
def jsonAt (level : Nat) : Content → List Char
  | .null => "null".toList
  | .truth b => (if b then "true" else "false").toList
  | .integer n => (Text.ofInt n).toList
  | .text s => quoteJson s
  | .binary bs => quoteJson (Text.shown bs)
  | .list items =>
    if items.isEmpty then ['[', ']'] else '[' :: jsonItems (level + 1) items ++ lineAt level ++ [']']
  | .record entries =>
    if entries.isEmpty then ['\x7b', '\x7d']
    else '\x7b' :: jsonEntries (level + 1) entries ++ lineAt level ++ ['\x7d']

/-- The lines of list items. -/
def jsonItems (level : Nat) : List Content → List Char
  | [] => []
  | c :: rest =>
    lineAt level ++ jsonAt level c ++ (if rest.isEmpty then [] else ',' :: jsonItems level rest)

/-- The lines of record entries. -/
def jsonEntries (level : Nat) : List (String × Content) → List Char
  | [] => []
  | e :: rest =>
    lineAt level ++ jsonEntry level e ++ (if rest.isEmpty then [] else ',' :: jsonEntries level rest)

/-- The text of a record entry. -/
def jsonEntry (level : Nat) : String × Content → List Char
  | (key, c) => quoteJson key ++ ':' :: ' ' :: jsonAt level c

end

/-- The content in the notation with braces. -/
def json (c : Content) : String := String.ofList (jsonAt 0 c)

end MisuseSlice.Document.Content
