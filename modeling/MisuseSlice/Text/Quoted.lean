import MisuseSlice.Text.Utf8
import MisuseSlice.Text.Printable

/-!
Quoted texts. A quoted text stands between double quotes and shows every character that is not
printable by an escape; `quote` writes one and `unquote?` reads one. Reading also accepts texts
between back quotes, which have no escapes, and a single character between single quotes.
-/
namespace MisuseSlice.Text

/-- The escape of a character inside a text delimited by `delimiter`. -/
def escapeChar (delimiter c : Char) : List Char :=
  if c = delimiter ∨ c = '\\' then ['\\', c]
  else if isPrintable c then [c]
  else
    let n := c.toNat
    if n = 7 then ['\\', 'a']
    else if n = 8 then ['\\', 'b']
    else if n = 12 then ['\\', 'f']
    else if n = 10 then ['\\', 'n']
    else if n = 13 then ['\\', 'r']
    else if n = 9 then ['\\', 't']
    else if n = 11 then ['\\', 'v']
    else if n < 0x20 ∨ n = 0x7F then '\\' :: 'x' :: padded 16 2 n
    else if n < 0x10000 then '\\' :: 'u' :: padded 16 4 n
    else '\\' :: 'U' :: padded 16 8 n

/-- The escape of a rune; a stray byte is written by its two digits. -/
def escapeRune (delimiter : Char) : Rune → List Char
  | .char c => escapeChar delimiter c
  | .stray b => '\\' :: 'x' :: padded 16 2 b.toNat

/-- A byte sequence between double quotes. -/
def quoteBytes (bs : Bytes) : String :=
  String.ofList ('"' :: (runes bs).flatMap (escapeRune '"') ++ ['"'])

/-- A text between double quotes. -/
def quote (s : String) : String :=
  String.ofList ('"' :: s.toList.flatMap (escapeChar '"') ++ ['"'])

/-- The value of a hexadecimal digit. -/
def hexDigit? (c : Char) : Option Nat :=
  if '0' ≤ c ∧ c ≤ '9' then some (c.toNat - 48)
  else if 'a' ≤ c ∧ c ≤ 'f' then some (c.toNat - 87)
  else if 'A' ≤ c ∧ c ≤ 'F' then some (c.toNat - 55)
  else none

/-- Reads exactly `count` hexadecimal digits. -/
def hexDigits? : (count : Nat) → Nat → List Char → Option (Nat × List Char)
  | 0, value, rest => some (value, rest)
  | _ + 1, _, [] => none
  | count + 1, value, c :: rest =>
    match hexDigit? c with
    | some d => hexDigits? count (value * 16 + d) rest
    | none => none

/-- The code point is that of a character: in range and no surrogate. -/
def isScalar (n : Nat) : Bool :=
  n < 0xD800 || (0xDFFF < n && n ≤ 0x10FFFF)

/-- The value of an octal digit. -/
private def octalDigit? (c : Char) : Option Nat :=
  if '0' ≤ c ∧ c ≤ '7' then some (c.toNat - 48) else none

/-- Reads what follows a backslash: the bytes that it stands for and the rest of the text. -/
def unescape? (delimiter : Char) : List Char → Option (Bytes × List Char)
  | [] => none
  | c :: rest =>
    match c with
    | 'a' => some ([7], rest)
    | 'b' => some ([8], rest)
    | 'f' => some ([12], rest)
    | 'n' => some ([10], rest)
    | 'r' => some ([13], rest)
    | 't' => some ([9], rest)
    | 'v' => some ([11], rest)
    | '\\' => some ([92], rest)
    | 'x' => (hexDigits? 2 0 rest).map fun (v, r) => ([v.toUInt8], r)
    | 'u' =>
      match hexDigits? 4 0 rest with
      | some (v, r) => if isScalar v then some (encodeChar (Char.ofNat v), r) else none
      | none => none
    | 'U' =>
      match hexDigits? 8 0 rest with
      | some (v, r) => if isScalar v then some (encodeChar (Char.ofNat v), r) else none
      | none => none
    | _ =>
      if c = '\'' ∨ c = '"' then
        if c = delimiter then some (encodeChar c, rest) else none
      else
        match octalDigit? c, rest with
        | some a, d :: e :: r =>
          match octalDigit? d, octalDigit? e with
          | some b, some o =>
            let v := a * 64 + b * 8 + o
            if v ≤ 255 then some ([v.toUInt8], r) else none
          | _, _ => none
        | _, _ => none

/-- Reads the next character or escape of a quoted text. A line may not end inside one. -/
def unquoteStep? (delimiter : Char) : List Char → Option (Bytes × List Char)
  | [] => none
  | c :: rest =>
    if c = delimiter ∨ c = '\n' then none
    else if c = '\\' then unescape? delimiter rest
    else some (encodeChar c, rest)

/-- Reads up to the closing delimiter, which must end the text; `fuel` bounds the characters. -/
def unquoteTo? (delimiter : Char) : (fuel : Nat) → List Char → Option Bytes
  | 0, _ => none
  | _ + 1, [] => none
  | fuel + 1, c :: rest =>
    if c = delimiter then (if rest.isEmpty then some [] else none)
    else
      match unquoteStep? delimiter (c :: rest) with
      | some (bs, more) => (unquoteTo? delimiter fuel more).map (bs ++ ·)
      | none => none

/-- The content of a quoted text, or `none` where the text is not properly quoted. -/
def unquote? (s : String) : Option Bytes :=
  match s.toList with
  | '"' :: rest => unquoteTo? '"' (rest.length + 1) rest
  | '`' :: rest =>
    match splitFirst? ['`'] rest with
    | some (content, []) => some (encode (content.filter (· ≠ '\r')))
    | _ => none
  | '\'' :: rest =>
    if rest = ['\''] then some []
    else
      match unquoteStep? '\'' rest with
      | some (bs, ['\'']) => some bs
      | _ => none
  | _ => none

end MisuseSlice.Text
