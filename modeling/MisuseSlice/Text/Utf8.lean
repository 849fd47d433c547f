/-!
Bytes and characters. A text computed by the analysis may hold bytes that are no UTF-8; it is then
kept as bytes and read as a sequence of runes, each a character or a stray byte.
-/
namespace MisuseSlice.Text

/-- The bytes of a text that need not be valid UTF-8. -/
abbrev Bytes := List UInt8

/-- One step of reading bytes: a character, or a byte that starts none. -/
inductive Rune where
  | char (c : Char)
  | stray (b : UInt8)
  deriving DecidableEq, Repr, Inhabited

/-- The UTF-8 bytes of a character. -/
def encodeChar (c : Char) : Bytes :=
  let n := c.toNat
  if n < 0x80 then [n.toUInt8]
  else if n < 0x800 then [(0xC0 + n / 0x40).toUInt8, (0x80 + n % 0x40).toUInt8]
  else if n < 0x10000 then
    [(0xE0 + n / 0x1000).toUInt8, (0x80 + n / 0x40 % 0x40).toUInt8, (0x80 + n % 0x40).toUInt8]
  else
    [(0xF0 + n / 0x40000).toUInt8, (0x80 + n / 0x1000 % 0x40).toUInt8,
      (0x80 + n / 0x40 % 0x40).toUInt8, (0x80 + n % 0x40).toUInt8]

/-- The UTF-8 bytes of a list of characters. -/
def encode (cs : List Char) : Bytes :=
  cs.flatMap encodeChar

/-- The UTF-8 bytes of a text. -/
def bytesOf (s : String) : Bytes :=
  encode s.toList

/-- A continuation byte's six bits. -/
def tail? (b : UInt8) : Option Nat :=
  if 0x80 ≤ b.toNat ∧ b.toNat ≤ 0xBF then some (b.toNat - 0x80) else none

/-- The character whose encoding starts with `a` and goes on in `rest`, with the number of bytes
that it takes from `rest`. Overlong forms and surrogates are no encodings. -/
def leading? (a : UInt8) (rest : Bytes) : Option (Char × Nat) :=
  let n := a.toNat
  if n < 0x80 then some (Char.ofNat n, 0)
  else if n < 0xC2 then none
  else if n < 0xE0 then
    match rest with
    | b :: _ => (tail? b).map fun x => (Char.ofNat ((n - 0xC0) * 0x40 + x), 1)
    | _ => none
  else if n < 0xF0 then
    match rest with
    | b :: c :: _ =>
      match tail? b, tail? c with
      | some x, some y =>
        let v := (n - 0xE0) * 0x1000 + x * 0x40 + y
        if v < 0x800 ∨ (0xD800 ≤ v ∧ v ≤ 0xDFFF) then none else some (Char.ofNat v, 2)
      | _, _ => none
    | _ => none
  else if n < 0xF5 then
    match rest with
    | b :: c :: d :: _ =>
      match tail? b, tail? c, tail? d with
      | some x, some y, some z =>
        let v := (n - 0xF0) * 0x40000 + x * 0x1000 + y * 0x40 + z
        if v < 0x10000 ∨ 0x10FFFF < v then none else some (Char.ofNat v, 3)
      | _, _, _ => none
    | _ => none
  else none

/-- The runes of a byte sequence, passing over the next `skip` bytes first. -/
def runesFrom : Nat → Bytes → List Rune
  | _, [] => []
  | skip + 1, _ :: rest => runesFrom skip rest
  | 0, a :: rest =>
    match leading? a rest with
    | some (c, more) => .char c :: runesFrom more rest
    | none => .stray a :: runesFrom 0 rest

/-- The runes of a byte sequence. -/
def runes (bs : Bytes) : List Rune :=
  runesFrom 0 bs

/-- The character shown for a rune; a stray byte shows as the replacement character. -/
def Rune.shown : Rune → Char
  | .char c => c
  | .stray _ => Char.ofNat 0xFFFD

/-- The bytes of a rune. -/
def Rune.bytes : Rune → Bytes
  | .char c => encodeChar c
  | .stray b => [b]

/-- The text of a byte sequence without stray bytes. -/
def ofBytes? (bs : Bytes) : Option String :=
  ((runes bs).mapM fun (r : Rune) =>
    match r with
    | .char c => some c
    | .stray _ => none).map String.ofList

/-- The text shown for a byte sequence. -/
def shown (bs : Bytes) : String :=
  String.ofList ((runes bs).map Rune.shown)

end MisuseSlice.Text
