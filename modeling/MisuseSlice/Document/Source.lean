import MisuseSlice.Text.Utf8

/-!
The characters of a document. A document is a sequence of bytes in UTF-8, or in UTF-16 after a mark of byte
order, and is taken in block by block. A byte that is part of no character, or a character that no document
may hold, makes its block unreadable and with it all that follows; this matters only to a reader that gets
there.
-/
namespace MisuseSlice.Document

open Text (Bytes)

/-- Characters that a document may hold. -/
def isAllowed (c : Char) : Bool :=
  let n := c.toNat
  n == 9 || n == 10 || n == 13 || (0x20 ≤ n && n ≤ 0x7E) || n == 0x85 ||
    (0xA0 ≤ n && n ≤ 0xD7FF) || (0xE000 ≤ n && n ≤ 0xFFFD) || 0x10000 ≤ n

/-- How characters are written in bytes. -/
inductive Encoding where
  | utf8
  | utf16 (littleEndian : Bool)
  deriving DecidableEq, Repr

/-- The number of bytes of the UTF-8 character that a byte starts; zero if it starts none. -/
def leadWidth (b : UInt8) : Nat :=
  if b < 0x80 then 1 else if b / 32 == 6 then 2 else if b / 16 == 14 then 3 else if b / 8 == 30 then 4 else 0

namespace Encoding

/-- The unit of two bytes. -/
private def unit (littleEndian : Bool) (a b : UInt8) : Nat :=
  if littleEndian then b.toNat * 256 + a.toNat else a.toNat * 256 + b.toNat

/-- The number of bytes that the first character has, and the character, if the bytes write one. -/
def first (e : Encoding) (bs : Bytes) : Nat × Option Char :=
  match e, bs with
  | _, [] => (1, none)
  | .utf8, b :: rest => (leadWidth b, (Text.leading? b rest).map (·.1))
  | .utf16 le, a :: b :: rest =>
    let high := unit le a b
    if 0xD800 ≤ high && high < 0xDC00 then
      match rest with
      | c :: d :: _ =>
        let low := unit le c d
        let n := 0x10000 + (high - 0xD800) * 0x400 + (low - 0xDC00)
        (4, if 0xDC00 ≤ low && low < 0xE000 then some (Char.ofNat n) else none)
      | _ => (4, none)
    else (2, if 0xDC00 ≤ high && high < 0xE000 then none else some (Char.ofNat high))
  | .utf16 _, _ => (2, none)

end Encoding

/-- The readable characters of a document, and whether they are all that it has. -/
structure Source where
  chars : List Char
  complete : Bool
  /-- The number of characters in the first block, if it starts with a second mark of byte order. Such a mark is
  looked for at the start of each line, but always found in the first place. -/
  marked : Nat := 0

namespace Source

/-- The number of bytes of a block. -/
def blockSize : Nat := 512

/-- Reads characters after passing over `skip` bytes. The block has room for `room` more bytes; a character
that does not fit into it starts the next one. Those of the current block and of the blocks before it are
collected last first. -/
def readFrom (e : Encoding) (skip room : Nat) (done current : List Char) : Bytes → Source
  | [] => { chars := (current ++ done).reverse, complete := true }
  | b :: rest =>
    match skip with
    | skip + 1 => readFrom e skip room done current rest
    | 0 =>
      let (width, c) := e.first (b :: rest)
      let fits := width ≤ room && width ≤ (rest.take width).length + 1
      let room := if fits then room else blockSize
      let done := if fits then done else current ++ done
      let current := if fits then current else []
      match c with
      | some c =>
        if isAllowed c then readFrom e (width - 1) (room - width) done (c :: current) rest
        else { chars := done.reverse, complete := false }
      | none => { chars := done.reverse, complete := false }

/-- The characters after a mark of byte order of `width` bytes. -/
def afterMark (e : Encoding) (width : Nat) (bs : Bytes) : Source :=
  let room := blockSize - width
  let s := readFrom e 0 room [] [] bs
  if s.chars.head? == some (Char.ofNat 0xFEFF) then
    { s with marked := (readFrom e 0 room [] [] (bs.take room)).chars.length }
  else s

/-- The characters of a document; a mark of byte order at its start is not one of them. -/
def ofBytes (bs : Bytes) : Source :=
  match bs with
  | 0xEF :: 0xBB :: 0xBF :: rest => afterMark .utf8 3 rest
  | 0xFF :: 0xFE :: rest => afterMark (.utf16 true) 2 rest
  | 0xFE :: 0xFF :: rest => afterMark (.utf16 false) 2 rest
  | _ => readFrom .utf8 0 blockSize [] [] bs

end Source

end MisuseSlice.Document
