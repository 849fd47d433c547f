import MisuseSlice.Text.Held

/-!
Packed data: a compact form of nested lists and records. The first byte of an item tells its kind and,
for a short item, its size; larger sizes and numbers follow with their most significant byte first. Every
number and size is written in the shortest way and read in any.
-/
namespace MisuseSlice.Packed

open Text (Bytes)

/-- One piece of packed data. -/
inductive Item where
  | null
  | truth (b : Bool)
  | integer (n : Int)
  /-- A text or other bytes. -/
  | bytes (bs : Bytes)
  | list (items : List Item)
  | record (entries : List (Item × Item))
  /-- An item of another kind, with all its bytes. -/
  | foreign (bs : Bytes)
  deriving Inhabited

/-- A number in `width` bytes. -/
def bigEndian : (width : Nat) → Nat → Bytes
  | 0, _ => []
  | width + 1, n => bigEndian width (n / 256) ++ [(n % 256).toUInt8]

/-- The number that bytes denote. -/
def number (bs : Bytes) : Nat := bs.foldl (fun n b => n * 256 + b.toNat) 0

/-- An integer, in the shortest way. -/
def writeInteger (n : Int) : Bytes :=
  match n with
  | .ofNat m =>
    if m < 0x80 then [m.toUInt8]
    else if m < 0x100 then 0xCC :: bigEndian 1 m
    else if m < 0x10000 then 0xCD :: bigEndian 2 m
    else if m < 0x100000000 then 0xCE :: bigEndian 4 m
    else 0xCF :: bigEndian 8 m
  | .negSucc m =>
    if m < 0x20 then [(0xFF - m).toUInt8]
    else if m < 0x80 then 0xD0 :: bigEndian 1 (0xFF - m)
    else if m < 0x8000 then 0xD1 :: bigEndian 2 (0xFFFF - m)
    else if m < 0x80000000 then 0xD2 :: bigEndian 4 (0xFFFFFFFF - m)
    else 0xD3 :: bigEndian 8 (0xFFFFFFFFFFFFFFFF - m)

/-- The start of a list or record: its kind and size. `code` is that of the form with two bytes of size. -/
def writeSize (short code : Nat) (size : Nat) : Bytes :=
  if size < 16 then [(short + size).toUInt8]
  else if size < 0x10000 then code.toUInt8 :: bigEndian 2 size
  else (code + 1).toUInt8 :: bigEndian 4 size

/-- A text. -/
def writeBytes (bs : Bytes) : Bytes :=
  let size := bs.length
  (if size < 32 then [(0xA0 + size).toUInt8]
    else if size < 0x100 then 0xD9 :: bigEndian 1 size
    else if size < 0x10000 then 0xDA :: bigEndian 2 size
    else 0xDB :: bigEndian 4 size) ++ bs

namespace Item

/-- A text, as the bytes that it holds. -/
def text (s : String) : Item := .bytes (Text.bytesHeld s)

mutual

/-- The packed form of an item. -/
def write : Item → Bytes
  | .null => [0xC0]
  | .truth b => [if b then 0xC3 else 0xC2]
  | .integer n => writeInteger n
  | .bytes bs => writeBytes bs
  | .list items => writeSize 0x90 0xDC items.length ++ writeAll items
  | .record entries => writeSize 0x80 0xDE entries.length ++ writeEntries entries
  | .foreign bs => bs

/-- The packed forms of items. -/
def writeAll : List Item → Bytes
  | [] => []
  | x :: rest => write x ++ writeAll rest

/-- The packed forms of entries. -/
def writeEntries : List (Item × Item) → Bytes
  | [] => []
  | e :: rest => writeEntry e ++ writeEntries rest

/-- The packed form of an entry. -/
def writeEntry : Item × Item → Bytes
  | (key, value) => write key ++ write value

end

/-- Takes a number of bytes. -/
def take? (n : Nat) (bs : Bytes) : Option (Bytes × Bytes) :=
  if bs.length < n then none else some (bs.take n, bs.drop n)

/-- A number in `width` bytes and what follows it. -/
def number? (width : Nat) (bs : Bytes) : Option (Nat × Bytes) :=
  (take? width bs).map fun (digits, rest) => (number digits, rest)

/-- Reads a number of items. -/
def many? (read : Bytes → Option (α × Bytes)) : (count : Nat) → Bytes → Option (List α × Bytes)
  | 0, bs => some ([], bs)
  | count + 1, bs =>
    match read bs with
    | none => none
    | some (x, rest) => (many? read count rest).map fun (xs, rest) => (x :: xs, rest)

/-- Reads two items one after the other. -/
def pair? (read : Bytes → Option (Item × Bytes)) (bs : Bytes) : Option ((Item × Item) × Bytes) :=
  match read bs with
  | none => none
  | some (key, rest) => (read rest).map fun (value, rest) => ((key, value), rest)

/-- An integer in two's complement of a width. -/
def signed (width n : Nat) : Int := if n < Nat.pow 2 (8 * width - 1) then n else (n : Int) - (Nat.pow 2 (8 * width) : Nat)

/-- Reads the first item; `depth` bounds how deep items are nested. -/
def read? : (depth : Nat) → Bytes → Option (Item × Bytes)
  | 0, _ => none
  | _ + 1, [] => none
  | depth + 1, code :: rest =>
    let c := code.toNat
    let unsignedOf (width : Nat) : Option (Item × Bytes) :=
      (number? width rest).map fun (n, rest) => (.integer n, rest)
    let signedOf (width : Nat) : Option (Item × Bytes) :=
      (number? width rest).map fun (n, rest) => (.integer (signed width n), rest)
    let bytesOf (width : Nat) : Option (Item × Bytes) :=
      match number? width rest with
      | none => none
      | some (n, rest) => (take? n rest).map fun (bs, rest) => (.bytes bs, rest)
    let listOf (n : Nat) (rest : Bytes) : Option (Item × Bytes) :=
      (many? (read? depth) n rest).map fun (xs, rest) => (.list xs, rest)
    let recordOf (n : Nat) (rest : Bytes) : Option (Item × Bytes) :=
      (many? (pair? (read? depth)) n rest).map fun (es, rest) => (.record es, rest)
    let foreignOf (n : Nat) : Option (Item × Bytes) :=
      (take? n rest).map fun (bs, rest) => (.foreign (code :: bs), rest)
    let extensionOf (width : Nat) : Option (Item × Bytes) :=
      match number? width rest with
      | none => none
      | some (n, _) => foreignOf (width + 1 + n)
    if c < 0x80 then some (.integer c, rest)
    else if c < 0x90 then recordOf (c - 0x80) rest
    else if c < 0xA0 then listOf (c - 0x90) rest
    else if c < 0xC0 then (take? (c - 0xA0) rest).map fun (bs, rest) => (.bytes bs, rest)
    else if 0xE0 ≤ c then some (.integer ((c : Int) - 0x100), rest)
    else
      match c with
      | 0xC0 => some (.null, rest)
      | 0xC2 => some (.truth false, rest)
      | 0xC3 => some (.truth true, rest)
      | 0xC4 => bytesOf 1
      | 0xC5 => bytesOf 2
      | 0xC6 => bytesOf 4
      | 0xC7 => extensionOf 1
      | 0xC8 => extensionOf 2
      | 0xC9 => extensionOf 4
      | 0xCA => foreignOf 4
      | 0xCB => foreignOf 8
      | 0xCC => unsignedOf 1
      | 0xCD => unsignedOf 2
      | 0xCE => unsignedOf 4
      | 0xCF => signedOf 8
      | 0xD0 => signedOf 1
      | 0xD1 => signedOf 2
      | 0xD2 => signedOf 4
      | 0xD3 => signedOf 8
      | 0xD4 => foreignOf 2
      | 0xD5 => foreignOf 3
      | 0xD6 => foreignOf 5
      | 0xD7 => foreignOf 9
      | 0xD8 => foreignOf 17
      | 0xD9 => bytesOf 1
      | 0xDA => bytesOf 2
      | 0xDB => bytesOf 4
      | 0xDC => (number? 2 rest).bind fun (n, rest) => listOf n rest
      | 0xDD => (number? 4 rest).bind fun (n, rest) => listOf n rest
      | 0xDE => (number? 2 rest).bind fun (n, rest) => recordOf n rest
      | 0xDF => (number? 4 rest).bind fun (n, rest) => recordOf n rest
      | _ => none

/-- The first item of some bytes. -/
def ofBytes? (bs : Bytes) : Option Item := (read? (bs.length + 1) bs).map (·.1)

end Item

end MisuseSlice.Packed
