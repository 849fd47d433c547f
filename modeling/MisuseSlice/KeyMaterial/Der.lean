import MisuseSlice.Text.Utf8

/-!
Distinguished encodings: elements of a tag, a length and that many bytes. Lengths and integers have one
encoding each, the shortest.
-/
namespace MisuseSlice.KeyMaterial.Der

/-- The number that bytes denote, the most significant first. -/
def number (bs : Text.Bytes) : Nat := bs.foldl (fun n b => n * 256 + b.toNat) 0

/-- A length and what follows it. -/
def length? : Text.Bytes → Option (Nat × Text.Bytes)
  | [] => none
  | b :: rest =>
    if b < 0x80 then some (b.toNat, rest)
    else
      let count := b.toNat - 0x80
      let digits := rest.take count
      let n := number digits
      if count = 0 || digits.length < count || digits.head? == some 0 || n < 0x80 || 0x80000000 ≤ n then none
      else some (n, rest.drop count)

/-- What follows a tag number that does not fit into the first byte. It has up to five digits of base 128 and
no leading zero. -/
def afterTagNumber? (bs : Text.Bytes) : Option Text.Bytes :=
  let leading := (bs.take 5).takeWhile (0x80 ≤ ·)
  match bs.drop leading.length with
  | [] => none
  | last :: rest =>
    let n := (leading ++ [last]).foldl (fun n b => n * 128 + b.toNat % 128) 0
    if leading.length = 5 || leading.head? == some 0x80 || n < 31 || 0x80000000 ≤ n then none else some rest

/-- The first byte of an element, the length of its content, and what follows them. -/
def header? : Text.Bytes → Option (UInt8 × Nat × Text.Bytes)
  | [] => none
  | tag :: rest =>
    ((if tag % 32 == 31 then afterTagNumber? rest else some rest).bind length?).map fun (n, body) =>
      (tag, n, body)

/-- The tag of the first element, its content and what follows it. -/
def element? (bs : Text.Bytes) : Option (UInt8 × Text.Bytes × Text.Bytes) :=
  match header? bs with
  | some (tag, n, body) => if body.length < n then none else some (tag, body.take n, body.drop n)
  | none => none

/-- The content of the first element, which has the given tag, and what follows it. -/
def expect? (tag : UInt8) (bs : Text.Bytes) : Option (Text.Bytes × Text.Bytes) :=
  match element? bs with
  | some (t, content, rest) => if t == tag then some (content, rest) else none
  | none => none

/-- The content of the first element if it has the given tag, and what follows it; an element with another
tag is left where it is. -/
def optional? (tag : UInt8) (bs : Text.Bytes) : Option (Option Text.Bytes × Text.Bytes) :=
  if bs.isEmpty then some (none, bs)
  else
    match header? bs with
    | none => none
    | some (t, _, _) =>
      if t != tag then some (none, bs) else (expect? tag bs).map fun (content, rest) => (some content, rest)

/-- A sequence. -/
def sequence? : Text.Bytes → Option (Text.Bytes × Text.Bytes) := expect? 0x30

/-- The integer of a content, in two's complement. -/
def integerOf? (content : Text.Bytes) : Option Int :=
  let n : Int := number content
  match content with
  | [] => none
  | [a] => some (if a < 0x80 then n else n - 256)
  | a :: b :: _ =>
    if (a == 0 && b < 0x80) || (a == 0xFF && 0x80 ≤ b) then none
    else some (if a < 0x80 then n else n - (Nat.pow 256 content.length : Nat))

/-- An integer. -/
def integer? (bs : Text.Bytes) : Option (Int × Text.Bytes) :=
  (expect? 2 bs).bind fun (content, rest) => (integerOf? content).map (·, rest)

/-- An integer of at most eight bytes. -/
def word? (bs : Text.Bytes) : Option (Int × Text.Bytes) :=
  (expect? 2 bs).bind fun (content, rest) =>
    if 8 < content.length then none else (integerOf? content).map (·, rest)

/-- An integer that may be missing. -/
def optionalInteger? (bs : Text.Bytes) : Option (Option Int × Text.Bytes) :=
  match optional? 2 bs with
  | some (some content, rest) => (integerOf? content).map fun n => (some n, rest)
  | some (none, rest) => some (none, rest)
  | none => none

/-- The bits of a content as bytes, the first filled up with zeros. The first byte of the content counts the
bits at the end that are not part of them, which are zero. -/
def bits? : Text.Bytes → Option Text.Bytes
  | [] => none
  | unused :: bytes =>
    let k := unused.toNat
    let n := number bytes
    if 7 < k || (bytes.isEmpty && 0 < k) || n % Nat.pow 2 k != 0 then none
    else some ((List.range bytes.length).reverse.map fun i => (n / Nat.pow 2 k / Nat.pow 256 i).toUInt8)

/-- Reads elements up to the end of the bytes. -/
def many? (f : Text.Bytes → Option (α × Text.Bytes)) : (fuel : Nat) → Text.Bytes → Option (List α)
  | _, [] => some []
  | 0, _ => none
  | fuel + 1, bs =>
    match f bs with
    | some (a, rest) => (many? f fuel rest).map (a :: ·)
    | none => none

end MisuseSlice.KeyMaterial.Der
