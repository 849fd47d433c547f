import MisuseSlice.Text.Utf8

/-!
Fingerprints: 64-bit hashes of structured data. Bytes are mixed in one after another by a multiplication
and an exclusive or, and the parts of a record by the hashes of their names and values.
-/
namespace MisuseSlice.Fingerprint

/-- Mixes one byte into a hash. -/
def mix (h : UInt64) (b : UInt8) : UInt64 := (h * 1099511628211) ^^^ b.toUInt64

/-- The hash of a sequence of bytes. -/
def ofBytes (bs : List UInt8) : UInt64 := bs.foldl mix 14695981039346656037

/-- The eight bytes of a word, the least first. -/
def wordBytes (n : UInt64) : List UInt8 :=
  (List.range 8).map fun i => (n >>> (8 * i).toUInt64).toUInt8

/-- The hash of a text. -/
def ofText (s : String) : UInt64 := ofBytes (Text.bytesOf s)

/-- The hash of an integer, taken as a machine word. -/
def ofInt (n : Int) : UInt64 := ofBytes (wordBytes (UInt64.ofInt n))

/-- The hash of two hashes in order. -/
def pair (a b : UInt64) : UInt64 := ofBytes (wordBytes a ++ wordBytes b)

/-- The hash of a list of texts. -/
def ofTexts (xs : List String) : UInt64 := xs.foldl (fun h s => pair h (ofText s)) 0

/-- The hash of a record with a name and named parts. -/
def ofRecord (name : String) (parts : List (String × UInt64)) : UInt64 :=
  parts.foldl (fun h (part, value) => ofBytes (wordBytes (h ^^^ pair (ofText part) value))) (ofText name)

/-- A hash in hexadecimal digits. -/
def hex (h : UInt64) : String := String.ofList (Nat.toDigits 16 h.toNat)

end MisuseSlice.Fingerprint
