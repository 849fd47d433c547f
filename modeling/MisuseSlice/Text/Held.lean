import MisuseSlice.Text.Utf8

/-!
Texts that hold any bytes. A dump can have texts that are no UTF-8, and a converted dump keeps their bytes. Such
a text is held with a stand-in for each stray byte: the last 256 characters stand for the bytes in their order. A
text that has one of these characters itself is held with stand-ins for the bytes of the character.
-/
namespace MisuseSlice.Text

/-- The character that stands for a byte. -/
def standIn (b : UInt8) : Char := Char.ofNat (0x10FF00 + b.toNat)

/-- The byte that a character stands for. -/
def byteOf? (c : Char) : Option UInt8 :=
  if 0x10FF00 ≤ c.toNat then some (c.toNat - 0x10FF00).toUInt8 else none

/-- The characters that hold a rune. -/
def Rune.held : Rune → List Char
  | .char c => if (byteOf? c).isSome then (encodeChar c).map standIn else [c]
  | .stray b => [standIn b]

/-- The text that holds bytes. -/
def holding (bs : Bytes) : String := String.ofList ((runes bs).flatMap Rune.held)

/-- The bytes that a character of a held text is made from. -/
def bytesOfHeld (c : Char) : Bytes :=
  match byteOf? c with
  | some b => [b]
  | none => encodeChar c

/-- The bytes that a text holds. -/
def bytesHeld (s : String) : Bytes := s.toList.flatMap bytesOfHeld

/-- The text shown for a text that holds bytes. -/
def shownHeld (s : String) : String := shown (bytesHeld s)

end MisuseSlice.Text
