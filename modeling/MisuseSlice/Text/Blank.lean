import MisuseSlice.Text.Basic

/-!
White space: the characters that trimming removes. They are the ones with the Unicode property
White_Space.
-/
namespace MisuseSlice.Text

/-- The characters with the Unicode property White_Space. -/
def isBlank (c : Char) : Bool :=
  let n := c.toNat
  (9 ≤ n && n ≤ 13) || n == 32 || n == 0x85 || n == 0xA0 || n == 0x1680 ||
    (0x2000 ≤ n && n ≤ 0x200A) || n == 0x2028 || n == 0x2029 || n == 0x202F || n == 0x205F ||
    n == 0x3000

/-- A text without the white space at its ends. -/
def trim (s : String) : String :=
  String.ofList (trimWhere isBlank s.toList)

end MisuseSlice.Text
