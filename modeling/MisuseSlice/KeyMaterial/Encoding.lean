import MisuseSlice.Text.Quoted

/-!
Bytes written as text in hexadecimal digits, and texts without their line ends.
-/
namespace MisuseSlice.KeyMaterial

/-- The bytes of pairs of hexadecimal digits. -/
def nibbleBytes : List Nat → Text.Bytes
  | a :: b :: rest => (a * 16 + b).toUInt8 :: nibbleBytes rest
  | _ => []

/-- The bytes of hexadecimal digits; an odd number of them is read with a leading zero. -/
def hex? (cs : List Char) : Option Text.Bytes :=
  if cs.isEmpty then none
  else (cs.mapM Text.hexDigit?).map fun ds => nibbleBytes (if ds.length % 2 = 1 then 0 :: ds else ds)

/-- The text without line ends and without the marks `\r` and `\n` for them. -/
def withoutLineEnds : List Char → List Char
  | '\\' :: 'r' :: rest => withoutLineEnds rest
  | '\\' :: 'n' :: rest => withoutLineEnds rest
  | c :: rest => if c == '\r' || c == '\n' then withoutLineEnds rest else c :: withoutLineEnds rest
  | [] => []

end MisuseSlice.KeyMaterial
