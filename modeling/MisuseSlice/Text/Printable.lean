import MisuseSlice.Text.Category

/-!
Printable characters: letters, marks, numbers, punctuation, symbols and the plain space. Quoted texts show
them as they are and escape the rest.
-/
namespace MisuseSlice.Text

/-- Letters, marks, numbers, punctuation, symbols and the plain space. -/
def isPrintable (c : Char) : Bool :=
  if c.toNat < 0x7F then 0x20 ≤ c.toNat
  else ["L", "M", "N", "P", "S"].any fun group => inCategory group c.toNat

end MisuseSlice.Text
