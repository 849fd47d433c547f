import MisuseSlice.Text.Casing
import MisuseSlice.Text.Quoted

/-!
The formats of program dumps. The extension of a file tells its format.
-/
namespace MisuseSlice

/-- How a program dump is written. -/
inductive Format where
  /-- A document of readable text. -/
  | readable
  /-- A packed sequence of bytes. -/
  | packed
  deriving DecidableEq, Repr

namespace Format

/-- The extension of a path: what follows the last dot of its last element, with the dot. -/
def extension (path : String) : String :=
  let last := (path.toList.reverse.takeWhile (· != '/'))
  if last.contains '.' then String.ofList ((last.takeWhile (· != '.')).reverse.cons '.') else ""

/-- The format that an extension tells. -/
def ofPath? (path : String) : Option Format :=
  let e := Text.lower (extension path)
  if e == ".yaml" || e == ".yml" || e == ".json" then some .readable
  else if e == ".msgpack" || e == ".mp" then some .packed
  else none

/-- The complaint about a path whose extension tells no format. -/
def unknownMessage (path : String) : String :=
  "unknown program dump extension " ++ Text.quote (extension path) ++
    " (expected .yaml, .yml, .json, .msgpack or .mp)"

/-- The number of a format. -/
def code : Format → Nat
  | readable => 0
  | packed => 1

end Format

end MisuseSlice
