import MisuseSlice.Text.Basic

/-!
Tables of a property of code points. Such a property is constant over long runs, so a table is written as
the labels of the runs, each with its length, and the label of a code point is found by bisection.
-/
namespace MisuseSlice.Text

/-- The runs in ascending order: the first code point of each, and its label. -/
structure RunTable where
  starts : Array (Nat × String)

namespace RunTable

/-- The runs that start at `first`. A run is written as a label without digits before a length. -/
def runsFrom : (fuel first : Nat) → List Char → List (Nat × String)
  | 0, _, _ => []
  | _, _, [] => []
  | fuel + 1, first, cs =>
    let label := cs.takeWhile (!·.isDigit)
    let rest := cs.drop label.length
    let digits := rest.takeWhile Char.isDigit
    let length := digits.foldl (fun n d => n * 10 + (d.toNat - 48)) 0
    (first, String.ofList label) :: runsFrom fuel (first + length) (rest.drop digits.length)

/-- The table that a text writes; blanks in it do not count. -/
def ofText (s : String) : RunTable :=
  ⟨(runsFrom s.length 0 (s.toList.filter (!·.isWhitespace))).toArray⟩

/-- The last run between `lo` and `hi` that starts at `n` or before it. -/
def bisect (t : RunTable) (n lo hi : Nat) : Nat :=
  if lo + 1 < hi then
    let mid := (lo + hi) / 2
    match t.starts[mid]? with
    | some (first, _) => if first ≤ n then t.bisect n mid hi else t.bisect n lo mid
    | none => lo
  else lo
termination_by hi - lo

/-- The label of a code point. -/
def label (t : RunTable) (n : Nat) : String :=
  match t.starts[t.bisect n 0 t.starts.size]? with
  | some (_, l) => l
  | none => ""

/-- The labels of the table, each once. -/
def labels (t : RunTable) : List String :=
  (t.starts.toList.map (·.2)).eraseDups

end RunTable

end MisuseSlice.Text
