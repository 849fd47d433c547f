import MisuseSlice.Sorting

/-!
Cutting, trimming and joining texts. Every operation here is a function on the list of characters,
so its law is a law of lists; the versions on `String` only convert at the two ends.
-/
namespace MisuseSlice.Text

/-- Removes `front` from the start of a list, if the list starts with it. -/
def dropFront? [BEq α] : List α → List α → Option (List α)
  | [], s => some s
  | _ :: _, [] => none
  | p :: ps, c :: cs => if p == c then dropFront? ps cs else none

/-- Splits a list around the first occurrence of `sep`. -/
def splitFirst? [BEq α] (sep : List α) : List α → Option (List α × List α)
  | [] => if sep.isEmpty then some ([], []) else none
  | c :: cs =>
    match dropFront? sep (c :: cs) with
    | some rest => some ([], rest)
    | none => (splitFirst? sep cs).map fun (before, after) => (c :: before, after)

/-- Splits a list around the last occurrence of `sep`. -/
def splitLast? [BEq α] (sep : List α) (s : List α) : Option (List α × List α) :=
  (splitFirst? sep.reverse s.reverse).map fun (after, before) => (before.reverse, after.reverse)

/-- `pattern` stands in `s` at its start. -/
def startsWith (s pattern : String) : Bool :=
  (dropFront? pattern.toList s.toList).isSome

/-- `pattern` stands in `s` at its end. -/
def endsWith (s pattern : String) : Bool :=
  (dropFront? pattern.toList.reverse s.toList.reverse).isSome

/-- `pattern` stands somewhere in `s`. -/
def contains (s pattern : String) : Bool :=
  (splitFirst? pattern.toList s.toList).isSome

/-- The parts of `s` before and after the first occurrence of `sep`. -/
def cut? (s sep : String) : Option (String × String) :=
  (splitFirst? sep.toList s.toList).map fun (a, b) => (String.ofList a, String.ofList b)

/-- The parts of `s` before and after the last occurrence of `sep`. -/
def cutLast? (s sep : String) : Option (String × String) :=
  (splitLast? sep.toList s.toList).map fun (a, b) => (String.ofList a, String.ofList b)

/-- `s` without `front` at its start; `s` itself where it does not start so. -/
def stripFront (s front : String) : String :=
  match dropFront? front.toList s.toList with
  | some rest => String.ofList rest
  | none => s

/-- Drops the characters at the end that satisfy `p`. -/
def dropEndWhile (p : Char → Bool) (s : List Char) : List Char :=
  (s.reverse.dropWhile p).reverse

/-- Drops the characters at both ends that satisfy `p`. -/
def trimWhere (p : Char → Bool) (s : List Char) : List Char :=
  dropEndWhile p (s.dropWhile p)

/-- The pieces of `s` between the separators `sep`; there is always at least one. -/
def pieces (s : String) (sep : Char) : List String :=
  (s.toList.splitOn sep).map String.ofList

/-- Puts `sep` between the given texts. -/
def joinWith (sep : String) : List String → String
  | [] => ""
  | [a] => a
  | a :: b :: rest => a ++ sep ++ joinWith sep (b :: rest)

/-- The first occurrences of the texts, in order. -/
def distinct (xs : List String) : List String :=
  xs.foldl (fun seen x => if seen.contains x then seen else seen ++ [x]) []

/-- Texts in code point order. -/
def sort (xs : List String) : List String :=
  Sorting.sort (fun a b => decide (a ≤ b)) xs

/-- The decimal text of an integer. -/
def ofInt (n : Int) : String :=
  match n with
  | .ofNat m => String.ofList (Nat.toDigits 10 m)
  | .negSucc m => "-" ++ String.ofList (Nat.toDigits 10 (m + 1))

/-- The decimal text of a natural number. -/
def ofNat (n : Nat) : String :=
  String.ofList (Nat.toDigits 10 n)

/-- The number in base `base` written with at least `width` digits, with leading zeros. -/
def padded (base width n : Nat) : List Char :=
  let digits := Nat.toDigits base n
  List.replicate (width - digits.length) '0' ++ digits

end MisuseSlice.Text
