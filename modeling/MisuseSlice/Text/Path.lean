import MisuseSlice.Text.Basic

/-!
Slash-separated paths. Cleaning a path drops empty and `.` elements and lets `..` take away the element
before it.
-/
namespace MisuseSlice.Text.Path

/-- The path starts at the root. -/
def isAbsolute (p : String) : Bool := startsWith p "/"

/-- Adds one element to the cleaned elements, which are held last first. -/
private def addElement (absolute : Bool) (done : List String) (e : String) : List String :=
  if e == "" || e == "." then done
  else if e == ".." then
    match done with
    | [] => if absolute then [] else [".."]
    | d :: rest => if d == ".." then ".." :: done else rest
  else e :: done

/-- The shortest path with the same meaning. -/
def clean (p : String) : String :=
  let absolute := isAbsolute p
  let elements := ((pieces p '/').foldl (addElement absolute) []).reverse
  let body := joinWith "/" elements
  if absolute then "/" ++ body else if body == "" then "." else body

/-- The directory of a path. -/
def directory (p : String) : String :=
  match cutLast? p "/" with
  | some (front, _) => clean (front ++ "/")
  | none => "."

/-- The path of `name` in a directory. -/
def join (dir name : String) : String :=
  let parts := [dir, name].filter (· != "")
  if parts.isEmpty then "" else clean (joinWith "/" parts)

/-- The last element of a path. -/
def base (p : String) : String :=
  if p == "" then "."
  else
    let trimmed := dropEndWhile (· == '/') p.toList
    if trimmed.isEmpty then "/"
    else String.ofList ((trimmed.reverse.takeWhile (· != '/')).reverse)

end MisuseSlice.Text.Path
