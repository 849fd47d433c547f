import MisuseSlice.Digraph.Basic
import MisuseSlice.Text.Casing
import MisuseSlice.Text.Quoted

/-!
Graphs in the DOT language: the nodes by their labels, then the edges.
-/
namespace MisuseSlice.Digraph

/-- A word of letters, digits and underscores that does not start with a digit. -/
private def isWordName (cs : List Char) : Bool :=
  let isLetter (c : Char) : Bool := c.isAlpha || c == '_' || 0x80 ≤ c.toNat
  match cs with
  | [] => false
  | c :: rest => isLetter c && rest.all fun d => isLetter d || d.isDigit

/-- A number with an optional minus and an optional point. -/
private def isNumeral (cs : List Char) : Bool :=
  let cs := match cs with | '-' :: r => r | _ => cs
  match cs with
  | '.' :: r => !r.isEmpty && r.all Char.isDigit
  | _ =>
    let whole := cs.takeWhile Char.isDigit
    !whole.isEmpty &&
      (match cs.dropWhile Char.isDigit with
        | [] => true
        | '.' :: r => r.all Char.isDigit
        | _ => false)

/-- A text between double quotes or angle brackets. -/
private def isDelimited (cs : List Char) : Bool :=
  2 ≤ cs.length &&
    ((cs.head? == some '"' && cs.getLast? == some '"') ||
      (cs.head? == some '<' && cs.getLast? == some '>'))

/-- A name as the language writes it: quoted unless it can stand as it is. -/
def dotName (s : String) : String :=
  let isKeyword :=
    ["node", "edge", "graph", "digraph", "subgraph", "strict"].contains (Text.lower s)
  if !isKeyword && (isWordName s.toList || isNumeral s.toList || isDelimited s.toList) then s
  else Text.quote s

/-- The text of a graph with the given name and labels. -/
def dot (g : Digraph) (name : String) (label : Nat → String) : String :=
  let nodes := g.nodes.map fun v => "\n  " ++ dotName (label v) ++ ";"
  let edges := g.edges.map fun (v, w) => "\n  " ++ dotName (label v) ++ " -> " ++ dotName (label w) ++ ";"
  "strict digraph " ++ (if name == "" then "" else dotName name ++ " ") ++ "\x7b" ++
    (if nodes.isEmpty then "" else "\n  // Node definitions." ++ String.join nodes) ++
    (if edges.isEmpty then "" else "\n\n  // Edge definitions." ++ String.join edges) ++ "\n\x7d"

end MisuseSlice.Digraph
