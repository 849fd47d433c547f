import MisuseSlice.Slicer.State

/-!
Subslices: the slices that a line leads to. A call leads to the slices of the returns of its callee, and the
read of a field to the slices of the writes of the field; from there calls, reads and parameters lead on.
-/
namespace MisuseSlice

/-- Partial slices by a name. -/
abbrev SliceTable := Std.TreeMap String (List PartialSlice)

/-- The slices whose seed can run, by what leads to them (`partialIndex`). -/
structure SliceIndex where
  byCaller : SliceTable := {}
  returns : SliceTable := {}
  writers : SliceTable := {}
  params : SliceTable := {}

namespace SliceIndex

/-- Adds a slice under a name. -/
def addTo (t : SliceTable) (name : String) (p : PartialSlice) : SliceTable :=
  t.insert name (t.getD name [] ++ [p])

/-- Adds a slice. -/
def add (ix : SliceIndex) (p : PartialSlice) : SliceIndex :=
  if p.infeasible then ix
  else
    let ix := { ix with byCaller := addTo ix.byCaller p.caller p }
    match p.kind with
    | .returned => { ix with returns := addTo ix.returns p.caller p }
    | .fieldWrite => { ix with writers := addTo ix.writers p.target p }
    | .parameter => { ix with params := addTo ix.params p.target p }
    | .invoke => ix

/-- The index of a store (`partials`). -/
def ofStore (s : SliceStore) : SliceIndex := s.toList.foldl add {}

/-- The lines of a slice (`partialLines`); the seed of a return or of a field write, which holds the value, ends
them. -/
def linesOf (w : Workspace) (p : PartialSlice) : List SliceLine :=
  if p.kind == .returned || p.kind == .fieldWrite then
    match (w.body? p.caller).bind (·.at? p.start) with
    | some u => p.lines ++ [⟨p.caller, u⟩]
    | none => p.lines
  else p.lines

/-- The slices that a line leads to. -/
def linked (ix : SliceIndex) (l : SliceLine) : List PartialSlice :=
  let u := l.statement
  if u.kind.isInvoke then ix.returns.getD u.signature []
  else if u.kind == .assignVariableField then ix.writers.getD u.fieldSignature []
  else if u.kind == .parameter then ix.params.getD l.caller []
  else []

/-- The lines of the slices that the pending ones lead to, nearest first. -/
def expandFrom (w : Workspace) (ix : SliceIndex) :
    (fuel : Nat) → (pending : List PartialSlice) → (seen : List String) → List (List SliceLine)
  | 0, _, _ => []
  | _, [], _ => []
  | fuel + 1, p :: pending, seen =>
    if seen.contains p.id then expandFrom w ix fuel pending seen
    else
      let lines := linesOf w p
      if lines.isEmpty then expandFrom w ix fuel pending (p.id :: seen)
      else
        lines :: expandFrom w ix fuel (pending ++ lines.reverse.flatMap ix.linked) (p.id :: seen)

/-- Bounds the slices that an expansion looks at: each slice is expanded once. -/
def expandBound (w : Workspace) (ix : SliceIndex) : Nat :=
  ix.byCaller.toList.foldl (fun n (_, ps) =>
    ps.foldl (fun n p => n + ((linesOf w p).flatMap ix.linked).length) n) 0

/-- The lines of the slices that the given ones lead to, those included. -/
def expand (w : Workspace) (ix : SliceIndex) (start : List PartialSlice) : List (List SliceLine) :=
  expandFrom w ix (start.length + ix.expandBound w + 1) start []

end SliceIndex

/-- The expansions, each kept under a text that tells what leads to it. Each is computed when it is first needed. -/
structure Subslices where
  kept : Std.TreeMap String (Thunk (List (List SliceLine)))

namespace Subslices

/-- The text that stands for what a line leads to: for a call the returns of the callee, or all its slices. -/
def key? (l : SliceLine) (all : Bool) : Option String :=
  let u := l.statement
  if u.kind.isInvoke then some ((if all then "all:" else "return:") ++ u.signature)
  else if u.kind == .assignVariableField then some ("field:" ++ u.fieldSignature)
  else none

/-- The tables from which expansions start, each with the mark that stands before its names. -/
def tables (ix : SliceIndex) : List (String × SliceTable) :=
  [("all:", ix.byCaller), ("return:", ix.returns), ("field:", ix.writers)]

/-- The expansions of the slices of a table, under the names of the table behind its mark. -/
def expansions (w : Workspace) (ix : SliceIndex) (mark : String) (t : SliceTable) :
    List (String × Thunk (List (List SliceLine))) :=
  t.toList.map fun e => (mark ++ e.1, Thunk.mk fun _ => ix.expand w e.2)

/-- The expansions of an index. -/
def ofIndex (w : Workspace) (ix : SliceIndex) : Subslices :=
  { kept := .ofList ((tables ix).flatMap fun e => expansions w ix e.1 e.2) }

/-- The expansion that a line leads to. -/
def found (s : Subslices) (l : SliceLine) (all : Bool) : List (List SliceLine) :=
  (((key? l all).bind (s.kept[·]?)).map Thunk.get).getD []

/-- The subslices of a line that share no line with the slice that holds it (`lineSubslices`). For a call they
start at the returns of the callee, or at all its slices. -/
def ofLine (s : Subslices) (l : SliceLine) (slice : List SliceLine) (all : Bool) : List (List SliceLine) :=
  let keys := slice.map (·.key)
  (s.found l all).filter fun sub => !sub.any fun x => keys.contains x.key

end Subslices

end MisuseSlice
