import MisuseSlice.Criterion.Basic
import MisuseSlice.Slice.Line

/-!
The slices of criteria. A partial slice holds lines of one method; a combined slice joins the partial
slices along a path of calls. The store keeps partial slices in the order in which they came.
-/
namespace MisuseSlice

/-- The slice of one criterion (`Partial`). -/
structure PartialSlice where
  id : String
  caller : String
  target : String
  kind : SeedKind
  /-- The position of the seed. -/
  start : Nat := 0
  positions : List Int := []
  level : Int := 0
  /-- The parameters still tracked at the top of the method. -/
  params : List Int := []
  /-- The seed cannot run; the slice is then empty. -/
  infeasible : Bool := false
  /-- The lines in ascending order. -/
  lines : List SliceLine := []
  deriving DecidableEq, Repr, Inhabited

namespace PartialSlice

/-- No line was retained. -/
def isEmpty (p : PartialSlice) : Bool := p.lines.isEmpty

/-- The positions of the lines. -/
def retained (p : PartialSlice) : List Nat := p.lines.map (·.pos)

/-- The slice without the lines at the given positions. -/
def drop (p : PartialSlice) (positions : List Nat) : PartialSlice :=
  { p with lines := p.lines.filter fun l => !positions.contains l.pos }

end PartialSlice

/-- The slices along one path of criteria (`Combined`). -/
structure CombinedSlice where
  root : String
  /-- The criteria from the top caller down to the root. -/
  path : List String := []
  lines : List SliceLine := []
  deriving DecidableEq, Repr, Inhabited

namespace CombinedSlice

/-- The keys of the lines, sorted, each once. -/
def keys (c : CombinedSlice) : List String := Text.sort (Text.distinct (c.lines.map (·.key)))

/-- Every line of `o` is in `c`. -/
def contains (c o : CombinedSlice) : Bool :=
  let keys := c.lines.map (·.key)
  o.lines.all fun l => keys.contains l.key

/-- The printed statements. -/
def statements (c : CombinedSlice) : List String := c.lines.map (·.code)

end CombinedSlice

/-- The slices recorded (`Store`). -/
structure SliceStore where
  partials : Std.TreeMap String PartialSlice := {}
  /-- The criteria in the order in which their slices came first. -/
  order : List String := []
  combined : Std.TreeMap String (List CombinedSlice) := {}

namespace SliceStore

/-- Records a slice, in place of an earlier one of the criterion. -/
def put (s : SliceStore) (p : PartialSlice) : SliceStore :=
  { s with
    order := if s.partials.contains p.id then s.order else s.order ++ [p.id]
    partials := s.partials.insert p.id p }

/-- The slice of a criterion. -/
def get? (s : SliceStore) (id : String) : Option PartialSlice := s.partials[id]?

/-- The criterion has a slice, which may be empty. -/
def contains (s : SliceStore) (id : String) : Bool := s.partials.contains id

variable {s : SliceStore} {p : PartialSlice} {id : String}

theorem get?_put : (s.put p).get? id = if p.id = id then some p else s.get? id := by
  simp [get?, put, Std.TreeMap.getElem?_insert]

theorem contains_put : (s.put p).contains id = true ↔ p.id = id ∨ s.contains id = true := by
  simp [contains, put, Std.TreeMap.contains_insert]

theorem contains_put_eq_false : (s.put p).contains id = false ↔ p.id ≠ id ∧ s.contains id = false := by
  simp [contains, put, Std.TreeMap.contains_insert]

theorem order_put_of_new (unknown : s.contains p.id = false) : (s.put p).order = s.order ++ [p.id] := by
  simp [put, show s.partials.contains p.id = false from unknown]

theorem order_put_of_known (known : s.contains p.id = true) : (s.put p).order = s.order := by
  simp [put, show s.partials.contains p.id = true from known]

/-- The slices in the order in which they came. -/
def toList (s : SliceStore) : List PartialSlice := s.order.filterMap s.get?

/-- The slices with lines that satisfy a condition. -/
def find (s : SliceStore) (p : PartialSlice → Bool) : List PartialSlice :=
  s.toList.filter fun q => !q.isEmpty && p q

/-- The slices of the returns of a method (`ReturnSlices`). -/
def returnsOf (s : SliceStore) (method : String) : List PartialSlice :=
  s.find fun p => p.kind == .returned && p.caller == method

/-- The slices of the writes of a field (`FieldWriterSlices`). -/
def writersOf (s : SliceStore) (field : String) : List PartialSlice :=
  s.find fun p => p.kind == .fieldWrite && p.target == field

/-- Records the combined slices of a root. -/
def putCombined (s : SliceStore) (root : String) (cs : List CombinedSlice) : SliceStore :=
  { s with combined := s.combined.insert root cs }

/-- The combined slices of a root, once recorded. -/
def combined? (s : SliceStore) (root : String) : Option (List CombinedSlice) := s.combined[root]?

end SliceStore

end MisuseSlice
