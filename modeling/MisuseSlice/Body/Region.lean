import MisuseSlice.Statement.Basic

/-!
Regions of a method body: the ranges of positions under a branch. A backward branch closes a loop; a
forward `if` skips a range, and where that range ends in a forward `goto` the jump's target ends the
other side of an if/else.
-/
namespace MisuseSlice

/-- What kind of range a branch makes. -/
inductive RegionKind where
  | loop
  | oneSided
  /-- The second side starts at `split`; `both` are the slots that both sides define. -/
  | ifElse (split : Nat) (both : List String)
  deriving DecidableEq, Repr

/-- The positions from `start` to `stop` under a branch. -/
structure Region where
  kind : RegionKind
  start : Int
  stop : Int
  deriving DecidableEq, Repr

namespace Region

/-- The position lies in the region. -/
def contains (r : Region) (pos : Int) : Bool := r.start ≤ pos && pos ≤ r.stop

/-- The distance from the first to the last position. -/
def span (r : Region) : Int := r.stop - r.start

/-- The region is a loop. -/
def isLoop (r : Region) : Bool := r.kind == .loop

/-- The slots that the statements define. -/
def definedSlots (units : List Statement) : List String :=
  (units.map (·.defined)).filterMap fun d => if d.isAbsent then none else some d.text

/-- The statements at the positions from `first` up to and without `last`. -/
def slice (units : List Statement) (first last : Nat) : List Statement :=
  (units.drop first).take (last - first)

/-- The region that the statement at position `i` makes. `none` where the statement points outside
the body, and `some none` where it makes no region. -/
def ofStatement (units : List Statement) (i : Nat) (u : Statement) : Option (Option Region) :=
  match u.kind with
  | .branchIf =>
    if u.target ≤ i then some (some ⟨.loop, u.target, i⟩)
    else
      let t := u.target.toNat
      if t - 1 ≤ i then some none
      else
        match units[t - 1]? with
        | none => none
        | some last =>
          if last.kind == .goto && (t : Int) < last.target then
            let j := last.target.toNat
            if units.length < j then none
            else
              let second := definedSlots (slice units t j)
              let both := (definedSlots (slice units (i + 1) t)).filter second.contains
              some (some ⟨.ifElse t both, i + 1, (j : Int) - 1⟩)
          else some (some ⟨.oneSided, i + 1, (t : Int) - 1⟩)
  | .goto => some (if u.target ≤ i then some ⟨.loop, u.target, i⟩ else none)
  | _ => some none

/-- The regions of the statements from position `i` on (`findRegions`). -/
def ofStatements (units : List Statement) : Nat → List Statement → Option (List Region)
  | _, [] => some []
  | i, u :: rest =>
    match ofStatement units i u, ofStatements units (i + 1) rest with
    | some r, some rs => some (r.toList ++ rs)
    | _, _ => none

/-- The regions of a body in the order of their branches; `none` where a branch points outside it. -/
def all (units : List Statement) : Option (List Region) := ofStatements units 0 units

/-- The index of the region that decides about a definition at `pos`: the first loop that holds the
position, else the smallest region that does, the first of those. -/
def innermost? (regions : List Region) (pos : Nat) : Option (Nat × Region) :=
  let holding := regions.zipIdx.filter fun (r, _) => r.contains pos
  match holding.find? (·.1.isLoop) with
  | some (r, i) => some (i, r)
  | none =>
    holding.foldl (fun best (r, i) =>
      match best with
      | some (_, b) => if r.span < b.span then some (i, r) else best
      | none => some (i, r)) none

end Region

namespace Statement

/-- The slots that the statement reads. -/
def readSlots (u : Statement) : List String :=
  let slots (v : Value) : List String :=
    (if v.isVariable then [v.text] else []) ++ (if v.base != "" then [v.base] else [])
  (if u.kind.definesLocal then (if u.left.base != "" then [u.left.base] else []) else slots u.left) ++
    slots u.right ++ slots u.base ++ slots u.index ++ u.args.flatMap slots

/-- The statement reads the slot. -/
def readsSlot (u : Statement) (slot : String) : Bool := u.readSlots.contains slot

/-- Where the statement may jump. -/
def jumps (u : Statement) : List Int :=
  match u.kind with
  | .branchIf | .goto => [u.target]
  | .switch => u.targets
  | _ => []

end Statement

namespace Region

/-- Follows the accesses to a slot: whether it was defined, and whether it was read since the last
definition. `none` where the slot is read before it is defined. -/
def accesses (slot : String) : List Statement → Bool × Bool → Option (Bool × Bool)
  | [], acc => some acc
  | u :: rest, (wasDefined, wasRead) =>
    let reads := u.readsSlot slot
    if reads && !wasDefined then none
    else if u.defined.text == slot then accesses slot rest (true, false)
    else accesses slot rest (wasDefined, wasRead || reads)

/-- The only branches of the loop are its back edge and exits past its end. -/
def isSimpleLoop (r : Region) (units : List Statement) : Bool :=
  (Region.slice units r.start.toNat (r.stop.toNat + 1)).zipIdx.all fun (u, k) =>
    match u.kind with
    | .branchIf | .goto =>
      (r.start + k == r.stop && u.target == r.start) || decide (r.stop < u.target)
    | .switch => false
    | _ => true

/-- No branch from outside enters the loop past its start. -/
def isEnteredAtStart (r : Region) (units : List Statement) : Bool :=
  units.zipIdx.all fun (u, i) =>
    r.contains i || u.jumps.all fun t => !(decide (r.start < t) && decide (t ≤ r.stop))

/-- The definition of `slot` at `pos` in the loop starts a value that only the rest of the iteration
reads: the loop is simple and entered at its start, the slot is defined before it is read in the loop,
it is read between that definition and `pos`, and it is not read after the loop. -/
def isLoopLocal (r : Region) (units : List Statement) (slot : String) (pos : Nat) : Bool :=
  r.isSimpleLoop units && r.isEnteredAtStart units &&
    (match accesses slot (Region.slice units r.start.toNat pos) (false, false) with
      | some (wasDefined, wasRead) => wasDefined && wasRead
      | none => false) &&
    (match units[pos]? with | some u => !u.readsSlot slot | none => true) &&
    (units.drop (r.stop.toNat + 1)).all fun u => !u.readsSlot slot

end Region

end MisuseSlice
