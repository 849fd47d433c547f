import MisuseSlice.Criterion.Ledger
import MisuseSlice.Slice.CriteriaTree
import MisuseSlice.Slice.Store
import MisuseSlice.Slicer.CallRule

/-!
The state of the slicer. Criteria wait in a queue under tickets. The scan of a criterion goes backward
over a body; at a call into a callee it is suspended until the returns of the callee are sliced, which
tell what arguments of the call matter.
-/
namespace MisuseSlice

/-- Numbers in ascending order, each once. -/
def sortedInts (xs : List Int) : List Int :=
  Sorting.sort (fun a b => decide (a ≤ b)) xs.eraseDups

/-- The backward scan of one criterion (`scanState`). -/
structure Scan where
  criterion : Criterion
  body : Body
  /-- The place in the reversed body of the statement to look at next. -/
  next : Nat
  /-- The values of interest. -/
  targets : ValueSet := {}
  /-- The lines retained, the last one first, so that their positions ascend. -/
  lines : List SliceLine := []
  /-- The position of the statement retained last. -/
  last : Nat
  /-- The targets of the jumps retained. -/
  jumps : List Int := []
  /-- The parameters retained. -/
  params : List Int := []
  /-- The criteria that statements brought about. -/
  spawned : List (Nat × String) := []

namespace Scan

/-- Adds values of interest; constants are none. -/
def track (st : Scan) (vs : List Value) : Scan := { st with targets := CallFlow.track st.targets vs }

/-- Takes a value from those of interest. -/
def untrack (st : Scan) (v : Value) : Scan := { st with targets := st.targets.erase v }

/-- Retains a statement. -/
def retain (st : Scan) (u : Statement) : Scan :=
  { st with lines := ⟨st.criterion.caller, u⟩ :: st.lines, last := u.pos }

/-- The scan at the seed of a criterion. -/
def start (c : Criterion) (b : Body) : Scan :=
  ({ criterion := c, body := b, next := (c.start + 1).toNat, last := c.pos } : Scan).track c.targets

end Scan

/-- A scan suspended at a call (`descent`). -/
structure Suspension where
  scan : Scan
  /-- The arguments that the call made of interest, by position. -/
  added : List (Int × Value) := []
  /-- The return criteria that are not sliced yet. -/
  waiting : List String := []
  /-- The positions of the arguments that matter. -/
  keep : List Int := []

namespace Suspension

/-- Every argument added may matter. -/
def keepAll (d : Suspension) : Suspension := { d with keep := d.added.map (·.1) ++ d.keep }

/-- The values of interest without the added arguments that stand at no position that matters. -/
def narrow (d : Suspension) : Scan :=
  let kept := (d.added.filter fun a => d.keep.contains a.1).map (·.2.text)
  let lost := d.added.filter fun a => !d.keep.contains a.1 && !kept.contains a.2.text
  { d.scan with targets := lost.foldl (fun ts a => ts.erase a.2) d.scan.targets }

/-- A return criterion ended with the given parameters retained. -/
def release (d : Suspension) (id : String) (params : List Int) : Suspension :=
  { d with waiting := d.waiting.filter (· != id), keep := params ++ d.keep }

end Suspension

/-- What happened in the runs of a slicer. -/
structure SliceStats where
  processed : Nat := 0
  /-- Criteria whose slice was known or under way when their turn came. -/
  memoized : Nat := 0
  spawned : Nat := 0
  /-- Criteria dropped with the statement that brought them about. -/
  retracted : Nat := 0
  /-- Criteria whose seed cannot run. -/
  infeasible : Nat := 0
  deriving DecidableEq, Repr, Inhabited

/-- The printed form. -/
def SliceStats.text (s : SliceStats) : String :=
  Text.ofNat s.processed ++ " processed, " ++ Text.ofNat s.memoized ++ " memoized, " ++
    Text.ofNat s.spawned ++ " spawned, " ++ Text.ofNat s.retracted ++ " retracted, " ++
    Text.ofNat s.infeasible ++ " infeasible"

/-- An entry of the queue. -/
inductive Task where
  /-- Slice the criterion of a ticket. -/
  | start (ticket : Nat)
  /-- Go on with a scan. -/
  | resume (scan : Scan)

/-- The state of a slicer (`Slicer`). -/
structure SlicerState where
  ledger : Ledger := {}
  store : SliceStore := {}
  tree : CriteriaTree := {}
  stats : SliceStats := {}
  /-- The criteria of the tickets given out; the ticket of a merged criterion takes the merged one. -/
  tickets : List Criterion := []
  /-- For each criterion in the queue the ticket that stands for it. -/
  queued : Std.TreeMap String Nat := {}
  /-- The criteria whose scan is under way, suspended ones included. -/
  active : List String := []
  /-- The criteria to pass over when their turn comes. -/
  retracted : List String := []
  /-- The suspended scans by criterion. -/
  suspensions : Std.TreeMap String Suspension := {}
  /-- For each return criterion the suspended one that waits for it. -/
  descents : Std.TreeMap String String := {}
  /-- The scans to go on with. -/
  ready : List Scan := []
  /-- The ticket of the last parameter criterion of each call. -/
  pendingParams : Std.TreeMap String Nat := {}
  /-- The positions tracked at each seed statement that can run. -/
  retainedParams : Std.TreeMap String (List Int) := {}

namespace SlicerState

/-- Adds a message. -/
def note (s : SlicerState) (level : LogLevel) (message : String) : SlicerState :=
  { s with ledger := s.ledger.note level message }

/-- Creates criteria in the ledger. -/
def create (s : SlicerState) (w : Workspace) (caller target : String) (kind : SeedKind)
    (positions : List Int) (level : Int) : List Criterion × SlicerState :=
  let (cs, ledger) := s.ledger.create w caller target kind positions level
  (cs, { s with ledger })

/-- The call that a parameter criterion is about. -/
def callKey (c : Criterion) : String := c.caller ++ "#" ++ Text.ofInt c.start

/-- Gives a criterion a ticket. -/
def enqueue (s : SlicerState) (c : Criterion) : Task × SlicerState :=
  let ticket := s.tickets.length
  (.start ticket,
    { s with
      tickets := s.tickets ++ [c]
      queued := s.queued.insert c.id ticket
      retracted := s.retracted.filter (· != c.id)
      pendingParams :=
        if c.kind == .parameter then s.pendingParams.insert (callKey c) ticket else s.pendingParams })

/-- The criterion is in the queue. -/
def isQueued (s : SlicerState) (id : String) : Bool := s.queued.contains id

/-- The scan of the criterion is under way. -/
def isActive (s : SlicerState) (id : String) : Bool := s.active.contains id

/-- Tells a suspended scan that one of its return criteria ended. The flag says whether there is one. -/
def release (s : SlicerState) (id : String) (params : List Int) : SlicerState × Bool :=
  match s.descents[id]? with
  | none => (s, false)
  | some parent =>
    let s := { s with descents := s.descents.erase id }
    match s.suspensions[parent]? with
    | none => (s, true)
    | some d =>
      let d := d.release id params
      if d.waiting.isEmpty then
        ({ s with suspensions := s.suspensions.erase parent, ready := s.ready ++ [d.narrow] }, true)
      else ({ s with suspensions := s.suspensions.insert parent d }, true)

/-- Lets every argument that a suspended call added matter. -/
def keepAll (s : SlicerState) (id : String) : SlicerState :=
  match s.descents[id]? with
  | none => s
  | some parent =>
    match s.suspensions[parent]? with
    | none => s
    | some d => { s with suspensions := s.suspensions.insert parent d.keepAll }

/-- Drops criteria; those in the queue are passed over when their turn comes. -/
def retract (s : SlicerState) (ids : List String) : SlicerState :=
  ids.foldl (fun s id =>
    { s with
      tree := s.tree.remove id
      retracted := if s.isQueued id then id :: s.retracted.filter (· != id) else s.retracted
      stats := { s.stats with retracted := s.stats.retracted + 1 } }) s

/-- Adds the edge of a new criterion to the tree. The flag says whether the criterion has to be queued.
An empty slice was taken from the tree and stays out of it. -/
def link (s : SlicerState) (child : Criterion) (source target : String) (directed : Bool) :
    Bool × SlicerState :=
  if s.store.contains child.id then
    (false,
      if s.tree.contains child.id then { s with tree := s.tree.addEdge source target directed } else s)
  else
    let tree := ((s.tree.add child.id child.level).2).addEdge source target directed
    (!s.isActive child.id && !s.isQueued child.id, { s with tree })

end SlicerState

end MisuseSlice
