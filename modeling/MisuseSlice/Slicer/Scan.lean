import MisuseSlice.Slicer.State

/-!
The backward scan. A statement that shares a value of interest with the scan is retained, and moves the
values of interest from what it defines to what it reads. Branches are retained where they decide whether
a retained statement runs.
-/
namespace MisuseSlice

namespace Scan

/-- The statement shares a value of interest. -/
def touches (st : Scan) (vs : List Value) : Bool := !(st.targets.common vs).isEmpty

/-- The scan after an `if` (`visitIf`); `none` where it is not retained. A backward one is retained where it
compares a value of interest, a forward one where it jumps over the statement retained last. -/
def atIf (st : Scan) (u : Statement) : Option Scan :=
  if u.target ≤ u.pos then
    if st.touches u.compared then some (st.track u.compared) else none
  else if u.target ≤ st.last then none
  else some (st.track u.compared)

/-- The scan after a `goto` (`visitGoto`); `none` where it is not retained. At the end of a case of a switch the
scan goes on at the switch. -/
def atJump (info : CallInfo) (st : Scan) (u : Statement) : Option Scan :=
  let t := u.target
  if t ≤ u.pos || st.jumps.contains t || t ≤ st.last then none
  else
    let st := { st with jumps := t :: st.jumps }
    match info.switchAt? st.criterion.caller (u.pos + 1) with
    | some p => some (if p < u.pos then { st with next := (st.body.mirror p).toNat } else st)
    | none => some st

/-- The scan after a statement that shares a value of interest and is no branch, no call and no read of a
field; `none` where it is not retained. -/
def atPlain (st : Scan) (u : Statement) : Option Scan :=
  match u.kind with
  | .parameter => some { st with params := u.paramIndex :: st.params }
  | .this | .caughtException => some (st.untrack u.left)
  | .newInstance | .assignVariableConstant =>
    if st.targets.contains u.left then some (st.untrack u.left) else none
  | .newArray => if st.targets.contains u.left then some ((st.untrack u.left).track [u.right]) else none
  | .assignVariableVariable | .cast | .lengthOf | .instanceOf => some ((st.untrack u.left).track [u.right])
  | .assignVariableOperation => some ((st.untrack u.left).track u.args)
  | .assignVariableArray => some ((st.untrack u.left).track [u.base])
  | .assignArrayVariable => some (st.track [u.right])
  | _ => some st

end Scan

/-- What looking at a statement gives: the scan if the statement is retained, the criteria it brings about,
and the suspension of the scan if it waits for some of them. -/
structure Visit where
  retained : Option Scan := none
  spawned : List Criterion := []
  suspension : Option Suspension := none

namespace SlicerState

/-- Links a writer of a field to the node of the field; one that has to be queued joins those found. -/
def linkWriter (node : String) (x : List Criterion × SlicerState) (k : Criterion) :
    List Criterion × SlicerState :=
  let (fresh, s) := x.2.link k node k.id false
  (if fresh then x.1 ++ [k] else x.1, s)

/-- Links the writers of a field that a method holds. -/
def linkWriters (w : Workspace) (field node : String) (level : Int) (x : List Criterion × SlicerState)
    (method : String) : List Criterion × SlicerState :=
  let (writers, s) := x.2.create w method field .fieldWrite [] level
  writers.foldl (linkWriter node) (x.1, s)

/-- The field belongs to an enumeration. -/
def isEnumField (w : Workspace) (field : String) : Bool :=
  match w.program.class? (Signature.className field) with
  | some d => d.isEnum
  | none => false

/-- Links a criterion to the writers of a field in the other methods that access it. -/
def ascendField (s : SlicerState) (w : Workspace) (st : Scan) (u : Statement) : List Criterion × SlicerState :=
  let c := st.criterion
  let level := c.level + 1
  let field := u.fieldSignature
  if w.settings.upperLevel < level || field == "" || isEnumField w field then ([], s)
  else
    let node := "field:" ++ field
    let s := { s with tree := ((s.tree.add node level).2).addEdge c.id node false }
    let methods := (w.graph.accessorSignatures field).filter (· != c.caller)
    methods.foldl (linkWriters w field node level) ([], s)

/-- Adds a return criterion of a callee to the suspension of the caller. -/
def addReturn (s : SlicerState) (d : Suspension) (r : Criterion) : Suspension × SlicerState :=
  let c := d.scan.criterion
  match s.store.get? r.id with
  | some p =>
    ({ d with keep := p.params ++ d.keep },
      if s.tree.contains r.id then { s with tree := s.tree.addEdge c.id r.id true } else s)
  | none =>
    let s := { s with tree := ((s.tree.add r.id r.level).2).addEdge c.id r.id true }
    if s.isActive r.id || s.isQueued r.id then (d.keepAll, s)
    else
      ({ d with waiting := d.waiting ++ [r.id] }, { s with descents := s.descents.insert r.id c.id })

/-- Adds the return criteria of a callee. -/
def addReturns (s : SlicerState) (d : Suspension) (returns : List Criterion) : Suspension × SlicerState :=
  returns.foldl (fun x r => x.2.addReturn x.1 r) (d, s)

/-- The arguments of a call that it made of interest, by position. -/
def argsAdded (before after : ValueSet) (u : Statement) : List (Int × Value) :=
  (u.args.mapIdx fun i a => (Int.ofNat i, a)).filter fun (_, a) => !before.contains a && after.contains a

/-- Slices the returns of the callee of `u`. The scan is suspended while some of them are not sliced, and
otherwise loses the added arguments that do not matter at once. -/
def descend (s : SlicerState) (w : Workspace) (st : Scan) (u : Statement) (before : ValueSet) :
    Visit × SlicerState :=
  let level := st.criterion.level - 1
  let callee := u.signature
  if level < w.settings.lowerLevel || !w.program.isDevClass u.calleeClass ||
      (w.program.statements callee).isEmpty then
    ({ retained := some st }, s)
  else
    let (returns, s) := s.create w callee callee .returned [] level
    if returns.isEmpty then ({ retained := some st }, s)
    else
      let (d, s) := s.addReturns { scan := st, added := argsAdded before st.targets u } returns
      if d.waiting.isEmpty then ({ retained := some d.narrow }, s)
      else
        ({ retained := some st, spawned := returns.filter fun r => d.waiting.contains r.id
           suspension := some d }, s)

/-- Looks at a call. -/
def visitCall (s : SlicerState) (w : Workspace) (rules : List CallRule) (st : Scan) (u : Statement) :
    Visit × SlicerState :=
  let flow : CallFlow :=
    { call := u, seed := st.criterion, targets := st.targets, isDevClass := w.program.isDevClass,
      isTrackedType := w.settings.isTrackedType }
  match flow.apply rules with
  | (.skip, _) => ({}, s)
  | (.retain, ts) => ({ retained := some { st with targets := ts } }, s)
  | (.descend, ts) => s.descend w { st with targets := ts } u st.targets

/-- Looks at a statement (`visitUnit`). -/
def visit (s : SlicerState) (w : Workspace) (rules : List CallRule) (st : Scan) (u : Statement) :
    Visit × SlicerState :=
  match u.kind with
  | .nop | .returnVoid | .returnValue | .throwValue => ({}, s)
  | .branchIf => ({ retained := st.atIf u }, s)
  | .goto => ({ retained := st.atJump w.info u }, s)
  | .switch => ({ retained := some st }, s)
  | _ =>
    if !st.touches u.operands then ({}, s)
    else
      match u.kind with
      | .assignVariableField =>
        let st := st.untrack u.left
        let (spawned, s) := s.ascendField w st u
        ({ retained := some st, spawned }, s)
      | .invoke | .assignInvoke => s.visitCall w rules st u
      | _ => ({ retained := st.atPlain u }, s)

/-- The result of a scan: it ran to the top of the body, or it waits at a call. -/
inductive ScanEnd where
  | complete (scan : Scan)
  | suspended (d : Suspension)

/-- Notes that the statement is retained. -/
def noteRetained (s : SlicerState) (v : Visit) (st : Scan) (u : Statement) : SlicerState :=
  match v.retained with
  | some _ => s.note .trace (st.criterion.id ++ " retains " ++ Text.ofNat u.pos ++ ": " ++ u.text)
  | none => s

end SlicerState

/-- The scan after a retained statement, with the criteria that the statement brought about. -/
def Visit.settle (v : Visit) (u : Statement) (st : Scan) : Scan :=
  { st.retain u with spawned := st.spawned ++ v.spawned.map fun c => (u.pos, c.id) }

namespace SlicerState

/-- Looks at statements backward, at most `fuel` of them. The place of the scan only grows, so as many as
the body has are enough. -/
def scanFrom (w : Workspace) (rules : List CallRule) :
    (fuel : Nat) → SlicerState → Scan → List Criterion → List Criterion × ScanEnd × SlicerState
  | 0, s, st, children => (children, .complete st, s)
  | fuel + 1, s, st, children =>
    match st.body.reversed[st.next]? with
    | none => (children, .complete st, s)
    | some u =>
      let st := { st with next := st.next + 1 }
      let (v, s) := s.visit w rules st u
      let s := s.noteRetained v st u
      let children := children ++ v.spawned
      match v.suspension, v.retained with
      | some d, _ => (children, .suspended { d with scan := v.settle u d.scan }, s)
      | none, some st => scanFrom w rules fuel s (v.settle u st) children
      | none, none => scanFrom w rules fuel s st children

/-- Goes on with a scan to the top of its body or to the next call that it has to wait for. -/
def scan (s : SlicerState) (w : Workspace) (rules : List CallRule) (st : Scan) :
    List Criterion × ScanEnd × SlicerState :=
  scanFrom w rules (st.body.size + 1) s st []

end SlicerState

end MisuseSlice
