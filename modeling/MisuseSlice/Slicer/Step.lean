import MisuseSlice.Body.Relevance
import MisuseSlice.Slicer.Scan

/-!
One step of the slicer: a criterion is started, or a suspended scan goes on. A scan that reaches the top of
its body gives a partial slice; the parameters still tracked there are looked for in the callers.
-/
namespace MisuseSlice.SlicerState

/-- The criterion that tracks the arguments of two criteria of one call. -/
def merged (old k : Criterion) : Criterion :=
  { old.withTargets (old.targets ++ k.targets) with
    positions := sortedInts (old.positions ++ k.positions) }

/-- Puts a criterion in the place of the one that a ticket stands for; it takes over its edges. -/
def replaceTicket (s : SlicerState) (ticket : Nat) (old new : Criterion) : SlicerState :=
  let tree := (s.tree.add new.id new.level).2
  let tree := (tree.calleesOf old.id).foldl (fun t c => t.addEdge new.id c true) tree
  let s :=
    { s with
      ledger := s.ledger.registerAll [new]
      tree := tree.remove old.id
      queued := (s.queued.erase old.id).insert new.id ticket
      tickets := s.tickets.set ticket new }
  s.note .debug ("merged parameter criteria of " ++ new.caller ++ " at " ++ Text.ofNat new.pos)

/-- Merges a parameter criterion into the queued one of the same call, which then tracks the arguments of
both. The flag is false where there is none. -/
def mergePending (s : SlicerState) (k callee : Criterion) : Bool × SlicerState :=
  match s.pendingParams[callKey k]? with
  | none => (false, s)
  | some ticket =>
    match s.tickets[ticket]? with
    | none => (false, s)
    | some old =>
      if s.queued[old.id]? != some ticket || old.id == k.id then (false, s)
      else
        let new := merged old k
        let s := if new.id == old.id then s else s.replaceTicket ticket old new
        (true, { s with tree := s.tree.addEdge new.id callee.id true })

/-- The methods whose callers may call the method: itself, and the method of a super type that it
implements. -/
def calledAs (w : Workspace) (method : String) : List String :=
  match (w.graph.number? method).bind w.graph.node? with
  | some n => if n.bridge == "" then [method] else [method, n.bridge]
  | none => [method]

/-- The methods of the developer that call a method, with the method that they call it as. -/
def callSites (w : Workspace) (method : String) : List (String × String) :=
  (calledAs w method).flatMap fun target =>
    ((w.graph.callerSignatures target).filter fun caller =>
      caller != method && w.program.isDevClass (Signature.className caller) &&
        !(w.program.statements caller).isEmpty).map fun caller => (caller, target)

/-- Takes in the criterion of a call of the method of `c`: it is merged or linked, and joins those found
where it has to be queued. -/
def ascendCall (c : Criterion) (x : List Criterion × SlicerState) (k : Criterion) :
    List Criterion × SlicerState :=
  let (done, s) := x.2.mergePending k c
  if done then (x.1, s)
  else
    let (fresh, s) := s.link k k.id c.id true
    (if fresh then x.1 ++ [k] else x.1, s)

/-- Takes in the criteria of the calls that one method holds. -/
def ascendSite (w : Workspace) (c : Criterion) (params : List Int) (x : List Criterion × SlicerState)
    (site : String × String) : List Criterion × SlicerState :=
  let (ks, s) := x.2.create w site.1 site.2 .parameter params (c.level + 1)
  ks.foldl (ascendCall c) (x.1, s)

/-- Creates the criteria of the calls of a method that retained parameters. -/
def ascendParams (s : SlicerState) (w : Workspace) (c : Criterion) (params : List Int) :
    List Criterion × SlicerState :=
  if w.settings.upperLevel < c.level + 1 then ([], s)
  else (callSites w c.caller).foldl (ascendSite w c params) ([], s)

/-- The positions to drop from the lines of a scan: those that cannot run given the constants among the
lines, and, for a scan that brought about criteria, those of no use. -/
def droppedFrom (w : Workspace) (st : Scan) (lines : List SliceLine) : List Nat :=
  let infeasible := (st.body.infeasible w.live (lines.map fun l => Int.ofNat l.pos) {}).1
  if w.settings.pruneUseless && !st.spawned.isEmpty then
    infeasible ++ Relevance.useless (st.body.at? st.criterion.pos) (lines.map (·.statement))
  else infeasible

/-- Records the positions tracked at a seed that can run; a criterion whose slice says nothing leaves the
tree. -/
def recordSlice (s : SlicerState) (c : Criterion) (p : PartialSlice) : SlicerState :=
  { s with
    retainedParams :=
      if p.infeasible then s.retainedParams
      else
        s.retainedParams.insert c.statement
          (sortedInts (s.retainedParams.getD c.statement [] ++ c.positions))
    tree :=
      if p.infeasible || (p.isEmpty && !c.targets.any (·.isConstant)) then s.tree.remove c.id else s.tree }

/-- Ends a criterion with its partial slice. -/
def settle (s : SlicerState) (w : Workspace) (c : Criterion) (p : PartialSlice) :
    PartialSlice × List Criterion × SlicerState :=
  let (s, waited) := (s.recordSlice c p).release c.id p.params
  if waited || p.params.isEmpty then (p, [], s)
  else
    let (children, s) := s.ascendParams w c p.params
    (p, children, s)

/-- The partial slice of a criterion without lines. -/
def emptySlice (c : Criterion) : PartialSlice :=
  { id := c.id, caller := c.caller, target := c.target, kind := c.kind, start := c.pos,
    positions := c.positions, level := c.level }

/-- The parameters that the statements at the given positions bind. -/
def boundAt (b : Body) (positions : List Nat) : List Int :=
  positions.filterMap fun p =>
    match b.at? p with
    | some u => if u.kind == .parameter then some u.paramIndex else none
    | none => none

/-- Ends a complete scan: lines that cannot run or are of no use are dropped, and with them the criteria
that they brought about and the parameters that they bind. -/
def finish (s : SlicerState) (w : Workspace) (st : Scan) : PartialSlice × List Criterion × SlicerState :=
  let c := st.criterion
  let s := { s with active := s.active.filter (· != c.id) }
  let lines := SliceLine.sort st.lines
  let dropped := (droppedFrom w st lines).eraseDups
  let unbound := boundAt st.body dropped
  let s := s.retract (dropped.flatMap fun p => (st.spawned.filter (·.1 == p)).map (·.2))
  let p := { emptySlice c with lines }.drop dropped
  s.settle w c { p with params := sortedInts (st.params.filter (!unbound.contains ·)) }

/-- What a step gives besides the state. -/
structure StepResult where
  children : List Criterion := []
  slice : Option PartialSlice := none

/-- Goes on with a scan. -/
def resume (s : SlicerState) (w : Workspace) (rules : List CallRule) (st : Scan) : StepResult × SlicerState :=
  match s.scan w rules st with
  | (children, .suspended d, s) =>
    ({ children }, { s with suspensions := s.suspensions.insert st.criterion.id d })
  | (children, .complete st, s) =>
    let (p, more, s) := s.finish w st
    ({ children := children ++ more, slice := some p }, s)

/-- Ends a criterion that is not scanned. -/
def close (s : SlicerState) (w : Workspace) (c : Criterion) (infeasible : Bool) : StepResult × SlicerState :=
  let (p, children, s) := s.settle w c { emptySlice c with infeasible }
  ({ children, slice := some p }, s)

/-- Passes over a criterion that is known or under way; what waits for it goes on. -/
def passOver (s : SlicerState) (c : Criterion) : SlicerState :=
  let s := { s with stats := { s.stats with memoized := s.stats.memoized + 1 } }
  match s.store.get? c.id with
  | some p => (s.release c.id p.params).1
  | none => ((s.keepAll c.id).release c.id []).1

/-- Starts a criterion (`step`). One that is known or under way is not sliced again. -/
def begin (s : SlicerState) (w : Workspace) (rules : List CallRule) (c : Criterion) :
    StepResult × SlicerState :=
  if s.store.contains c.id || s.isActive c.id then ({}, s.passOver c)
  else
    let s := { s with stats := { s.stats with processed := s.stats.processed + 1 } }
    let (body, ledger) := s.ledger.openBody w c.caller
    let s := { s with ledger }
    match body with
    | none => s.close w c false
    | some b =>
      if b.size ≤ c.pos then s.close w c false
      else if b.dead.contains c.pos then
        let s := { s with stats := { s.stats with infeasible := s.stats.infeasible + 1 } }
        (s.note .debug ("seed " ++ Text.quote c.statement ++ " of " ++ c.caller ++ " is infeasible")).close w c
          true
      else { s with active := c.id :: s.active }.resume w rules (.start c b)

end MisuseSlice.SlicerState
