import MisuseSlice.Slicer.Step

/-!
Runs of the slicer. A run takes tasks from the front of the queue until none is left; the criteria that a
step brings about and the scans that it makes ready go to the end.
-/
namespace MisuseSlice.SlicerState

/-- How a run ended. -/
inductive RunEnd where
  | complete
  /-- The analysis was cancelled. -/
  | cancelled
  /-- The limit on criteria was reached. -/
  | limited
  deriving DecidableEq, Repr

/-- Takes the scans that are ready as tasks. -/
def takeReady (s : SlicerState) : List Task × SlicerState := (s.ready.map .resume, { s with ready := [] })

/-- Queues one more criterion. -/
def enqueueOne (x : List Task × SlicerState) (c : Criterion) : List Task × SlicerState :=
  (x.1 ++ [(x.2.enqueue c).1], (x.2.enqueue c).2)

/-- Queues criteria. -/
def enqueueAll (s : SlicerState) (cs : List Criterion) : List Task × SlicerState := cs.foldl enqueueOne ([], s)

/-- Queues a root that is neither sliced nor queued and adds it to the tree. -/
def addRoot (x : List Task × SlicerState) (r : Criterion) : List Task × SlicerState :=
  if x.2.store.contains r.id || x.2.isQueued r.id then
    (x.1, { x.2 with stats := { x.2.stats with memoized := x.2.stats.memoized + 1 } })
  else enqueueOne (x.1, { x.2 with tree := (x.2.tree.add r.id r.level).2 }) r

/-- Queues roots. -/
def addRoots (s : SlicerState) (roots : List Criterion) : List Task × SlicerState := roots.foldl addRoot ([], s)

/-- Takes over the result of a step: new tasks for the end of the queue. -/
def absorb (r : StepResult × SlicerState) : List Task × SlicerState :=
  let (res, s) := r
  let s := { s with stats := { s.stats with spawned := s.stats.spawned + res.children.length } }
  let (tasks, s) := s.enqueueAll res.children
  let s :=
    match res.slice with
    | some p => { s with store := s.store.put p }
    | none => s
  let (more, s) := s.takeReady
  (tasks ++ more, s)

/-- What the next task turns out to be. -/
inductive Turn where
  /-- Nothing is left to do for the task. -/
  | over (s : SlicerState)
  | criterion (c : Criterion) (s : SlicerState)
  | scan (st : Scan)

/-- Looks at the next task. The ticket of a criterion that was queued again or merged into another one
stands for nothing, and a retracted criterion only releases what waits for it. -/
def turn (s : SlicerState) : Task → Turn
  | .resume st => .scan st
  | .start ticket =>
    match s.tickets[ticket]? with
    | none => .over s
    | some c =>
      if s.queued[c.id]? != some ticket then .over s
      else
        let s := { s with queued := s.queued.erase c.id }
        if s.retracted.contains c.id then
          .over ({ s with retracted := s.retracted.filter (· != c.id) }.release c.id []).1
        else .criterion c s

/-- Works on the queue. `done` counts the criteria started in this run. -/
def runFrom (w : Workspace) (rules : List CallRule) :
    (fuel done : Nat) → List Task → SlicerState → RunEnd × SlicerState
  | _, _, [], s => (.complete, s.note .debug ("slicer: " ++ s.stats.text))
  | 0, _, _ :: _, s => (.limited, s)
  | fuel + 1, done, task :: queue, s =>
    if !w.live then (.cancelled, s)
    else
      match s.turn task with
      | .over s =>
        let (more, s) := s.takeReady
        runFrom w rules fuel done (queue ++ more) s
      | .criterion c s =>
        if 0 < w.settings.maxCriteria && w.settings.maxCriteria ≤ done then
          (.limited,
            s.note .warn
              ("criteria limit of " ++ Text.ofInt w.settings.maxCriteria ++ " reached, " ++
                Text.ofNat (queue.length + 1) ++ " criteria left unprocessed"))
        else
          let (more, s) := absorb (s.begin w rules c)
          runFrom w rules fuel (done + 1) (queue ++ more) s
      | .scan st =>
        let (more, s) := absorb (s.resume w rules st)
        runFrom w rules fuel done (queue ++ more) s

/-- Bounds the tasks of a run. A criterion is named by 64 bits and sliced once; its scan is suspended at
most once for each statement of its body. -/
def taskBound (w : Workspace) (roots : Nat) : Nat :=
  roots + 0x10000000000000000 * ((w.size + 2) * (w.spawnBound + 1))

/-- Slices the roots and all criteria that they bring about. -/
def run (s : SlicerState) (w : Workspace) (rules : List CallRule) (roots : List Criterion) :
    RunEnd × SlicerState :=
  let (tasks, s) := s.addRoots roots
  runFrom w rules (taskBound w roots.length) 0 tasks s

end MisuseSlice.SlicerState
