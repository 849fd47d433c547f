import MisuseSlice.Report.Basic
import MisuseSlice.Rule.Check
import MisuseSlice.Slicer.Merge
import MisuseSlice.Slicer.Run

/-!
An analysis of one program: the calls that the rules name are sliced, the slices of each feasible seed are
merged, and the rules are checked on them.
-/
namespace MisuseSlice

/-- An analysis under way. -/
structure Analysis where
  settings : Settings
  /-- False once the analysis was cancelled. -/
  live : Bool := true
  rules : List Rule := []
  /-- The path of the program dump; empty where the program comes from elsewhere. -/
  input : String := ""
  /-- The program made ready, once it is. -/
  workspace : Option Workspace := none
  slicer : SlicerState := {}
  /-- The root criteria of the last run. -/
  seeds : List Criterion := []
  /-- The number of combined slices checked in the last run. -/
  combined : Nat := 0
  /-- Messages about what was left out without stopping the analysis. -/
  problems : List String := []
  log : Log := []

namespace Analysis

/-- Adds a message. -/
def note (a : Analysis) (level : LogLevel) (message : String) : Analysis :=
  { a with log := a.log ++ Log.one level message }

/-- Moves the messages of the slicer to those of the analysis. -/
def collect (a : Analysis) : Analysis :=
  { a with
    log := a.log ++ a.slicer.ledger.log
    slicer := { a.slicer with ledger := { a.slicer.ledger with log := [] } } }

/-- Records a problem. -/
def addProblem (a : Analysis) (message : String) : Analysis := { a with problems := a.problems ++ [message] }

/-- The problems in the order of their messages. -/
def sortedProblems (a : Analysis) : List String := Text.sort a.problems

/-- Builds the call graph and starts the slicing afresh. -/
def prepare (a : Analysis) (p : Program) : Workspace × Analysis :=
  let w := Workspace.ofProgram (p.withBuiltins a.settings.builtins) a.settings a.live
  (w,
    { a with workspace := some w, slicer := {}, log := a.log ++ w.model.log }.note .debug
      ("Call graph: " ++ Text.ofNat w.graph.nodes.length ++ " nodes"))

/-- Creates the seeds of one candidate. -/
def seed (w : Workspace) (a : Analysis) (c : Candidate) : Analysis :=
  let (cs, ledger) := a.slicer.ledger.seeds w c
  { { a with slicer := { a.slicer with ledger } }.collect.note .debug
      (c.signature ++ ": " ++ Text.ofNat cs.length ++ " seeds") with
    seeds := a.seeds ++ cs }

/-- Creates the seeds of the rules and slices them; tells whether the analysis goes on. -/
def slice (a : Analysis) (w : Workspace) : Bool × Analysis :=
  let a := (Rule.candidates a.rules).foldl (seed w) { a with seeds := [] }
  let a := a.note .info ("Slicing " ++ Text.ofNat a.seeds.length ++ " seeds")
  if a.seeds.isEmpty then (true, a)
  else
    let (fin, slicer) := a.slicer.run w CallRule.standard a.seeds
    let a := { a with slicer }.collect
    if fin == .cancelled then (false, a)
    else (true, a.note .info ("Slicing done: " ++ slicer.stats.text))

/-- What rules are checked against after slicing. -/
def checker (a : Analysis) (w : Workspace) : Checker :=
  { rules := a.rules
    evidence :=
      { workspace := w, subslices := .ofIndex w (.ofStore a.slicer.store), retainedParams := a.slicer.retainedParams } }

/-- Checks the rules on the slices of one seed. -/
def checkSeed (w : Workspace) (state : List Finding × Checker × Analysis) (seed : Criterion) :
    List Finding × Checker × Analysis :=
  let (found, c, a) := state
  if !a.live then state
  else if ((a.slicer.store.get? seed.id).elim true (·.infeasible)) then
    (found, c, a.note .debug ("skipping infeasible seed " ++ seed.text))
  else
    let (merged, slicer) := a.slicer.merge w seed.id
    let a := { a with slicer }.collect
    let slices := if merged.isEmpty then [{ root := seed.id }] else merged
    let (found, c) := slices.foldl (fun (found, c) s =>
      let (more, c) := Checker.check c seed s
      (found ++ more, c)) (found, { c with log := [] })
    (found, c, { a with combined := a.combined + slices.length, log := a.log ++ c.log })

/-- Merges the slices of each feasible seed and checks the rules on them. -/
def check (a : Analysis) (w : Workspace) : List Finding × Analysis :=
  let (found, _, a) := a.seeds.foldl (checkSeed w) ([], a.checker w, { a with combined := 0 })
  (found, a)

/-- The counters of the last run. -/
def stats (a : Analysis) : RunStats :=
  { rules := a.rules.length, seeds := a.seeds.length, partials := a.slicer.store.partials.size,
    processed := a.slicer.stats.processed, memoized := a.slicer.stats.memoized,
    infeasible := a.slicer.stats.infeasible, combined := a.combined }

/-- Analyzes a program with the rules; there is no report where the analysis was cancelled. -/
def run (a : Analysis) (runId : String) (p : Program) : Option Report × Analysis :=
  let (w, a) := a.prepare p
  match a.slice w with
  | (false, a) => (none, a)
  | (true, a) =>
    let (findings, a) := a.check w
    if !a.live then (none, a)
    else
      let input := if a.input == "" then p.package else a.input
      let filter : FindingFilter :=
        { maxAlarms := a.settings.maxAlarms, devOnly := a.settings.devOnly, isDev := w.program.isDevClass }
      let r := Report.make runId input p.package findings a.stats filter
      (some r,
        a.note .info
          (Text.ofNat r.findings.length ++ " findings (" ++ Text.ofNat r.insecure ++ " insecure), " ++
            Text.ofInt r.stats.dropped ++ " dropped"))

end Analysis

end MisuseSlice
