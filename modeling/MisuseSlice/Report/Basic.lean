import MisuseSlice.Rule.Finding
import MisuseSlice.Settings
import MisuseSlice.Text.Casing

/-!
Reports: the findings of a run that pass its filter, with the counters of the run.
-/
namespace MisuseSlice

/-- The counters of a run. -/
structure RunStats where
  rules : Int := 0
  seeds : Int := 0
  partials : Int := 0
  processed : Int := 0
  memoized : Int := 0
  infeasible : Int := 0
  combined : Int := 0
  /-- The findings that a filter removed. -/
  dropped : Int := 0
  deriving DecidableEq, Repr, Inhabited

/-- Selects the findings reported. -/
structure FindingFilter where
  /-- Bounds the findings, unless it is not positive. -/
  maxAlarms : Int := 0
  /-- Keeps findings in classes of the developer only. -/
  devOnly : Bool := false
  /-- A class of the developer. -/
  isDev : String → Bool := fun _ => true

/-- The findings that a filter keeps, in order. -/
def FindingFilter.apply (f : FindingFilter) (findings : List Finding) : List Finding :=
  let own := findings.filter fun x => !f.devOnly || f.isDev (Signature.className x.caller)
  if 0 < f.maxAlarms then own.take f.maxAlarms.toNat else own

/-- The result of a run. -/
structure Report where
  runId : String
  input : String
  package : String
  findings : List Finding
  stats : RunStats
  deriving DecidableEq, Repr, Inhabited

namespace Report

/-- The report of a run with its findings filtered. -/
def make (runId input package : String) (findings : List Finding) (stats : RunStats) (filter : FindingFilter) :
    Report :=
  let kept := filter.apply findings
  { runId, input, package, findings := kept,
    stats := { stats with dropped := (findings.length : Int) - kept.length } }

/-- The number of findings of insecure patterns. -/
def insecure (r : Report) : Nat := (r.findings.filter (!·.secure)).length

end Report

namespace ReportFormat

/-- The format that a word names in either case; the empty word stands for plain text. -/
def ofWord? (s : String) : Option ReportFormat :=
  let w := Text.lower s
  if w == "" then some .text else if w == "yml" then some .yaml else ofName? w

/-- The complaint about a word that names no format. -/
def unknownMessage (s : String) : String := "unknown report format " ++ Text.quote s

end ReportFormat

end MisuseSlice
