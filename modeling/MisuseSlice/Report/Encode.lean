import MisuseSlice.Document.Json
import MisuseSlice.Document.Writer
import MisuseSlice.Report.Text

/-!
Reports in the three formats. The two notations for data name a few keys differently, and for a missing list
one of them says null.
-/
namespace MisuseSlice

open Document

/-- The document of a reported line. -/
def FindingLine.toContent (l : FindingLine) : Content :=
  .record [("statement", .text l.code), ("kind", .text l.kind.name), ("caller", .text l.caller), ("line", .integer l.number)]

/-- The document of a finding with the given lines. -/
def Finding.toContent (idKey : String) (lines : Content) (f : Finding) : Content :=
  .record
    [(idKey, .text f.ruleId), ("description", .text f.description), ("secure", .truth f.secure),
      ("caller", .text f.caller), ("target", .text f.target), ("lines", lines)]

/-- The lines of a finding. -/
def Finding.lineList (f : Finding) : Content := .list (f.lines.map (·.toContent))

/-- The document of the counters. -/
def RunStats.toContent (s : RunStats) : Content :=
  .record
    ([("rules", .integer s.rules), ("seeds", .integer s.seeds), ("partials", .integer s.partials),
      ("processed", .integer s.processed), ("memoized", .integer s.memoized), ("infeasible", .integer s.infeasible),
      ("combined", .integer s.combined)] ++ Content.optionalInteger "dropped" s.dropped)

namespace Report

/-- The document of a report. -/
def toContent (runKey : String) (findings : Content) (r : Report) : Content :=
  .record
    ([(runKey, .text r.runId), ("input", .text r.input)] ++ Content.optionalText "package" r.package ++
      [("findings", findings), ("stats", r.stats.toContent)])

/-- The report in a format; colors are for plain text only. -/
def write (format : ReportFormat) (colors : Colors) (r : Report) : String :=
  match format with
  | .text => r.plainText colors
  | .json =>
    let finding (f : Finding) : Content :=
      f.toContent "ruleId" (if f.listsLines then f.lineList else .null)
    (r.toContent "runId" (if r.findings.isEmpty then .null else .list (r.findings.map finding))).json
  | .yaml => (r.toContent "run-id" (.list (r.findings.map fun f => f.toContent "rule-id" f.lineList))).render

end Report

end MisuseSlice
