import MisuseSlice.Report.Basic
import MisuseSlice.Report.Style

/-!
Reports as plain text for a terminal.
-/
namespace MisuseSlice.Report

private def rule : String := "=======================================\n"

/-- One finding. -/
def findingText (colors : Colors) (f : Finding) : String :=
  rule ++ "[*] Rule ID: " ++ f.ruleId ++ " (" ++
    (if f.secure then green colors "secure" else red colors "insecure") ++ ")\n[*] Description: " ++
    f.description ++ "\n[*] Caller name: " ++ f.caller ++ "\n[*] Target statement: " ++ sanitize f.target ++
    "\n[*] Target lines:\n" ++
    String.join (f.lines.map fun l => sanitize l.code ++ ", callerName=" ++ l.caller ++ "\n") ++ rule ++ "\n"

/-- The counters shown below the findings. -/
def statsText (s : RunStats) : String :=
  "seeds: " ++ Text.ofInt s.seeds ++ ", partial slices: " ++ Text.ofInt s.partials ++ ", processed: " ++
    Text.ofInt s.processed ++ ", memoized: " ++ Text.ofInt s.memoized ++ ", infeasible: " ++
    Text.ofInt s.infeasible ++ ", combined: " ++ Text.ofInt s.combined

/-- The number of findings, red where one is insecure. -/
def summary (colors : Colors) (r : Report) : String :=
  let s := Text.ofNat r.findings.length ++ " findings, " ++ Text.ofNat r.insecure ++ " insecure"
  if 0 < r.insecure then red colors s else green colors s

/-- The report as plain text. -/
def plainText (colors : Colors) (r : Report) : String :=
  bold colors "Run" ++ " " ++ r.runId ++ " on " ++ r.input ++
    (if r.package == "" then "" else " (" ++ r.package ++ ")") ++ "\n" ++
    String.join (r.findings.map (findingText colors)) ++ faint colors (statsText r.stats) ++ "\n" ++
    summary colors r ++ "\n"

end MisuseSlice.Report
