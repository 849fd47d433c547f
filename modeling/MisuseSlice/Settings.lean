import MisuseSlice.Document.Decode
import MisuseSlice.Files
import MisuseSlice.Program.Basic
import MisuseSlice.Program.Decode
import MisuseSlice.Text.Path
import MisuseSlice.Text.Regex.Parser

/-!
The settings of an analysis. Settings are read over the defaults; normalizing replaces what was left out
or makes no sense, and refuses an unknown report format or a bad class filter.
-/
namespace MisuseSlice

/-- How a report is written. -/
inductive ReportFormat where
  | text | json | yaml
  deriving DecidableEq, Repr, Inhabited

namespace ReportFormat

/-- The name of a format. -/
def name : ReportFormat → String
  | text => "text"
  | json => "json"
  | yaml => "yaml"

/-- The format with a name. -/
def ofName? (s : String) : Option ReportFormat := [text, json, yaml].find? (·.name == s)

end ReportFormat

/-- The types for which callers that return them are analyzed though the type is built in. -/
def defaultTrackedTypes : List String :=
  ["java.lang.String", "javax.crypto.SecretKey", "javax.crypto.Cipher", "javax.crypto.Mac"]

/-- The settings as they are read. -/
structure Settings where
  /-- The directory of the rule files. -/
  rulesDir : String := ""
  /-- The directory of the platform that the program was built against; it must exist where given. -/
  platformDir : String := ""
  /-- The report file; empty for standard output. -/
  output : String := ""
  reportFormat : String := "text"
  /-- Bounds the ascent to callers and to the writers of fields. -/
  upperLevel : Int := 5
  /-- Bounds the descent into callees. It is negative. -/
  lowerLevel : Int := -5
  solverTimeoutMs : Int := 180
  /-- Bounds the chains of callers looked at for one method. -/
  maxCallerChains : Int := 1000
  /-- Bounds the criteria sliced in one run, unless it is not positive. -/
  maxCriteria : Int := 0
  /-- Bounds the findings reported, unless it is not positive. -/
  maxAlarms : Int := 0
  /-- Reports findings in classes of the developer only. -/
  devOnly : Bool := false
  /-- Removes retained statements that are not connected to the seed. -/
  pruneUseless : Bool := true
  /-- Keeps callers that no component reaches. -/
  skipReachability : Bool := false
  /-- The name starts of platform classes. -/
  builtins : List String := defaultBuiltins
  /-- The tracked return types; `none` where the list was unset. -/
  trackedTypes : Option (List String) := some defaultTrackedTypes
  logLevel : Int := 3
  /-- Restricts the classes whose methods are callers of seeds; empty for all. -/
  classFilter : String := ""
  deriving DecidableEq, Repr, Inhabited

namespace Settings

/-- Why settings are refused. -/
inductive Refusal where
  | reportFormat (name : String)
  | classFilter (pattern : String)
  deriving DecidableEq, Repr

/-- The wording of a refusal. -/
def Refusal.message : Refusal → String
  | reportFormat s => "unknown report format " ++ Text.quote s ++ " (expected text, json or yaml)"
  | classFilter s => "invalid class-filter " ++ Text.quote s ++ ": " ++ Text.Regex.readMessage

/-- Replaces a value that is not as it must be. -/
def orElse (ok : Bool) (value fallback : α) : α := if ok then value else fallback

/-- Replaces what was left out or makes no sense (`Validate`). -/
def normalize (s : Settings) : Except Refusal Settings :=
  let s : Settings :=
    { s with
      logLevel := orElse (s.logLevel != 0) s.logLevel 3
      upperLevel := orElse (decide (0 < s.upperLevel)) s.upperLevel 5
      lowerLevel := orElse (decide (s.lowerLevel < 0)) s.lowerLevel (-5)
      solverTimeoutMs := orElse (decide (0 < s.solverTimeoutMs)) s.solverTimeoutMs 180
      maxCallerChains := orElse (decide (0 < s.maxCallerChains)) s.maxCallerChains 1000
      builtins := orElse (!s.builtins.isEmpty) s.builtins defaultBuiltins
      trackedTypes := some (s.trackedTypes.getD defaultTrackedTypes)
      reportFormat := orElse (s.reportFormat != "") s.reportFormat "text" }
  if (ReportFormat.ofName? s.reportFormat).isNone then .error (.reportFormat s.reportFormat)
  else if s.classFilter != "" && (Text.Regex.read? s.classFilter).isNone then
    .error (.classFilter s.classFilter)
  else .ok s

/-- The report format. -/
def format (s : Settings) : ReportFormat := (ReportFormat.ofName? s.reportFormat).getD .text

/-- A class of the platform or of the language runtime. -/
def isBuiltinClass (s : Settings) (name : String) : Bool := s.builtins.any (Text.startsWith name ·)

/-- A built-in return type for which callers are analyzed (`IsTrackedReturnType`). -/
def isTrackedType (s : Settings) (type : String) : Bool := (s.trackedTypes.getD []).contains type

/-- The class passes the class filter (`MatchClassFilter`). -/
def passesFilter (s : Settings) (name : String) : Bool :=
  if s.classFilter == "" then true
  else
    match Text.Regex.read? s.classFilter with
    | some r => r.matchesIn name
    | none => true

/-- The time for one comparison in whole milliseconds; the clock counts nanoseconds in a machine word. -/
def solverTimeout (s : Settings) : Int := (Int.bmod (s.solverTimeoutMs * 1000000) 0x10000000000000000).tdiv 1000000

open Document in
/-- Reads settings over the given ones. -/
def decode (start : Settings) (n : Node) : Decode Settings := do
  let s ← record false (fun key =>
    match key with
    | "rules-dir" => setter Document.text fun t (s : Settings) => { s with rulesDir := t }
    | "platform-dir" => setter Document.text fun t s => { s with platformDir := t }
    | "output" => setter Document.text fun t s => { s with output := t }
    | "report-format" => setter Document.text fun t s => { s with reportFormat := t }
    | "upper-level" => setter integer fun i s => { s with upperLevel := i }
    | "lower-level" => setter integer fun i s => { s with lowerLevel := i }
    | "solver-timeout-ms" => setter integer fun i s => { s with solverTimeoutMs := i }
    | "max-caller-chains" => setter integer fun i s => { s with maxCallerChains := i }
    | "max-criteria" => setter integer fun i s => { s with maxCriteria := i }
    | "max-alarms" => setter integer fun i s => { s with maxAlarms := i }
    | "dev-only" => setter truth fun b s => { s with devOnly := b }
    | "prune-useless" => setter truth fun b s => { s with pruneUseless := b }
    | "skip-reachability" => setter truth fun b s => { s with skipReachability := b }
    | "builtin-prefixes" => setter (sequence Document.text) fun ts s => { s with builtins := ts }
    | "tracked-return-types" => setter (sequenceOrNull Document.text) fun ts s => { s with trackedTypes := ts }
    | "log-level" => setter integer fun i s => { s with logLevel := i }
    | "class-filter" => setter Document.text fun t s => { s with classFilter := t }
    | _ => none) start n
  pure (s.getD start)

/-- Reads settings from some bytes; bytes without a document leave the given ones. -/
def ofBytes (start : Settings) (bytes : Text.Bytes) : Except Document.DecodeError Settings :=
  match Document.decode bytes (decode start) with
  | .error .noDocument => .ok start
  | r => r

/-- Reads settings from a text. -/
def read (start : Settings) (source : String) : Except Document.DecodeError Settings :=
  ofBytes start (Text.bytesOf source)

/-- A path given in a settings file, relative to the directory of that file. -/
def relativePath (file path : String) : String := Text.Path.join (Text.Path.directory file) path

/-- The directories and the report file taken relative to the settings file. -/
def placed (s : Settings) (file : String) : Settings :=
  let place (p : String) : String :=
    if p != "" && !Text.Path.isAbsolute p then relativePath file p else p
  { s with rulesDir := place s.rulesDir, platformDir := place s.platformDir, output := place s.output }

/-- Why a settings file is not accepted. -/
inductive LoadError where
  | unreadable (cause : FileFailure)
  | malformed (file : String) (cause : Document.DecodeError)
  | refused (cause : Refusal)
  deriving DecidableEq, Repr

/-- The wording of a cause. -/
def LoadError.message : LoadError → String
  | unreadable f => "could not read config file: " ++ f.message
  | malformed f e => "could not unmarshal config file " ++ f ++ ": " ++ e.message
  | refused r => r.message

/-- The settings of a file, given what it holds. -/
def ofFile (file : String) (bytes : Text.Bytes) : Except LoadError Settings :=
  match ofBytes {} bytes with
  | .error e => .error (.malformed file e)
  | .ok s =>
    match (s.placed file).normalize with
    | .error r => .error (.refused r)
    | .ok s => .ok s

/-- Reads settings from a file. -/
def load {m : Type → Type} [Monad m] (fs : FileAccess m) (file : String) : m (Except LoadError Settings) := do
  match ← fs.contents file with
  | .error f => pure (.error (.unreadable f))
  | .ok bytes => pure (ofFile file bytes)

end Settings

end MisuseSlice
