import MisuseSlice.Analysis
import MisuseSlice.Files
import MisuseSlice.Program.Dump
import MisuseSlice.Rule.Decode

/-!
Sessions: an analysis with its rules and its program taken from files. What cannot be read stops a session
before any slicing; a rule file that is no rule is left out.
-/
namespace MisuseSlice

variable {m : Type → Type} [Monad m]

/-- Why there is no program in a file. -/
inductive LoadFailure where
  | format (path : String)
  | unreadable (cause : FileFailure)
  | malformed (cause : DumpError)
  deriving DecidableEq, Repr

/-- The wording of a cause. -/
def LoadFailure.message : LoadFailure → String
  | format path => Format.unknownMessage path
  | unreadable f => "could not read program dump: " ++ f.message
  | malformed e => e.message

/-- Reads the dump in a file, with the reader of its format. -/
def Program.readFile (fs : FileAccess m) (path : String) (read : Format → Text.Bytes → Except DumpError α) :
    m (Except LoadFailure α) := do
  match Format.ofPath? path with
  | none => pure (.error (.format path))
  | some format =>
    match ← fs.contents path with
    | .error f => pure (.error (.unreadable f))
    | .ok bytes =>
      match read format bytes with
      | .error e => pure (.error (.malformed e))
      | .ok a => pure (.ok a)

/-- Reads the program of a file for the analysis. -/
def Program.load (fs : FileAccess m) (path : String) : m (Except LoadFailure (Program × List Problem)) :=
  readFile fs path ofDump

/-- A file whose name is that of a rule file. -/
def Rule.isRuleFile (name : String) : Bool :=
  [".json", ".yaml", ".yml"].contains (Text.lower (Format.extension name))

/-- Why a rule file is left out. -/
inductive RuleFileError where
  | unreadable (file : String) (cause : FileFailure)
  | noRule (file : String) (cause : RuleError)
  deriving DecidableEq, Repr

namespace RuleFileError

/-- The wording of a cause. -/
def message : RuleFileError → String
  | unreadable file f => "file " ++ file ++ ": " ++ f.message
  | noRule file e => "file " ++ file ++ ": " ++ e.message

/-- The file has a null condition. -/
def isNullCondition : RuleFileError → Bool
  | noRule _ .nullCondition => true
  | _ => false

end RuleFileError

/-- Reads one rule file of a directory. -/
def Rule.loadFile (fs : FileAccess m) (dir name : String) : m (Except RuleFileError Rule) := do
  match ← fs.contents (Text.Path.join dir name) with
  | .error f => pure (.error (.unreadable name f))
  | .ok bytes =>
    match (Rule.ofBytes bytes).map fun r => { r with name } with
    | .error e => pure (.error (.noRule name e))
    | .ok r => pure (.ok r)

/-- Reads the rule files among the names of a directory. -/
def Rule.loadFrom (fs : FileAccess m) (dir : String) :
    List (String × FileKind) → m (List Rule × List RuleFileError)
  | [] => pure ([], [])
  | (name, kind) :: rest => do
    if kind == .directory || !isRuleFile name then loadFrom fs dir rest
    else
      let r ← loadFile fs dir name
      let (rules, invalid) ← loadFrom fs dir rest
      match r with
      | .ok r => pure (r :: rules, invalid)
      | .error e => pure (rules, e :: invalid)

/-- The rules of a directory, sorted, and the rule files that hold none. -/
def Rule.loadAll (fs : FileAccess m) (dir : String) : m (Except FileFailure (List Rule × List RuleFileError)) := do
  match ← fs.names dir with
  | .error f => pure (.error f)
  | .ok names =>
    let (rules, invalid) ← loadFrom fs dir names
    pure (.ok (Rule.sort rules, invalid))

/-- What stops a session before any slicing. -/
inductive FatalCause where
  | input (path : String) (cause : FileFailure)
  | platform (cause : FileFailure)
  | platformKind (dir : String)
  | noRulesDirectory
  | rulesDirectory (cause : FileFailure)
  | program (cause : LoadFailure)
  | unreadablePlatform (cause : FileFailure)
  | unreadableRules (cause : FileFailure)
  | noRule (dir : String)
  deriving DecidableEq, Repr

/-- The wording of a directory of rules that cannot be read. -/
def unreadableRulesMessage (f : FileFailure) : String := "could not read rules directory: " ++ f.message

/-- The wording of a cause. -/
def FatalCause.message : FatalCause → String
  | input path f => "input " ++ path ++ ": " ++ f.message
  | platform f => "platform directory: " ++ f.message
  | platformKind dir => "platform directory " ++ dir ++ " is not a directory"
  | noRulesDirectory => "no rules directory"
  | rulesDirectory f => "rules directory: " ++ f.message
  | program e => e.message
  | unreadablePlatform f => "could not read platform directory: " ++ f.message
  | unreadableRules f => unreadableRulesMessage f
  | noRule dir => "no rule in " ++ dir

/-- Why a session has no result. -/
inductive SessionError where
  | fatal (cause : FatalCause)
  | cancelled
  /-- A rule has a null condition, which nothing is prepared for. -/
  | nullCondition
  deriving DecidableEq, Repr

/-- The wording of an error. -/
def SessionError.message : SessionError → String
  | fatal c => "fatal: " ++ c.message
  | cancelled => "context canceled"
  | nullCondition => RuleError.nullCondition.message

/-- A step of a session; the state of the analysis stays when it fails. -/
abbrev SessionM (m : Type → Type) := ExceptT SessionError (StateT Analysis m)

namespace Session

/-- An operation on files. -/
def onFiles (x : m α) : SessionM m α := ExceptT.lift (StateT.lift x)

/-- Stops the session. -/
def fatal (c : FatalCause) : SessionM m α := throw (.fatal c)

/-- The value of an operation that stops the session where it fails. -/
def orFatal (cause : ε → FatalCause) (x : m (Except ε α)) : SessionM m α := do
  match ← onFiles x with
  | .ok v => pure v
  | .error e => fatal (cause e)

/-- Adds a message. -/
def note (level : LogLevel) (message : String) : SessionM m Unit := modify (·.note level message)

/-- Records a problem. -/
def addProblem (message : String) : SessionM m Unit := modify (·.addProblem message)

/-- Checks that the program dump, the platform directory where one is set, and the rules directory are
there. -/
def checkInputs (fs : FileAccess m) (input : String) : SessionM m Unit := do
  let settings := (← get).settings
  let _ ← orFatal (.input input) (fs.stat input)
  if settings.platformDir != "" then
    let kind ← orFatal .platform (fs.stat settings.platformDir)
    if kind != .directory then fatal (.platformKind settings.platformDir)
  if settings.rulesDir == "" then fatal .noRulesDirectory
  let _ ← orFatal .rulesDirectory (fs.names settings.rulesDir)

/-- Loads the rules of the rules directory. -/
def loadRules (fs : FileAccess m) : SessionM m Unit := do
  let dir := (← get).settings.rulesDir
  let (rules, invalid) ← orFatal .unreadableRules (Rule.loadAll fs dir)
  if invalid.any (·.isNullCondition) then throw .nullCondition
  for e in invalid do
    note .warn ("cannot import rule " ++ e.message)
  note .debug ("loaded " ++ Text.ofNat rules.length ++ " rules from " ++ dir)
  if rules.isEmpty then fatal (.noRule dir)
  modify fun a => { a with rules }
  note .info ("Loaded " ++ Text.ofNat rules.length ++ " rules from " ++ dir)

/-- The classes of a platform dump whose names are not declared yet, added to a program. -/
def addMissing (p : Program) (declared : List String) : List (Option ClassDecl) → Program × List String
  | [] => (p, declared)
  | none :: rest => addMissing p declared rest
  | some c :: rest =>
    if declared.contains c.name then addMissing p declared rest
    else addMissing (p.addClass c) (c.name :: declared) rest

/-- Adds the classes of the dumps among the names of the platform directory. -/
def addDumps (fs : FileAccess m) (dir : String) :
    List (String × FileKind) → Program → List String → SessionM m Program
  | [], p, _ => pure p
  | (name, kind) :: rest, p, declared => do
    if kind == .directory || (Format.ofPath? name).isNone then addDumps fs dir rest p declared
    else
      let file := Text.Path.join dir name
      match ← onFiles (Program.load fs file) with
      | .error e =>
        note .warn ("skipping platform dump " ++ file ++ ": " ++ e.message)
        addProblem e.message
        addDumps fs dir rest p declared
      | .ok (q, _) =>
        let (p, declared) := addMissing p declared q.classes
        addDumps fs dir rest p declared

/-- Adds the classes of the platform that a program does not declare (`addPlatformClasses`). -/
def addPlatform (fs : FileAccess m) (p : Program) : SessionM m Program := do
  let dir := (← get).settings.platformDir
  if dir == "" then pure p
  else
    let names ← orFatal .unreadablePlatform (fs.names dir)
    let all ← addDumps fs dir names p (p.classes.filterMap fun c => c.map (·.name))
    let added := all.classes.length - p.classes.length
    let (full, problems) := if added == 0 then (p, []) else all.finalize
    for problem in problems do
      addProblem problem.message
    note .debug (Text.ofNat added ++ " platform classes added from " ++ dir)
    pure full

/-- Loads a program dump with the classes of the platform. -/
def loadProgram (fs : FileAccess m) (input : String) : SessionM m Program := do
  let (p, problems) ← orFatal .program (Program.load fs input)
  for problem in problems do
    note .warn (input ++ ": " ++ problem.message)
    addProblem problem.message
  let p ← addPlatform fs p
  modify fun a => { a with input }
  note .info
    ("Loaded " ++ input ++ ": package " ++ p.package ++ ", " ++ Text.ofNat p.classes.length ++ " classes")
  pure p

/-- Analyzes a loaded program. -/
def analyze (runId : String) (p : Program) : SessionM m Report := do
  let (r, a) := (← get).run runId p
  set a
  match r with
  | some r => pure r
  | none => throw .cancelled

/-- Loads rules and program and analyzes them. -/
def run (fs : FileAccess m) (runId input : String) : SessionM m Report := do
  checkInputs fs input
  loadRules fs
  analyze runId (← loadProgram fs input)

end Session

end MisuseSlice
