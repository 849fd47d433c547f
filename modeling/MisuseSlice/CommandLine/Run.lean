import MisuseSlice.CallGraph.Chains
import MisuseSlice.CommandLine.Command
import MisuseSlice.Report.Encode
import MisuseSlice.Session

/-!
What the commands do. A command reads and writes files and gives back what it prints; it stops at the first
failure, and what was printed before stays.
-/
namespace MisuseSlice.CommandLine

/-- Why a command fails. -/
inductive CommandError where
  | flags (cause : FlagError)
  | unknownCommand (word : String)
  | extraArgument (word : String) (command : Command)
  | missingFlags (names : List String)
  | settings (file : String) (cause : Settings.LoadError)
  | refused (cause : Settings.Refusal)
  | session (cause : SessionError)
  | output (cause : FileFailure)
  | noMethod (signature : String)
  | rulesDirectory (cause : FileFailure)
  | rules (invalid duplicates : Nat) (dir : String)
  | program (cause : LoadFailure)
  | notSaved (path : String) (cause : FileFailure)
  deriving DecidableEq, Repr

/-- The wording of a cause. -/
def CommandError.message : CommandError → String
  | flags e => e.message
  | unknownCommand w => unknownCommandMessage w
  | extraArgument w c => "unknown command " ++ Text.quote w ++ " for " ++ Text.quote c.path
  | missingFlags names => "required flag(s) \"" ++ Text.joinWith "\", \"" names ++ "\" not set"
  | settings file e => "failed to load config file " ++ file ++ ": " ++ e.message
  | refused r => r.message
  | session e => e.message
  | output f => "could not create output file: " ++ f.message
  | noMethod s => "no method " ++ s ++ " in the call graph"
  | rulesDirectory f => unreadableRulesMessage f
  | rules invalid duplicates dir =>
    Text.ofNat invalid ++ " invalid rule files, " ++ Text.ofNat duplicates ++ " duplicate rule numbers in " ++ dir
  | program e => e.message
  | notSaved path f => "could not create " ++ path ++ ": " ++ f.message

/-- What a command has printed. -/
structure Printed where
  out : String := ""
  log : Log := []
  /-- The level that says which messages are shown. -/
  level : Int := 3
  colors : Report.Colors := false

/-- A command at work; what was printed stays when it fails. -/
abbrev CommandM (m : Type → Type) := ExceptT CommandError (StateT Printed m)

variable {m : Type → Type} [Monad m]

/-- An operation on files. -/
def onFiles (x : m α) : CommandM m α := ExceptT.lift (StateT.lift x)

/-- The value of an operation that ends the command where it fails. -/
def orFail (cause : ε → CommandError) (x : m (Except ε α)) : CommandM m α := do
  match ← onFiles x with
  | .ok v => pure v
  | .error e => throw (cause e)

/-- Prints a text. -/
def print (s : String) : CommandM m Unit := modify fun p => { p with out := p.out ++ s }

/-- Prints a line. -/
def printLine (s : String) : CommandM m Unit := print (s ++ "\n")

/-- Works on an analysis within a command, whose messages are those of the command. -/
def inSession (settings : Settings) (x : SessionM m α) : CommandM m (α × Analysis) := do
  let (r, a) ← onFiles (StateT.run x.run { settings })
  modify fun p => { p with log := p.log ++ a.log }
  match r with
  | .ok v => pure (v, a)
  | .error e => throw (.session e)

/-- Writes to a file, or prints where the path is empty or a dash. -/
def writeTo (fs : FileAccess m) (path text : String) : CommandM m Unit :=
  if path == "" || path == "-" then print text else orFail .output (fs.save path (Text.bytesOf text))

/-- The settings of the settings file, or the standard ones. -/
def loadSettings (fs : FileAccess m) (args : Arguments) : CommandM m Settings := do
  let file := args.text "config"
  let s ← if file == "" then pure ({} : Settings) else orFail (.settings file) (Settings.load fs file)
  let s := if args.isSet "verbose" then { s with logLevel := LogLevel.debug.number } else s
  modify fun p => { p with level := s.logLevel, colors := p.colors && !args.isSet "no-color" }
  pure s

/-- The settings with what the flags of an analysis say. An empty directory, report file or class filter
changes nothing. -/
def overridden (s : Settings) (args : Arguments) : Settings :=
  let given (name old : String) : String := if args.text name == "" then old else args.text name
  { s with
    platformDir := given "platform" s.platformDir
    rulesDir := given "rules" s.rulesDir
    output := given "output" s.output
    reportFormat := ((args.text? "format").map Text.lower).getD s.reportFormat
    upperLevel := (args.integer? "upper-level").getD s.upperLevel
    lowerLevel := (args.integer? "lower-level").getD s.lowerLevel
    maxAlarms := (args.integer? "max-alarms").getD s.maxAlarms
    devOnly := (args.truth? "dev-only").getD s.devOnly
    classFilter := given "class-filter" s.classFilter
    pruneUseless := s.pruneUseless && !args.isSet "no-prune"
    skipReachability := s.skipReachability || args.isSet "skip-reachability" }

/-- Slices a program dump and writes the report. Colors are for standard output only. -/
def analyze (fs : FileAccess m) (runId : String) (args : Arguments) : CommandM m Unit := do
  let loaded ← loadSettings fs args
  match (overridden loaded args).normalize with
  | .error r => throw (.refused r)
  | .ok s =>
    let (r, a) ← inSession s (Session.run fs runId (args.text "input"))
    modify fun p =>
      { p with
        log := p.log ++ a.sortedProblems.map fun e => ⟨.debug, "non-fatal: " ++ e⟩
        colors := p.colors && s.output == "" }
    writeTo fs s.output (r.write s.format (← get).colors)

/-- The numbers of nodes and edges of a call graph. -/
def printSummary (model : CallModel) : CommandM m Unit := do
  let colors := (← get).colors
  let g := model.graph
  let fields := (g.nodes.filter (·.isField)).length
  let calls := (g.sortedEdges.filter (·.isCall)).length
  printLine (Report.bold colors "Call graph")
  printLine ("  methods: " ++ Text.ofNat (g.nodes.length - fields) ++ ", fields: " ++ Text.ofNat fields)
  printLine
    ("  call edges: " ++ Text.ofNat calls ++ ", field accesses: " ++ Text.ofNat (g.sortedEdges.length - calls))
  printLine ("  constant fields: " ++ Text.ofNat model.info.constants.size)
  if !model.info.skipped.isEmpty then
    printLine ("  " ++ Report.yellow colors "skipped methods:" ++ " " ++ Text.joinWith ", " model.info.skipped)

/-- A title with a number. -/
def printCount (title : String) (n : Nat) : CommandM m Unit := do
  printLine (Report.bold (← get).colors title ++ " " ++ Text.ofNat n)

/-- The methods that call each other. -/
def printCycles (g : CallGraph) : CommandM m Unit := do
  printCount "Recursive clusters:" g.recursiveClusters.length
  for (cluster, i) in g.recursiveClusters.zipIdx do
    printLine ("  [" ++ Text.ofNat i ++ "]")
    for s in cluster do
      printLine ("    " ++ Report.sanitize s)
  printCount "Elementary cycles:" g.elementaryCycles.length
  for cycle in g.elementaryCycles do
    printLine ("  " ++ Text.joinWith " -> " (cycle.map Report.sanitize))

/-- The chains of callers of a method. -/
def printCallers (g : CallGraph) (signature : String) (limit : Int) : CommandM m Unit := do
  match g.number? signature with
  | none => throw (.noMethod signature)
  | some n =>
    let chains := g.callerChains n limit.toNat
    printCount "Caller chains:" chains.length
    for chain in chains do
      printLine ("  " ++ Text.joinWith " <- " (chain.map fun i => Report.sanitize (g.signatureOf i)))

/-- Prints what is asked about the call graph of a program dump. -/
def callGraph (fs : FileAccess m) (args : Arguments) : CommandM m Unit := do
  let s ← loadSettings fs args
  let (p, _) ← inSession s (Session.loadProgram fs (args.text "input"))
  let model := CallModel.ofProgram (p.withBuiltins s.builtins)
  modify fun printed => { printed with log := printed.log ++ model.log }
  let dot := args.text "dot"
  if dot != "" then writeTo fs dot (model.graph.dot p.package)
  if dot != "-" then printSummary model
  if args.isSet "cycles" then printCycles model.graph
  if args.text "callers" != "" then
    printCallers model.graph (args.text "callers") ((args.integer? "limit").getD 20)

/-- One valid rule with the methods that it slices. -/
def printRule (r : Rule) : CommandM m Unit := do
  let ids := r.insecure.id ++ (r.secure.map fun p => ", " ++ p.id).getD ""
  printLine (Report.green (← get).colors "ok" ++ " " ++ r.name ++ " (" ++ ids ++ ")")
  for (sig, positions) in r.signatures.mergeSort fun a b => decide (a.1 ≤ b.1) do
    printLine ("    " ++ Report.sanitize sig ++ " [" ++ Text.joinWith " " (positions.map Text.ofInt) ++ "]")

/-- The rule numbers that several rules have, with the names of these. -/
def duplicateNumbers (rules : List Rule) : List String :=
  Text.sort <| (rules.map (·.number)).eraseDups.filterMap fun n =>
    let names := (rules.filter (·.number == n)).map (·.name)
    if 1 < names.length then
      some ("rule number " ++ Text.ofInt n ++ " in " ++ Text.joinWith " and " names)
    else none

/-- Checks the rule files of a directory. -/
def validateRules (fs : FileAccess m) (args : Arguments) : CommandM m Unit := do
  let dir := args.text "rules"
  let (rules, invalid) ← orFail .rulesDirectory (Rule.loadAll fs dir)
  if invalid.any (·.isNullCondition) then throw (.session .nullCondition)
  for r in rules do
    printRule r
  let colors := (← get).colors
  for e in invalid do
    printLine (Report.red colors "invalid" ++ " " ++ e.message)
  let duplicates := duplicateNumbers rules
  for d in duplicates do
    printLine (Report.yellow colors "duplicate" ++ " " ++ d)
  printLine (Text.ofNat rules.length ++ " valid, " ++ Text.ofNat invalid.length ++ " invalid")
  if !invalid.isEmpty || !duplicates.isEmpty then
    throw (.rules invalid.length duplicates.length dir)

/-- Writes a program dump in the format that the path of the output tells. -/
def convert (fs : FileAccess m) (args : Arguments) : CommandM m Unit := do
  let path := args.text "output"
  match Format.ofPath? path with
  | none => throw (.program (.format path))
  | some format =>
    let read ← orFail .program (Program.readFile fs (args.text "input") Program.parse)
    let p := read.finalize.1
    orFail (.notSaved path) (fs.save path (p.dump format))
    printLine (Text.ofNat p.classes.length ++ " classes written to " ++ path)

/-- The required flags that were not given, in order. -/
def missingFlags (c : Command) (args : Arguments) : List String :=
  Text.sort ((c.flags.filter fun f => f.required && (args.value? f.name).isNone).map (·.name))

/-- Runs a command with its arguments. Asking for help does nothing else. -/
def execute (fs : FileAccess m) (runId : String) (c : Command) (args : List String) : CommandM m Unit := do
  match Arguments.read (c.flags ++ c.standardFlags) args with
  | .error e => throw (.flags e)
  | .ok a =>
    if a.isSet "help" then pure ()
    else if a.isSet "version" then printLine (programName ++ " version " ++ version)
    else if [.root, .rules, .help, .completion].contains c then pure ()
    else
      match a.others with
      | w :: _ => throw (.extraArgument w c)
      | [] =>
        let missing := missingFlags c a
        if !missing.isEmpty then throw (.missingFlags missing)
        match c with
        | .analyze => analyze fs runId a
        | .callgraph => callGraph fs a
        | .validate => validateRules fs a
        | .convert => convert fs a
        | _ => pure ()

/-- Runs the command that arguments select. -/
def dispatch (fs : FileAccess m) (runId : String) (args : List String) : CommandM m Unit := do
  let (c, rest) := Command.select args
  match c, Command.words c.flags rest with
  | .root, w :: _ => throw (.unknownCommand w)
  | _, _ => execute fs runId c rest

/-- What arguments print, and why they fail where they do. -/
def run (fs : FileAccess m) (runId : String) (colors : Report.Colors) (args : List String) :
    m (Option CommandError × Printed) := do
  let (r, printed) ← StateT.run (dispatch fs runId args).run { colors }
  match r with
  | .ok _ => pure (none, printed)
  | .error e => pure (some e, printed)

end MisuseSlice.CommandLine
