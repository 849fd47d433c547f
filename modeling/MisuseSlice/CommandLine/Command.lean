import MisuseSlice.CommandLine.Flags
import MisuseSlice.Text.Casing

/-!
The commands and how arguments select one. A command is the first argument that is neither a flag nor the
value of one.
-/
namespace MisuseSlice.CommandLine

/-- The name under which the program is called. -/
def programName : String := "cryptoslice"

/-- The version of the program. -/
def version : String := "v0.3.0"

/-- A command. -/
inductive Command where
  /-- The program without a command. -/
  | root
  | analyze | callgraph | rules | validate | convert
  /-- Commands that only explain the others. -/
  | help | completion
  deriving DecidableEq, Repr

namespace Command

/-- The flags of the commands that work on a program dump. -/
def commonFlags : List Flag :=
  [{ name := "input", letter := some 'i', required := true }, { name := "config" },
    { name := "verbose", letter := some 'v', type := .truth }, { name := "no-color", type := .truth }]

/-- The flags of a command. -/
def flags : Command → List Flag
  | analyze =>
    commonFlags ++
      [{ name := "platform", letter := some 'p' }, { name := "rules", letter := some 'r' },
        { name := "output", letter := some 'o' }, { name := "format" }, { name := "upper-level", type := .integer },
        { name := "lower-level", type := .integer }, { name := "max-alarms", type := .integer },
        { name := "dev-only", type := .truth }, { name := "class-filter" }, { name := "no-prune", type := .truth },
        { name := "skip-reachability", type := .truth }]
  | callgraph =>
    commonFlags ++
      [{ name := "dot" }, { name := "cycles", type := .truth }, { name := "callers" },
        { name := "limit", type := .integer }]
  | validate => [{ name := "rules", letter := some 'r', required := true }]
  | convert =>
    [{ name := "input", letter := some 'i', required := true },
      { name := "output", letter := some 'o', required := true }]
  | _ => []

/-- The commands below a command, by name. -/
def below : Command → List (String × Command)
  | root =>
    [("analyze", analyze), ("callgraph", callgraph), ("rules", rules), ("convert", convert), ("help", help),
      ("completion", completion)]
  | rules => [("validate", validate)]
  | _ => []

/-- The words with which a command is called. -/
def path : Command → String
  | root => programName
  | analyze => programName ++ " analyze"
  | callgraph => programName ++ " callgraph"
  | rules => programName ++ " rules"
  | validate => programName ++ " rules validate"
  | convert => programName ++ " convert"
  | help => programName ++ " help"
  | completion => programName ++ " completion"

/-- The flags that every command has, and the version flag of the program. -/
def standardFlags : Command → List Flag
  | root =>
    [{ name := "help", letter := some 'h', type := .truth }, { name := "version", letter := some 'v', type := .truth }]
  | _ => [{ name := "help", letter := some 'h', type := .truth }]

/-- The argument is a flag whose value is the next argument, as far as the given flags tell. -/
def takesNext (flags : List Flag) (s : String) : Bool :=
  let isTruth (p : Flag → Bool) : Bool := (flags.find? p).elim false (·.type == .truth)
  if s.toList.contains '=' then false
  else
    match s.toList with
    | '-' :: '-' :: name => !isTruth (·.name == String.ofList name)
    | ['-', c] => c.toNat < 0x80 && !isTruth (·.letter == some c)
    | _ => false

/-- The arguments that are neither flags nor values of flags. -/
def words (flags : List Flag) : List String → List String
  | [] => []
  | s :: rest =>
    if s == "--" then []
    else if takesNext flags s then
      match rest with
      | _ :: next :: more => words flags (next :: more)
      | _ => []
    else if s == "" || Text.startsWith s "-" then words flags rest
    else s :: words flags rest

/-- The arguments without the first one that is the given word. -/
def without (flags : List Flag) (word : String) : List String → List String
  | [] => []
  | s :: rest =>
    if s == "--" then s :: rest
    else if takesNext flags s then
      match rest with
      | v :: more => s :: v :: without flags word more
      | [] => [s]
    else if s == word then rest
    else s :: without flags word rest

/-- The command that arguments select below a command, and the arguments left for it; `depth` bounds the
words of a command. -/
def selectFrom : (depth : Nat) → Command → List String → Command × List String
  | 0, c, args => (c, args)
  | depth + 1, c, args =>
    match words c.flags args with
    | [] => (c, args)
    | w :: _ =>
      match c.below.find? (·.1 == w) with
      | some (_, d) => selectFrom depth d (without c.flags w args)
      | none => (c, args)

/-- The command that arguments select. -/
def select (args : List String) : Command × List String := selectFrom 3 root args

end Command

/-- The next row of the table of edit distances. -/
private def editRow (c : UInt8) (t : Text.Bytes) (row : List Nat) : List Nat :=
  let first := row.headD 0 + 1
  let step (acc : List Nat) (x : UInt8 × Nat × Nat) : List Nat :=
    let (d, diagonal, above) := x
    let cost := if c == d then 0 else 1
    Nat.min (Nat.min (above + 1) (acc.headD 0 + 1)) (diagonal + cost) :: acc
  ((t.zip (row.zip (row.drop 1))).foldl step [first]).reverse

/-- The least number of insertions, deletions and replacements of bytes that make one text another. -/
def editDistance (s t : Text.Bytes) : Nat :=
  (s.foldl (fun row c => editRow c t row) (List.range (t.length + 1))).getLastD 0

/-- The commands whose names are near a word or start with it. -/
def suggestions (word : String) : List String :=
  let w := Text.bytesOf (Text.lower word)
  (["analyze", "callgraph", "rules", "convert", "completion"]).filter fun name =>
    editDistance w (Text.bytesOf name) ≤ 2 || w.isPrefixOf (Text.bytesOf name)

/-- The complaint about a word that names no command. -/
def unknownCommandMessage (word : String) : String :=
  let near := suggestions word
  "unknown command " ++ Text.quote word ++ " for " ++ Text.quote programName ++
    (if near.isEmpty then "" else "\n\nDid you mean this?\n" ++ String.join (near.map fun n => "\t" ++ n ++ "\n"))

end MisuseSlice.CommandLine
