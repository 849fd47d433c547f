import MisuseSlice.Number.Integer
import MisuseSlice.Text.Quoted

/-!
Flags of commands. A flag is given as `--name value`, `--name=value` or by its letter as `-n value` or
`-nvalue`; the value of a truth flag can be left out, and letters of such flags can be joined. Flags and
other arguments may be mixed, and nothing after `--` is a flag.
-/
namespace MisuseSlice.CommandLine

/-- What the value of a flag is. -/
inductive FlagType where
  | text | integer | truth
  deriving DecidableEq, Repr

/-- A flag of a command. -/
structure Flag where
  name : String
  letter : Option Char := none
  type : FlagType := .text
  required : Bool := false
  deriving DecidableEq, Repr

/-- The value of a flag. -/
inductive FlagValue where
  | text (s : String)
  | integer (n : Int)
  | truth (b : Bool)
  deriving DecidableEq, Repr

/-- Why arguments are refused. -/
inductive FlagError where
  | badForm (argument : String)
  | unknown (name : String)
  | unknownLetter (group : List Char)
  | needsValue (argument : String)
  | letterNeedsValue (group : List Char)
  | badInteger (flag : Flag) (value : String) (outOfRange : Bool)
  | badTruth (flag : Flag) (value : String)
  deriving DecidableEq, Repr

/-- The first byte of a group of letters, shown as a character between single quotes. -/
private def shownLetter (group : List Char) : String :=
  match group with
  | [] => ""
  | c :: _ =>
    let first := ((Text.encodeChar c).head?.map (·.toNat)).getD 0
    String.ofList ('\'' :: Text.escapeChar '\'' (Char.ofNat first) ++ ['\''])

/-- How a flag is named in a complaint about its value. -/
private def Flag.title (f : Flag) : String :=
  match f.letter with
  | some c => "-" ++ String.ofList [c] ++ ", --" ++ f.name
  | none => "--" ++ f.name

/-- The complaint about a value. -/
private def badValue (f : Flag) (value reader reason : String) : String :=
  "invalid argument " ++ Text.quote value ++ " for " ++ Text.quote f.title ++ " flag: strconv." ++ reader ++
    ": parsing " ++ Text.quote value ++ ": " ++ reason

/-- The wording of a cause. -/
def FlagError.message : FlagError → String
  | badForm s => "bad flag syntax: " ++ s
  | unknown name => "unknown flag: --" ++ name
  | unknownLetter g => "unknown shorthand flag: " ++ shownLetter g ++ " in -" ++ String.ofList g
  | needsValue s => "flag needs an argument: " ++ s
  | letterNeedsValue g => "flag needs an argument: " ++ shownLetter g ++ " in -" ++ String.ofList g
  | badInteger f v outOfRange => badValue f v "ParseInt" (if outOfRange then "value out of range" else "invalid syntax")
  | badTruth f v => badValue f v "ParseBool" "invalid syntax"

/-- The value of a flag from its text. -/
def Flag.value (f : Flag) (s : String) : Except FlagError FlagValue :=
  match f.type with
  | .text => .ok (.text s)
  | .integer =>
    match Number.integer 0 64 s.toList with
    | .ok n => .ok (.integer n)
    | .error e => .error (.badInteger f s (e == .outOfRange))
  | .truth =>
    if ["1", "t", "T", "TRUE", "true", "True"].contains s then .ok (.truth true)
    else if ["0", "f", "F", "FALSE", "false", "False"].contains s then .ok (.truth false)
    else .error (.badTruth f s)

/-- Flags with their values, the last given first, and the other arguments. -/
structure Arguments where
  flags : List (String × FlagValue) := []
  others : List String := []
  deriving DecidableEq, Repr

namespace Arguments

/-- The value given last for a flag. -/
def value? (a : Arguments) (name : String) : Option FlagValue := (a.flags.find? (·.1 == name)).map (·.2)

/-- The text of a flag, if it was given. -/
def text? (a : Arguments) (name : String) : Option String :=
  match a.value? name with
  | some (.text s) => some s
  | _ => none

/-- The text of a flag; empty where it was not given. -/
def text (a : Arguments) (name : String) : String := (a.text? name).getD ""

/-- The number of a flag, if it was given. -/
def integer? (a : Arguments) (name : String) : Option Int :=
  match a.value? name with
  | some (.integer n) => some n
  | _ => none

/-- The truth of a flag, if it was given. -/
def truth? (a : Arguments) (name : String) : Option Bool :=
  match a.value? name with
  | some (.truth b) => some b
  | _ => none

/-- The flag was set. -/
def isSet (a : Arguments) (name : String) : Bool := (a.truth? name).getD false

/-- Sets a flag. -/
def set (a : Arguments) (f : Flag) (s : String) : Except FlagError Arguments :=
  (f.value s).map fun v => { a with flags := (f.name, v) :: a.flags }

/-- Reads a flag given by its name. `next` is the argument after it; the result tells whether it was
taken. -/
def readName (flags : List Flag) (argument : String) (next : Option String) (a : Arguments) :
    Except FlagError (Arguments × Bool) :=
  let body := String.ofList (argument.toList.drop 2)
  if body == "" || Text.startsWith body "-" || Text.startsWith body "=" then .error (.badForm argument)
  else
    let given := Text.cut? body "="
    let name := given.elim body (·.1)
    match flags.find? (·.name == name) with
    | none => .error (.unknown name)
    | some f =>
      match given with
      | some (_, v) => (a.set f v).map fun a => (a, false)
      | none =>
        if f.type == .truth then (a.set f "true").map fun a => (a, false)
        else
          match next with
          | some v => (a.set f v).map fun a => (a, true)
          | none => .error (.needsValue argument)

/-- Reads flags given by their letters. -/
def readLetters (flags : List Flag) (next : Option String) (a : Arguments) :
    List Char → Except FlagError (Arguments × Bool)
  | [] => .ok (a, false)
  | c :: rest =>
    match flags.find? (·.letter == some c) with
    | none => .error (.unknownLetter (c :: rest))
    | some f =>
      match rest with
      | '=' :: d :: more => (a.set f (String.ofList (d :: more))).map fun a => (a, false)
      | _ =>
        if f.type == .truth then
          match a.set f "true" with
          | .error e => .error e
          | .ok a => readLetters flags next a rest
        else if !rest.isEmpty then (a.set f (String.ofList rest)).map fun a => (a, false)
        else
          match next with
          | some v => (a.set f v).map fun a => (a, true)
          | none => .error (.letterNeedsValue (c :: rest))

/-- Reads arguments one after the other. -/
def readFrom (flags : List Flag) (a : Arguments) : List String → Except FlagError Arguments
  | [] => .ok a
  | s :: rest =>
    if s == "--" then .ok { a with others := a.others ++ rest }
    else if s == "-" || !Text.startsWith s "-" then readFrom flags { a with others := a.others ++ [s] } rest
    else
      let step :=
        if Text.startsWith s "--" then readName flags s rest.head? a
        else readLetters flags rest.head? a (s.toList.drop 1)
      match step with
      | .error e => .error e
      | .ok (a, taken) => readFrom flags a (if taken then rest.drop 1 else rest)
  termination_by args => args.length
  decreasing_by
    · simp
    · split <;> simp only [List.length_drop, List.length_cons] <;> omega

/-- Reads the arguments of a command. -/
def read (flags : List Flag) (args : List String) : Except FlagError Arguments := readFrom flags {} args

end Arguments

end MisuseSlice.CommandLine
