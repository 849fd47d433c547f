import MisuseSlice.Text.Basic
import MisuseSlice.Text.Utf8

/-!
Name patterns. A star matches any number of bytes and a question mark one character, neither of them a
slash; brackets match one of several characters, and a backslash takes the next character as it is. What
follows a star is matched as early as it can be. A malformed pattern matches nothing.
-/
namespace MisuseSlice.Text.Glob

/-- One part of a pattern. -/
inductive Part where
  | char (c : Char)
  | anyChar
  | anyRun
  | oneOf (negated : Bool) (ranges : List (Char × Char))
  deriving DecidableEq, Repr

/-- A character of a bracket, which may be escaped but is no bracket or dash itself. -/
private def bracketChar? : List Char → Option (Char × List Char)
  | [] => none
  | '\\' :: c :: r => if r.isEmpty then none else some (c, r)
  | '\\' :: [] => none
  | c :: r => if c == '-' || c == ']' || r.isEmpty then none else some (c, r)

/-- The ranges of a bracket up to its end. -/
private def bracketRanges? : (fuel : Nat) → List (Char × Char) → List Char →
    Option (List (Char × Char) × List Char)
  | 0, _, _ => none
  | fuel + 1, ranges, cs =>
    match cs with
    | ']' :: r => if ranges.isEmpty then none else some (ranges, r)
    | _ =>
      match bracketChar? cs with
      | none => none
      | some (lo, '-' :: r) =>
        match bracketChar? r with
        | some (hi, r) => bracketRanges? fuel (ranges ++ [(lo, hi)]) r
        | none => none
      | some (lo, r) => bracketRanges? fuel (ranges ++ [(lo, lo)]) r

/-- The parts of a pattern. -/
def parts? : (fuel : Nat) → List Char → Option (List Part)
  | 0, _ => none
  | fuel + 1, cs =>
    match cs with
    | [] => some []
    | '*' :: r => (parts? fuel r).map (.anyRun :: ·)
    | '?' :: r => (parts? fuel r).map (.anyChar :: ·)
    | '\\' :: c :: r => (parts? fuel r).map (.char c :: ·)
    | '\\' :: [] => none
    | '[' :: r =>
      let (negated, body) : Bool × List Char :=
        match r with
        | '^' :: b => (true, b)
        | _ => (false, r)
      match bracketRanges? (body.length + 1) [] body with
      | some (ranges, rest) => (parts? fuel rest).map (.oneOf negated ranges :: ·)
      | none => none
    | c :: r => (parts? fuel r).map (.char c :: ·)

/-- Parts without a run, after a run or at the start of the pattern. -/
structure Chunk where
  afterRun : Bool
  parts : List Part

/-- The chunks of a pattern; `parts` are those of the current chunk, last first. -/
def chunksFrom (afterRun : Bool) (parts : List Part) : List Part → List Chunk
  | [] => if afterRun || !parts.isEmpty then [⟨afterRun, parts.reverse⟩] else []
  | .anyRun :: ps =>
    if parts.isEmpty then chunksFrom true [] ps else ⟨afterRun, parts.reverse⟩ :: chunksFrom true [] ps
  | p :: ps => chunksFrom afterRun (p :: parts) ps

/-- The first rune of a name, and what follows it. -/
private def firstRune? : Bytes → Option (Rune × Bytes)
  | [] => none
  | b :: rest =>
    match leading? b rest with
    | some (c, more) => some (.char c, rest.drop more)
    | none => some (.stray b, rest)

/-- What is left of a name after a part other than a run. -/
def Part.rest? (name : Bytes) : Part → Option Bytes
  | .char c => dropFront? (encodeChar c) name
  | .anyChar =>
    match firstRune? name with
    | some (r, rest) => if r == .char '/' then none else some rest
    | none => none
  | .anyRun => none
  | .oneOf negated ranges =>
    match firstRune? name with
    | some (r, rest) =>
      if (ranges.any fun (lo, hi) => lo ≤ r.shown && r.shown ≤ hi) == negated then none else some rest
    | none => none

/-- What is left of a name after the parts of a chunk. -/
def rest? (name : Bytes) (parts : List Part) : Option Bytes :=
  parts.foldlM (fun name p => p.rest? name) name

/-- What a run can leave of a name: it takes any number of bytes, none of them a slash. -/
def runRests : Bytes → List Bytes
  | [] => [[]]
  | b :: name => (b :: name) :: (if b == '/'.toUInt8 then [] else runRests name)

/-- The name matches the chunks. A run before a chunk takes as few bytes as it can. -/
def acceptsChunks : List Chunk → Bytes → Bool
  | [], name => name.isEmpty
  | k :: rest, name =>
    if k.parts.isEmpty then !name.contains '/'.toUInt8
    else
      let ends (start : Bytes) : Option Bytes :=
        (rest? start k.parts).filter fun left => !rest.isEmpty || left.isEmpty
      match (if k.afterRun then runRests name else [name]).findSome? ends with
      | some left => acceptsChunks rest left
      | none => false

/-- The whole name matches the pattern. -/
def accepts (pattern name : String) : Bool :=
  match parts? (pattern.length + 1) pattern.toList with
  | none => false
  | some ps => acceptsChunks (chunksFrom false [] ps) (bytesOf name)

end MisuseSlice.Text.Glob
