import MisuseSlice.Criterion.Fingerprint
import MisuseSlice.Statement.Basic

/-!
Slicing criteria: the values of interest at a seed statement of a method. Two criteria are the same
exactly when caller, target, place and values of interest are; the other parts go along.
-/
namespace MisuseSlice

/-- Which statements are seeds (`TargetKind`). -/
inductive SeedKind where
  /-- Calls of the target method. -/
  | invoke
  /-- Calls of a method whose parameters are tracked. -/
  | parameter
  /-- The returns of a method. -/
  | returned
  /-- The writes of a field. -/
  | fieldWrite
  deriving DecidableEq, Repr, Inhabited

namespace SeedKind

/-- The name of a kind. -/
def name : SeedKind → String
  | invoke => "invoke"
  | parameter => "parameter"
  | returned => "return"
  | fieldWrite => "field-write"

/-- The kind with a name. -/
def ofName? (s : String) : Option SeedKind :=
  [invoke, parameter, returned, fieldWrite].find? (·.name == s)

end SeedKind

/-- A criterion. -/
structure Criterion where
  /-- The method that holds the seed. -/
  caller : String
  /-- The called method, the returning method, or the written field. -/
  target : String
  kind : SeedKind
  /-- The printed seed statement. -/
  statement : String
  /-- The place of the seed in the reversed body. -/
  start : Int
  /-- The position of the seed. -/
  pos : Nat
  /-- The argument positions of interest; -1 is the receiver. -/
  positions : List Int
  /-- The values of interest, sorted by text, each once. -/
  targets : List Value
  /-- How many calls above the first method the criterion is; negative below it. -/
  level : Int
  deriving DecidableEq, Repr, Inhabited

namespace Criterion

/-- Values sorted by text, the last one of each text (`normalize`). -/
def normalized (vs : List Value) : List Value := (ValueSet.ofList vs).toList

/-- The fingerprint of what makes a criterion. -/
def fingerprint (c : Criterion) : UInt64 :=
  Fingerprint.ofRecord "identity"
    [("Caller", Fingerprint.ofText c.caller), ("Target", Fingerprint.ofText c.target),
      ("Start", Fingerprint.ofInt c.start), ("Targets", Fingerprint.ofTexts (c.targets.map (·.text)))]

/-- The name under which a criterion is known. -/
def id (c : Criterion) : String := Fingerprint.hex c.fingerprint

/-- The criterion of a seed statement. -/
def ofSeed (caller target : String) (kind : SeedKind) (seed : Statement) (start : Nat) (positions : List Int)
    (targets : List Value) (level : Int) : Criterion :=
  { caller, target, kind, statement := seed.text, start, pos := seed.pos, positions,
    targets := normalized targets, level }

/-- The criterion with other values of interest. -/
def withTargets (c : Criterion) (vs : List Value) : Criterion := { c with targets := normalized vs }

/-- The printed form. -/
def text (c : Criterion) : String :=
  c.caller ++ "@" ++ Text.ofNat (c.pos + 1) ++ "[" ++ c.kind.name ++ "] " ++ c.target ++ " \x7b" ++
    Text.joinWith ", " (c.targets.map (·.text)) ++ "\x7d level " ++ Text.ofInt c.level

/-- The statement is a seed for the target (`matches`). -/
def isSeed (u : Statement) (target : String) : SeedKind → Bool
  | .invoke => u.kind.isInvoke && Text.contains u.text target
  | .parameter => Text.contains u.text target
  | .returned => u.kind == .returnValue
  | .fieldWrite => u.kind == .assignFieldVariable && u.fieldSignature == target

/-- The values of interest of a seed (`targetValues`). -/
def valuesOf (u : Statement) (kind : SeedKind) (positions : List Int) : List Value :=
  let values :=
    match kind with
    | .returned | .fieldWrite => [u.right]
    | .invoke | .parameter =>
      if !u.kind.isInvoke then []
      else if positions.isEmpty then [u.base]
      else positions.map u.arg
  values.filter (!·.isAbsent)

/-- The criteria of the seeds in a body, last statement first (`CreateCriteria`). -/
def inBody (source : List Statement) (caller target : String) (kind : SeedKind) (positions : List Int)
    (level : Int) : List Criterion :=
  (source.reverse.mapIdx fun i u =>
    if isSeed u target kind then
      let values := valuesOf u kind positions
      if values.isEmpty then none else some (ofSeed caller target kind u i positions values level)
    else none).filterMap (·)

end Criterion

/-- The criteria known by name. -/
abbrev Registry := Std.TreeMap String Criterion

namespace Registry

/-- Records a criterion; the flag is false where its name was known already. -/
def register (r : Registry) (c : Criterion) : Registry × Bool :=
  if r.contains c.id then (r, false) else (r.insert c.id c, true)

end Registry

end MisuseSlice
