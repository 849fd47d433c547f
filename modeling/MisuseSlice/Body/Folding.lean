import Std.Data.TreeMap
import MisuseSlice.Interval
import MisuseSlice.Log
import MisuseSlice.Number.Binary64
import MisuseSlice.Statement.Build

/-!
Constant folding. A forward pass follows the constants that variables hold on straight-line code,
replaces library calls on constants by their results, and decides the branches whose operands are
numbers. The side of a decided branch that cannot run is dead.
-/
namespace MisuseSlice

/-- A library method whose result on constants is computed. -/
inductive Folder where
  | parseInt
  | valueOf
  | abs
  | round
  | replace
  deriving DecidableEq, Repr

namespace Folder

/-- The folders in the order in which they are tried. -/
def all : List Folder := [parseInt, valueOf, abs, round, replace]

/-- The class and the name of the method. -/
def callee : Folder → String × String
  | parseInt => ("java.lang.Integer", "parseInt")
  | valueOf => ("java.lang.Integer", "valueOf")
  | abs => ("java.lang.Math", "abs")
  | round => ("java.lang.Math", "round")
  | replace => ("java.lang.String", "replace")

/-- The signature is one of the folder's method. -/
def accepts (f : Folder) (signature : String) : Bool :=
  Signature.className signature == f.callee.1 && Signature.methodName signature == f.callee.2

/-- The first folder for a signature. -/
def find? (signature : String) : Option Folder := all.find? (·.accepts signature)

/-- The integer that a text of digits denotes in a radix, if it fits in 32 bits (`foldParseInt`). -/
def integerOf? (args : List Value) : Option Value :=
  match args with
  | [] => none
  | a :: rest =>
    let text :=
      if a.kind == .stringConst then Text.trim (Text.shown a.content) else a.numericText
    let radix : Int :=
      match rest with
      | [r] =>
        if r.kind == .intConst then
          match Number.integer 10 64 r.text.toList with
          | .ok n => n
          | .error .outOfRange => 0x7FFFFFFFFFFFFFFF
          | .error _ => 0
        else 10
      | _ => 10
    match Number.integer radix 32 text.toList with
    | .ok n => some (Value.read (Text.ofInt n))
    | .error _ => none

/-- The literal without its sign (`foldAbs`). -/
def absolute? : List Value → Option Value
  | [a] =>
    if a.isNumeric then
      some (Value.read (Text.stripFront a.numericText "-" ++ Text.stripFront a.text a.numericText))
    else none
  | _ => none

/-- The nearest integer, a half going up (`foldRound`). -/
def rounded? : List Value → Option Value
  | [a] =>
    if a.isNumeric then
      match Number.binary64? a.numericText.toList with
      | some f =>
        (Number.nearestBinary64? (f + 1 / 2)).map fun g =>
          Value.read (Text.ofInt (Number.cutToWord (g.floor : Rat)))
      | none => none
    else none
  | _ => none

/-- Replaces every occurrence of `old`, which is not empty, by `new`; `skip` bytes belong to an
occurrence already replaced. -/
def replaceFrom (old new : Text.Bytes) : (skip : Nat) → Text.Bytes → Text.Bytes
  | _, [] => []
  | skip + 1, _ :: rest => replaceFrom old new skip rest
  | 0, b :: rest =>
    match Text.dropFront? old (b :: rest) with
    | some _ => new ++ replaceFrom old new (old.length - 1) rest
    | none => b :: replaceFrom old new 0 rest

/-- Replaces every occurrence; the empty text occurs before each character and at the end. -/
def replaceAll (old new s : Text.Bytes) : Text.Bytes :=
  if old.isEmpty then
    (Text.runes s).flatMap (fun r => new ++ r.bytes) ++ new
  else replaceFrom old new 0 s

/-- The content of a string constant, or the character with an integer constant as its code. -/
def characters? (v : Value) : Option Text.Bytes :=
  match v.kind with
  | .stringConst => some v.content
  | .intConst =>
    match Number.integer 10 64 v.text.toList with
    | .ok n =>
      let code := Int.bmod n 0x100000000
      some (Text.encodeChar
        (if 0 ≤ code ∧ Text.isScalar code.toNat then Char.ofNat code.toNat else Char.ofNat 0xFFFD))
    | .error _ => none
  | _ => none

/-- The text with every occurrence of one part replaced by another (`foldReplace`). -/
def replaced? (base : Value) : List Value → Option Value
  | [old, new] =>
    if base.kind == .stringConst then
      match characters? old, characters? new with
      | some o, some n => some (Value.read (Text.quoteBytes (replaceAll o n base.content)))
      | _, _ => none
    else none
  | _ => none

/-- The constant result of a call on a constant receiver and constant arguments. -/
def fold? (f : Folder) (base : Value) (args : List Value) : Option Value :=
  match f with
  | parseInt => integerOf? args
  | valueOf => integerOf? args
  | abs => absolute? args
  | round => rounded? args
  | replace => replaced? base args

end Folder

/-- The constants that variables hold. -/
abbrev Constants := Std.TreeMap String Value

namespace Constants

/-- The constant value of an operand. -/
def resolve? (cs : Constants) (v : Value) : Option Value :=
  if v.isConstant then some v else cs[v.text]?

/-- The constant values of all the operands. -/
def resolveAll? (cs : Constants) : List Value → Option (List Value)
  | [] => some []
  | v :: vs =>
    match cs.resolve? v, cs.resolveAll? vs with
    | some c, some more => some (c :: more)
    | _, _ => none

end Constants

namespace Folding

/-- The constant assignment that replaces a call (`foldCall`). -/
def call? (cs : Constants) (u : Statement) : Option Statement :=
  match Folder.find? u.signature with
  | none => none
  | some f =>
    let base := if u.base.isAbsent then some Value.missing else cs.resolve? u.base
    match base, cs.resolveAll? u.args with
    | some b, some args => (f.fold? b args).map fun v => Statement.assignConstant u.left v u.pos
    | _, _ => none

/-- The verdict on an `if` that jumps forward from `pos` and compares two numbers (`decide`). -/
def verdict (live : Bool) (operand : Value → Option Value) (u : Statement) (pos : Nat) : Verdict :=
  match u.args with
  | [x, y] =>
    if u.target ≤ pos then .unknown
    else
      match operand x, operand y with
      | some a, some b =>
        if a.isNumeric && b.isNumeric then
          Comparison.resolve live a.numericText u.op b.numericText
        else .unknown
      | _, _ => .unknown
  | _ => .unknown

/-- The positions from `first` to `last`. -/
def range (first last : Int) : List Nat :=
  (List.range ((last + 1).toNat - first.toNat)).map (· + first.toNat)

/-- The positions that a verdict on the `if` at `pos` rules out: the skipped range where the branch is
taken, without the jump that ends it, and the other side of an if/else where it is not. -/
def ruledOut (units : List Statement) (u : Statement) (pos : Nat) : Verdict → List Nat
  | .holds =>
    let t := u.target
    match units[t.toNat - 1]? with
    | some last =>
      if last.kind == .goto && decide (t - 1 < last.target) then range (pos + 1) (t - 2)
      else range (pos + 1) (t - 1)
    | none => range (pos + 1) (t - 1)
  | .fails =>
    let t := u.target
    if t - 1 ≤ pos then []
    else
      match units[t.toNat - 1]? with
      | some last =>
        if last.kind == .goto && decide (t < last.target) then range t (last.target - 1) else []
      | none => []
  | .unknown => []

/-- The positions that branches jump to. -/
def branchTargets (units : List Statement) : List Int :=
  units.flatMap fun u =>
    match u.kind with
    | .branchIf | .goto => [u.target]
    | .switch => u.targets
    | _ => []

/-- Adds positions that are not in the list yet (`markDead`). -/
def mark (dead : List Nat) (more : List Nat) : List Nat :=
  more.foldl (fun d p => if d.contains p then d else d ++ [p]) dead

/-- The state of the pass. -/
structure State where
  constants : Constants := {}
  dead : List Nat := []
  log : Log := []

/-- The pass at one statement that is not dead. -/
def step (live : Bool) (method : String) (units : List Statement) (s : State) (u : Statement) (pos : Nat) :
    Statement × State :=
  let forget (s : State) : State :=
    let d := u.defined
    if d.isAbsent then s else { s with constants := s.constants.erase d.text }
  let hold (v : Value) : State := { s with constants := s.constants.insert u.left.text v }
  match u.kind with
  | .assignVariableConstant => (u, hold u.right)
  | .assignVariableVariable | .cast =>
    match s.constants.resolve? u.right with
    | some c => (u, hold c)
    | none => (u, forget s)
  | .assignInvoke =>
    match call? s.constants u with
    | some folded =>
      (folded, { hold folded.right with
        log := s.log ++ Log.one .trace (method ++ ": folded " ++ u.text ++ " into " ++ folded.text) })
    | none => (u, forget s)
  | .branchIf =>
    let v := verdict live s.constants.resolve? u pos
    (u, { s with dead := mark s.dead (ruledOut units u pos v) })
  | _ => (u, forget s)

/-- The pass over the statements from `pos` on. Where paths join, nothing is known of variables. -/
def run (live : Bool) (method : String) (units : List Statement) (targets : List Int) :
    Nat → List Statement → State → List Statement × State
  | _, [], s => ([], s)
  | pos, u :: rest, s =>
    if s.dead.contains pos then
      let (us, s) := run live method units targets (pos + 1) rest s
      (u :: us, s)
    else
      let s := if targets.contains (pos : Int) then { s with constants := {} } else s
      let (u', s) := step live method units s u pos
      let (us, s) := run live method units targets (pos + 1) rest s
      (u' :: us, s)

/-- Folds a body (`fold`): the new statements, the dead positions and the messages. -/
def body (live : Bool) (method : String) (units : List Statement) : List Statement × List Nat × Log :=
  let (us, s) := run live method units (branchTargets units) 0 units {}
  (us, s.dead, s.log)

end Folding

end MisuseSlice
