import MisuseSlice.Statement.Kind
import MisuseSlice.Value

/-!
Statements of method bodies. A statement is a record of operands; which of them a kind uses is said
at the fields. Its printed form is what target statements are matched against.
-/
namespace MisuseSlice

/-- One statement of a method body. -/
structure Statement where
  kind : Kind := .other
  /-- How a call is dispatched: virtual, static, special, interface or dynamic. -/
  invoke : String := ""
  /-- The assigned operand. -/
  left : Value := {}
  /-- The assigned value; the size of a new array; the key of a switch; what is returned or thrown. -/
  right : Value := {}
  /-- The receiver of a call, the array of an array access. -/
  base : Value := {}
  index : Value := {}
  /-- The arguments of a call, the operands of an operation or of a comparison. -/
  args : List Value := []
  op : String := ""
  /-- The callee of a call. -/
  signature : String := ""
  /-- The type bound, allocated, cast to or tested. -/
  type : String := ""
  paramIndex : Int := 0
  /-- Where an `if` or `goto` jumps. -/
  target : Int := 0
  /-- Where a switch jumps, its default last. -/
  targets : List Int := []
  /-- The position in the method body. -/
  pos : Nat := 0
  deriving DecidableEq, Repr, Inhabited

namespace Statement

/-- The statement that does nothing. -/
def nopAt (pos : Nat) : Statement := { kind := .nop, pos }

/-- The class of the callee. -/
def calleeClass (u : Statement) : String := Signature.className u.signature

/-- The name of the called method. -/
def calleeName (u : Statement) : String := Signature.methodName u.signature

/-- The signature of the field that the statement reads or writes, or empty. -/
def fieldSignature (u : Statement) : String :=
  match u.kind with
  | .assignVariableField => u.right.fieldSignature
  | .assignFieldConstant | .assignFieldVariable => u.left.fieldSignature
  | _ => ""

/-- Allocates an exception or an error. -/
def isNewException (u : Statement) : Bool :=
  u.kind == .newInstance && (Text.endsWith u.type "Exception" || Text.endsWith u.type "Error")

/-- The argument at a position, the receiver at -1, and otherwise a missing value. -/
def arg (u : Statement) (i : Int) : Value :=
  if i = -1 then u.base
  else
    match i with
    | .ofNat n => u.args.getD n {}
    | .negSucc _ => {}

/-- Every operand that the statement defines or reads, receivers of field references included. -/
def operands (u : Statement) : List Value :=
  let withReceiver (v : Value) : List Value :=
    if v.base != "" then [v, Value.read v.base] else [v]
  (withReceiver u.left ++ withReceiver u.right ++ [u.base, u.index] ++ u.args).filter
    (!·.isAbsent)

/-- The operands that the statement reads. -/
def uses (u : Statement) : List Value :=
  u.operands.filter fun v => !(u.kind.definesLocal && v.text == u.left.text)

/-- The variable that the statement defines, or the missing value. -/
def defined (u : Statement) : Value :=
  if u.kind.definesLocal && u.left.isVariable then u.left else {}

/-- The operands that an `if` compares. -/
def compared (u : Statement) : List Value :=
  if u.kind == .branchIf then u.args else []

/-- The printed form of a call. -/
def callText (u : Statement) : String :=
  let dispatch :=
    if u.invoke != "" then u.invoke else if u.base.isAbsent then "static" else "virtual"
  let receiver := if u.base.isAbsent then "" else u.base.text ++ "."
  dispatch ++ "invoke " ++ receiver ++ u.signature ++ "(" ++
    Text.joinWith ", " (u.args.map (·.text)) ++ ")"

private def switchCases (targets : List Int) : List String :=
  match targets with
  | [] => []
  | [t] => ["default: goto " ++ Text.ofInt t]
  | t :: rest => ("goto " ++ Text.ofInt t) :: switchCases rest

/-- The printed form of a statement. -/
def text (u : Statement) : String :=
  match u.kind with
  | .nop => "nop"
  | .invoke => u.callText
  | .assignInvoke => u.left.text ++ " = " ++ u.callText
  | .parameter => u.left.text ++ " := @parameter" ++ Text.ofInt u.paramIndex ++ ": " ++ u.type
  | .this => u.left.text ++ " := @this: " ++ u.type
  | .caughtException => u.left.text ++ " := @caughtexception"
  | .newInstance => u.left.text ++ " = new " ++ u.type
  | .newArray => u.left.text ++ " = newarray (" ++ u.type ++ ")[" ++ u.right.text ++ "]"
  | .assignVariableConstant | .assignVariableVariable | .assignVariableField
  | .assignFieldConstant | .assignFieldVariable => u.left.text ++ " = " ++ u.right.text
  | .assignVariableArray => u.left.text ++ " = " ++ u.base.text ++ "[" ++ u.index.text ++ "]"
  | .assignVariableOperation =>
    match u.args with
    | [a] => u.left.text ++ " = " ++ u.op ++ " " ++ a.text
    | [a, b] => u.left.text ++ " = " ++ a.text ++ " " ++ u.op ++ " " ++ b.text
    | _ => u.left.text ++ " = " ++ u.op
  | .assignArrayConstant | .assignArrayVariable =>
    u.base.text ++ "[" ++ u.index.text ++ "] = " ++ u.right.text
  | .cast => u.left.text ++ " = (" ++ u.type ++ ") " ++ u.right.text
  | .lengthOf => u.left.text ++ " = lengthof " ++ u.right.text
  | .instanceOf => u.left.text ++ " = " ++ u.right.text ++ " instanceof " ++ u.type
  | .branchIf =>
    match u.args with
    | [a, b] =>
      "if " ++ a.text ++ " " ++ u.op ++ " " ++ b.text ++ " goto " ++ Text.ofInt u.target
    | _ => "if goto " ++ Text.ofInt u.target
  | .goto => "goto " ++ Text.ofInt u.target
  | .switch =>
    "switch(" ++ u.right.text ++ ") \x7b" ++ Text.joinWith "; " (switchCases u.targets) ++ "\x7d"
  | .returnValue => "return " ++ u.right.text
  | .returnVoid => "return"
  | .throwValue => "throw " ++ u.right.text
  | .other => "other"
  | .unlisted n => Kind.name (.unlisted n)

/-- What can be wrong with a statement in its method. -/
inductive Defect where
  | calleeSignature (signature : String)
  | noLeft
  | comparedCount (count : Nat)
  | branchTarget (target : Int)
  | noTargets
  | switchTarget (target : Int)
  | writeOfNonField (text : String)
  | readOfNonField (text : String)
  deriving DecidableEq, Repr

/-- The wording of a defect of the statement at `pos`. -/
def Defect.message (d : Defect) (pos : Nat) : String :=
  let start := "unit " ++ Text.ofNat pos ++ ": "
  match d with
  | calleeSignature s => start ++ "invalid callee signature " ++ Text.quote s
  | noLeft => start ++ "assign-invoke without left operand"
  | comparedCount n => start ++ "if needs two operands, got " ++ Text.ofNat n
  | branchTarget t => start ++ "branch target " ++ Text.ofInt t ++ " out of range"
  | noTargets => start ++ "switch without targets"
  | switchTarget t => start ++ "switch target " ++ Text.ofInt t ++ " out of range"
  | writeOfNonField s => start ++ "field assignment to a non-field " ++ Text.quote s
  | readOfNonField s => start ++ "field read of a non-field " ++ Text.quote s

/-- The position lies in a method of `size` statements. -/
def inMethod (size : Int) (t : Int) : Bool := 0 ≤ t && t < size

/-- The first defect of a statement in a method of `size` statements. -/
def defect? (u : Statement) (size : Int) : Option Defect :=
  match u.kind with
  | .invoke =>
    if Signature.isMethod u.signature then none else some (.calleeSignature u.signature)
  | .assignInvoke =>
    if !Signature.isMethod u.signature then some (.calleeSignature u.signature)
    else if u.left.isAbsent then some .noLeft
    else none
  | .branchIf =>
    if u.args.length ≠ 2 then some (.comparedCount u.args.length)
    else if inMethod size u.target then none
    else some (.branchTarget u.target)
  | .goto => if inMethod size u.target then none else some (.branchTarget u.target)
  | .switch =>
    if u.targets.isEmpty then some .noTargets
    else (u.targets.find? (!inMethod size ·)).map .switchTarget
  | .assignFieldConstant | .assignFieldVariable =>
    if u.left.isFieldRef then none else some (.writeOfNonField u.left.text)
  | .assignVariableField =>
    if u.right.isFieldRef then none else some (.readOfNonField u.right.text)
  | _ => none

end Statement

end MisuseSlice
