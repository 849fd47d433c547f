import MisuseSlice.Statement.Basic

/-!
Statements built from the texts of their operands. String constants carry their quotes.
-/
namespace MisuseSlice.Statement

private def dispatchOf (base : Value) (signature : String) : String :=
  if base.isAbsent then "static"
  else if Signature.methodName signature == "<init>" then "special"
  else "virtual"

/-- A call without result; an empty receiver makes it static. -/
def call (base signature : String) (args : List String) : Statement :=
  { kind := .invoke, base := .read base, signature, args := args.map .read,
    invoke := dispatchOf (.read base) signature }

/-- A call whose result is assigned. -/
def callAssign (left base signature : String) (args : List String) : Statement :=
  { kind := .assignInvoke, left := .read left, base := .read base, signature,
    args := args.map .read, invoke := dispatchOf (.read base) signature }

/-- Binds a parameter. -/
def param (left : String) (index : Int) (type : String) : Statement :=
  { kind := .parameter, left := .read left, paramIndex := index, type }

/-- Binds the receiver. -/
def thisRef (left type : String) : Statement := { kind := .this, left := .read left, type }

/-- Binds the caught exception. -/
def caught (left : String) : Statement := { kind := .caughtException, left := .read left }

/-- Allocates an object. -/
def new (left type : String) : Statement := { kind := .newInstance, left := .read left, type }

/-- Allocates an array. -/
def newArray (left elemType size : String) : Statement :=
  { kind := .newArray, left := .read left, type := elemType, right := .read size }

/-- An assignment; its kind follows from the operands. -/
def assign (left right : String) : Statement :=
  let l := Value.read left
  let r := Value.read right
  if l.isFieldRef then
    { kind := if r.isConstant then .assignFieldConstant else .assignFieldVariable,
      left := l, right := r, signature := l.fieldSignature }
  else if r.isFieldRef then
    { kind := .assignVariableField, left := l, right := r, signature := r.fieldSignature }
  else
    { kind := if r.isConstant then .assignVariableConstant else .assignVariableVariable,
      left := l, right := r }

/-- The assignment of a constant that replaces a folded statement. -/
def assignConstant (left right : Value) (pos : Nat) : Statement :=
  { kind := .assignVariableConstant, left, right, pos }

/-- Reads an array element. -/
def arrayLoad (left base index : String) : Statement :=
  { kind := .assignVariableArray, left := .read left, base := .read base, index := .read index }

/-- Writes an array element. -/
def arrayStore (base index right : String) : Statement :=
  let r := Value.read right
  { kind := if r.isConstant then .assignArrayConstant else .assignArrayVariable,
    base := .read base, index := .read index, right := r }

/-- A binary operation. -/
def operation (left a op b : String) : Statement :=
  { kind := .assignVariableOperation, left := .read left, op, args := [.read a, .read b] }

/-- A cast. -/
def castTo (left type right : String) : Statement :=
  { kind := .cast, left := .read left, type, right := .read right }

/-- The length of an array. -/
def lengthOf (left right : String) : Statement :=
  { kind := .lengthOf, left := .read left, right := .read right }

/-- A type test. -/
def instanceOf (left right type : String) : Statement :=
  { kind := .instanceOf, left := .read left, right := .read right, type }

/-- A conditional branch. -/
def branch (a op b : String) (target : Int) : Statement :=
  { kind := .branchIf, args := [.read a, .read b], op, target }

/-- An unconditional branch. -/
def jump (target : Int) : Statement := { kind := .goto, target }

/-- A multiway branch, its default last. -/
def switchOn (key : String) (targets : List Int) : Statement :=
  { kind := .switch, right := .read key, targets }

/-- A return of a value. -/
def ret (value : String) : Statement := { kind := .returnValue, right := .read value }

/-- A return without a value. -/
def retVoid : Statement := { kind := .returnVoid }

/-- A throw. -/
def raise (value : String) : Statement := { kind := .throwValue, right := .read value }

end MisuseSlice.Statement
