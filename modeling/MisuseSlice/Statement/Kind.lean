import MisuseSlice.Text.Quoted

/-!
Kinds of statements. A kind is known by its name in readable dumps and by its code in packed ones.
-/
namespace MisuseSlice

/-- What a statement does. -/
inductive Kind where
  /-- A statement that slicing does not model, such as a monitor or a breakpoint. -/
  | other
  | nop
  | invoke
  | assignInvoke
  | parameter
  | this
  | caughtException
  | newInstance
  | newArray
  | assignVariableConstant
  | assignVariableVariable
  | assignVariableArray
  | assignVariableField
  | assignVariableOperation
  | assignArrayConstant
  | assignArrayVariable
  | assignFieldConstant
  | assignFieldVariable
  | cast
  | lengthOf
  | instanceOf
  | branchIf
  | goto
  | switch
  | returnValue
  | returnVoid
  | throwValue
  /-- A code that a packed dump gives and that names no kind. -/
  | unlisted (code : Int)
  deriving DecidableEq, Repr, Inhabited

namespace Kind

/-- The kinds that have a name, with it, in the order of their codes. -/
def named : List (Kind × String) :=
  [(other, "other"), (nop, "nop"), (invoke, "invoke"), (assignInvoke, "assign-invoke"),
    (parameter, "parameter"), (this, "this"), (caughtException, "caught-exception"),
    (newInstance, "new-instance"), (newArray, "new-array"),
    (assignVariableConstant, "assign-variable-constant"),
    (assignVariableVariable, "assign-variable-variable"),
    (assignVariableArray, "assign-variable-array"),
    (assignVariableField, "assign-variable-field"),
    (assignVariableOperation, "assign-variable-operation"),
    (assignArrayConstant, "assign-array-constant"),
    (assignArrayVariable, "assign-array-variable"),
    (assignFieldConstant, "assign-field-constant"),
    (assignFieldVariable, "assign-field-variable"), (cast, "cast"), (lengthOf, "length-of"),
    (instanceOf, "instance-of"), (branchIf, "if"), (goto, "goto"), (switch, "switch"),
    (returnValue, "return-value"), (returnVoid, "return-void"), (throwValue, "throw")]

/-- The code of a kind in packed dumps. -/
def code (k : Kind) : Int :=
  match k with
  | unlisted n => n
  | _ => (named.findIdx (fun p => p.1 == k) : Nat)

/-- The kind with a given code. -/
def ofCode (n : Int) : Kind :=
  match n with
  | .ofNat i =>
    match named[i]? with
    | some (k, _) => k
    | none => unlisted n
  | .negSucc _ => unlisted n

/-- The name of a kind. -/
def name (k : Kind) : String :=
  match k with
  | unlisted n => "kind(" ++ Text.ofInt n ++ ")"
  | _ =>
    match named.find? (fun p => p.1 == k) with
    | some (_, s) => s
    | none => ""

/-- The kind with a given name. -/
def ofName? (s : String) : Option Kind :=
  (named.find? (fun p => p.2 == s)).map (·.1)

/-- The complaint about a name that no kind has. -/
def unknownMessage (s : String) : String :=
  "unknown unit kind " ++ Text.quote s

/-- The complaint about bytes that are the name of no kind. -/
def unknownBytesMessage (bs : Text.Bytes) : String :=
  "unknown unit kind " ++ Text.quoteBytes bs

/-- A call, with or without a result. -/
def isInvoke (k : Kind) : Bool := k == invoke || k == assignInvoke

/-- A conditional, unconditional or multiway branch. -/
def isBranch (k : Kind) : Bool := k == branchIf || k == goto || k == switch

/-- A return, with or without a value. -/
def isReturn (k : Kind) : Bool := k == returnValue || k == returnVoid

/-- A statement that binds a parameter, the receiver or the caught exception. -/
def isIdentity (k : Kind) : Bool := k == parameter || k == this || k == caughtException

/-- Statements of this kind assign their left operand, and that operand is a variable. -/
def definesLocal : Kind → Bool
  | assignInvoke | parameter | this | caughtException | newInstance | newArray
  | assignVariableConstant | assignVariableVariable | assignVariableArray | assignVariableField
  | assignVariableOperation | cast | lengthOf | instanceOf => true
  | _ => false

end Kind

end MisuseSlice
