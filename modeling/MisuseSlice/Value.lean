import Std.Data.TreeMap
import MisuseSlice.Number.Literal
import MisuseSlice.Signature
import MisuseSlice.Text.Blank
import MisuseSlice.Text.Quoted

/-!
Operands of statements. A value is known by its printed form, from which its kind is inferred; two
values denote the same variable exactly when their texts are equal.

Here and in the modules that follow, a name in parentheses is what the analyzer itself calls the thing described.
-/
namespace MisuseSlice

/-- What an operand is. -/
inductive ValueKind where
  | absent
  | localName
  | temporary
  | intConst
  | longConst
  | floatConst
  | doubleConst
  | stringConst
  | nullConst
  | classConst
  | arrayConst
  | fieldRef
  | paramRef
  | other
  /-- A code that a dump gives and that names no kind. -/
  | unlisted (code : Int)
  deriving DecidableEq, Repr, Inhabited

namespace ValueKind

/-- The kinds that have a name, in the order of their codes. -/
def all : List ValueKind :=
  [absent, localName, temporary, intConst, longConst, floatConst, doubleConst, stringConst,
    nullConst, classConst, arrayConst, fieldRef, paramRef, other]

/-- The code of a kind in dumps. -/
def code : ValueKind → Int
  | absent => 0
  | localName => 1
  | temporary => 2
  | intConst => 3
  | longConst => 4
  | floatConst => 5
  | doubleConst => 6
  | stringConst => 7
  | nullConst => 8
  | classConst => 9
  | arrayConst => 10
  | fieldRef => 11
  | paramRef => 12
  | other => 13
  | unlisted n => n

/-- The kind with a given code. -/
def ofCode (n : Int) : ValueKind :=
  match all.find? (fun k => k.code == n) with
  | some k => k
  | none => unlisted n

end ValueKind

/-- An operand of a statement. -/
structure Value where
  kind : ValueKind := .absent
  /-- The printed form. -/
  text : String := ""
  /-- The declared type, when known. -/
  type : String := ""
  /-- The receiver of an instance field reference. -/
  base : String := ""
  deriving DecidableEq, Repr, Inhabited

namespace Value

/-- The missing operand. -/
def missing : Value := {}

/-- The null constant. -/
def null : Value := { kind := .nullConst, text := "null" }

/-- The mark that a slot holds another value than before. -/
def fresh : Value := { kind := .other, text := "<fresh>" }

/-- A lower-case letter followed by one to five digits. -/
def isSlotName (cs : List Char) : Bool :=
  match cs with
  | c :: digits =>
    'a' ≤ c && c ≤ 'z' && digits.all Number.isDecimal && 1 ≤ digits.length && digits.length ≤ 5
  | [] => false

def isWordChar (c : Char) : Bool :=
  c.isAlphanum || c == '_'

/-- A letter or underscore followed by letters, digits and underscores. -/
def isIdentifier (cs : List Char) : Bool :=
  match cs with
  | c :: rest => (c.isAlpha || c == '_') && rest.all isWordChar
  | [] => false

/-- The type of a parameter reference, `some ""` when it names none. -/
def paramRefType? (s : String) : Option String :=
  match Text.dropFront? "@parameter".toList s.toList with
  | none => none
  | some rest =>
    if (rest.takeWhile Number.isDecimal).isEmpty then none
    else
      match rest.dropWhile Number.isDecimal with
      | [] => some ""
      | ':' :: ' ' :: type => if type.contains '\n' then none else some (String.ofList type)
      | _ => none

/-- Kind, type and receiver inferred from the trimmed text of a value. -/
def classify (t : String) : Value :=
  if t = "" then {}
  else if t = "null" then null
  else if Text.startsWith t "\"" then { kind := .stringConst, text := t, type := "java.lang.String" }
  else if Text.startsWith t "class \"" then
    { kind := .classConst, text := t, type := "java.lang.Class" }
  else if Text.startsWith t "\x7b" && Text.endsWith t "\x7d" then { kind := .arrayConst, text := t }
  else
    match Number.literalType? t with
    | some .int => { kind := .intConst, text := t, type := "int" }
    | some .long => { kind := .longConst, text := t, type := "long" }
    | some .float => { kind := .floatConst, text := t, type := "float" }
    | some .double => { kind := .doubleConst, text := t, type := "double" }
    | none =>
      if Text.startsWith t "<" && Text.endsWith t ">" then
        { kind := .fieldRef, text := t, type := Signature.declaredType t }
      else if Text.endsWith t ">" && Text.contains t ".<" then
        match Text.cut? t ".<" with
        | some (receiver, rest) =>
          { kind := .fieldRef, text := t, type := Signature.declaredType ("<" ++ rest),
            base := receiver }
        | none => { kind := .other, text := t }
      else
        match paramRefType? t with
        | some type => { kind := .paramRef, text := t, type }
        | none =>
          match t.toList with
          | '$' :: rest =>
            { kind := if isIdentifier rest then .temporary else .other, text := t }
          | cs => { kind := if isIdentifier cs then .localName else .other, text := t }

/-- The value whose printed form is `text`, white space at its ends apart (`ParseValue`). -/
def read (text : String) : Value :=
  classify (Text.trim text)

/-- The array constant with the given elements. -/
def arrayLiteral (elemType : String) (elems : List String) : Value :=
  { kind := .arrayConst, text := "\x7b" ++ Text.joinWith ", " elems ++ "\x7d",
    type := elemType ++ "[]" }

/-- The operand is missing. -/
def isAbsent (v : Value) : Bool := v.text == ""

/-- A local variable or a temporary. -/
def isVariable (v : Value) : Bool :=
  v.kind == .localName || v.kind == .temporary

/-- Named like a slot of a local variable, such as `r0`. -/
def isLocalSlot (v : Value) : Bool := isSlotName v.text.toList

/-- Named like a slot of a temporary, such as `$r0`. -/
def isStackSlot (v : Value) : Bool :=
  match v.text.toList with
  | '$' :: rest => isSlotName rest
  | _ => false

/-- A constant, array literals included. -/
def isConstant (v : Value) : Bool :=
  match v.kind with
  | .intConst | .longConst | .floatConst | .doubleConst | .stringConst | .nullConst | .classConst
  | .arrayConst => true
  | _ => false

/-- A numeric constant. -/
def isNumeric (v : Value) : Bool :=
  match v.kind with
  | .intConst | .longConst | .floatConst | .doubleConst => true
  | _ => false

/-- A reference to a static or an instance field. -/
def isFieldRef (v : Value) : Bool := v.kind == .fieldRef

/-- The signature of the field referred to, empty for other values. -/
def fieldSignature (v : Value) : String :=
  if v.kind != .fieldRef then ""
  else if v.base != "" then Text.stripFront v.text (v.base ++ ".")
  else v.text

/-- A text without the suffix of a numeric type. -/
def withoutSuffix (s : String) : String :=
  String.ofList (Text.dropEndWhile (fun c => "LFDlfd".toList.contains c) s.toList)

/-- The digits of a numeric constant, without its type suffix. -/
def numericText (v : Value) : String := withoutSuffix v.text

/-- The content of a string constant; of any other value its text. A badly quoted text only loses
the quotes at its ends. -/
def content (v : Value) : Text.Bytes :=
  if v.kind == .stringConst then
    match Text.unquote? v.text with
    | some bs => bs
    | none => Text.encode (Text.trimWhere (· == '"') v.text.toList)
  else Text.bytesOf v.text

/-- The text is a numeric literal. -/
def isNumberText (s : String) : Bool := (read s).isNumeric

end Value

/-- A set of values, each known by its text. -/
structure ValueSet where
  byText : Std.TreeMap String Value := {}

namespace ValueSet

/-- No value. -/
def empty : ValueSet := {}

/-- Adds a value; a missing one is ignored. -/
def insert (s : ValueSet) (v : Value) : ValueSet :=
  if v.isAbsent then s else ⟨s.byText.insert v.text v⟩

/-- Adds the values in order. -/
def insertAll (s : ValueSet) (vs : List Value) : ValueSet :=
  vs.foldl insert s

/-- The set of the given values. -/
def ofList (vs : List Value) : ValueSet := empty.insertAll vs

/-- Removes a value. -/
def erase (s : ValueSet) (v : Value) : ValueSet := ⟨s.byText.erase v.text⟩

/-- A value with this text is in the set. -/
def contains (s : ValueSet) (v : Value) : Bool := s.byText.contains v.text

/-- The values of the list that are in the set, each once; numeric constants are left out. -/
def common (s : ValueSet) (vs : List Value) : List Value :=
  vs.foldl (fun found v =>
    if v.isAbsent || v.isNumeric || found.any (·.text == v.text) || !s.contains v then found
    else found ++ [v]) []

/-- The values in the order of their texts. -/
def toList (s : ValueSet) : List Value := s.byText.toList.map (·.2)

/-- The texts of the values, sorted. -/
def texts (s : ValueSet) : List String := s.byText.toList.map (·.1)

/-- The number of values. -/
def size (s : ValueSet) : Nat := s.byText.size

end ValueSet

end MisuseSlice
