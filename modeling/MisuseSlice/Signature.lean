import MisuseSlice.Text.Basic

/-!
Signatures name methods and fields: `<class: returnType name(type1,type2)>` and
`<class: type name>`. A text of another form has no parts, and each part of it reads as empty.
-/
namespace MisuseSlice.Signature

/-- The class and the member of a signature. -/
def split? (sig : String) : Option (String × String) :=
  match sig.toList with
  | '<' :: rest =>
    match rest.reverse with
    | '>' :: inner => Text.cut? (String.ofList inner.reverse) ": "
    | _ => none
  | _ => none

/-- The declaring class. -/
def className (sig : String) : String :=
  match split? sig with
  | some (c, _) => c
  | none => ""

/-- The member without its class, such as `byte[] doFinal(byte[])`. -/
def member (sig : String) : String :=
  match split? sig with
  | some (_, m) => m
  | none => ""

/-- The name of the method. -/
def methodName (sig : String) : String :=
  match Text.cut? (member sig) "(" with
  | none => ""
  | some (head, _) =>
    match Text.cutLast? head " " with
    | some (_, name) => name
    | none => head

/-- The type that the member is declared with: a method's result or a field's type. -/
def declaredType (sig : String) : String :=
  match Text.cut? (member sig) " " with
  | some (t, _) => t
  | none => ""

/-- The types of the parameters, in order. -/
def paramTypes (sig : String) : List String :=
  match Text.cut? (member sig) "(", Text.cutLast? (member sig) ")" with
  | some (head, afterOpen), some (beforeClose, _) =>
    if beforeClose.length < head.length then []
    else
      let params := afterOpen.toList.take (beforeClose.length - head.length - 1)
      if params.isEmpty then [] else Text.pieces (String.ofList params) ','
  | _, _ => []

/-- The signature of a member of a class. -/
def ofMember (className member : String) : String :=
  "<" ++ className ++ ": " ++ member ++ ">"

/-- The name of a field. -/
def fieldName (sig : String) : String :=
  match Text.cut? (member sig) " " with
  | some (_, n) => n
  | none => ""

/-- The text is the signature of a method. -/
def isMethod (sig : String) : Bool :=
  Text.contains (member sig) "("

/-- The text is the signature of a field. -/
def isField (sig : String) : Bool :=
  !Text.contains (member sig) "(" && Text.contains (member sig) " "

end MisuseSlice.Signature
