import MisuseSlice.Document.Writer
import MisuseSlice.Program.Basic

/-!
Programs as documents. Parts that are empty are left out, and a value is written as its text, with its
type where that does not follow from the text. What is written of a text are the bytes that it holds.
-/
namespace MisuseSlice

open Document

/-- The document of a value (`MarshalYAML`). -/
def Value.toContent (v : Value) : Content :=
  if v.type == "" || v.type == (Value.read v.text).type then .ofHeld v.text
  else .record [("text", .ofHeld v.text), ("type", .ofHeld v.type)]

/-- An entry that is left out where its text is empty. -/
def optionalHeld (key text : String) : List (String × Content) :=
  if text == "" then [] else [(key, .ofHeld text)]

/-- An entry that is left out where the value is missing. -/
def optionalValue (key : String) (v : Value) : List (String × Content) :=
  if v.isAbsent then [] else [(key, v.toContent)]

/-- A content, or null for a gap. -/
def gapOr (f : α → Content) : Option α → Content
  | some a => f a
  | none => .null

open Content in
/-- The document of a statement. -/
def Statement.toContent (u : Statement) : Content :=
  .record
    (("kind", .text u.kind.name) :: optionalHeld "invoke" u.invoke ++ optionalValue "left" u.left ++
      optionalValue "right" u.right ++ optionalValue "base" u.base ++ optionalValue "index" u.index ++
      optionalList "args" (u.args.map Value.toContent) ++ optionalHeld "op" u.op ++ optionalHeld "sig" u.signature ++
      optionalHeld "type" u.type ++ optionalInteger "param" u.paramIndex ++ optionalInteger "target" u.target ++
      optionalList "targets" (u.targets.map .integer))

open Content in
/-- The document of a field. -/
def Field.toContent (f : Field) : Content :=
  .record
    (("sig", .ofHeld f.signature) :: optionalTruth "static" f.isStatic ++ optionalTruth "final" f.isFinal ++
      (f.constant.map (optionalValue "constant")).getD [])

open Content in
/-- The document of a method. -/
def Method.toContent (m : Method) : Content :=
  .record
    (("sig", .ofHeld m.signature) :: optionalTruth "static" m.isStatic ++ optionalTruth "abstract" m.isAbstract ++
      optionalList "units" (m.units.map (gapOr Statement.toContent)))

open Content in
/-- The document of a class. -/
def ClassDecl.toContent (c : ClassDecl) : Content :=
  .record
    (("name", .ofHeld c.name) :: optionalHeld "super" c.super ++ optionalList "interfaces" (c.interfaces.map .ofHeld) ++
      optionalTruth "interface" c.isInterface ++ optionalTruth "enum" c.isEnum ++
      optionalList "fields" (c.fields.map Field.toContent) ++ optionalList "methods" (c.methods.map (gapOr Method.toContent)))

open Content in
/-- The document of a program. -/
def Program.toContent (p : Program) : Content :=
  .record
    (("package", .ofHeld p.package) :: optionalHeld "application" p.application ++
      optionalList "components" (p.components.map .ofHeld) ++ optionalList "dev-prefixes" (p.devPrefixes.map .ofHeld) ++
      [("classes", .list (p.classes.map (gapOr ClassDecl.toContent)))])

end MisuseSlice
