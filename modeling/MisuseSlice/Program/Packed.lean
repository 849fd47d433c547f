import MisuseSlice.Packed.Decode
import MisuseSlice.Program.Basic

/-!
Programs in packed form. Records have the keys of readable dumps, but kinds are written as codes, and a
value with all its parts: kind, text, type and receiver. Texts are the bytes that they hold. Parts that are empty
are left out.
-/
namespace MisuseSlice

open Packed

namespace Packed

/-- An entry with a text key. -/
def entry (key : String) (x : Item) : Item × Item := (.bytes (Text.bytesOf key), x)

/-- An entry that is left out where its text is empty. -/
def textEntry (key value : String) : List (Item × Item) :=
  if value == "" then [] else [entry key (.text value)]

/-- An entry that is left out where it is false. -/
def truthEntry (key : String) (value : Bool) : List (Item × Item) :=
  if value then [entry key (.truth true)] else []

/-- An entry that is left out where it is zero. -/
def integerEntry (key : String) (value : Int) : List (Item × Item) :=
  if value == 0 then [] else [entry key (.integer value)]

/-- An entry that is left out where the list is empty. -/
def listEntry (key : String) (f : α → Item) (xs : List α) : List (Item × Item) :=
  if xs.isEmpty then [] else [entry key (.list (xs.map f))]

/-- An item, or null for a gap. -/
def orNull (f : α → Item) : Option α → Item
  | some a => f a
  | none => .null

end Packed

/-- The packed form of a value. -/
def Value.packed (v : Value) : Item :=
  .record ([entry "k" (.integer v.kind.code), entry "t" (.text v.text)] ++ textEntry "y" v.type ++ textEntry "b" v.base)

/-- An entry that is left out where the value is missing. -/
def Packed.valueEntry (key : String) (v : Value) : List (Item × Item) :=
  if v.isAbsent then [] else [entry key v.packed]

/-- The packed form of a statement. -/
def Statement.packed (u : Statement) : Item :=
  .record
    (entry "kind" (.integer u.kind.code) :: textEntry "invoke" u.invoke ++ valueEntry "left" u.left ++
      valueEntry "right" u.right ++ valueEntry "base" u.base ++ valueEntry "index" u.index ++
      listEntry "args" Value.packed u.args ++ textEntry "op" u.op ++ textEntry "sig" u.signature ++
      textEntry "type" u.type ++ integerEntry "param" u.paramIndex ++ integerEntry "target" u.target ++
      listEntry "targets" Item.integer u.targets)

/-- The packed form of a field. -/
def Field.packed (f : Field) : Item :=
  .record
    (entry "sig" (.text f.signature) :: truthEntry "static" f.isStatic ++ truthEntry "final" f.isFinal ++
      (f.constant.map (valueEntry "constant")).getD [])

/-- The packed form of a method. -/
def Method.packed (m : Method) : Item :=
  .record
    (entry "sig" (.text m.signature) :: truthEntry "static" m.isStatic ++ truthEntry "abstract" m.isAbstract ++
      listEntry "units" (orNull Statement.packed) m.units)

/-- The packed form of a class. -/
def ClassDecl.packed (c : ClassDecl) : Item :=
  .record
    (entry "name" (.text c.name) :: textEntry "super" c.super ++ listEntry "interfaces" Item.text c.interfaces ++
      truthEntry "interface" c.isInterface ++ truthEntry "enum" c.isEnum ++
      listEntry "fields" Field.packed c.fields ++ listEntry "methods" (orNull Method.packed) c.methods)

/-- The packed form of a program. -/
def Program.packed (p : Program) : Item :=
  .record
    (entry "package" (.text p.package) :: textEntry "application" p.application ++
      listEntry "components" Item.text p.components ++ listEntry "dev-prefixes" Item.text p.devPrefixes ++
      [entry "classes"
        (if p.classes.isEmpty && !p.listsClasses then .null
          else .list (p.classes.map (orNull ClassDecl.packed)))])

/-- The parts of a value. -/
def Value.packedParts : List (Packed.Part Value) :=
  [part "k" integer? fun n (v : Value) => { v with kind := .ofCode n }, part "t" text? fun t v => { v with text := t },
    part "y" text? fun t v => { v with type := t }, part "b" text? fun t v => { v with base := t }]

/-- Reads a value. -/
def Value.ofPacked? : Item → Value → Option Value := record? Value.packedParts {}

/-- The parts of a statement. -/
def Statement.packedParts : List (Packed.Part Statement) :=
  [part "kind" integer? fun n (u : Statement) => { u with kind := .ofCode n },
    part "invoke" text? fun t u => { u with invoke := t },
    grownPart "left" Value.ofPacked? (·.left) fun v u => { u with left := v },
    grownPart "right" Value.ofPacked? (·.right) fun v u => { u with right := v },
    grownPart "base" Value.ofPacked? (·.base) fun v u => { u with base := v },
    grownPart "index" Value.ofPacked? (·.index) fun v u => { u with index := v },
    grownPart "args" (list? Value.ofPacked? {}) (·.args) fun vs u => { u with args := vs },
    part "op" text? fun t u => { u with op := t }, part "sig" text? fun t u => { u with signature := t },
    part "type" text? fun t u => { u with type := t }, part "param" integer? fun n u => { u with paramIndex := n },
    part "target" integer? fun n u => { u with target := n },
    grownPart "targets" (list? (fun x _ => integer? x) 0) (·.targets) fun ns u => { u with targets := ns }]

/-- Reads a statement. -/
def Statement.ofPacked? : Item → Statement → Option Statement := record? Statement.packedParts {}

/-- The parts of a field. -/
def Field.packedParts : List (Packed.Part Field) :=
  [part "sig" text? fun t (f : Field) => { f with signature := t },
    part "static" truth? fun b f => { f with isStatic := b }, part "final" truth? fun b f => { f with isFinal := b },
    grownPart "constant" (optional? Value.ofPacked? {}) (·.constant) fun v f => { f with constant := v }]

/-- Reads a field. -/
def Field.ofPacked? : Item → Field → Option Field := record? Field.packedParts {}

/-- The parts of a method. -/
def Method.packedParts : List (Packed.Part Method) :=
  [part "sig" text? fun t (m : Method) => { m with signature := t },
    part "static" truth? fun b m => { m with isStatic := b },
    part "abstract" truth? fun b m => { m with isAbstract := b },
    grownPart "units" (list? (optional? Statement.ofPacked? {}) none) (·.units) fun us m => { m with units := us }]

/-- Reads a method. -/
def Method.ofPacked? : Item → Method → Option Method := record? Method.packedParts {}

/-- The parts of a class. -/
def ClassDecl.packedParts : List (Packed.Part ClassDecl) :=
  [part "name" text? fun t (c : ClassDecl) => { c with name := t }, part "super" text? fun t c => { c with super := t },
    grownPart "interfaces" texts? (·.interfaces) fun ts c => { c with interfaces := ts },
    part "interface" truth? fun b c => { c with isInterface := b },
    part "enum" truth? fun b c => { c with isEnum := b },
    grownPart "fields" (list? Field.ofPacked? {}) (·.fields) fun fs c => { c with fields := fs },
    grownPart "methods" (list? (optional? Method.ofPacked? {}) none) (·.methods) fun ms c => { c with methods := ms }]

/-- Reads a class. -/
def ClassDecl.ofPacked? : Item → ClassDecl → Option ClassDecl := record? ClassDecl.packedParts {}

/-- The parts of a program. -/
def Program.packedParts : List (Packed.Part Program) :=
  [part "package" text? fun t (p : Program) => { p with package := t },
    part "application" text? fun t p => { p with application := t },
    grownPart "components" texts? (·.components) fun ts p => { p with components := ts },
    grownPart "dev-prefixes" texts? (·.devPrefixes) fun ts p => { p with devPrefixes := ts },
    grownPart "classes" (optional? (list? (optional? ClassDecl.ofPacked? {}) none) [])
      (fun p => if p.listsClasses then some p.classes else none) fun cs p =>
        { p with classes := cs.getD [], listsClasses := cs.isSome }]

/-- Reads a program, which is not finalized yet. -/
def Program.ofPacked? (x : Item) : Option Program := record? Program.packedParts {} x {}

end MisuseSlice
