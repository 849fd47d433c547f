import MisuseSlice.Program.Basic
import MisuseSlice.Text.Held

/-!
Programs as they are shown. The texts of a program from a dump hold the bytes of the dump; in the program that is
shown, the replacement character stands for each byte that is no UTF-8.
-/
namespace MisuseSlice

open Text

/-- The value as it is shown. -/
def Value.shown (v : Value) : Value :=
  { v with text := shownHeld v.text, type := shownHeld v.type, base := shownHeld v.base }

/-- The statement as it is shown. -/
def Statement.shown (u : Statement) : Statement :=
  { u with
    invoke := shownHeld u.invoke
    left := u.left.shown
    right := u.right.shown
    base := u.base.shown
    index := u.index.shown
    args := u.args.map Value.shown
    op := shownHeld u.op
    signature := shownHeld u.signature
    type := shownHeld u.type }

/-- The field as it is shown. -/
def Field.shown (f : Field) : Field :=
  { f with signature := shownHeld f.signature, constant := f.constant.map Value.shown }

/-- The method as it is shown. -/
def Method.shown (m : Method) : Method :=
  { m with signature := shownHeld m.signature, units := m.units.map (Option.map Statement.shown) }

/-- The class as it is shown. -/
def ClassDecl.shown (c : ClassDecl) : ClassDecl :=
  { c with
    name := shownHeld c.name
    super := shownHeld c.super
    interfaces := c.interfaces.map shownHeld
    fields := c.fields.map Field.shown
    methods := c.methods.map (Option.map Method.shown) }

/-- The program as it is shown, before it is finalized. -/
def Program.shown (p : Program) : Program :=
  { p with
    package := shownHeld p.package
    application := shownHeld p.application
    components := p.components.map shownHeld
    devPrefixes := p.devPrefixes.map shownHeld
    classes := p.classes.map (Option.map ClassDecl.shown) }

end MisuseSlice
