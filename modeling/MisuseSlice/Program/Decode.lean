import MisuseSlice.Document.Decode
import MisuseSlice.Program.Basic

/-!
Programs read from documents. A value is written as its text, or as a mapping of text and type; a
statement is a mapping of its operands, and a missing kind is an unmodelled statement. Every text that is read holds
the bytes that are written.
-/
namespace MisuseSlice

open Document

/-- How the parts of a value are read; `put` sets the part with a name. -/
def Value.partReader (put : String → String → σ → σ) (key : String) : Option (Node → σ → Decode σ) :=
  if key == "text" || key == "type" then setter heldText (put key) else none

/-- Reads the parts of a value into `start`. -/
def Value.parts (put : String → String → σ → σ) (start : σ) : Node → Decode (Option σ) :=
  record false (Value.partReader put) start

/-- Reads a value (`UnmarshalYAML`). Null is none; a scalar counts by what is written, whatever its tag. A mapping
with the tag of null sets the parts of a value without reading its text. -/
def Value.decode (n : Node) : Decode (Option Value) :=
  match n with
  | .scalar text _ tag _ =>
    if n.isNull then pure none
    else if tag == "!!null" then throw .malformed
    else pure (some (Value.read (Text.holding (Text.bytesOf text))))
  | _ =>
    if n.isNullCollection then
      Value.parts (fun key s v => if key == "text" then { v with text := s } else { v with type := s }) {} n
    else do
      let parts ← isolated
        (Value.parts (fun key s (p : String × String) => if key == "text" then (s, p.2) else (p.1, s)) ("", "")) n
      match parts with
      | some (text, type) =>
        let v := Value.read text
        pure (some (if type == "" then v else { v with type }))
      | none => pure none

/-- Reads the name of a kind. -/
def Kind.decode (n : Node) : Decode (Option Kind) := do
  match ← isolated Document.bytes n with
  | none => pure none
  | some bs =>
    match Kind.ofName? (Text.shown bs) with
    | some k => pure (some k)
    | none => throw (.unknownKind bs)

/-- How the entries of a statement are read. -/
def Statement.reader (key : String) : Option (Node → Statement → Decode Statement) :=
  match key with
  | "kind" => setter Kind.decode fun k (s : Statement) => { s with kind := k }
  | "invoke" => setter heldText fun t s => { s with invoke := t }
  | "left" => setter Value.decode fun v s => { s with left := v }
  | "right" => setter Value.decode fun v s => { s with right := v }
  | "base" => setter Value.decode fun v s => { s with base := v }
  | "index" => setter Value.decode fun v s => { s with index := v }
  | "args" => setter (sequence Value.decode) fun vs s => { s with args := vs }
  | "op" => setter heldText fun t s => { s with op := t }
  | "sig" => setter heldText fun t s => { s with signature := t }
  | "type" => setter heldText fun t s => { s with type := t }
  | "param" => setter integer fun i s => { s with paramIndex := i }
  | "target" => setter integer fun i s => { s with target := i }
  | "targets" => setter (sequence integer) fun is s => { s with targets := is }
  | _ => none

/-- Reads a statement. -/
def Statement.decode : Node → Decode (Option Statement) := record false Statement.reader {}

/-- How the entries of a field declaration are read. -/
def Field.reader (key : String) : Option (Node → Field → Decode Field) :=
  match key with
  | "sig" => setter heldText fun t (f : Field) => { f with signature := t }
  | "static" => setter truth fun b f => { f with isStatic := b }
  | "final" => setter truth fun b f => { f with isFinal := b }
  | "constant" => setter (optional Value.decode) fun v f => { f with constant := v }
  | _ => none

/-- Reads a field declaration. -/
def Field.decode : Node → Decode (Option Field) := record false Field.reader {}

/-- How the entries of a method declaration are read. -/
def Method.reader (key : String) : Option (Node → Method → Decode Method) :=
  match key with
  | "sig" => setter heldText fun t (m : Method) => { m with signature := t }
  | "static" => setter truth fun b m => { m with isStatic := b }
  | "abstract" => setter truth fun b m => { m with isAbstract := b }
  | "units" => setter (sequence (optional Statement.decode)) fun us m => { m with units := us }
  | _ => none

/-- Reads a method declaration. -/
def Method.decode : Node → Decode (Option Method) := record false Method.reader {}

/-- How the entries of a class declaration are read. -/
def ClassDecl.reader (key : String) : Option (Node → ClassDecl → Decode ClassDecl) :=
  match key with
  | "name" => setter heldText fun t (c : ClassDecl) => { c with name := t }
  | "super" => setter heldText fun t c => { c with super := t }
  | "interfaces" => setter (sequence heldText) fun ts c => { c with interfaces := ts }
  | "interface" => setter truth fun b c => { c with isInterface := b }
  | "enum" => setter truth fun b c => { c with isEnum := b }
  | "fields" => setter (sequence Field.decode) fun fs c => { c with fields := fs }
  | "methods" => setter (sequence (optional Method.decode)) fun ms c => { c with methods := ms }
  | _ => none

/-- Reads a class declaration. -/
def ClassDecl.decode : Node → Decode (Option ClassDecl) := record false ClassDecl.reader {}

/-- How the entries of a program are read. -/
def Program.reader (key : String) : Option (Node → Program → Decode Program) :=
  match key with
  | "package" => setter heldText fun t (p : Program) => { p with package := t }
  | "application" => setter heldText fun t p => { p with application := t }
  | "components" => setter (sequence heldText) fun ts p => { p with components := ts }
  | "dev-prefixes" => setter (sequence heldText) fun ts p => { p with devPrefixes := ts }
  | "classes" => setter (sequenceOrNull (optional ClassDecl.decode)) fun cs p =>
    { p with classes := cs.getD [], listsClasses := cs.isSome }
  | _ => none

/-- Reads a program, which is not finalized yet. -/
def Program.decode (n : Node) : Decode Program := do
  let p ← record false Program.reader {} n
  pure (p.getD {})

end MisuseSlice
