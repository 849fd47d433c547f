import Mathlib
import MisuseSlice.Proofs.Packed.Reading
import MisuseSlice.Proofs.Program.Standard

/-! Programs in packed dumps. Codes stand for kinds, and a value is written with all its parts, so that nothing has to
follow from its text; a standard program is read as it was written. -/
namespace MisuseSlice

open Packed

theorem ValueKind.ofCode_code {k : ValueKind} (listed : k ∈ ValueKind.all) : ValueKind.ofCode k.code = k := by
  revert k
  decide

theorem Kind.ofCode_code {k : Kind} (named : k ∈ Kind.named.map (·.1)) : Kind.ofCode k.code = k := by
  revert k
  decide

/-- What is read from a text has one of the listed kinds. -/
theorem Value.classify_listed (t : String) : (Value.classify t).kind ∈ ValueKind.all := by
  unfold Value.classify
  repeat' split
  all_goals simp [ValueKind.all, Value.null]

namespace Value

variable {v : Value}

theorem ofPacked?_packed (standard : v.IsStandard) : Value.ofPacked? v.packed {} = some v := by
  have kind : ValueKind.ofCode v.kind.code = v.kind :=
    ValueKind.ofCode_code (standard.kind ▸ Value.classify_listed _)
  have yields := Yields.part "k" (show Value.packedParts.find? _ = _ from rfl) (show integer? (.integer v.kind.code) = _ from rfl) (s := {})
    |>.append (.part "t" rfl (text?_text standard.held.1))
    |>.append (.text "y" rfl rfl standard.held.2.1)
    |>.append (.text "b" rfl rfl standard.held.2.2)
  rw [kind] at yields
  exact yields.record?_eq

end Value

section
variable {σ : Type} {parts : List (Packed.Part σ)} {s : σ}

theorem Packed.Yields.value (key : String) {get : σ → Value} {put : Value → σ → σ}
    (known : parts.find? (·.1 == key) = some (grownPart key Value.ofPacked? get put)) (fresh : get s = {})
    (blank : put {} s = s) {v : Value} (standard : v.IsStandard) : Yields parts (valueEntry key v) s (put v s) := by
  rw [valueEntry]
  split
  · rename_i none
    have missing : v = {} := standard.given.resolve_right fun given => given (beq_iff_eq.mp none)
    rw [missing, blank]
    rfl
  · exact .grown key known (by rw [fresh, Value.ofPacked?_packed standard])

end

theorem Statement.ofPacked?_packed {u : Statement} (standard : u.IsStandard) :
    Statement.ofPacked? u.packed {} = some u.unplaced := by
  obtain ⟨left, right, base, index, args⟩ : u.left.IsStandard ∧ u.right.IsStandard ∧ u.base.IsStandard ∧
      u.index.IsStandard ∧ ∀ v ∈ u.args, v.IsStandard := by simpa [values] using standard.operands
  obtain ⟨invoke, op, signature, type⟩ : Text.IsHeld u.invoke ∧ Text.IsHeld u.op ∧ Text.IsHeld u.signature ∧
      Text.IsHeld u.type := by simpa using standard.held
  have args : list? Value.ofPacked? {} (.list (u.args.map Value.packed)) [] = some u.args := by
    simpa using list?_map (h := id) fun v member => Value.ofPacked?_packed (args v member)
  have targets : list? (fun x _ => integer? x) 0 (.list (u.targets.map .integer)) [] = some u.targets := by
    simpa using list?_map (h := id) fun i (_ : i ∈ u.targets) => rfl
  have kind : (integer? (.integer u.kind.code)).map (fun n => ({ kind := .ofCode n } : Statement)) =
      some { kind := u.kind } := by rw [integer?, Option.map_some, Kind.ofCode_code standard.named]
  have yields := Yields.entry "kind" (show Statement.packedParts.find? _ = _ from rfl) kind (s := {})
    |>.append (.text "invoke" rfl rfl invoke)
    |>.append (.value "left" rfl (by rfl) rfl left)
    |>.append (.value "right" rfl (by rfl) rfl right)
    |>.append (.value "base" rfl (by rfl) rfl base)
    |>.append (.value "index" rfl (by rfl) rfl index)
    |>.append (.list "args" rfl (by rfl) rfl args)
    |>.append (.text "op" rfl rfl op)
    |>.append (.text "sig" rfl rfl signature)
    |>.append (.text "type" rfl rfl type)
    |>.append (.integer "param" rfl rfl u.paramIndex)
    |>.append (.integer "target" rfl rfl u.target)
    |>.append (.list "targets" rfl (by rfl) rfl targets)
  exact yields.record?_eq

theorem Field.ofPacked?_packed {f : Field} (standard : f.IsStandard) : Field.ofPacked? f.packed {} = some f := by
  obtain ⟨signature, isStatic, isFinal, constant⟩ := f
  have yields := Yields.part "sig" (show Field.packedParts.find? _ = _ from rfl) (text?_text standard.held) (s := {})
    |>.append (.truth "static" rfl rfl isStatic)
    |>.append (.truth "final" rfl rfl isFinal)
  cases constant with
  | none => exact (yields.append (.done _)).record?_eq
  | some v =>
    obtain ⟨valued, given⟩ := standard.constant v rfl
    have written : valueEntry "constant" v = [entry "constant" v.packed] := by
      simp [valueEntry, Value.isAbsent, given]
    have read : optional? Value.ofPacked? {} v.packed none = some (some v) := by
      rw [Value.packed, optional?, ← Value.packed, Option.getD_none, Value.ofPacked?_packed valued]
      · rfl
      · simp
    have yields := yields.append (.grown "constant" rfl read)
    rw [← written] at yields
    exact yields.record?_eq

theorem Method.ofPacked?_packed {m : Method} (standard : m.IsStandard) :
    Method.ofPacked? m.packed {} = some m.unplaced := by
  have units := list?_map fun entry member => optional?_orNull (by simp [Statement.packed]) fun u here =>
    Statement.ofPacked?_packed (standard.units entry member u here)
  have yields := Yields.part "sig" (show Method.packedParts.find? _ = _ from rfl) (text?_text standard.held) (s := {})
    |>.append (.truth "static" rfl rfl m.isStatic)
    |>.append (.truth "abstract" rfl rfl m.isAbstract)
    |>.append (.list "units" rfl (by rfl) rfl units)
  exact yields.record?_eq

theorem ClassDecl.ofPacked?_packed {c : ClassDecl} (standard : c.IsStandard) :
    ClassDecl.ofPacked? c.packed {} = some c.unplaced := by
  obtain ⟨name, super, interfaces⟩ : Text.IsHeld c.name ∧ Text.IsHeld c.super ∧ ∀ t ∈ c.interfaces, Text.IsHeld t := by
    simpa using standard.held
  have fields : list? Field.ofPacked? {} (.list (c.fields.map Field.packed)) [] = some c.fields := by
    simpa using list?_map (h := id) fun f member => Field.ofPacked?_packed (standard.fields f member)
  have methods := list?_map fun entry member => optional?_orNull (by simp [Method.packed]) fun m here =>
    Method.ofPacked?_packed (standard.methods entry member m here)
  have yields := Yields.part "name" (show ClassDecl.packedParts.find? _ = _ from rfl) (text?_text name) (s := {})
    |>.append (.text "super" rfl rfl super)
    |>.append (.texts "interfaces" rfl rfl interfaces)
    |>.append (.truth "interface" rfl rfl c.isInterface)
    |>.append (.truth "enum" rfl rfl c.isEnum)
    |>.append (.list "fields" rfl (by rfl) rfl fields)
    |>.append (.list "methods" rfl (by rfl) rfl methods)
  exact yields.record?_eq

/-- A standard program is read from its packed form. -/
theorem Program.ofPacked?_packed {p : Program} (standard : p.IsStandard) :
    ∃ b, Program.ofPacked? p.packed = some (p.written b) := by
  have classes := list?_map fun entry member => optional?_orNull (by simp [ClassDecl.packed]) fun c here =>
    ClassDecl.ofPacked?_packed (standard.classes entry member c here)
  obtain ⟨package, application, rest⟩ : Text.IsHeld p.package ∧ Text.IsHeld p.application ∧
      ∀ t ∈ p.components ++ p.devPrefixes, Text.IsHeld t := by simpa using standard.held
  obtain ⟨components, devPrefixes⟩ := List.forall_mem_append.mp rest
  have yields := Yields.part "package" (show Program.packedParts.find? _ = _ from rfl) (text?_text package) (s := {})
    |>.append (.text "application" rfl rfl application)
    |>.append (.texts "components" rfl rfl components)
    |>.append (.texts "dev-prefixes" rfl rfl devPrefixes)
  cases unlisted : p.classes.isEmpty && !p.listsClasses with
  | true =>
    refine ⟨false, ?_⟩
    have none : p.classes = [] := List.isEmpty_iff.mp (Bool.and_eq_true_iff.mp unlisted).1
    have yields := yields.append (.grown "classes" rfl (x := .null) rfl)
    rw [Program.packed, Program.ofPacked?, unlisted, Program.written, none]
    exact yields.record?_eq
  | false =>
    refine ⟨true, ?_⟩
    have listed : optional? (list? (optional? ClassDecl.ofPacked? {}) none) []
        (.list (p.classes.map (orNull ClassDecl.packed))) none =
          some (some (p.classes.map (Option.map ClassDecl.unplaced))) := by
      rw [optional?, Option.getD_none, classes]
      · rfl
      · simp
    have yields := yields.append (.grown "classes" rfl listed)
    rw [Program.packed, Program.ofPacked?, unlisted]
    exact yields.record?_eq

end MisuseSlice
