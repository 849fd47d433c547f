import Mathlib
import MisuseSlice.Program.Basic
import MisuseSlice.Program.Encode
import MisuseSlice.Program.Packed
import MisuseSlice.Proofs.Text.Held

/-! What dumps can hold. A readable dump has the text of a value and perhaps its type, and what else a value is has to
follow from its text; a statement is known by its place and not by the position it carries. Programs whose values are
as their texts say and whose texts hold bytes are called standard, and a program without positions and indexes is as it
is written. -/
namespace MisuseSlice

/-- A number of 64 bits. -/
def IsWord (i : Int) : Prop := -0x8000000000000000 ≤ i ∧ i < 0x8000000000000000

instance (i : Int) : Decidable (IsWord i) := inferInstanceAs (Decidable (_ ∧ _))

/-! ### The values of a program -/

/-- The operands. -/
def Statement.values (u : Statement) : List Value := u.left :: u.right :: u.base :: u.index :: u.args

/-- What the entries of a list have, gaps apart. -/
def ofEntries {α β : Type} (f : α → List β) (entries : List (Option α)) : List β :=
  entries.flatMap fun entry => entry.toList.flatMap f

/-- The values in the body. -/
def Method.values (m : Method) : List Value := ofEntries Statement.values m.units

/-- The values in the fields and methods. -/
def ClassDecl.values (c : ClassDecl) : List Value :=
  c.fields.flatMap (fun f => f.constant.toList) ++ ofEntries Method.values c.methods

/-- The values in the classes. -/
def Program.values (p : Program) : List Value := ofEntries ClassDecl.values p.classes

/-- What holds of everything in a list holds of everything in its entries. -/
theorem forall_ofEntries {α β : Type} {P : β → Prop} {f : α → List β} {entries : List (Option α)} :
    (∀ b ∈ ofEntries f entries, P b) ↔ ∀ entry ∈ entries, ∀ a ∈ entry, ∀ b ∈ f a, P b := by
  simp only [ofEntries, List.mem_flatMap, Option.mem_toList]
  exact ⟨fun all entry member a here b inside => all b ⟨entry, member, a, here, inside⟩,
    fun all b ⟨entry, member, a, here, inside⟩ => all entry member a here b inside⟩

/-- A change that keeps what each entry has keeps what the list has. -/
theorem ofEntries_map {α β : Type} {f : α → List β} {g : α → α} (same : ∀ a, f (g a) = f a)
    (entries : List (Option α)) : ofEntries f (entries.map (Option.map g)) = ofEntries f entries := by
  rw [ofEntries, ofEntries, List.flatMap_map]
  congr 1
  funext entry
  cases entry with
  | none => rfl
  | some a => simp [same]

/-! ### Standard programs -/

/-- Kind, text and receiver are those that are read from the text, and the type too unless there is another. A value
without a text has nothing else. -/
structure Value.IsStandard (v : Value) : Prop where
  kind : (Value.read v.text).kind = v.kind
  trimmed : (Value.read v.text).text = v.text
  base : (Value.read v.text).base = v.base
  type : v.type = (Value.read v.text).type ∨ v.type ≠ ""
  given : v = {} ∨ v.text ≠ ""
  held : Text.IsHeld v.text ∧ Text.IsHeld v.type ∧ Text.IsHeld v.base

instance (v : Value) : Decidable v.IsStandard :=
  decidable_of_iff
    ((Value.read v.text).kind = v.kind ∧ (Value.read v.text).text = v.text ∧ (Value.read v.text).base = v.base ∧
      (v.type = (Value.read v.text).type ∨ v.type ≠ "") ∧ (v = {} ∨ v.text ≠ "") ∧
      Text.IsHeld v.text ∧ Text.IsHeld v.type ∧ Text.IsHeld v.base)
    ⟨fun ⟨kind, trimmed, base, type, given, held⟩ => ⟨kind, trimmed, base, type, given, held⟩,
      fun ⟨kind, trimmed, base, type, given, held⟩ => ⟨kind, trimmed, base, type, given, held⟩⟩

/-- The kind has a name, the operands are standard, and the numbers have 64 bits. -/
structure Statement.IsStandard (u : Statement) : Prop where
  named : u.kind ∈ Kind.named.map (·.1)
  operands : ∀ v ∈ u.values, v.IsStandard
  numbers : ∀ i ∈ u.paramIndex :: u.target :: u.targets, IsWord i
  held : ∀ t ∈ [u.invoke, u.op, u.signature, u.type], Text.IsHeld t

instance (u : Statement) : Decidable u.IsStandard :=
  decidable_of_iff
    (u.kind ∈ Kind.named.map (·.1) ∧ (∀ v ∈ u.values, v.IsStandard) ∧
      (∀ i ∈ u.paramIndex :: u.target :: u.targets, IsWord i) ∧
      ∀ t ∈ [u.invoke, u.op, u.signature, u.type], Text.IsHeld t)
    ⟨fun ⟨named, operands, numbers, held⟩ => ⟨named, operands, numbers, held⟩,
      fun ⟨named, operands, numbers, held⟩ => ⟨named, operands, numbers, held⟩⟩

/-- The constant, if there is one, is standard and not missing. -/
structure Field.IsStandard (f : Field) : Prop where
  constant : ∀ v ∈ f.constant, v.IsStandard ∧ v.text ≠ ""
  held : Text.IsHeld f.signature

instance (f : Field) : Decidable f.IsStandard :=
  decidable_of_iff ((∀ v ∈ f.constant, v.IsStandard ∧ v.text ≠ "") ∧ Text.IsHeld f.signature)
    ⟨fun ⟨constant, held⟩ => ⟨constant, held⟩, fun ⟨constant, held⟩ => ⟨constant, held⟩⟩

/-- The statements of the body are standard. -/
structure Method.IsStandard (m : Method) : Prop where
  units : ∀ entry ∈ m.units, ∀ u ∈ entry, u.IsStandard
  held : Text.IsHeld m.signature

instance (m : Method) : Decidable m.IsStandard :=
  decidable_of_iff ((∀ entry ∈ m.units, ∀ u ∈ entry, u.IsStandard) ∧ Text.IsHeld m.signature)
    ⟨fun ⟨units, held⟩ => ⟨units, held⟩, fun ⟨units, held⟩ => ⟨units, held⟩⟩

/-- The fields and methods are standard. -/
structure ClassDecl.IsStandard (c : ClassDecl) : Prop where
  fields : ∀ f ∈ c.fields, f.IsStandard
  methods : ∀ entry ∈ c.methods, ∀ m ∈ entry, m.IsStandard
  held : ∀ t ∈ c.name :: c.super :: c.interfaces, Text.IsHeld t

instance (c : ClassDecl) : Decidable c.IsStandard :=
  decidable_of_iff
    ((∀ f ∈ c.fields, f.IsStandard) ∧ (∀ entry ∈ c.methods, ∀ m ∈ entry, m.IsStandard) ∧
      ∀ t ∈ c.name :: c.super :: c.interfaces, Text.IsHeld t)
    ⟨fun ⟨fields, methods, held⟩ => ⟨fields, methods, held⟩, fun ⟨fields, methods, held⟩ => ⟨fields, methods, held⟩⟩

/-- The classes are standard. -/
structure Program.IsStandard (p : Program) : Prop where
  classes : ∀ entry ∈ p.classes, ∀ c ∈ entry, c.IsStandard
  held : ∀ t ∈ p.package :: p.application :: p.components ++ p.devPrefixes, Text.IsHeld t

instance (p : Program) : Decidable p.IsStandard :=
  decidable_of_iff
    ((∀ entry ∈ p.classes, ∀ c ∈ entry, c.IsStandard) ∧
      ∀ t ∈ p.package :: p.application :: p.components ++ p.devPrefixes, Text.IsHeld t)
    ⟨fun ⟨classes, held⟩ => ⟨classes, held⟩, fun ⟨classes, held⟩ => ⟨classes, held⟩⟩

/-- A value that is written as its text alone has a text that is UTF-8: any other is written in base 64, and read back
by its digits. -/
def Value.IsLegible (v : Value) : Prop := v.type = "" ∨ v.type = (Value.read v.text).type → Text.IsLegible v.text

instance (v : Value) : Decidable v.IsLegible := inferInstanceAs (Decidable (_ → _))

/-- The values are legible. -/
def Program.IsLegible (p : Program) : Prop := ∀ v ∈ p.values, v.IsLegible

instance (p : Program) : Decidable p.IsLegible := inferInstanceAs (Decidable (∀ v ∈ p.values, _))

/-- A standard value is read from its text, but for a type of its own. -/
theorem Value.IsStandard.read {v : Value} (standard : v.IsStandard) : Value.read v.text =
    { v with type := (Value.read v.text).type } := by
  rcases same : Value.read v.text with ⟨kind, text, type, base⟩
  simp only [← standard.kind, ← standard.base, same, mk.injEq, true_and, and_true]
  exact (congrArg Value.text same).symm.trans standard.trimmed

/-! ### As written -/

section
variable {α β : Type}

/-- What is written of a gap is null before and after a change of the entries. -/
theorem gapOr_map {f : α → Document.Content} {g : α → α} (same : ∀ a, f (g a) = f a) (entry : Option α) :
    gapOr f (entry.map g) = gapOr f entry := by
  cases entry with
  | none => rfl
  | some a => exact same a

theorem Packed.orNull_map {f : α → Packed.Item} {g : α → α} (same : ∀ a, f (g a) = f a) (entry : Option α) :
    Packed.orNull f (entry.map g) = Packed.orNull f entry := by
  cases entry with
  | none => rfl
  | some a => exact same a

theorem map_map_eq {f : β → α} {g : β → β} (same : ∀ b, f (g b) = f b) (bs : List β) : (bs.map g).map f = bs.map f := by
  rw [List.map_map]
  exact List.map_congr_left fun b _ => same b

theorem Packed.listEntry_map {f : α → Packed.Item} {g : α → α} (same : ∀ a, f (g a) = f a) (key : String)
    (as : List α) : Packed.listEntry key f (as.map g) = Packed.listEntry key f as := by
  rw [listEntry, listEntry, List.isEmpty_map, map_map_eq same]

theorem map_map_entry {f g : α → α} (same : ∀ a, f (g a) = f a) (entry : Option α) :
    (entry.map g).map f = entry.map f := by
  cases entry with
  | none => rfl
  | some a => exact congrArg some (same a)

/-- What holds of all entries but the gaps holds of them after a change that does not matter. -/
theorem forall_entries_map {P : α → Prop} {g : α → α} (same : ∀ a, P (g a) ↔ P a) (as : List (Option α)) :
    (∀ entry ∈ as.map (Option.map g), ∀ a ∈ entry, P a) ↔ ∀ entry ∈ as, ∀ a ∈ entry, P a := by
  simp [same]

end

namespace Statement

/-- The statement without a position. -/
def unplaced (u : Statement) : Statement := { u with pos := 0 }

@[simp] theorem toContent_unplaced (u : Statement) : u.unplaced.toContent = u.toContent := rfl

@[simp] theorem packed_unplaced (u : Statement) : u.unplaced.packed = u.packed := rfl

@[simp] theorem values_unplaced (u : Statement) : u.unplaced.values = u.values := rfl

@[simp] theorem isStandard_unplaced (u : Statement) : u.unplaced.IsStandard ↔ u.IsStandard :=
  ⟨fun ⟨named, operands, numbers, held⟩ => ⟨named, operands, numbers, held⟩,
    fun ⟨named, operands, numbers, held⟩ => ⟨named, operands, numbers, held⟩⟩

end Statement

namespace Method

/-- The method without positions. -/
def unplaced (m : Method) : Method := { m with units := m.units.map (Option.map Statement.unplaced) }

@[simp] theorem toContent_unplaced (m : Method) : m.unplaced.toContent = m.toContent := by
  simp only [toContent, unplaced, map_map_eq (gapOr_map Statement.toContent_unplaced)]

@[simp] theorem packed_unplaced (m : Method) : m.unplaced.packed = m.packed := by
  simp only [packed, unplaced, Packed.listEntry_map (Packed.orNull_map Statement.packed_unplaced)]

@[simp] theorem values_unplaced (m : Method) : m.unplaced.values = m.values :=
  ofEntries_map Statement.values_unplaced m.units

@[simp] theorem isStandard_unplaced (m : Method) : m.unplaced.IsStandard ↔ m.IsStandard := by
  have units := forall_entries_map Statement.isStandard_unplaced m.units
  exact ⟨fun standard => ⟨units.mp standard.units, standard.held⟩,
    fun standard => ⟨units.mpr standard.units, standard.held⟩⟩

end Method

namespace ClassDecl

/-- The class without positions. -/
def unplaced (c : ClassDecl) : ClassDecl := { c with methods := c.methods.map (Option.map Method.unplaced) }

@[simp] theorem toContent_unplaced (c : ClassDecl) : c.unplaced.toContent = c.toContent := by
  simp only [toContent, unplaced, map_map_eq (gapOr_map Method.toContent_unplaced)]

@[simp] theorem packed_unplaced (c : ClassDecl) : c.unplaced.packed = c.packed := by
  simp only [packed, unplaced, Packed.listEntry_map (Packed.orNull_map Method.packed_unplaced)]

@[simp] theorem values_unplaced (c : ClassDecl) : c.unplaced.values = c.values := by
  simp only [values, unplaced, ofEntries_map Method.values_unplaced]

@[simp] theorem isStandard_unplaced (c : ClassDecl) : c.unplaced.IsStandard ↔ c.IsStandard := by
  have methods := forall_entries_map Method.isStandard_unplaced c.methods
  exact ⟨fun standard => ⟨standard.fields, methods.mp standard.methods, standard.held⟩,
    fun standard => ⟨standard.fields, methods.mpr standard.methods, standard.held⟩⟩

end ClassDecl

namespace Program

/-- The program without positions, indexes and starts of platform classes, as a dump has it. -/
def written (p : Program) (listsClasses : Bool) : Program :=
  { package := p.package, application := p.application, components := p.components, devPrefixes := p.devPrefixes,
    classes := p.classes.map (Option.map ClassDecl.unplaced), listsClasses }

@[simp] theorem toContent_written (p : Program) (b : Bool) : (p.written b).toContent = p.toContent := by
  simp only [toContent, written, map_map_eq (gapOr_map ClassDecl.toContent_unplaced)]

@[simp] theorem packed_written (p : Program) (b : Bool) :
    (p.written b).packed = ({ p with listsClasses := b } : Program).packed := by
  simp only [packed, written, map_map_eq (Packed.orNull_map ClassDecl.packed_unplaced), List.isEmpty_map]

@[simp] theorem isStandard_written (p : Program) (b : Bool) : (p.written b).IsStandard ↔ p.IsStandard := by
  have classes := forall_entries_map ClassDecl.isStandard_unplaced p.classes
  exact ⟨fun standard => ⟨classes.mp standard.classes, standard.held⟩,
    fun standard => ⟨classes.mpr standard.classes, standard.held⟩⟩

@[simp] theorem isLegible_written (p : Program) (b : Bool) : (p.written b).IsLegible ↔ p.IsLegible := by
  have values : (p.written b).values = p.values := ofEntries_map ClassDecl.values_unplaced p.classes
  rw [IsLegible, values, IsLegible]

end Program

end MisuseSlice
