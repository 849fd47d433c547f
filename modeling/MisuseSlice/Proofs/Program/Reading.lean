import Mathlib
import MisuseSlice.Program.Decode
import MisuseSlice.Proofs.Document.Reading
import MisuseSlice.Proofs.Program.Standard

/-! Programs in readable dumps. A standard program is read as it was written: each part follows from what is written
of it, and each part that is left out is one that was empty. -/
namespace MisuseSlice

open Document

/-- A scalar with the tag of null is no text. -/
theorem Document.scalarValue?_null_ne_text (s : String) (style : Style) :
    scalarValue? s style "!!null" ≠ some .text := by
  have asks : readingTags.contains "!!null" = true := by decide
  simp only [scalarValue?, beq_iff_eq, asks, String.reduceEq, ↓reduceIte, Bool.not_true, Bool.false_eq_true]
  generalize plainValue s = v
  cases v <;> simp [ScalarValue.tag]

namespace Value

variable {v : Value}

/-- The parts of a value are read from a record of text and type. -/
theorem parts_reads {σ : Type} (put : String → String → σ → σ) (start : σ) {text type : String}
    (heldText : Text.IsHeld text) (heldType : Text.IsHeld type) :
    Reads (Value.parts put start) (.record [("text", .ofHeld text), ("type", .ofHeld type)])
      (put "type" type (put "text" text start)) := by
  have different : ["text", "type"].Nodup := by decide
  have fills := Fills.set "text" (show Value.partReader put _ = _ from rfl) (reads_held heldText) (s := start)
    |>.append (.set "type" rfl (reads_held heldType))
  exact reads_record fills different (by decide)

theorem toContent_ne_null (v : Value) : v.toContent ≠ .null := by
  rw [toContent]
  split
  · exact Content.ofHeld_ne_null _
  · simp

theorem decode_reads (standard : v.IsStandard) (legible : v.IsLegible) : Reads Value.decode v.toContent v := by
  intro n shown
  rw [toContent] at shown
  split at shown
  · rename_i plain
    obtain ⟨t, written, same⟩ := Content.exists_ofHeld_eq_text (legible (by simpa using plain))
    rw [written] at shown
    -- a type that is none is the one that follows from the text
    have inferred : v.type = (Value.read v.text).type := by
      rcases standard.type with same | typed
      · exact same
      · simpa [typed] using plain
    obtain ⟨style, tag, line, rfl, value⟩ := Node.isText_iff.mp shown
    have untagged : (tag == "!!null") = false := by
      rw [beq_eq_false_iff_ne]
      rintro rfl
      exact scalarValue?_null_ne_text _ _ value
    have found : Value.read (Text.holding (Text.bytesOf t)) = v := by
      rw [same, Text.isHeld_iff.mp standard.held.1, standard.read, ← inferred]
    simp only [Value.decode, Node.isNull, value, untagged, found, Option.some_beq_some, Bool.false_eq_true,
      ↓reduceIte]
    exact gives_pure _
  · rename_i typed
    rw [Bool.or_eq_true, not_or, beq_iff_eq, beq_iff_eq] at typed
    have plain := (Content.shown_notNull (by simp) shown).2
    obtain ⟨nodes, tag, line, rfl, _⟩ := Content.isShownBy_record shown
    have found : { Value.read v.text with type := v.type } = v := by rw [standard.read]
    simp only [Value.decode, plain, Bool.false_eq_true, ↓reduceIte]
    refine (isolated_gives (visit_shown shown (parts_reads _ _ standard.held.1 standard.held.2.1 _ shown))).bind ?_
    change Gives (pure (some (if v.type == "" then _ else { Value.read v.text with type := v.type }))) _
    rw [found, if_neg (by simpa using typed.1)]
    exact gives_pure _

end Value

theorem Kind.decode_reads {k : Kind} (named : k ∈ Kind.named.map (·.1)) : Reads Kind.decode (.text k.name) k := by
  have known : Kind.ofName? k.name = some k := by
    revert k
    decide
  intro n shown
  refine (isolated_gives (visit_shown shown (reads_bytes k.name n shown))).bind ?_
  simp only [Text.shown_bytesOf, known]
  exact gives_pure _

section
variable {σ : Type} {reader : String → Option (Node → σ → Decode σ)} {s : σ}

theorem Document.Fills.value (key : String) {put : Value → σ → σ} (known : reader key = setter Value.decode put)
    (blank : put {} s = s) {v : Value} (standard : v.IsStandard) (legible : v.IsLegible) :
    Fills reader [key] (optionalValue key v) s (put v s) := by
  rw [optionalValue]
  split
  · rename_i none
    have missing : v = {} := standard.given.resolve_right fun given => given (beq_iff_eq.mp none)
    rw [missing, blank]
    exact .skip key (.done s)
  · exact .set key known (Value.decode_reads standard legible)

theorem Document.Fills.optionalHeld (key : String) {put : String → σ → σ} (known : reader key = setter heldText put)
    (blank : put "" s = s) {t : String} (held : Text.IsHeld t) :
    Fills reader [key] (MisuseSlice.optionalHeld key t) s (put t s) := by
  rw [MisuseSlice.optionalHeld]
  split
  · rename_i none
    rw [beq_iff_eq.mp none, blank]
    exact .skip key (.done s)
  · exact .set key known (reads_held held)

end

/-- The items of a list are read one by one. -/
theorem reads_map {α β : Type} {f : Node → Decode (Option β)} {g : α → Content} {h : α → β} {as : List α}
    (reads : ∀ a ∈ as, Reads f (g a) (h a)) : List.Forall₂ (Reads f) (as.map g) (as.map h) := by
  rw [List.forall₂_map_left_iff, List.forall₂_map_right_iff, List.forall₂_same]
  exact reads

/-- The entries of a list with gaps are read one by one. -/
theorem reads_gaps {α : Type} {f : Node → Decode (Option α)} {g : α → Content} {h : α → α} {as : List (Option α)}
    (given : ∀ a, g a ≠ .null) (reads : ∀ entry ∈ as, ∀ a ∈ entry, Reads f (g a) (h a)) :
    List.Forall₂ (Reads (optional f)) (as.map (gapOr g)) (as.map (Option.map h)) := by
  refine reads_map fun entry member => ?_
  cases entry with
  | none => exact reads_gap f
  | some a => exact reads_optional (given a) (reads _ member a rfl)

/-- The texts of a list are read one by one. -/
theorem reads_texts {ts : List String} (held : ∀ t ∈ ts, Text.IsHeld t) :
    List.Forall₂ (Reads heldText) (ts.map .ofHeld) ts := by
  simpa using reads_map (h := id) fun t member => reads_held (held t member)

theorem Statement.decode_reads {u : Statement} (standard : u.IsStandard) (legible : ∀ v ∈ u.values, v.IsLegible) :
    Reads Statement.decode u.toContent u.unplaced := by
  have different : ["kind", "invoke", "left", "right", "base", "index", "args", "op", "sig", "type", "param", "target",
    "targets"].Nodup := by decide
  obtain ⟨left, right, base, index, args⟩ : u.left.IsStandard ∧ u.right.IsStandard ∧ u.base.IsStandard ∧
      u.index.IsStandard ∧ ∀ v ∈ u.args, v.IsStandard := by simpa [values] using standard.operands
  obtain ⟨left', right', base', index', args'⟩ : u.left.IsLegible ∧ u.right.IsLegible ∧ u.base.IsLegible ∧
      u.index.IsLegible ∧ ∀ v ∈ u.args, v.IsLegible := by simpa [values] using legible
  obtain ⟨invoke, op, signature, type⟩ : Text.IsHeld u.invoke ∧ Text.IsHeld u.op ∧ Text.IsHeld u.signature ∧
      Text.IsHeld u.type := by simpa using standard.held
  obtain ⟨param, target, targets⟩ : IsWord u.paramIndex ∧ IsWord u.target ∧ ∀ i ∈ u.targets, IsWord i := by
    simpa using standard.numbers
  have args : List.Forall₂ (Reads Value.decode) (u.args.map Value.toContent) u.args := by
    simpa using reads_map (h := id) fun v member => Value.decode_reads (args v member) (args' v member)
  have targets : List.Forall₂ (Reads integer) (u.targets.map .integer) u.targets := by
    simpa using reads_map (h := id) fun i member => reads_integer (targets i member).2
  have fills := Fills.set "kind" (show Statement.reader _ = _ from rfl) (Kind.decode_reads standard.named) (s := {})
    |>.append (.optionalHeld "invoke" rfl rfl invoke)
    |>.append (.value "left" rfl rfl left left')
    |>.append (.value "right" rfl rfl right right')
    |>.append (.value "base" rfl rfl base base')
    |>.append (.value "index" rfl rfl index index')
    |>.append (.optionalList "args" rfl rfl args)
    |>.append (.optionalHeld "op" rfl rfl op)
    |>.append (.optionalHeld "sig" rfl rfl signature)
    |>.append (.optionalHeld "type" rfl rfl type)
    |>.append (.optionalInteger "param" rfl rfl param.2)
    |>.append (.optionalInteger "target" rfl rfl target.2)
    |>.append (.optionalList "targets" rfl rfl targets)
  exact reads_record fills different (by decide)

theorem Field.decode_reads {f : Field} (standard : f.IsStandard) (legible : ∀ v ∈ f.constant, v.IsLegible) :
    Reads Field.decode f.toContent f := by
  have different : ["sig", "static", "final", "constant"].Nodup := by decide
  obtain ⟨signature, isStatic, isFinal, constant⟩ := f
  have fills := Fills.set "sig" (show Field.reader _ = _ from rfl) (reads_held standard.held) (s := {})
    |>.append (.optionalTruth "static" rfl rfl isStatic)
    |>.append (.optionalTruth "final" rfl rfl isFinal)
  cases constant with
  | none => exact reads_record (fills.append (.skip "constant" (.done _))) different (by decide)
  | some v =>
    obtain ⟨valued, given⟩ := standard.constant v rfl
    have written : optionalValue "constant" v = [("constant", v.toContent)] := by
      simp [optionalValue, Value.isAbsent, given]
    have read := reads_optional v.toContent_ne_null (Value.decode_reads valued (legible v rfl))
    have fills := fills.append (.set "constant" rfl read)
    rw [← written] at fills
    exact reads_record fills different (by decide)

theorem Method.decode_reads {m : Method} (standard : m.IsStandard) (legible : ∀ v ∈ m.values, v.IsLegible) :
    Reads Method.decode m.toContent m.unplaced := by
  have different : ["sig", "static", "abstract", "units"].Nodup := by decide
  have units := reads_gaps (by simp [Statement.toContent]) fun entry member u here =>
    Statement.decode_reads (standard.units entry member u here) (forall_ofEntries.mp legible entry member u here)
  have fills := Fills.set "sig" (show Method.reader _ = _ from rfl) (reads_held standard.held) (s := {})
    |>.append (.optionalTruth "static" rfl rfl m.isStatic)
    |>.append (.optionalTruth "abstract" rfl rfl m.isAbstract)
    |>.append (.optionalList "units" rfl rfl units)
  exact reads_record fills different (by decide)

theorem ClassDecl.decode_reads {c : ClassDecl} (standard : c.IsStandard) (legible : ∀ v ∈ c.values, v.IsLegible) :
    Reads ClassDecl.decode c.toContent c.unplaced := by
  have different : ["name", "super", "interfaces", "interface", "enum", "fields", "methods"].Nodup := by decide
  obtain ⟨name, super, interfaces⟩ : Text.IsHeld c.name ∧ Text.IsHeld c.super ∧ ∀ t ∈ c.interfaces, Text.IsHeld t := by
    simpa using standard.held
  rw [ClassDecl.values, List.forall_mem_append] at legible
  have constants (f : Field) (member : f ∈ c.fields) : ∀ v ∈ f.constant, v.IsLegible := fun v here =>
    legible.1 v (List.mem_flatMap.mpr ⟨f, member, Option.mem_toList.mpr here⟩)
  have fields : List.Forall₂ (Reads Field.decode) (c.fields.map Field.toContent) c.fields := by
    simpa using reads_map (h := id) fun f member => Field.decode_reads (standard.fields f member) (constants f member)
  have methods := reads_gaps (by simp [Method.toContent]) fun entry member m here =>
    Method.decode_reads (standard.methods entry member m here) (forall_ofEntries.mp legible.2 entry member m here)
  have fills := Fills.set "name" (show ClassDecl.reader _ = _ from rfl) (reads_held name) (s := {})
    |>.append (.optionalHeld "super" rfl rfl super)
    |>.append (.optionalList "interfaces" rfl rfl (reads_texts interfaces))
    |>.append (.optionalTruth "interface" rfl rfl c.isInterface)
    |>.append (.optionalTruth "enum" rfl rfl c.isEnum)
    |>.append (.optionalList "fields" rfl rfl fields)
    |>.append (.optionalList "methods" rfl rfl methods)
  exact reads_record fills different (by decide)

/-- A standard and legible program is read from what is written of it. -/
theorem Program.decode_gives {p : Program} (standard : p.IsStandard) (legible : p.IsLegible) {n : Node}
    (shown : p.toContent.isShownBy n = true) : Gives (Program.decode n) (p.written true) := by
  have different : ["package", "application", "components", "dev-prefixes", "classes"].Nodup := by decide
  obtain ⟨package, application, rest⟩ : Text.IsHeld p.package ∧ Text.IsHeld p.application ∧
      ∀ t ∈ p.components ++ p.devPrefixes, Text.IsHeld t := by simpa using standard.held
  obtain ⟨components, devPrefixes⟩ := List.forall_mem_append.mp rest
  have classes := reads_gaps (by simp [ClassDecl.toContent]) fun entry member c here =>
    ClassDecl.decode_reads (standard.classes entry member c here) (forall_ofEntries.mp legible entry member c here)
  have fills := Fills.set "package" (show Program.reader _ = _ from rfl) (reads_held package) (s := {})
    |>.append (.optionalHeld "application" rfl rfl application)
    |>.append (.optionalList "components" rfl rfl (reads_texts components))
    |>.append (.optionalList "dev-prefixes" rfl rfl (reads_texts devPrefixes))
    |>.append (.set "classes" rfl (reads_sequenceOrNull classes))
  exact (reads_record fills different (by decide) n shown).map (·.getD {})

end MisuseSlice
