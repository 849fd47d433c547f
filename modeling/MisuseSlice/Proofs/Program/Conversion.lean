import Mathlib
import MisuseSlice.Program.Dump
import MisuseSlice.Proofs.Packed.RoundTrip
import MisuseSlice.Proofs.Program.Finalizing
import MisuseSlice.Proofs.Program.Reading
import MisuseSlice.Proofs.Program.Unpacking

/-! Converting dumps. A dump leaves out the positions of statements and the indexes, and finalizing what is read from
it puts them back: in a finalized program they follow from the rest. Both formats therefore give the program back, and
so does any sequence of them. -/
namespace MisuseSlice

namespace Method

variable {m : Method} {className : String}

/-- The method as far as finalizing settles it: without a signature it is passed over, and positions mean nothing. -/
def settled (m : Method) : Method := if Signature.isMethod m.signature then m else m.unplaced

/-- The positions of a final body are those that finalizing sets. -/
theorem IsFinal.finalized_unplaced (final : m.IsFinal) : m.unplaced.finalized = (m, none) := by
  have placed : m.unplaced.positioned = m.positioned := by
    refine List.ext_getElem? fun i => ?_
    rw [positioned, positioned, unplaced, List.getElem?_mapIdx, List.getElem?_mapIdx, List.getElem?_map, Option.map_map]
    congr 1
    funext u
    cases u <;> rfl
  have size : m.unplaced.units.length = m.units.length := by rw [unplaced, List.length_map]
  have same := final.finalized
  rw [Method.finalized] at same ⊢
  rw [placed, size]
  split at same
  · simp at same
  · exact same

theorem finalizedIn_unplaced (className : String) (entry : Option Method) :
    (finalizedIn className ((finalizedIn className entry).1.map unplaced)).1 =
      (finalizedIn className entry).1.map settled := by
  rcases entry with _ | m
  · rfl
  · cases signed : Signature.isMethod m.signature with
    | false =>
      rw [finalizedIn_unsigned signed, Option.map_some, finalizedIn_unsigned (m := m.unplaced) signed, Option.map_some,
        settled, if_neg (by simp [signed])]
    | true =>
      have again : Signature.isMethod m.finalized.1.signature = true := by rwa [finalized_signature]
      rw [finalizedIn_signed signed, Option.map_some, finalizedIn_signed (m := m.finalized.1.unplaced) again,
        m.finalized_isFinal.finalized_unplaced, Option.map_some, settled, if_pos again]

@[simp] theorem unplaced_unplaced (m : Method) : m.unplaced.unplaced = m.unplaced := by
  have twice : Statement.unplaced ∘ Statement.unplaced = Statement.unplaced := rfl
  simp only [unplaced, List.map_map, Option.map_comp_map, twice]

@[simp] theorem unplaced_settled (m : Method) : m.settled.unplaced = m.unplaced := by
  rw [settled]
  split
  · rfl
  · exact m.unplaced_unplaced

@[simp] theorem settled_settled (m : Method) : m.settled.settled = m.settled := by
  by_cases signed : Signature.isMethod m.signature = true
  · simp only [settled, signed, ↓reduceIte]
  · have unsigned : ¬Signature.isMethod m.unplaced.signature = true := signed
    rw [settled.eq_def m, if_neg signed, settled, if_neg unsigned, unplaced_unplaced]

end Method

namespace ClassDecl

variable {c : ClassDecl}

/-- The class as far as finalizing settles it. -/
def settled (c : ClassDecl) : ClassDecl :=
  if c.name = "" then c.unplaced else { c with methods := c.methods.map (Option.map Method.settled) }

theorem finalizedIn_unplaced (entry : Option ClassDecl) :
    (finalizedIn ((finalizedIn entry).1.map unplaced)).1 = (finalizedIn entry).1.map settled := by
  rcases entry with _ | c
  · rfl
  · by_cases nameless : c.name = ""
    · rw [finalizedIn_nameless nameless, Option.map_some, finalizedIn_nameless (c := c.unplaced) nameless,
        Option.map_some, settled, if_pos nameless]
    · rw [finalizedIn_named nameless, Option.map_some, finalizedIn_named (c := c.finalized.1.unplaced) nameless,
        Option.map_some, settled, if_neg (by simpa using nameless)]
      simp only [finalized, unplaced, List.map_map, Option.some.injEq, mk.injEq, true_and]
      exact List.map_congr_left fun entry _ => Method.finalizedIn_unplaced c.name entry

@[simp] theorem settled_name (c : ClassDecl) : c.settled.name = c.name := by
  rw [settled]
  split <;> rfl

@[simp] theorem unplaced_settled (c : ClassDecl) : c.settled.unplaced = c.unplaced := by
  rw [settled]
  split
  · simp only [unplaced, map_map_eq (map_map_entry Method.unplaced_unplaced)]
  · simp only [unplaced, map_map_eq (map_map_entry Method.unplaced_settled)]

@[simp] theorem settled_settled (c : ClassDecl) : c.settled.settled = c.settled := by
  by_cases nameless : c.name = ""
  · have again : c.unplaced.name = "" := nameless
    rw [settled.eq_def c, if_pos nameless, settled, if_pos again, unplaced, unplaced,
      map_map_eq (map_map_entry Method.unplaced_unplaced)]
  · rw [settled, if_neg (by rwa [settled_name]), settled, if_neg nameless]
    simp only [map_map_eq (map_map_entry Method.settled_settled)]

/-- What is indexed of a named class is settled. -/
theorem indexedMethods_settled (named : c.name ≠ "") : c.settled.indexedMethods = c.indexedMethods := by
  rw [settled, if_neg named, indexedMethods, indexedMethods, List.filterMap_map]
  refine List.filterMap_congr fun entry _ => ?_
  cases entry with
  | none => rfl
  | some m =>
    simp only [Function.comp_apply, Option.map_some, Method.settled]
    split <;> rename_i signed
    · rfl
    · simp [Method.unplaced, signed]

end ClassDecl

namespace Program

variable {p p' p'' : Program}

/-- The program is the outcome of finalizing. -/
def IsFinalized (p : Program) : Prop := ∃ q : Program, q.finalize.1 = p

/-- Both programs have the same parts, as far as finalizing settles them, and know the same methods and classes. -/
structure Agrees (p p' : Program) : Prop where
  package : p'.package = p.package
  application : p'.application = p.application
  components : p'.components = p.components
  devPrefixes : p'.devPrefixes = p.devPrefixes
  classes : p'.classes.map (Option.map ClassDecl.settled) = p.classes.map (Option.map ClassDecl.settled)
  method? : ∀ sig, p'.method? sig = p.method? sig
  class? : ∀ name, (p'.class? name).map ClassDecl.settled = (p.class? name).map ClassDecl.settled

theorem Agrees.refl (p : Program) : p.Agrees p := ⟨rfl, rfl, rfl, rfl, rfl, fun _ => rfl, fun _ => rfl⟩

theorem Agrees.trans (first : p.Agrees p') (next : p'.Agrees p'') : p.Agrees p'' where
  package := next.package.trans first.package
  application := next.application.trans first.application
  components := next.components.trans first.components
  devPrefixes := next.devPrefixes.trans first.devPrefixes
  classes := next.classes.trans first.classes
  method? sig := (next.method? sig).trans (first.method? sig)
  class? name := (next.class? name).trans (first.class? name)

/-- Programs that agree are written alike. -/
theorem Agrees.written (agrees : p.Agrees p') (b : Bool) : p'.written b = p.written b := by
  have unplaced := map_map_eq (map_map_entry ClassDecl.unplaced_settled)
  rw [Program.written, Program.written, agrees.package, agrees.application, agrees.components, agrees.devPrefixes,
    ← unplaced p'.classes, agrees.classes, unplaced]

/-- What is read from a dump of a finalized program has its classes once it is finalized. -/
theorem IsFinalized.classes_written (final : p.IsFinalized) (b : Bool) :
    (p.written b).finalize.1.classes = p.classes.map (Option.map ClassDecl.settled) := by
  obtain ⟨q, rfl⟩ := final
  simp only [finalize, indexed, Program.written, List.map_map]
  exact List.map_congr_left fun entry _ => ClassDecl.finalizedIn_unplaced entry

theorem namedClasses_settled (same : p'.classes = p.classes.map (Option.map ClassDecl.settled)) :
    p'.namedClasses = p.namedClasses.map ClassDecl.settled := by
  rw [namedClasses, namedClasses, same, List.filterMap_map, List.map_filterMap]
  refine List.filterMap_congr fun entry _ => ?_
  cases entry with
  | none => rfl
  | some c =>
    simp only [Function.comp_apply, Option.map_some, ClassDecl.settled_name]
    split <;> rfl

/-- An index of settled classes has the settled classes of the index. -/
theorem classIndex_settled (cs : List ClassDecl) (ix ix' : Std.TreeMap String ClassDecl)
    (start : ∀ name : String, ix'[name]? = ix[name]?.map ClassDecl.settled) (name : String) :
    ((cs.map ClassDecl.settled).foldl (fun ix c => ix.insert c.name c) ix')[name]? =
      (cs.foldl (fun ix c => ix.insert c.name c) ix)[name]?.map ClassDecl.settled := by
  induction cs generalizing ix ix' with
  | nil => exact start name
  | cons c cs ih =>
    refine ih _ _ fun other => ?_
    rw [Std.TreeMap.getElem?_insert, Std.TreeMap.getElem?_insert, ClassDecl.settled_name]
    split
    · rfl
    · exact start other

/-- What is read from a dump of a finalized program agrees with it once it is finalized. -/
theorem IsFinalized.agrees_written (final : p.IsFinalized) (b : Bool) : p.Agrees (p.written b).finalize.1 := by
  have classes := final.classes_written b
  have named := namedClasses_settled classes
  obtain ⟨q, rfl⟩ := final
  have methods : ((q.finalize.1.written b).finalize.1).methodIndex = q.finalize.1.methodIndex := by
    change ((q.finalize.1.written b).finalize.1).namedClasses.foldl _ _ = q.finalize.1.namedClasses.foldl _ _
    rw [named, List.foldl_map]
    refine List.foldl_ext _ _ _ fun ix c member => ?_
    rw [ClassDecl.indexedMethods_settled (named_of_namedClasses member)]
  refine ⟨rfl, rfl, rfl, rfl, ?_, fun sig => ?_, fun name => ?_⟩
  · rw [classes]
    exact map_map_eq (map_map_entry ClassDecl.settled_settled) _
  · rw [method?, method?, methods]
  · have indexes := classIndex_settled q.finalize.1.namedClasses {} {} (by simp) name
    rw [← named] at indexes
    change Option.map _ (((q.finalize.1.written b).finalize.1.namedClasses.foldl _ _)[name]?) = _
    rw [indexes]
    exact map_map_entry ClassDecl.settled_settled _

/-- The trees that dumps of the program consist of come back from the texts and bytes that they are written as. -/
structure RoundTrips (p : Program) : Prop where
  readable : p.toContent.RoundTrips
  packed : ∀ b, ({ p with listsClasses := b } : Program).packed.RoundTrips

/-- The program read from a dump of the program, and finalized. -/
def reread (p : Program) (format : Format) : Except DumpError Program :=
  (parse format (p.dump format)).map fun read => read.finalize.1

/-- The program after dumps in formats one after the other, each read before the next is written. -/
def convert (p : Program) (formats : List Format) : Except DumpError Program := formats.foldlM reread p

/-- A dump is read as what is written of the program. -/
theorem reread_eq (standard : p.IsStandard) (trips : p.RoundTrips) (format : Format)
    (legible : format = .readable → p.IsLegible) : ∃ b, p.reread format = .ok (p.written b).finalize.1 := by
  cases format with
  | readable =>
    have decoded := Document.decode_eq trips.readable fun n => decode_gives standard (legible rfl)
    refine ⟨true, ?_⟩
    unfold reread parse dump
    simp only [decoded, Except.map]
  | packed =>
    obtain ⟨b, read⟩ := ofPacked?_packed standard
    have unpacked : Packed.Item.ofBytes? p.packed.write = some p.packed := trips.packed p.listsClasses
    refine ⟨b, ?_⟩
    unfold reread parse dump
    simp only [unpacked, Option.bind_some, read, Except.map]

theorem Agrees.isStandard (agrees : p.Agrees p') (standard : p.IsStandard) : p'.IsStandard := by
  rwa [← isStandard_written p' true, agrees.written, isStandard_written]

theorem Agrees.isLegible (agrees : p.Agrees p') (legible : p.IsLegible) : p'.IsLegible := by
  rwa [← isLegible_written p' true, agrees.written, isLegible_written]

theorem Agrees.roundTrips (agrees : p.Agrees p') (trips : p.RoundTrips) : p'.RoundTrips where
  readable := by
    rw [← toContent_written p' true, agrees.written, toContent_written]
    exact trips.readable
  packed b := by
    rw [← packed_written, agrees.written, packed_written]
    exact trips.packed b

/-- Dumps give back a finalized program whose values are as their texts say: after any number of them, in either
format, it has the same parts and knows the same methods and classes. Where a dump is readable, the texts that stand
for values without a type of their own have to be UTF-8. -/
theorem convert_agrees (final : p.IsFinalized) (standard : p.IsStandard) (trips : p.RoundTrips)
    (formats : List Format) (legible : .readable ∈ formats → p.IsLegible) :
    ∃ p', p.convert formats = .ok p' ∧ p.Agrees p' := by
  induction formats generalizing p with
  | nil => exact ⟨p, rfl, .refl p⟩
  | cons format formats ih =>
    obtain ⟨b, read⟩ := reread_eq standard trips format fun same => legible (same ▸ List.mem_cons_self)
    have agrees := final.agrees_written b
    obtain ⟨p', converted, same⟩ := ih ⟨_, rfl⟩ (agrees.isStandard standard) (agrees.roundTrips trips)
      fun later => agrees.isLegible (legible (List.mem_cons_of_mem _ later))
    refine ⟨p', ?_, agrees.trans same⟩
    rw [convert, List.foldlM_cons, read]
    exact converted

/-- A text constant with a byte that is no UTF-8. -/
def stray : Value := Value.read (Text.holding [0x22, 0xFF, 0x22])

/-- A method that returns a value. -/
def answering (v : Value) : Program where
  package := "a"
  classes :=
    [some
      { name := "B"
        methods :=
          [some { signature := "<B: java.lang.Object m()>", units := [some { kind := .returnValue, right := v }] }] }]

/-- The constant comes back from all dumps where it has a type of its own. -/
theorem answering_convert_agrees :
    let p := (answering { stray with type := "java.lang.Object" }).finalize.1
    p.IsFinalized ∧ p.IsStandard ∧ p.RoundTrips ∧ p.IsLegible ∧
      ∃ p', p.convert [.packed, .readable, .packed] = .ok p' ∧ p.Agrees p' := by
  intro p
  have final : p.IsFinalized := ⟨_, rfl⟩
  have standard : p.IsStandard := by decide +kernel
  have trips : p.RoundTrips :=
    ⟨by decide +kernel, fun b => Packed.Item.roundTrips_of_storable (by cases b <;> decide +kernel)⟩
  have legible : p.IsLegible := by decide +kernel
  exact ⟨final, standard, trips, legible, convert_agrees final standard trips _ fun _ => legible⟩

/-- Where it has no other type, a readable dump has its bytes in base 64 alone, which are read back as the name of a
local variable. -/
theorem answering_convert_differs :
    let p := (answering stray).finalize.1
    p.IsFinalized ∧ p.IsStandard ∧ p.RoundTrips ∧
      ∃ p', p.convert [.readable] = .ok p' ∧ p'.classes = (answering (Value.read "Iv8i")).finalize.1.classes ∧
        ¬p.Agrees p' := by
  intro p
  have final : p.IsFinalized := ⟨_, rfl⟩
  have standard : p.IsStandard := by decide +kernel
  have trips : p.RoundTrips :=
    ⟨by decide +kernel, fun b => Packed.Item.roundTrips_of_storable (by cases b <;> decide +kernel)⟩
  have classes : (p.convert [.readable]).toOption.map (·.classes) =
      some (answering (Value.read "Iv8i")).finalize.1.classes := by decide +kernel
  have other : (answering (Value.read "Iv8i")).finalize.1.classes.map (Option.map ClassDecl.settled) ≠
      p.classes.map (Option.map ClassDecl.settled) := by decide +kernel
  rcases converted : p.convert [.readable] with _ | p'
  · rw [converted] at classes
    cases classes
  · rw [converted] at classes
    have found : p'.classes = _ := Option.some.inj classes
    refine ⟨final, standard, trips, p', rfl, found, fun agrees => ?_⟩
    have same := agrees.classes
    rw [found] at same
    exact other same

end Program

end MisuseSlice
