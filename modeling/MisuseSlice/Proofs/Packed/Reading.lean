import Mathlib
import MisuseSlice.Packed.Decode
import MisuseSlice.Program.Packed
import MisuseSlice.Proofs.Text.Held

/-! Reading packed records. The entries of a record are read one after the other, so what a sequence of entries makes
of a record follows from what each of them does; entries that are left out stand for parts that are empty. -/
namespace MisuseSlice.Packed

variable {α β σ : Type} {parts : List (Part σ)} {entries entries' : List (Item × Item)} {s s' s'' : σ} {a : α} {x : Item}

theorem text?_text {t : String} (held : Text.IsHeld t) : text? (.text t) = some t :=
  congrArg some (Text.isHeld_iff.mp held)

/-- The entries lead a record from one state to another. -/
def Yields (parts : List (Part σ)) (entries : List (Item × Item)) (s s' : σ) : Prop :=
  entries? parts entries s = some s'

/-- A record is read by its entries. -/
theorem Yields.record?_eq {cleared : σ} (yields : Yields parts entries s s') :
    record? parts cleared (.record entries) s = some s' := yields

theorem Yields.done (s : σ) : Yields parts [] s s := rfl

theorem Yields.append (first : Yields parts entries s s') (next : Yields parts entries' s' s'') :
    Yields parts (entries ++ entries') s s'' := by
  have splits : ∀ s, entries? parts (entries ++ entries') s = (entries? parts entries s).bind (entries? parts entries') := by
    clear first next
    induction entries with
    | nil => exact fun s => rfl
    | cons e entries ih =>
      intro s
      rw [List.cons_append, entries?, entries?]
      split
      · rfl
      · split
        · exact ih s
        · split
          · rfl
          · exact ih _
  rw [Yields, splits, first]
  exact next

theorem Yields.entry (key : String) {set : Item → σ → Option σ} (known : parts.find? (·.1 == key) = some (key, set))
    (read : set x s = some s') : Yields parts [entry key x] s s' := by
  have same (p : Part σ) : (Text.bytesOf p.1 == Text.bytesOf key) = (p.1 == key) := by
    rw [Bool.eq_iff_iff, beq_iff_eq, beq_iff_eq, Text.bytesOf_inj]
  simp only [Yields, Packed.entry, entries?, key?, same, known, read]

/-- An entry sets a part of the record. -/
theorem Yields.part (key : String) {f : Item → Option α} {put : α → σ → σ}
    (known : parts.find? (·.1 == key) = some (part key f put)) (read : f x = some a) :
    Yields parts [Packed.entry key x] s (put a s) :=
  .entry key known (by rw [read, Option.map_some])

/-- An entry sets a part of the record, which is read over the value that it has. -/
theorem Yields.grown (key : String) {f : Item → α → Option α} {get : σ → α} {put : α → σ → σ}
    (known : parts.find? (·.1 == key) = some (grownPart key f get put)) (read : f x (get s) = some a) :
    Yields parts [Packed.entry key x] s (put a s) :=
  .entry key known (by rw [read, Option.map_some])

theorem Yields.text (key : String) {put : String → σ → σ}
    (known : parts.find? (·.1 == key) = some (Packed.part key text? put)) (blank : put "" s = s) {t : String}
    (held : Text.IsHeld t) : Yields parts (textEntry key t) s (put t s) := by
  rw [textEntry]
  split
  · rename_i none
    rw [beq_iff_eq.mp none, blank]
    rfl
  · exact .part key known (text?_text held)

theorem Yields.truth (key : String) {put : Bool → σ → σ}
    (known : parts.find? (·.1 == key) = some (Packed.part key truth? put)) (blank : put false s = s) (b : Bool) :
    Yields parts (truthEntry key b) s (put b s) := by
  cases b with
  | false =>
    rw [blank]
    rfl
  | true => exact .part key known rfl

theorem Yields.integer (key : String) {put : Int → σ → σ}
    (known : parts.find? (·.1 == key) = some (Packed.part key integer? put)) (blank : put 0 s = s) (i : Int) :
    Yields parts (integerEntry key i) s (put i s) := by
  rw [integerEntry]
  split
  · rename_i none
    rw [beq_iff_eq.mp none, blank]
    rfl
  · exact .part key known rfl

/-- Items that are read over nothing. -/
theorem list?_map {f : Item → β → Option β} {start : β} {g : α → Item} {h : α → β} {as : List α}
    (reads : ∀ a ∈ as, f (g a) start = some (h a)) : list? f start (.list (as.map g)) [] = some (as.map h) := by
  rw [list?]
  induction as with
  | nil => rfl
  | cons a as ih =>
    rw [List.map_cons, itemsFrom?, List.head?_nil, Option.getD_none, reads a List.mem_cons_self, List.tail_nil,
      ih fun b member => reads b (List.mem_cons_of_mem _ member)]
    rfl

theorem texts?_map {ts : List String} (held : ∀ t ∈ ts, Text.IsHeld t) (old : List String) :
    texts? (.list (ts.map Item.text)) old = some ts := by
  rw [texts?]
  induction ts with
  | nil => rfl
  | cons t ts ih =>
    rw [List.map_cons, List.mapM_cons, text?_text (held t List.mem_cons_self),
      ih fun t member => held t (List.mem_cons_of_mem _ member)]
    rfl

/-- What may be left out, read over nothing. -/
theorem optional?_orNull {f : Item → β → Option β} {start : β} {g : α → Item} {h : α → β} {entry : Option α}
    (given : ∀ a, g a ≠ .null) (reads : ∀ a ∈ entry, f (g a) start = some (h a)) :
    optional? f start (orNull g entry) none = some (entry.map h) := by
  cases entry with
  | none => rfl
  | some a =>
    rw [orNull, optional?, Option.getD_none, reads a rfl]
    · rfl
    · exact given a

/-- A list that is read over an empty one. -/
theorem Yields.list (key : String) {f : Item → β → Option β} {start : β} {g : α → Item} {get : σ → List β}
    {put : List β → σ → σ} (known : parts.find? (·.1 == key) = some (grownPart key (list? f start) get put))
    (fresh : get s = []) (blank : put [] s = s) {as : List α} {bs : List β}
    (read : list? f start (.list (as.map g)) [] = some bs) : Yields parts (listEntry key g as) s (put bs s) := by
  rw [listEntry]
  split
  · rename_i none
    rw [List.isEmpty_iff.mp none] at read
    cases read
    rw [blank]
    exact .done s
  · exact .grown key known (fresh ▸ read)

theorem Yields.texts (key : String) {get : σ → List String} {put : List String → σ → σ}
    (known : parts.find? (·.1 == key) = some (grownPart key texts? get put)) (blank : put [] s = s) {ts : List String}
    (held : ∀ t ∈ ts, Text.IsHeld t) : Yields parts (listEntry key Item.text ts) s (put ts s) := by
  rw [listEntry]
  split
  · rename_i none
    rw [List.isEmpty_iff.mp none, blank]
    rfl
  · exact .grown key known (texts?_map held _)

end MisuseSlice.Packed
