import MisuseSlice.Packed.Item

/-!
Reading typed values from packed data. Null stands for the empty text, zero, false, the empty list and the
record whose parts were all left out. A record or a list is read over the value that its part has already, so a
key that comes again adds to what was read before.
-/
namespace MisuseSlice.Packed

/-- Reads a text, which holds the bytes that are given. -/
def text? : Item → Option String
  | .null => some ""
  | .bytes bs => some (Text.holding bs)
  | _ => none

/-- Reads the key of an entry. -/
def key? : Item → Option Text.Bytes
  | .null => some []
  | .bytes bs => some bs
  | _ => none

/-- Reads an integer. -/
def integer? : Item → Option Int
  | .null => some 0
  | .integer n => some n
  | _ => none

/-- Reads a truth value. -/
def truth? : Item → Option Bool
  | .null => some false
  | .truth b => some b
  | _ => none

/-- Reads items one after the other over the values at their places, or over `start`. -/
def itemsFrom? (f : Item → α → Option α) (start : α) : List Item → List α → Option (List α)
  | [], _ => some []
  | x :: rest, old => do
    let a ← f x (old.head?.getD start)
    pure (a :: (← itemsFrom? f start rest old.tail))

/-- Reads a list. -/
def list? (f : Item → α → Option α) (start : α) : Item → List α → Option (List α)
  | .null, _ => some []
  | .list items, old => itemsFrom? f start items old
  | _, _ => none

/-- Reads a list of texts; null leaves the list as it is. -/
def texts? : Item → List String → Option (List String)
  | .null, old => some old
  | .list items, _ => items.mapM text?
  | _, _ => none

/-- Reads what may be left out. -/
def optional? (f : Item → α → Option α) (start : α) : Item → Option α → Option (Option α)
  | .null, _ => some none
  | x, old => (f x (old.getD start)).map some

/-- A part of a record: its key, and what reading it does. -/
abbrev Part (σ : Type) := String × (Item → σ → Option σ)

/-- A part that is set to the value read. -/
def part (key : String) (f : Item → Option α) (put : α → σ → σ) : Part σ :=
  (key, fun x s => (f x).map (put · s))

/-- A part that is read over the value that it has. -/
def grownPart (key : String) (f : Item → α → Option α) (get : σ → α) (put : α → σ → σ) : Part σ :=
  (key, fun x s => (f x (get s)).map (put · s))

/-- Reads the entries of a record in turn; unknown keys are passed over. -/
def entries? (parts : List (Part σ)) : List (Item × Item) → σ → Option σ
  | [], s => some s
  | (key, value) :: rest, s =>
    match key? key with
    | none => none
    | some k =>
      match parts.find? (Text.bytesOf ·.1 == k) with
      | none => entries? parts rest s
      | some (_, set) =>
        match set value s with
        | none => none
        | some s => entries? parts rest s

/-- Reads a record. It can also be a list of all its parts; null and the empty list clear it. -/
def record? (parts : List (Part σ)) (cleared : σ) : Item → σ → Option σ
  | .null, _ => some cleared
  | .record entries, s => entries? parts entries s
  | .list items, s =>
    if items.isEmpty then some cleared
    else if items.length != parts.length then none
    else (parts.zip items).foldlM (fun s (p, x) => p.2 x s) s
  | _, _ => none

end MisuseSlice.Packed
