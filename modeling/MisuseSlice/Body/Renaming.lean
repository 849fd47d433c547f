import Std.Data.TreeMap
import MisuseSlice.Body.Region

/-!
Renaming of redefined variables. One forward pass gives a redefinition a fresh name where the name can
be followed to the reads of its value:
- on straight-line code;
- in both sides of an if/else, where the two sides share the name and it holds after they join;
- in a loop, where the value stays in one iteration.

Every other redefinition keeps the name in use. Reads take the name in use, and the second side of an
if/else starts from the names in use before the first.
-/
namespace MisuseSlice

/-- The letters and the number of a slot name. -/
def slotParts? (name : String) : Option (String × List Char) :=
  let cs := name.toList
  let (mark, body) : List Char × List Char :=
    match cs with
    | '$' :: r => (['$'], r)
    | _ => ([], cs)
  let isLetter (c : Char) : Bool := c.isAlpha || c == '_'
  let letters := body.takeWhile isLetter
  let digits := body.dropWhile isLetter
  if letters.isEmpty || digits.isEmpty || !digits.all Number.isDecimal then none
  else some (String.ofList (mark ++ letters), digits)

/-- The largest number in use after each row of letters. -/
abbrev Counters := Std.TreeMap String Int

namespace Counters

/-- Notes the number of a name. -/
def observe (counters : Counters) (name : String) : Counters :=
  match slotParts? name with
  | some (letters, digits) =>
    match Number.integer 10 64 digits with
    | .ok n => if counters.getD letters 0 < n then counters.insert letters n else counters
    | .error _ => counters
  | none => counters

/-- The numbers in use in a body. -/
def ofStatements (units : List Statement) : Counters :=
  units.foldl (fun cs u => u.operands.foldl (fun cs v => cs.observe v.text) cs) {}

/-- The letters from which fresh names of a slot are made. -/
def letters (slot : String) : String :=
  match slotParts? slot with
  | some (letters, _) => letters
  | none => slot

/-- A fresh name for a slot: its letters with the next number, a machine word. -/
def fresh (counters : Counters) (slot : String) : String × Counters :=
  let l := letters slot
  let n := Int.bmod (counters.getD l 0 + 1) 0x10000000000000000
  (l ++ Text.ofInt n, counters.insert l n)

end Counters

/-- The names in use for the slots, and the slots defined so far. -/
structure Scope where
  names : Std.TreeMap String String := {}
  seen : List String := []
  deriving Inhabited

namespace Scope

/-- The name in use for a slot, the slot itself where none is. -/
def nameOf (s : Scope) (slot : String) : String :=
  match s.names[slot]? with
  | some n => if n == "" then slot else n
  | none => slot

/-- Uses a name for a slot. -/
def use (s : Scope) (slot name : String) : Scope := { s with names := s.names.insert slot name }

/-- Notes that a slot is defined. -/
def see (s : Scope) (slot : String) : Scope :=
  if s.seen.contains slot then s else { s with seen := slot :: s.seen }

end Scope

/-- What is remembered about an if/else while the pass is in it. -/
structure Sides where
  /-- The scope before the first side. -/
  before : Scope := {}
  /-- The scope at the end of the first side. -/
  first : Scope := {}
  /-- The names shared by both sides. -/
  shared : Std.TreeMap String String := {}
  deriving Inhabited

/-- The state of the pass. -/
structure Renaming where
  scope : Scope := {}
  counters : Counters
  /-- What is remembered of each if/else, by the index of its region. -/
  sides : Std.TreeMap Nat Sides := {}
  /-- The last name given to each renamed slot. -/
  aliases : Std.TreeMap String Value := {}

namespace Value

/-- A value under a new name, with its declared type. -/
def renamed (v : Value) (name : String) : Value :=
  let n := Value.read name
  if v.type != "" then { n with type := v.type } else n

/-- A read operand under the name in use. -/
def rename (v : Value) (scope : Scope) : Value :=
  if v.isVariable then
    match scope.names[v.text]? with
    | some n => if n != v.text then v.renamed n else v
    | none => v
  else if v.isFieldRef && v.base != "" then
    match scope.names[v.base]? with
    | some n =>
      if n != v.base then { v with base := n, text := n ++ "." ++ v.fieldSignature } else v
    | none => v
  else v

end Value

namespace Statement

/-- A statement whose reads take the names in use (`rewriteUses`). -/
def renameReads (u : Statement) (scope : Scope) : Statement :=
  { u with
    left := if u.kind.definesLocal then u.left else u.left.rename scope
    right := u.right.rename scope
    base := u.base.rename scope
    index := u.index.rename scope
    args := u.args.map (·.rename scope) }

end Statement

namespace Renaming

/-- The if/else regions that satisfy `p`, with their indexes. -/
def ifElses (regions : List Region) (p : Region → Nat → Bool) : List (Nat × Region) :=
  regions.zipIdx.filterMap fun (r, i) =>
    match r.kind with
    | .ifElse split _ => if p r split then some (i, r) else none
    | _ => none

/-- The two sides of an if/else join: what only the first side knows is added, and the shared names
hold. -/
def join (s : Renaming) (i : Nat) : Renaming :=
  let m := s.sides.getD i {}
  let names := m.first.names.toList.foldl (fun ns (k, v) => if ns.contains k then ns else ns.insert k v)
    s.scope.names
  let scope := m.first.seen.foldl Scope.see { s.scope with names }
  { s with scope := m.shared.toList.foldl (fun sc (k, v) => sc.use k v) scope }

/-- The second side of an if/else starts. -/
def split (s : Renaming) (i : Nat) : Renaming :=
  let m := s.sides.getD i {}
  { s with sides := s.sides.insert i { m with first := s.scope }, scope := m.before }

/-- The first side of an if/else starts. -/
def enter (s : Renaming) (i : Nat) : Renaming :=
  let m := s.sides.getD i {}
  { s with sides := s.sides.insert i { m with before := s.scope } }

/-- What happens at a position before its statement: inner regions join first, then second sides start,
then first sides. -/
def arrive (regions : List Region) (s : Renaming) (pos : Nat) : Renaming :=
  let joins := Sorting.sort (fun a b => decide (b.2.start ≤ a.2.start))
    (ifElses regions fun r _ => r.stop + 1 == pos)
  let s := joins.foldl (fun s (i, _) => s.join i) s
  let s := (ifElses regions fun _ t => t == pos).foldl (fun s (i, _) => s.split i) s
  (ifElses regions fun r _ => r.start == pos).foldl (fun s (i, _) => s.enter i) s

/-- Gives the redefinition of a slot a name. -/
def rename (s : Renaming) (slot name : String) : Renaming :=
  { s with scope := s.scope.use slot name, aliases := s.aliases.insert slot (Value.read name) }

/-- Treats the definition of `slot` at `pos`, giving the name that a redefinition defines; a first
definition keeps its operand. `none` where a loop starts outside the body. -/
def define? (units : List Statement) (regions : List Region) (s : Renaming) (slot : String) (pos : Nat) :
    Option (Option String × Renaming) :=
  if !s.scope.seen.contains slot then
    some (none, { s with scope := (s.scope.see slot).use slot slot })
  else
    let fresh : Option String × Renaming :=
      let (n, counters) := s.counters.fresh slot
      (some n, { s with counters }.rename slot n)
    let kept : Option String × Renaming :=
      (some (s.scope.nameOf slot), { s with aliases := s.aliases.insert slot Value.fresh })
    match Region.innermost? regions pos with
    | none => some fresh
    | some (i, r) =>
      match r.kind with
      | .loop =>
        if r.start < 0 then none
        else some (if r.isLoopLocal units slot pos then fresh else kept)
      | .oneSided => some kept
      | .ifElse _ both =>
        if both.contains slot then
          let m := s.sides.getD i {}
          match m.shared[slot]? with
          | some n => some (some n, s.rename slot n)
          | none =>
            let (n, counters) := s.counters.fresh slot
            let sides := s.sides.insert i { m with shared := m.shared.insert slot n }
            some (some n, { s with counters, sides }.rename slot n)
        else some kept

/-- The pass at one statement. -/
def step? (units : List Statement) (regions : List Region) (s : Renaming) (u : Statement) (pos : Nat) :
    Option (Statement × Renaming) :=
  let s := arrive regions s pos
  let u' := u.renameReads s.scope
  let d := u.defined
  if d.isAbsent then some (u', s)
  else
    match define? units regions s d.text pos with
    | none => none
    | some (none, s) => some (u', s)
    | some (some n, s) => some ({ u' with left := u'.left.renamed n }, s)

/-- The pass over the statements from `pos` on. -/
def run? (units : List Statement) (regions : List Region) :
    Nat → List Statement → Renaming → Option (List Statement × Renaming)
  | _, [], s => some ([], s)
  | pos, u :: rest, s =>
    match step? units regions s u pos with
    | none => none
    | some (u', s) =>
      match run? units regions (pos + 1) rest s with
      | none => none
      | some (us, s) => some (u' :: us, s)

end Renaming

/-- The statements of a body with redefined variables renamed, and the last names given (`resolveAliases`). `none`
where a branch points outside the body. -/
def renameBody? (units : List Statement) : Option (List Statement × Std.TreeMap String Value) :=
  match Region.all units with
  | none => none
  | some regions =>
    (Renaming.run? units regions 0 units { counters := .ofStatements units }).map fun (us, s) =>
      (us, s.aliases)

end MisuseSlice
