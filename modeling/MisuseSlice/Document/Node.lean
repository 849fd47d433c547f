import MisuseSlice.Document.Token.Reader

/-!
Documents as trees of scalars, sequences and mappings. The entries of a mapping keep their order and may repeat a
key. An alias stands for the node that its anchor names, which may be a node around the alias, so the anchored nodes
are kept in a table and an alias holds a number in it.
-/
namespace MisuseSlice.Document

/-- A node of a document, with its tag in short form and the line on which it starts. -/
inductive Node where
  | scalar (text : String) (style : Style) (tag : String) (line : Nat)
  | sequence (items : List Node) (tag : String) (line : Nat)
  | mapping (entries : List (Node × Node)) (tag : String) (line : Nat)
  /-- The anchored node number `target`; `place` tells apart the aliases of a document. -/
  | alias (name : String) (target place : Nat)
  deriving Repr, Inhabited

/-- The node that stands where nothing is written. -/
def Node.blank (line : Nat) : Node := .scalar "" .plain "" line

/-- A document: its root, and the nodes that have anchors. -/
structure Tree where
  root : Node
  anchored : Array Node
  deriving Inhabited

/-- How far the tokens are read into nodes. -/
structure Parsing where
  tokens : Tokens
  /-- What the handles of tags stand for. -/
  handles : List (String × String) := []
  pos : Nat := 0
  /-- The names of anchors with the numbers of their nodes, the latest first. -/
  anchors : List (String × Nat) := []
  anchored : Array Node := #[]

/-- Reading nodes from tokens. -/
abbrev Parse := StateT Parsing Option

namespace Parse

/-- Refuses the document. -/
def fail {α : Type} : Parse α := fun _ => none

/-- The next token. -/
def peek : Parse Token := fun p => (p.tokens.at? p.pos).map (·, p)

/-- Passes the next token. -/
def advance : Parse PUnit := fun p => some (⟨⟩, { p with pos := p.pos + 1 })

/-- How the tags start that every document knows in short form. -/
def commonStart : String := "tag:yaml.org,2002:"

/-- The handles that need no directive. -/
def commonHandles : List (String × String) := [("!", "!"), ("!!", commonStart)]

/-- A tag in its short form; the tag that says nothing is empty. -/
def shortTag (t : String) : String :=
  match Text.dropFront? commonStart.toList t.toList with
  | some r => "!!" ++ String.ofList r
  | none => if t == "!" then "" else t

/-- The tag that a handle and a suffix write. -/
def tagOf (handle suffix : String) : Parse String := fun p =>
  if handle == "" then some (shortTag suffix, p)
  else
    match (p.handles ++ commonHandles).find? (·.1 == handle) with
    | some (_, start) => some (shortTag (start ++ suffix), p)
    | none => none

/-- What may stand before a node: an anchor and a tag, and the line of the first of them. -/
structure Properties where
  anchor : Option String := none
  tag : String := ""
  line : Option Nat := none

/-- Anchor and tag before a node, in either order. -/
def properties : Parse Properties := do
  let t ← peek
  match t.kind with
  | .anchor a =>
    advance
    let u ← peek
    match u.kind with
    | .tag h s =>
      advance
      let _ ← peek
      pure { anchor := some a, tag := ← tagOf h s, line := some t.line }
    | _ => pure { anchor := some a, line := some t.line }
  | .tag h s =>
    advance
    let u ← peek
    match u.kind with
    | .anchor a =>
      advance
      let _ ← peek
      pure { anchor := some a, tag := ← tagOf h s, line := some t.line }
    | _ => pure { tag := ← tagOf h s, line := some t.line }
  | _ => pure {}

/-- Reserves a number for the node of an anchor. -/
def reserve (name : Option String) : Parse (Option Nat) := fun p =>
  match name with
  | some a =>
    let i := p.anchored.size
    some (some i, { p with anchors := (a, i) :: p.anchors, anchored := p.anchored.push (.blank 0) })
  | none => some (none, p)

/-- Enters a node under its number. -/
def register (number : Option Nat) (n : Node) : Parse Node := fun p =>
  match number with
  | some i => some (n, { p with anchored := p.anchored.setIfInBounds i n })
  | none => some (n, p)

/-- The alias of an anchor that was seen before. -/
def aliasOf (name : String) : Parse Node := fun p =>
  match p.anchors.find? (·.1 == name) with
  | some (_, i) => some (.alias name i p.pos, p)
  | none => none

mutual

/-- Reads a node. Block collections may stand only where `block`, and a sequence that is not
indented further than its key only where `level`. -/
def node (fuel : Nat) (block level : Bool) : Parse Node :=
  match fuel with
  | 0 => fail
  | fuel + 1 => do
    let t ← peek
    match t.kind with
    | .alias a =>
      advance
      aliasOf a
    | _ => do
      let ps ← properties
      let number ← reserve ps.anchor
      let u ← peek
      let line := ps.line.getD u.line
      let empty : Parse Node := if ps.line.isSome then pure (.scalar "" .plain ps.tag line) else fail
      let n ← (
        match u.kind with
        | .blockEntry =>
          if level then do pure (.sequence (← levelItems fuel []) ps.tag line) else empty
        | .scalar text style => do advance; pure (.scalar text style ps.tag line)
        | .flowSequenceStart => do advance; pure (.sequence (← flowItems fuel true []) ps.tag line)
        | .flowMappingStart => do advance; pure (.mapping (← flowEntries fuel true []) ps.tag line)
        | .blockSequenceStart =>
          if block then do advance; pure (.sequence (← blockItems fuel []) ps.tag line) else empty
        | .blockMappingStart =>
          if block then do advance; pure (.mapping (← blockEntries fuel []) ps.tag line) else empty
        | _ => empty)
      register number n

/-- Reads the entries of a block sequence up to its end, after those in `done`, last first. -/
def blockItems (fuel : Nat) (done : List Node) : Parse (List Node) :=
  match fuel with
  | 0 => fail
  | fuel + 1 => do
    let t ← peek
    match t.kind with
    | .blockEntry => do
      advance
      let u ← peek
      let item ←
        (match u.kind with
        | .blockEntry | .blockEnd => pure (Node.blank t.line)
        | _ => node fuel true false)
      blockItems fuel (item :: done)
    | .blockEnd => do advance; pure done.reverse
    | _ => fail

/-- Reads the entries of a sequence that is not indented further than its key. -/
def levelItems (fuel : Nat) (done : List Node) : Parse (List Node) :=
  match fuel with
  | 0 => fail
  | fuel + 1 => do
    let t ← peek
    match t.kind with
    | .blockEntry => do
      advance
      let u ← peek
      let item ←
        (match u.kind with
        | .blockEntry | .key | .value | .blockEnd => pure (Node.blank t.line)
        | _ => node fuel true false)
      levelItems fuel (item :: done)
    | _ => pure done.reverse

/-- Reads the entries of a block mapping up to its end. -/
def blockEntries (fuel : Nat) (done : List (Node × Node)) : Parse (List (Node × Node)) :=
  match fuel with
  | 0 => fail
  | fuel + 1 => do
    let t ← peek
    match t.kind with
    | .key => do
      advance
      let u ← peek
      let k ←
        (match u.kind with
        | .key | .value | .blockEnd => pure (Node.blank t.line)
        | _ => node fuel true true)
      let w ← peek
      let v ←
        (match w.kind with
        | .value => do
          advance
          let x ← peek
          match x.kind with
          | .key | .value | .blockEnd => pure (Node.blank w.line)
          | _ => node fuel true true
        | _ => pure (Node.blank w.line))
      blockEntries fuel ((k, v) :: done)
    | .blockEnd => do advance; pure done.reverse
    | _ => fail

/-- Reads the items of a flow sequence up to its bracket. An item with a question mark is a mapping of one entry; if
nothing is written for its key, what stands there instead is passed over. -/
def flowItems (fuel : Nat) (first : Bool) (done : List Node) : Parse (List Node) :=
  match fuel with
  | 0 => fail
  | fuel + 1 => do
    let t ← peek
    match t.kind with
    | .flowSequenceEnd => do advance; pure done.reverse
    | _ => do
      if !first then
        match t.kind with
        | .flowEntry => advance
        | _ => fail
      let u ← peek
      match u.kind with
      | .flowSequenceEnd => do advance; pure done.reverse
      | .key => do
        advance
        let w ← peek
        let k ←
          (match w.kind with
          | .value | .flowEntry | .flowSequenceEnd => do advance; pure (Node.blank w.line)
          | _ => node fuel false false)
        let x ← peek
        let v ←
          (match x.kind with
          | .value => do
            advance
            let y ← peek
            match y.kind with
            | .flowEntry | .flowSequenceEnd => pure (Node.blank y.line)
            | _ => node fuel false false
          | _ => pure (Node.blank x.line))
        flowItems fuel false (Node.mapping [(k, v)] "" u.line :: done)
      | _ => do
        let n ← node fuel false false
        flowItems fuel false (n :: done)

/-- Reads the entries of a flow mapping up to its brace. -/
def flowEntries (fuel : Nat) (first : Bool) (done : List (Node × Node)) : Parse (List (Node × Node)) :=
  match fuel with
  | 0 => fail
  | fuel + 1 => do
    let t ← peek
    match t.kind with
    | .flowMappingEnd => do advance; pure done.reverse
    | _ => do
      if !first then
        match t.kind with
        | .flowEntry => advance
        | _ => fail
      let u ← peek
      match u.kind with
      | .flowMappingEnd => do advance; pure done.reverse
      | .key => do
        advance
        let w ← peek
        let k ←
          (match w.kind with
          | .value | .flowEntry | .flowMappingEnd => pure (Node.blank w.line)
          | _ => node fuel false false)
        let x ← peek
        let v ←
          (match x.kind with
          | .value => do
            advance
            let y ← peek
            match y.kind with
            | .flowEntry | .flowMappingEnd => pure (Node.blank y.line)
            | _ => node fuel false false
          | _ => pure (Node.blank x.line))
        flowEntries fuel false ((k, v) :: done)
      | _ => do
        let k ← node fuel false false
        let x ← peek
        flowEntries fuel false ((k, Node.blank x.line) :: done)

end

/-- Reads the directives before a document: one version, which is 1.1, and different handles. -/
def directives : (fuel : Nat) → (versioned : Bool) → Parse PUnit
  | 0, _ => fail
  | fuel + 1, versioned => do
    let t ← peek
    match t.kind with
    | .version major minor =>
      if versioned || major != 1 || minor != 1 then fail
      else do
        advance
        directives fuel true
    | .tagHandle handle start => do
      let p ← get
      if p.handles.any (·.1 == handle) then fail
      else do
        set { p with handles := (handle, start) :: p.handles, pos := p.pos + 1 }
        directives fuel versioned
    | _ => pure ⟨⟩

/-- Reads a root, after which a token has to follow. -/
def root (fuel : Nat) : Parse Node := do
  let n ← node fuel true false
  let _ ← peek
  pure n

/-- Reads the first document of the tokens; `none` inside means that there is no document. -/
def document (fuel : Nat) : Parse (Option Node) := do
  let t ← peek
  if t.kind == .streamEnd then pure none
  else if t.kind.isDirective || t.kind == .documentStart then do
    directives fuel false
    let u ← peek
    if u.kind == .documentStart then do
      advance
      let w ← peek
      if w.kind.isDirective || w.kind == .documentStart || w.kind == .documentEnd || w.kind == .streamEnd then
        pure (some (Node.blank w.line))
      else some <$> root fuel
    else fail
  else some <$> root fuel

end Parse

/-- Why a text holds no document. -/
inductive ReadError where
  /-- The text ends before a document starts. -/
  | noDocument
  | malformed
  deriving DecidableEq, Repr

/-- The first document of a text. -/
def Tree.read (source : Source) : Except ReadError Tree :=
  let tokens := Tokens.ofSource source
  match Parse.document (3 * tokens.all.size + 3) { tokens } with
  | none => .error .malformed
  | some (none, _) => .error .noDocument
  | some (some root, p) => .ok ⟨root, p.anchored⟩

end MisuseSlice.Document
