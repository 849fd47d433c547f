import MisuseSlice.Document.Node
import MisuseSlice.Document.Scalar
import MisuseSlice.Statement.Kind
import MisuseSlice.Text.Held

/-!
Reading typed values from documents. A value of the wrong type is noted and reading goes on, so a
document is refused at its end; the causes below stop reading at once. Null leaves a value as it was.
Readings are given for nodes that are no aliases; `visit` leads from an alias to its node.
-/
namespace MisuseSlice.Document

/-- Why a document is refused. -/
inductive DecodeError where
  /-- The text holds no document. -/
  | noDocument
  /-- The text is no document, or a value in it has the wrong type. -/
  | malformed
  | unknownKind (name : Text.Bytes)
  /-- The conditions of a rule are neither a mapping nor a list of them. -/
  | conditionShape (line : Nat)
  /-- A mapping into which others are merged has a collection as a key. -/
  | collectionKey
  deriving DecidableEq, Repr

/-- The wording of a cause; the place and the nature of a malformed value are left out. -/
def DecodeError.message : DecodeError → String
  | noDocument => "EOF"
  | malformed => "yaml: ..."
  | unknownKind bs => Kind.unknownBytesMessage bs
  | conditionShape n =>
    "line " ++ Text.ofNat n ++ ": conditions must be an object or a list of objects"
  | collectionKey => "a collection is a key beside merged mappings"

/-- How far a document is read. -/
structure Progress where
  anchored : Array Node
  /-- Some value had the wrong type. -/
  wrong : Bool := false
  /-- The number of nodes read, each as often as aliases lead to it. -/
  visits : Nat := 0
  /-- The number of those that were read through an alias. -/
  aliased : Nat := 0
  /-- The places of the aliases that lead to the current node. -/
  active : List Nat := []

/-- Reading that notes whether some value had the wrong type. -/
abbrev Decode := StateT Progress (Except DecodeError)

/-- Too much of what was read came through aliases: 99 parts of 100 are allowed up to 400,000 nodes, and 10 parts
from 4,000,000 nodes on. -/
def Progress.isOverAliased (p : Progress) : Bool :=
  let allowed := 356400000 - 89 * ((min p.visits 4000000) - 400000)
  100 < p.aliased && 1000 < p.visits && allowed * p.visits < 360000000 * p.aliased

/-- Counts a node that is read. -/
def count : Decode PUnit := do
  let p ← get
  let p := { p with visits := p.visits + 1, aliased := p.aliased + (if p.active.isEmpty then 0 else 1) }
  if p.isOverAliased then throw .malformed else set p

/-- Reads a node, or the node that an alias stands for. An alias inside the node that it stands for cannot be
followed. -/
def visit (f : Node → Decode α) (n : Node) : Decode α := do
  count
  match n with
  | .alias _ target place => do
    let p ← get
    match p.anchored[target]? with
    | some m =>
      if p.active.contains place then throw .malformed
      else do
        set { p with active := place :: p.active }
        count
        let a ← f m
        modify fun q => { q with active := p.active }
        pure a
    | none => throw .malformed
  | _ => f n

/-- Notes a value of the wrong type. -/
def wrongType : Decode (Option α) := do
  modify fun p => { p with wrong := true }
  pure none

/-- Reads a node as if it were a document of its own. -/
def isolated (f : Node → Decode (Option α)) (n : Node) : Decode (Option α) := do
  let p ← get
  match visit f n { anchored := p.anchored } with
  | .error e => throw e
  | .ok (a, q) => if q.wrong then wrongType else pure a

/-- The node is a scalar that means null. -/
def Node.isNull : Node → Bool
  | .scalar text style tag _ => scalarValue? text style tag == some .null
  | _ => false

/-- The node is a collection with the tag of null. -/
def Node.isNullCollection : Node → Bool
  | .sequence _ tag _ | .mapping _ tag _ => tag == "!!null"
  | _ => false

/-- Reads a scalar with its meaning; null gives `none`. -/
def scalar (n : Node) (f : String → ScalarValue → Option α) : Decode (Option α) :=
  match n with
  | .scalar text style tag _ =>
    match scalarValue? text style tag with
    | none => throw .malformed
    | some .null => pure none
    | some v =>
      match f text v with
      | some a => pure (some a)
      | none => wrongType
  | _ => wrongType

/-- Any scalar but null, by the bytes of its text. -/
def bytes (n : Node) : Decode (Option Text.Bytes) :=
  scalar n fun s v =>
    match v with
    | .binary bs => some bs
    | _ => some (Text.bytesOf s)

/-- Any scalar but null, by its text. -/
def text (n : Node) : Decode (Option String) :=
  scalar n fun s v =>
    match v with
    | .binary bs => some (Text.shown bs)
    | _ => some s

/-- Any scalar but null, as a text that holds the bytes of its text. -/
def heldText (n : Node) : Decode (Option String) := do
  pure ((← bytes n).map Text.holding)

/-- An integer, or a floating point number that is cut to one. -/
def integer (n : Node) : Decode (Option Int) :=
  scalar n fun _ v =>
    match v with
    | .int n => if n < 0x8000000000000000 then some n else none
    | .float (some q) => if q ≤ 0x8000000000000000 then some (Number.cutToWord q) else none
    | .lowest => some (-0x8000000000000000)
    | _ => none

/-- A truth value; the older words are accepted too. -/
def truth (n : Node) : Decode (Option Bool) :=
  let ofWord (s : String) : Option Bool :=
    if ["y", "Y", "yes", "on"].contains s then some true
    else if ["n", "N", "no", "off"].contains s then some false
    else none
  scalar n fun s v =>
    match v with
    | .bool b => some b
    | .text => ofWord s
    | .binary bs => ofWord (Text.shown bs)
    | _ => none

/-- Reads what is neither null nor a collection with its tag; null gives `some none`. -/
def optional (f : Node → Decode (Option α)) (n : Node) : Decode (Option (Option α)) :=
  if n.isNull then pure (some none)
  else if n.isNullCollection then wrongType
  else do pure ((← f n).map some)

/-- Reads the items of a sequence and leaves out those without a value. -/
def itemsOf (f : Node → Decode (Option α)) (items : List Node) : Decode (List α) := do
  let found ← items.foldlM (fun done n => do
    match ← visit f n with
    | some a => pure (a :: done)
    | none => pure done) []
  pure found.reverse

/-- What a node of the wrong kind gives where a scalar may stand for nothing only by being null. -/
def onlyNull (n : Node) (a : Option α) : Decode (Option α) := do
  match ← scalar n fun _ _ => (none : Option α) with
  | some b => pure (some b)
  | none => pure (if n.isNull then a else none)

/-- A sequence, whose items without a value are left out. Null gives the empty list. -/
def sequence (f : Node → Decode (Option α)) (n : Node) : Decode (Option (List α)) :=
  match n with
  | .sequence items _ _ => do pure (some (← itemsOf f items))
  | _ => onlyNull n (some [])

/-- A sequence, or `none` for null. -/
def sequenceOrNull (f : Node → Decode (Option α)) (n : Node) : Decode (Option (Option (List α))) :=
  if n.isNull then pure (some none) else do pure ((← sequence f n).map some)

/-- What tells the keys of a mapping apart: their kind and what is written. Collections are all alike. -/
def Node.keyMark : Node → Nat × String
  | .scalar t _ _ _ => (0, t)
  | .sequence _ _ _ => (1, "")
  | .mapping _ _ _ => (2, "")
  | .alias a _ _ => (3, a)

/-- Two keys of a mapping are alike. -/
def hasRepeatedKey : List (Node × Node) → Bool
  | [] => false
  | (k, _) :: rest => rest.any (·.1.keyMark == k.keyMark) || hasRepeatedKey rest

/-- The key that brings in the entries of other mappings. -/
def Node.isMergeKey : Node → Bool
  | .scalar "<<" style tag _ => tag == "!!merge" || (tag == "" && style == .plain)
  | _ => false

/-- The name that a key writes, with nothing for a key that is no text; a collection has no name to compare. -/
def keyName (n : Node) : Decode (Option String) :=
  match n with
  | .scalar text style tag _ =>
    match scalarValue? text style tag with
    | some .text => pure (some text)
    | some (.binary bs) => pure (some (Text.shown bs))
    | some _ => pure none
    | none => throw .malformed
  | _ => throw .collectionKey

/-- How the entries of a mapping are read into a record. -/
structure Fields (σ : Type) where
  /-- The reader of a key's value, or `none` for a key that the record does not have. -/
  reader : String → Option (Node → σ → Decode σ)
  /-- A key that the record does not have is wrong. -/
  strict : Bool := false
  /-- A second value for a key is wrong. -/
  once : Bool := true

/-- The keys that are read so far, and the record. -/
structure Filling (σ : Type) where
  /-- Inside merged mappings, the keys that have a value already. -/
  taken : Option (List String)
  done : List String := []
  record : σ

/-- Reads one entry, unless its key has a value already. -/
def Fields.entry (fs : Fields σ) (s : Filling σ) (e : Node × Node) : Decode (Filling σ) := do
  if e.1.isMergeKey then pure s
  else
    match ← visit text e.1 with
    | none => pure s
    | some name =>
      if (s.taken.getD []).contains name then pure s
      else
        let s := { s with taken := s.taken.map (name :: ·) }
        match fs.reader name with
        | some f =>
          if fs.once && s.done.contains name then do
            modify fun p => { p with wrong := true }
            pure s
          else pure { s with done := name :: s.done, record := ← f e.2 s.record }
        | none => do
          if fs.strict then modify fun p => { p with wrong := true }
          pure s

/-- No document merges mappings into each other to this depth. -/
def mergeLimit : Nat := 1000000

/-- Reads the entries of a mapping and then those of the mappings that its last merge key names. Keys inside these
count only if they have no value yet. -/
def Fields.fill (fs : Fields σ) : (fuel : Nat) → (taken : Option (List String)) → σ → List (Node × Node) →
    Decode (Filling σ)
  | 0, _, _, _ => throw .malformed
  | fuel + 1, taken, start, entries => do
    if hasRepeatedKey entries then do
      modify fun p => { p with wrong := true }
      pure { taken, record := start }
    else do
      let own ← entries.foldlM fs.entry { taken, record := start }
      match (entries.filter (·.1.isMergeKey)).getLast? with
      | none => pure own
      | some (_, source) => do
        let names ←
          match own.taken with
          | some names => pure names
          | none => entries.foldlM (fun names e => do
              pure (((← visit keyName e.1).map (· :: names)).getD names)) []
        let anchored := (← get).anchored
        let isMapping (n : Node) : Bool :=
          match n with
          | .mapping _ _ _ => true
          | .alias _ target _ => (match anchored[target]? with | some (.mapping _ _ _) => true | _ => false)
          | _ => false
        let add (s : Filling σ) (n : Node) : Decode (Filling σ) :=
          if isMapping n then
            visit (fun m =>
              match m with
              | .mapping es _ _ => fs.fill fuel s.taken s.record es
              | _ => throw .malformed) n
          else throw .malformed
        let whole : Filling σ := { taken := some names, record := own.record }
        let merged ←
          match source with
          | .sequence items _ _ => items.foldlM add whole
          | n => add whole n
        pure { merged with taken := own.taken.bind fun _ => merged.taken }

/-- Reads a record from a mapping over the values in `start`. -/
def Fields.read (fs : Fields σ) (start : σ) (n : Node) : Decode (Option σ) :=
  match n with
  | .mapping entries _ _ => do pure (some (← fs.fill mergeLimit none start entries).record)
  | _ => onlyNull n none

/-- Reads a record from a mapping over the values in `start`; keys that it does not have are wrong where
`strict`. -/
def record (strict : Bool) (reader : String → Option (Node → σ → Decode σ)) (start : σ) (n : Node) :
    Decode (Option σ) :=
  Fields.read { reader, strict } start n

/-- Sets a part of a record to the value read, if there is one. -/
def setter (f : Node → Decode (Option α)) (put : α → σ → σ) : Option (Node → σ → Decode σ) :=
  some fun n acc => do
    match ← visit f n with
    | some a => pure (put a acc)
    | none => pure acc

/-- Enters a value under a name, in place of the one before. -/
def putEntry (name : String) (a : α) : List (String × α) → List (String × α)
  | [] => [(name, a)]
  | e :: rest => if e.1 == name then (name, a) :: rest else e :: putEntry name a rest

/-- Reads a mapping from texts to values; null gives the empty one. -/
def table (f : Node → Decode (Option α)) (n : Node) : Decode (Option (List (String × α))) :=
  match n with
  | .mapping _ _ _ => Fields.read { reader := fun name => setter f (putEntry name), once := false } [] n
  | _ => onlyNull n (some [])

/-- Reads the first document of some bytes. -/
def decode (bytes : Text.Bytes) (f : Node → Decode α) : Except DecodeError α :=
  match Tree.read (Source.ofBytes bytes) with
  | .error .noDocument => .error .noDocument
  | .error .malformed => .error .malformed
  | .ok t =>
    match (do count; visit f t.root : Decode α) { anchored := t.anchored } with
    | .error e => .error e
    | .ok (a, p) => if p.wrong then .error .malformed else .ok a

/-- Reads the first document of a text. -/
def decodeText (source : String) (f : Node → Decode α) : Except DecodeError α :=
  decode (Text.bytesOf source) f

end MisuseSlice.Document
