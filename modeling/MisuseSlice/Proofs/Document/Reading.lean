import Mathlib
import MisuseSlice.Document.Decode
import MisuseSlice.Document.Writer
import MisuseSlice.Proofs.Text.Held

/-! Reading what was written. A node shows a content if it says the same in the same order, whatever its lines and
styles are. The readers find in such a node what the content was made from: for a scalar, for a list from its items,
and for a record from its entries, of which those that are left out stand for parts that are empty. -/
namespace MisuseSlice.Document

/-- The node is a scalar that means this text. -/
def Node.isText (s : String) : Node → Bool
  | .scalar t style tag _ => t == s && scalarValue? t style tag == some .text
  | _ => false

/-- The node is a scalar with this meaning. -/
def Node.means (v : ScalarValue) : Node → Bool
  | .scalar t style tag _ => scalarValue? t style tag == some v
  | _ => false

namespace Content

mutual

/-- The node says what the content says. -/
def isShownBy : Content → Node → Bool
  | .null, n => n.means .null
  | .truth b, n => n.means (.bool b)
  | .integer i, n => n.means (.int i)
  | .text s, n => n.isText s
  | .binary bs, n => n.means (.binary bs)
  | .list items, .sequence nodes tag _ => tag != "!!null" && areShownBy items nodes
  | .record entries, .mapping nodes tag _ => tag != "!!null" && entriesAreShownBy entries nodes
  | _, _ => false

/-- The nodes say what the contents say. -/
def areShownBy : List Content → List Node → Bool
  | [], [] => true
  | c :: rest, n :: nodes => isShownBy c n && areShownBy rest nodes
  | _, _ => false

/-- The pairs of nodes say what the entries say. -/
def entriesAreShownBy : List (String × Content) → List (Node × Node) → Bool
  | [], [] => true
  | e :: rest, n :: nodes => entryIsShownBy e n && entriesAreShownBy rest nodes
  | _, _ => false

/-- The pair of nodes says what the entry says. -/
def entryIsShownBy : String × Content → Node × Node → Bool
  | (key, c), (k, n) => k.isText key && isShownBy c n

end

/-- The bytes are read as a document that shows the content. -/
def isReadFrom (c : Content) (bs : Text.Bytes) : Bool :=
  match Tree.read (Source.ofBytes bs) with
  | .ok t => c.isShownBy t.root
  | .error _ => false

/-- What is written of the content is read as a document that shows it. -/
def RoundTrips (c : Content) : Prop := c.isReadFrom (Text.bytesOf c.render) = true

instance (c : Content) : Decidable c.RoundTrips :=
  decidable_of_iff
    (c.isReadFrom (Text.encode (c.block 0 ++ (if c.endsOpen then "...\n".toList else []))) = true)
    (by rw [RoundTrips, render, Text.bytesOf_ofList])

end Content

/-- No value had the wrong type, and nothing was read through an alias. -/
structure Progress.Calm (p : Progress) : Prop where
  right : p.wrong = false
  direct : p.aliased = 0
  outside : p.active = []

variable {α β σ : Type} {x : Decode α} {a b : α} {c : Content} {n : Node}

/-- Reading gives `a`, with nothing to note. -/
def Gives (x : Decode α) (a : α) : Prop :=
  ∀ p : Progress, p.Calm → ∃ p' : Progress, x.run p = .ok (a, p') ∧ p'.Calm

theorem gives_pure (a : α) : Gives (pure a) a := fun p calm => ⟨p, rfl, calm⟩

theorem Gives.bind {f : α → Decode β} {b : β} (first : Gives x a) (next : Gives (f a) b) : Gives (x >>= f) b := by
  intro p calm
  obtain ⟨p₁, ran, calm₁⟩ := first p calm
  obtain ⟨p₂, ran₂, calm₂⟩ := next p₁ calm₁
  exact ⟨p₂, by rw [StateT.run_bind, ran]; exact ran₂, calm₂⟩

theorem Gives.map (first : Gives x a) (f : α → β) : Gives (do pure (f (← x))) (f a) := first.bind (gives_pure _)

theorem gives_count : Gives count ⟨⟩ := by
  intro p calm
  refine ⟨{ p with visits := p.visits + 1 }, ?_, calm.right, calm.direct, calm.outside⟩
  obtain ⟨anchored, wrong, visits, aliased, active⟩ := p
  obtain ⟨right, direct, outside⟩ := calm
  subst right direct outside
  rfl

/-- A content is never shown by an alias. -/
theorem visit_shown {f : Node → Decode α} (shown : c.isShownBy n = true) (gives : Gives (f n) a) :
    Gives (visit f n) a := by
  rcases n with _ | _ | _ | _
  iterate 3 exact gives_count.bind gives
  cases c <;> simp [Content.isShownBy, Node.means, Node.isText] at shown

theorem isolated_gives {f : Node → Decode (Option α)} {a : Option α} (gives : Gives (visit f n) a) :
    Gives (isolated f n) a := by
  intro p calm
  obtain ⟨p', ran, calm'⟩ := gives { anchored := p.anchored } ⟨rfl, rfl, rfl⟩
  refine ⟨p, ?_, calm⟩
  have inner : visit f n { anchored := p.anchored } = .ok (a, p') := ran
  simp only [isolated, StateT.run_bind, StateT.run_get, pure_bind, inner, calm'.right]
  rfl

/-- The reader finds `a` in every node that shows the content. -/
def Reads (f : Node → Decode (Option α)) (c : Content) (a : α) : Prop :=
  ∀ n, c.isShownBy n = true → Gives (f n) (some a)

theorem Node.isText_iff {s : String} : n.isText s = true ↔
    ∃ style tag line, n = .scalar s style tag line ∧ scalarValue? s style tag = some .text := by
  constructor
  · intro shown
    rcases n with ⟨t, style, tag, line⟩ | _ | _ | _
    case scalar =>
      simp only [Node.isText, Bool.and_eq_true, beq_iff_eq] at shown
      obtain ⟨rfl, value⟩ := shown
      exact ⟨style, tag, line, rfl, value⟩
    all_goals simp [Node.isText] at shown
  · rintro ⟨style, tag, line, rfl, value⟩
    simp [Node.isText, value]

theorem Node.means_iff {v : ScalarValue} : n.means v = true ↔
    ∃ t style tag line, n = .scalar t style tag line ∧ scalarValue? t style tag = some v := by
  constructor
  · intro shown
    rcases n with ⟨t, style, tag, line⟩ | _ | _ | _
    case scalar => exact ⟨t, style, tag, line, rfl, by simpa [Node.means] using shown⟩
    all_goals simp [Node.means] at shown
  · rintro ⟨t, style, tag, line, rfl, value⟩
    simp [Node.means, value]

/-! ### Scalars -/

theorem reads_text (s : String) : Reads text (.text s) s := by
  intro n shown
  obtain ⟨style, tag, line, rfl, value⟩ := Node.isText_iff.mp shown
  simp only [text, scalar, value]
  exact gives_pure _

theorem reads_bytes (s : String) : Reads bytes (.text s) (Text.bytesOf s) := by
  intro n shown
  obtain ⟨style, tag, line, rfl, value⟩ := Node.isText_iff.mp shown
  simp only [bytes, scalar, value]
  exact gives_pure _

theorem reads_binary (bs : Text.Bytes) : Reads bytes (.binary bs) bs := by
  intro n shown
  obtain ⟨t, style, tag, line, rfl, value⟩ := Node.means_iff.mp shown
  simp only [bytes, scalar, value]
  exact gives_pure _

/-- Bytes are read as they are, whether they are written as a text or not. -/
theorem reads_ofBytes (bs : Text.Bytes) : Reads bytes (.ofBytes bs) bs := by
  rw [Content.ofBytes]
  split
  · rename_i s utf8
    have read := reads_bytes s
    rwa [Text.ofBytes?_eq_some utf8] at read
  · exact reads_binary bs

theorem reads_held {s : String} (held : Text.IsHeld s) : Reads heldText (.ofHeld s) s := by
  intro n shown
  have given := (reads_ofBytes _ n shown).map (Option.map Text.holding)
  rwa [Option.map_some, Text.isHeld_iff.mp held] at given

/-- A text whose bytes are UTF-8 is written as a text. -/
theorem Content.exists_ofHeld_eq_text {s : String} (legible : Text.IsLegible s) :
    ∃ t, Content.ofHeld s = .text t ∧ Text.bytesOf t = Text.bytesHeld s := by
  obtain ⟨t, utf8⟩ := Option.isSome_iff_exists.mp legible
  exact ⟨t, by rw [ofHeld, ofBytes, utf8], Text.ofBytes?_eq_some utf8⟩

theorem Content.ofHeld_ne_null (s : String) : Content.ofHeld s ≠ .null := by
  rw [ofHeld, ofBytes]
  split <;> simp

theorem reads_truth (b : Bool) : Reads truth (.truth b) b := by
  intro n shown
  obtain ⟨t, style, tag, line, rfl, value⟩ := Node.means_iff.mp shown
  simp only [truth, scalar, value]
  exact gives_pure _

theorem reads_integer {i : Int} (word : i < 0x8000000000000000) : Reads integer (.integer i) i := by
  intro n shown
  obtain ⟨t, style, tag, line, rfl, value⟩ := Node.means_iff.mp shown
  simp only [integer, scalar, value, word, ↓reduceIte]
  exact gives_pure _

/-! ### Lists -/

theorem Content.areShownBy_iff {cs : List Content} {ns : List Node} :
    Content.areShownBy cs ns = true ↔ List.Forall₂ (fun c n => c.isShownBy n = true) cs ns := by
  induction cs generalizing ns with
  | nil => cases ns <;> simp [Content.areShownBy]
  | cons c cs ih => cases ns <;> simp [Content.areShownBy, ih]

/-- A list is shown by a sequence. -/
theorem Content.isShownBy_list_iff {cs : List Content} : (Content.list cs).isShownBy n = true ↔
    ∃ ns tag line, n = .sequence ns tag line ∧ tag ≠ "!!null" ∧
      List.Forall₂ (fun c n => c.isShownBy n = true) cs ns := by
  rcases n with _ | ⟨ns, tag, line⟩ | _ | _ <;> simp [Content.isShownBy, Content.areShownBy_iff]

theorem itemsOf_gives {f : Node → Decode (Option α)} {cs : List Content} {ns : List Node} {as : List α}
    (reads : List.Forall₂ (Reads f) cs as) (shown : List.Forall₂ (fun c n => c.isShownBy n = true) cs ns) :
    Gives (itemsOf f ns) as := by
  have fold (step : List α → Node → Decode (List α))
      (adds : ∀ done n, step done n = visit f n >>= fun a? => pure (a?.elim done (· :: done))) :
      ∀ done, Gives (ns.foldlM step done) (as.reverse ++ done) := by
    induction reads generalizing ns with
    | nil =>
      cases shown
      exact fun done => gives_pure done
    | @cons c a cs as head tail ih =>
      rcases shown with _ | ⟨shown, rest⟩
      intro done
      rw [List.foldlM_cons, List.reverse_cons, List.append_assoc, adds]
      refine Gives.bind (a := a :: done) ?_ (ih rest (a :: done))
      exact (visit_shown shown (head _ shown)).bind (gives_pure _)
  have back : (as.reverse ++ []).reverse = as := by rw [List.append_nil, List.reverse_reverse]
  rw [← back]
  refine (fold _ (fun done n => ?_) []).map List.reverse
  congr 1
  funext a?
  cases a? <;> rfl

theorem reads_sequence {f : Node → Decode (Option α)} {cs : List Content} {as : List α}
    (reads : List.Forall₂ (Reads f) cs as) : Reads (sequence f) (.list cs) as := by
  intro n shown
  obtain ⟨ns, tag, line, rfl, _, items⟩ := Content.isShownBy_list_iff.mp shown
  exact (itemsOf_gives reads items).map some

/-! ### What may be null -/

/-- Only null is shown by null, and nothing that has the tag of null shows a content. -/
theorem Content.shown_notNull (given : c ≠ .null) (shown : c.isShownBy n = true) :
    n.isNull = false ∧ n.isNullCollection = false := by
  cases c with
  | null => exact absurd rfl given
  | text s =>
    obtain ⟨style, tag, line, rfl, value⟩ := Node.isText_iff.mp shown
    simp [Node.isNull, Node.isNullCollection, value]
  | truth | integer | binary =>
    obtain ⟨t, style, tag, line, rfl, value⟩ := Node.means_iff.mp shown
    simp [Node.isNull, Node.isNullCollection, value]
  | list =>
    obtain ⟨ns, tag, line, rfl, plain, _⟩ := Content.isShownBy_list_iff.mp shown
    simp [Node.isNull, Node.isNullCollection, plain]
  | record =>
    rcases n with _ | _ | ⟨entries, tag, line⟩ | _
    case mapping =>
      simp only [Content.isShownBy, Bool.and_eq_true, bne_iff_ne, ne_eq] at shown
      simp [Node.isNull, Node.isNullCollection, shown.1]
    all_goals simp [Content.isShownBy] at shown

theorem reads_optional {f : Node → Decode (Option α)} (given : c ≠ .null) (reads : Reads f c a) :
    Reads (optional f) c (some a) := by
  intro n shown
  obtain ⟨notNull, plain⟩ := Content.shown_notNull given shown
  simp only [optional, notNull, plain, Bool.false_eq_true, ↓reduceIte]
  exact (reads n shown).map (Option.map some)

theorem reads_gap (f : Node → Decode (Option α)) : Reads (optional f) .null none := by
  intro n shown
  obtain ⟨t, style, tag, line, rfl, value⟩ := Node.means_iff.mp shown
  simp only [optional, Node.isNull, value, beq_self_eq_true, ↓reduceIte]
  exact gives_pure _

theorem reads_sequenceOrNull {f : Node → Decode (Option α)} {cs : List Content} {as : List α}
    (reads : List.Forall₂ (Reads f) cs as) : Reads (sequenceOrNull f) (.list cs) (some as) := by
  intro n shown
  have notNull := (Content.shown_notNull (by simp) shown).1
  simp only [sequenceOrNull, notNull, Bool.false_eq_true, ↓reduceIte]
  exact (reads_sequence reads n shown).map (Option.map some)

/-! ### Records -/

section
variable {reader : String → Option (Node → σ → Decode σ)} {names names' : List String}
  {entries entries' : List (String × Content)} {s s' s'' : σ}

/-- The entries lead a record from one state to another. They have the names in order, some of which are left
out. -/
inductive Fills (reader : String → Option (Node → σ → Decode σ)) :
    List String → List (String × Content) → σ → σ → Prop where
  | done (s : σ) : Fills reader [] [] s s
  | skip (key : String) {names entries s s'} (rest : Fills reader names entries s s') :
      Fills reader (key :: names) entries s s'
  | fill {key c f names entries s s' s''} (known : reader key = some f)
      (reads : ∀ n, c.isShownBy n = true → Gives (f n s) s') (rest : Fills reader names entries s' s'') :
      Fills reader (key :: names) ((key, c) :: entries) s s''

theorem Fills.append (first : Fills reader names entries s s') (next : Fills reader names' entries' s' s'') :
    Fills reader (names ++ names') (entries ++ entries') s s'' := by
  induction first with
  | done => exact next
  | skip key _ ih => exact (ih next).skip key
  | fill known reads _ ih => exact (ih next).fill known reads

/-- An entry sets a part of the record. -/
theorem Fills.set (key : String) {f : Node → Decode (Option α)} {put : α → σ → σ} (known : reader key = setter f put)
    (reads : Reads f c a) : Fills reader [key] [(key, c)] s (put a s) :=
  .fill known (fun _ shown => (visit_shown shown (reads _ shown)).bind (gives_pure _)) (.done _)

theorem Fills.optionalTruth (key : String) {put : Bool → σ → σ} (known : reader key = setter truth put)
    (blank : put false s = s) (b : Bool) : Fills reader [key] (Content.optionalTruth key b) s (put b s) := by
  cases b with
  | false =>
    rw [blank]
    exact .skip key (.done s)
  | true => exact .set key known (reads_truth true)

theorem Fills.optionalInteger (key : String) {put : Int → σ → σ} (known : reader key = setter integer put)
    (blank : put 0 s = s) {i : Int} (word : i < 0x8000000000000000) :
    Fills reader [key] (Content.optionalInteger key i) s (put i s) := by
  rw [Content.optionalInteger]
  split
  · rename_i none
    rw [beq_iff_eq.mp none, blank]
    exact .skip key (.done s)
  · exact .set key known (reads_integer word)

theorem Fills.optionalList (key : String) {f : Node → Decode (Option α)} {put : List α → σ → σ}
    (known : reader key = setter (sequence f) put) (blank : put [] s = s) {cs : List Content} {as : List α}
    (reads : List.Forall₂ (Reads f) cs as) : Fills reader [key] (Content.optionalList key cs) s (put as s) := by
  cases reads with
  | nil =>
    rw [blank]
    exact .skip key (.done s)
  | cons head tail => exact .set key known (reads_sequence (.cons head tail))

/-- The names of the entries are among those that are expected. -/
theorem Fills.names_sublist (fills : Fills reader names entries s s') : (entries.map (·.1)).Sublist names := by
  induction fills with
  | done => exact .slnil
  | skip key _ ih => exact ih.cons key
  | fill _ _ _ ih => exact ih.cons_cons _

end

/-- A record is shown by a mapping. -/
theorem Content.isShownBy_record {entries : List (String × Content)}
    (shown : (Content.record entries).isShownBy n = true) :
    ∃ nodes tag line, n = .mapping nodes tag line ∧
      List.Forall₂ (fun e pair => pair.1.isText e.1 = true ∧ e.2.isShownBy pair.2 = true) entries nodes := by
  rcases n with _ | _ | ⟨nodes, tag, line⟩ | _
  case mapping =>
    simp only [Content.isShownBy, Bool.and_eq_true] at shown
    refine ⟨nodes, tag, line, rfl, ?_⟩
    have pairs := shown.2
    clear shown
    induction entries generalizing nodes with
    | nil => cases nodes <;> simp_all [Content.entriesAreShownBy]
    | cons e entries ih =>
      cases nodes with
      | nil => simp [Content.entriesAreShownBy] at pairs
      | cons pair nodes =>
        obtain ⟨key, c⟩ := e
        obtain ⟨k, n⟩ := pair
        simp only [Content.entriesAreShownBy, Content.entryIsShownBy, Bool.and_eq_true] at pairs
        exact .cons pairs.1 (ih _ pairs.2)
  all_goals simp [Content.isShownBy] at shown

/-- A key that shows a name other than that of merging brings in no entries. -/
theorem Node.isMergeKey_of_isText {key : String} (other : key ≠ "<<") (shown : n.isText key = true) :
    n.isMergeKey = false := by
  obtain ⟨style, tag, line, rfl, _⟩ := Node.isText_iff.mp shown
  unfold Node.isMergeKey
  split
  · rename_i same
    cases same
    exact absurd rfl other
  · rfl

theorem Node.keyMark_of_isText {key : String} (shown : n.isText key = true) : n.keyMark = (0, key) := by
  obtain ⟨style, tag, line, rfl, _⟩ := Node.isText_iff.mp shown
  rfl

section
variable {reader : String → Option (Node → σ → Decode σ)} {names : List String}
  {entries : List (String × Content)} {nodes : List (Node × Node)} {s s' : σ}

/-- The keys of a mapping are as different as the names that they show. -/
theorem hasRepeatedKey_shown (different : (entries.map (·.1)).Nodup)
    (shown : List.Forall₂ (fun e pair => pair.1.isText e.1 = true ∧ e.2.isShownBy pair.2 = true) entries nodes) :
    hasRepeatedKey nodes = false := by
  induction shown with
  | nil => rfl
  | @cons e pair entries nodes head tail ih =>
    rw [List.map_cons, List.nodup_cons] at different
    rw [hasRepeatedKey, ih different.2, Bool.or_false, List.any_eq_false]
    intro other member
    obtain ⟨i, inside, rfl⟩ := List.getElem_of_mem member
    have there := (List.forall₂_iff_get.mp tail).2 i (tail.length_eq ▸ inside) inside
    simp only [List.get_eq_getElem] at there
    rw [Node.keyMark_of_isText head.1, Node.keyMark_of_isText there.1]
    simp only [beq_iff_eq, Prod.mk.injEq, true_and]
    intro same
    exact different.1 (same ▸ List.mem_map_of_mem (List.getElem_mem _))

/-- Reading the entries of a mapping one after the other. -/
theorem entries_give (fills : Fills reader names entries s s') (different : names.Nodup) (plain : "<<" ∉ names)
    (shown : List.Forall₂ (fun e pair => pair.1.isText e.1 = true ∧ e.2.isShownBy pair.2 = true) entries nodes)
    (done : List String) (new : ∀ key ∈ names, key ∉ done) :
    ∃ done', Gives (nodes.foldlM (Fields.entry { reader }) { taken := none, done, record := s })
      { taken := none, done := done', record := s' } := by
  induction fills generalizing nodes done with
  | done =>
    cases shown
    exact ⟨done, gives_pure _⟩
  | skip key _ ih =>
    rw [List.nodup_cons] at different
    rw [List.mem_cons, not_or] at plain
    exact ih different.2 plain.2 shown done fun key member => new key (List.mem_cons_of_mem _ member)
  | @fill key c f names entries s s₁ s' known reads rest ih =>
    rw [List.nodup_cons] at different
    rw [List.mem_cons, not_or] at plain
    rcases shown with _ | ⟨⟨isKey, isValue⟩, shown⟩
    rename_i pair nodes
    have others : ∀ other ∈ names, other ∉ key :: done := by
      intro other member
      rw [List.mem_cons, not_or]
      exact ⟨fun same => different.1 (same ▸ member), new other (List.mem_cons_of_mem _ member)⟩
    obtain ⟨done', gives⟩ := ih different.2 plain.2 shown (key :: done) others
    refine ⟨done', ?_⟩
    rw [List.foldlM_cons]
    refine Gives.bind ?_ gives
    have unread : done.contains key = false := by simpa using new key List.mem_cons_self
    rw [Fields.entry, Node.isMergeKey_of_isText (Ne.symm plain.1) isKey]
    simp only [Bool.false_eq_true, ↓reduceIte]
    refine Gives.bind (visit_shown (c := .text key) isKey (reads_text key _ isKey)) ?_
    simp only [Option.getD_none, List.contains_nil, Bool.false_eq_true, ↓reduceIte, Option.map_none, known, unread,
      Bool.and_false]
    exact (reads _ isValue).map _

/-- A record is read by its entries, from the state in which nothing is read. -/
theorem reads_record (fills : Fills reader names entries s s') (different : names.Nodup) (plain : "<<" ∉ names) :
    Reads (record false reader s) (.record entries) s' := by
  intro n shown
  obtain ⟨nodes, tag, line, rfl, pairs⟩ := Content.isShownBy_record shown
  obtain ⟨done, gives⟩ := entries_give fills different plain pairs [] (by simp)
  have single := hasRepeatedKey_shown (fills.names_sublist.nodup different) pairs
  have unmerged : nodes.filter (·.1.isMergeKey) = [] := by
    rw [List.filter_eq_nil_iff]
    intro pair member
    obtain ⟨i, inside, rfl⟩ := List.getElem_of_mem member
    have there := (List.forall₂_iff_get.mp pairs).2 i (pairs.length_eq ▸ inside) inside
    simp only [List.get_eq_getElem] at there
    have named := fills.names_sublist.subset (List.mem_map_of_mem (List.getElem_mem (pairs.length_eq ▸ inside)))
    simp [Node.isMergeKey_of_isText (fun same => plain (same ▸ named)) there.1]
  have filled : Gives (Fields.fill { reader } mergeLimit none s nodes) { taken := none, done, record := s' } := by
    rw [mergeLimit, Fields.fill, single, unmerged]
    exact gives.bind (gives_pure _)
  exact filled.map fun filling => some filling.record

end

/-- A document that shows a content is read as what the reader finds in the content. -/
theorem decode_eq {bs : Text.Bytes} {f : Node → Decode α} (read : c.isReadFrom bs = true)
    (gives : ∀ n, c.isShownBy n = true → Gives (f n) a) : decode bs f = .ok a := by
  obtain ⟨t, parsed, shown⟩ : ∃ t, Tree.read (Source.ofBytes bs) = .ok t ∧ c.isShownBy t.root = true := by
    unfold Content.isReadFrom at read
    split at read
    · exact ⟨_, ‹_›, read⟩
    · cases read
  have all : Gives (do count; visit f t.root) a := gives_count.bind (visit_shown shown (gives _ shown))
  obtain ⟨p, ran, calm⟩ := all { anchored := t.anchored } ⟨rfl, rfl, rfl⟩
  rw [StateT.run] at ran
  unfold decode
  simp only [parsed, ran]
  exact if_neg (by simp [calm.right])

end MisuseSlice.Document
