import Mathlib
import MisuseSlice.Proofs.Criterion.Seeds
import MisuseSlice.Proofs.Text.Cutting
import MisuseSlice.Proofs.ValueSets
import MisuseSlice.Statement.Build

/-! The criteria of the calls of a method. A call is a seed if its printed form has the signature of the method, so every call
of the method is one. A call of another method is one only where an operand prints the signature: between calls whose
operands have no angle brackets the seeds are the calls of the method. -/
namespace MisuseSlice

/-- The parts of a signature of a method are told apart by marks that stand nowhere else. -/
def Signature.IsPlain (s : String) : Prop :=
  ∃ owner head params : List Char, s.toList = '<' :: (owner ++ ':' :: (head ++ '(' :: (params ++ ')' :: ['>']))) ∧
    ('<' ∉ owner ∧ ':' ∉ owner) ∧ (':' ∉ head ∧ '(' ∉ head) ∧ ':' ∉ params ∧ '(' ∉ params ∧ '>' ∉ params

/-- No plain signature stands in another one. -/
theorem Signature.IsPlain.eq_of_infix {s t : String} (plain : IsPlain s) (other : IsPlain t)
    (inside : t.toList <:+: s.toList) : t = s := by
  obtain ⟨owner, head, params, written, ⟨open_, colon⟩, ⟨colonHead, paren⟩, colonParams, parenParams, close_⟩ := plain
  obtain ⟨owner', head', params', written', -⟩ := other
  obtain ⟨before, after, around⟩ := inside
  rw [written, written'] at around
  -- the marks of the inner signature are those of the outer one, which has no others
  have colons : ('<' :: owner) ++ ':' :: (head ++ '(' :: (params ++ ')' :: ['>'])) =
      (before ++ '<' :: owner') ++ ':' :: ((head' ++ '(' :: (params' ++ ')' :: ['>'])) ++ after) := by
    simpa using around.symm
  obtain ⟨front, -, back⟩ := (List.append_cons_inj_of_notMem (by simp [colon]) (by simp [colonHead, colonParams])).mp colons
  obtain ⟨rfl, rfl⟩ : before = [] ∧ owner' = owner := by
    cases before with
    | nil => exact ⟨rfl, (List.cons.inj front).2.symm⟩
    | cons c before =>
      obtain ⟨-, same⟩ := List.cons.inj front
      exact absurd (by simp [same]) open_
  have parens : head ++ '(' :: (params ++ ')' :: ['>']) = head' ++ '(' :: ((params' ++ ')' :: ['>']) ++ after) := by
    simpa using back
  obtain ⟨rfl, -, back⟩ := (List.append_cons_inj_of_notMem paren (by simp [parenParams])).mp parens
  have ends : (params ++ [')']) ++ '>' :: [] = (params' ++ [')']) ++ '>' :: after := by simpa using back
  obtain ⟨last, -, -⟩ := (List.append_cons_inj_of_notMem (by simp [close_]) List.not_mem_nil).mp ends
  rw [← String.toList_inj, written, written', List.append_cancel_right last]

namespace Statement

/-- The values asked for of a call: its receiver where no positions are given, and else what is passed at them. -/
def requested (u : Statement) (positions : List Int) : List Value :=
  if positions = [] then [u.base] else positions.map u.arg

/-- A call whose printed form has the text. -/
def IsCallWith (u : Statement) (text : String) : Prop := u.kind.isInvoke = true ∧ text.toList <:+: u.text.toList

/-- No operand of the call has an angle bracket. -/
def IsUnbracketed (u : Statement) : Prop :=
  ∀ s ∈ u.invoke :: u.left.text :: u.base.text :: u.args.map (·.text), '<' ∉ s.toList ∧ '>' ∉ s.toList

variable {u : Statement} {t : String}

/-- The expression of a call prints the signature behind the way of its dispatch and its receiver, and before its arguments. -/
theorem callText_eq (u : Statement) : ∃ front back, u.callText = front ++ u.signature ++ back ∧
    (u.IsUnbracketed → '<' ∉ front.toList ∧ '>' ∉ back.toList) := by
  let dispatch := if u.invoke != "" then u.invoke else if u.base.isAbsent then "static" else "virtual"
  let receiver := if u.base.isAbsent then "" else u.base.text ++ "."
  refine ⟨dispatch ++ "invoke " ++ receiver, "(" ++ Text.joinWith ", " (u.args.map (·.text)) ++ ")",
    by simp only [callText, dispatch, receiver, String.append_assoc], fun free => ⟨?_, ?_⟩⟩
  · have word : '<' ∉ dispatch.toList := by
      unfold dispatch
      split
      · exact (free _ (by simp)).1
      · split <;> simp
    have base : '<' ∉ receiver.toList := by
      unfold receiver
      split
      · simp
      · simpa using (free u.base.text (by simp)).1
    simp [word, base]
  · have args : '>' ∉ (Text.joinWith ", " (u.args.map (·.text))).toList := by
      intro member
      rcases Text.mem_joinWith member with between | ⟨x, inside, here⟩
      · simp at between
      · exact (free x (by simp [inside])).2 here
    simp [args]

/-- A call prints its signature between texts without brackets if its operands have none. -/
theorem text_of_isInvoke (call : u.kind.isInvoke = true) : ∃ front back, u.text = front ++ u.signature ++ back ∧
    (u.IsUnbracketed → '<' ∉ front.toList ∧ '>' ∉ back.toList) := by
  obtain ⟨front, back, written, marks⟩ := u.callText_eq
  rcases (by simpa [Kind.isInvoke] using call : u.kind = .invoke ∨ u.kind = .assignInvoke) with kind | kind
  · exact ⟨front, back, by rw [text, kind, written], marks⟩
  · refine ⟨u.left.text ++ " = " ++ front, back, by simp [text, kind, written, String.append_assoc], fun free => ?_⟩
    have left : '<' ∉ u.left.text.toList := (free _ (by simp)).1
    exact ⟨by simp [left, (marks free).1], (marks free).2⟩

theorem isCallWith_of_signature (call : u.kind.isInvoke = true) (calls : u.signature = t) : u.IsCallWith t := by
  obtain ⟨front, back, written, -⟩ := text_of_isInvoke call
  refine ⟨call, front.toList, back.toList, ?_⟩
  rw [written, calls]
  simp

/-- A call without brackets in its operands prints a plain signature exactly if it is its own. -/
theorem isCallWith_iff (call : u.kind.isInvoke = true) (free : u.IsUnbracketed) (plain : Signature.IsPlain u.signature)
    (other : Signature.IsPlain t) : u.IsCallWith t ↔ u.signature = t := by
  refine ⟨fun ⟨_, inside⟩ => ?_, isCallWith_of_signature call⟩
  obtain ⟨front, back, written, marks⟩ := text_of_isInvoke call
  obtain ⟨owner, head, params, parts, -⟩ := id other
  have first : ∃ rest, t.toList = '<' :: rest := ⟨_, parts⟩
  have last : ∃ rest, t.toList = rest ++ ['>'] := ⟨'<' :: (owner ++ ':' :: (head ++ '(' :: (params ++ [')']))), by simp [parts]⟩
  obtain ⟨first, starts⟩ := first
  obtain ⟨last, ends⟩ := last
  rw [written, String.toList_append, String.toList_append, ends, Text.infix_append_right_iff (marks free).2, ← ends, starts,
    Text.infix_append_left_iff (marks free).1, ← starts] at inside
  exact (plain.eq_of_infix other inside).symm

end Statement

namespace Criterion

/-- The criteria are those of the calls in a body that print the target and pass some value asked for: one for each, the last
call first, and each with its place and the values asked for. -/
structure AreCallSeeds (cs : List Criterion) (b : Body) (caller target : String) (kind : SeedKind) (positions : List Int)
    (level : Int) : Prop where
  descending : cs.Pairwise fun c d => d.pos < c.pos
  seeded : ∀ pos, (∃ c ∈ cs, c.pos = pos) ↔
    ∃ u, b.source[pos]? = some u ∧ u.IsCallWith target ∧ ∃ v ∈ u.requested positions, v.text ≠ ""
  asked : ∀ c ∈ cs, c.caller = caller ∧ c.target = target ∧ c.kind = kind ∧ c.positions = positions ∧ c.level = level
  placed : ∀ c ∈ cs, c.start = b.mirror c.pos ∧ c.pos = b.mirror c.start
  printed : ∀ c ∈ cs, b.source[c.pos]?.map (·.text) = some c.statement
  sorted : ∀ c ∈ cs, (c.targets.map (·.text)).Pairwise (· < ·)
  targets : ∀ c ∈ cs, ∀ u, b.source[c.pos]? = some u → (∀ v ∈ c.targets, v ∈ u.requested positions) ∧
    ∀ name, name ∈ c.targets.map (·.text) ↔ name ≠ "" ∧ ∃ v ∈ u.requested positions, v.text = name

variable {caller target : String} {kind : SeedKind} {positions : List Int} {level : Int} {u : Statement}

/-- The values of interest of a call are those asked for that are there. -/
theorem mem_valuesOf_iff (call : kind = .invoke ∨ kind = .parameter) (invokes : u.kind.isInvoke = true) {v : Value} :
    v ∈ valuesOf u kind positions ↔ v ∈ u.requested positions ∧ v.text ≠ "" := by
  have values : valuesOf u kind positions = (u.requested positions).filter (!·.isAbsent) := by
    rcases call with rfl | rfl <;> simp [valuesOf, Statement.requested, invokes]
  simp [values, Value.isAbsent]

/-- A statement gives a criterion for a call exactly if it is a call that prints the target and passes a value asked for. -/
theorem seed_iff (call : kind = .invoke ∨ kind = .parameter) :
    (isSeed u target kind = true ∧ valuesOf u kind positions ≠ []) ↔
      u.IsCallWith target ∧ ∃ v ∈ u.requested positions, v.text ≠ "" := by
  by_cases invokes : u.kind.isInvoke = true
  · have seed : isSeed u target kind = true ↔ u.IsCallWith target := by
      rcases call with rfl | rfl <;> simp [isSeed, Statement.IsCallWith, invokes, Text.contains_iff]
    have some_ : valuesOf u kind positions ≠ [] ↔ ∃ v ∈ u.requested positions, v.text ≠ "" := by
      simp only [← mem_valuesOf_iff call invokes]
      exact ⟨List.exists_mem_of_ne_nil _, fun ⟨v, member⟩ => List.ne_nil_of_mem member⟩
    rw [seed, some_]
  · have none_ : valuesOf u kind positions = [] := by
      rcases call with rfl | rfl <;> simp [valuesOf, invokes]
    simp [none_, Statement.IsCallWith, invokes]

/-- The criteria of a body stand in the order of the reversed body. -/
theorem pairwise_start_inBody (source : List Statement) :
    (inBody source caller target kind positions level).Pairwise fun c d => c.start < d.start := by
  have start : ∀ {i : Nat} {u : Statement} {c : Criterion},
      (if isSeed u target kind then
        let values := valuesOf u kind positions
        if values.isEmpty then none else some (ofSeed caller target kind u i positions values level)
      else none) = some c → c.start = i := by
    intro i u c made
    split at made
    · dsimp only at made
      split at made
      · cases made
      · cases made
        rfl
    · cases made
  rw [inBody, List.pairwise_filterMap, List.pairwise_iff_getElem]
  intro i j _ _ before c first d second
  rw [List.getElem_mapIdx] at first second
  rw [start first, start second]
  exact_mod_cast before

/-- A criterion made of a prepared body for calls is the one of a call that passes a value asked for. -/
theorem exists_call_of_mem_inBody {b : Body} (prepared : b.Prepared) (call : kind = .invoke ∨ kind = .parameter)
    {c : Criterion} (member : c ∈ inBody b.source caller target kind positions level) :
    ∃ u, b.source[c.pos]? = some u ∧ u.IsCallWith target ∧ c.pos < b.size ∧
      c = ofSeed caller target kind u (b.size - 1 - c.pos) positions (valuesOf u kind positions) level ∧
      ∃ v ∈ u.requested positions, v.text ≠ "" := by
  obtain ⟨n, u, here, place, seed, some_, rfl⟩ := (mem_inBody_placed prepared).mp member
  obtain ⟨inside, _⟩ := List.getElem?_eq_some_iff.mp here
  obtain ⟨calls, passes⟩ := (seed_iff call).mp ⟨seed, some_⟩
  refine ⟨u, ?_, calls, ?_, ?_, passes⟩
  all_goals simp only [ofSeed, place]
  · exact here
  · exact inside

/-- The criteria made of a prepared body for calls are those of its calls. -/
theorem areCallSeeds_inBody {b : Body} (prepared : b.Prepared) (call : kind = .invoke ∨ kind = .parameter) :
    AreCallSeeds (inBody b.source caller target kind positions level) b caller target kind positions level := by
  have placed : ∀ c ∈ inBody b.source caller target kind positions level,
      c.start = b.mirror c.pos ∧ c.pos = b.mirror c.start := by
    intro c member
    obtain ⟨u, -, -, inside, same, -⟩ := exists_call_of_mem_inBody prepared call member
    have start : c.start = ((b.size - 1 - c.pos : Nat) : Int) := congrArg Criterion.start same
    simp only [start, Body.mirror]
    omega
  constructor
  case descending =>
    refine (pairwise_start_inBody b.source).imp_of_mem fun first second before => ?_
    have here := (placed _ first).2
    have there := (placed _ second).2
    simp only [Body.mirror] at here there
    omega
  case seeded =>
    intro pos
    constructor
    · rintro ⟨c, member, rfl⟩
      obtain ⟨u, here, calls, -, -, passes⟩ := exists_call_of_mem_inBody prepared call member
      exact ⟨u, here, calls, passes⟩
    · rintro ⟨u, here, asked⟩
      obtain ⟨seed, some_⟩ := (seed_iff call).mpr asked
      have place : u.pos = pos := prepared.placed _ _ here
      exact ⟨_, (mem_inBody_placed prepared).mpr ⟨pos, u, here, place, seed, some_, rfl⟩, place⟩
  case asked =>
    intro c member
    obtain ⟨u, -, -, -, same, -⟩ := exists_call_of_mem_inBody prepared call member
    rw [same]
    exact ⟨rfl, rfl, rfl, rfl, rfl⟩
  case placed => exact placed
  case printed =>
    intro c member
    obtain ⟨u, here, -, -, same, -⟩ := exists_call_of_mem_inBody prepared call member
    have statement : c.statement = u.text := congrArg Criterion.statement same
    rw [here, statement]
    rfl
  case sorted =>
    intro c member
    obtain ⟨u, -, -, -, same, -⟩ := exists_call_of_mem_inBody prepared call member
    have targets : c.targets = normalized (valuesOf u kind positions) := congrArg Criterion.targets same
    rw [targets]
    exact ValueSet.pairwise_texts
  case targets =>
    intro c member u here
    obtain ⟨u', there, calls, -, same, -⟩ := exists_call_of_mem_inBody prepared call member
    obtain rfl : u = u' := Option.some.inj (here.symm.trans there)
    have targets : c.targets = normalized (valuesOf u kind positions) := congrArg Criterion.targets same
    rw [targets]
    refine ⟨fun v inside => ((mem_valuesOf_iff call calls.1).mp (ValueSet.mem_of_mem_toList_ofList inside)).1, fun name => ?_⟩
    rw [normalized, ValueSet.mem_texts_ofList]
    simp only [mem_valuesOf_iff call calls.1]
    constructor
    · rintro ⟨v, ⟨asked, -⟩, there, rfl⟩
      exact ⟨there, v, asked, rfl⟩
    · rintro ⟨there, v, asked, rfl⟩
      exact ⟨v, ⟨asked, there⟩, there, rfl⟩

end Criterion

/-- The seeds of a method are the calls that print it. In a prepared body each call that prints the signature and passes a
value asked for gives one criterion, the last call first, with its place in the body and the values asked for, each once and
in the order of their texts; no other statement gives one. Every call of the method prints its signature. A call without
angle brackets in its operands prints no plain signature but its own. -/
theorem Ledger.create_calls (p : Program) (settings : Settings) (live : Bool) (l : Ledger) (caller target : String)
    {kind : SeedKind} (call : kind = .invoke ∨ kind = .parameter) {positions : List Int}
    (asked : positions ≠ [] ∨ Signature.paramTypes target = []) (level : Int) :
    ((Workspace.ofProgram p.finalize.1 settings live).body? caller = none →
      (l.create (.ofProgram p.finalize.1 settings live) caller target kind positions level).1 = []) ∧
    ∀ b, (Workspace.ofProgram p.finalize.1 settings live).body? caller = some b →
      Criterion.AreCallSeeds (l.create (.ofProgram p.finalize.1 settings live) caller target kind positions level).1 b
        caller target kind positions level ∧
      ∀ u ∈ b.source, u.kind.isInvoke = true → (u.signature = target → u.IsCallWith target) ∧
        (u.IsUnbracketed → Signature.IsPlain u.signature → Signature.IsPlain target → u.IsCallWith target →
          u.signature = target) := by
  have open_ : (kind == .invoke && positions.isEmpty && !(Signature.paramTypes target).isEmpty) = false := by
    rcases asked with some_ | none_
    · simp [some_]
    · simp [none_]
  simp only [Ledger.create_fst, Criterion.created, open_, Bool.false_eq_true, ↓reduceIte]
  refine ⟨fun absent => by rw [absent], fun b found => ?_⟩
  rw [found]
  refine ⟨Criterion.areCallSeeds_inBody (Workspace.body?_prepared found) call, fun u _ invokes => ?_⟩
  exact ⟨Statement.isCallWith_of_signature invokes, fun free plain other =>
    (Statement.isCallWith_iff invokes free plain other).mp⟩

/-- A method that hands the signature of a hash to a log, and then hashes a constant. -/
private def quoting : Program :=
  { package := "a"
    classes := [some { name := "a.B", methods := [
      some { signature := "<a.B: void m()>", isStatic := true, units := [
        some (.call "" "<lib.Y: void y(java.lang.String)>" ["\"<lib.X: void x(java.lang.String)>\""]),
        some (.call "" "<lib.X: void x(java.lang.String)>" ["\"k\""]), some .retVoid] }] }] }

private def quoted : Workspace := .ofProgram quoting.finalize.1 {} true

/-- The seeds for the argument of the hash. -/
private def quotingSeeds : List Criterion :=
  (Ledger.create {} quoted "<a.B: void m()>" "<lib.X: void x(java.lang.String)>" .invoke [0] 0).1

/-- The seeds for the argument of the hash are those of the calls that print it. -/
theorem quoting_calls : ∃ b, quoted.body? "<a.B: void m()>" = some b ∧
    Criterion.AreCallSeeds quotingSeeds b "<a.B: void m()>" "<lib.X: void x(java.lang.String)>" .invoke [0] 0 := by
  obtain ⟨b, found⟩ : ∃ b, quoted.body? "<a.B: void m()>" = some b := Option.isSome_iff_exists.mp (by decide +kernel)
  exact ⟨b, found, ((Ledger.create_calls quoting {} true {} "<a.B: void m()>" "<lib.X: void x(java.lang.String)>" (.inl rfl)
    (.inl (by simp)) 0).2 b found).1⟩

/-- The log is a seed of the hash though it is a call of another method. -/
theorem quoting_log_seed : ∃ b, quoted.body? "<a.B: void m()>" = some b ∧
    b.source.map (fun u => (u.kind.isInvoke, u.signature)) =
      [(true, "<lib.Y: void y(java.lang.String)>"), (true, "<lib.X: void x(java.lang.String)>"), (false, "")] ∧
    quotingSeeds.map (·.pos) = [1, 0] := by
  have calls : (quoted.body? "<a.B: void m()>").map (·.source.map fun u => (u.kind.isInvoke, u.signature)) =
      some [(true, "<lib.Y: void y(java.lang.String)>"), (true, "<lib.X: void x(java.lang.String)>"), (false, "")] := by
    decide +kernel
  obtain ⟨b, found, source⟩ := Option.map_eq_some_iff.mp calls
  exact ⟨b, found, source, by decide +kernel⟩

end MisuseSlice
