import Mathlib.Logic.Function.Iterate
import Mathlib.Logic.Relation
import MisuseSlice.Body.Relevance
import MisuseSlice.Proofs.Body.Names
import MisuseSlice.Proofs.ValueSets
import MisuseSlice.Statement.Build

/-! What of a slice is of use. Two statements are joined where they share an operand that is no constant; of use is what
joins lead to from the seed. Each round goes over what is left in both directions and only adds what joins lead to,
and a round that adds nothing leaves nothing that they lead to. So what is found does not depend on the order. -/
namespace MisuseSlice

/-- The kind of the value is that of its text. -/
def Value.Inferred (v : Value) : Prop := v.kind = (Value.read v.text).kind

instance (v : Value) : Decidable v.Inferred := inferInstanceAs (Decidable (_ = _))

theorem Value.inferred_read (name : String) : (Value.read name).Inferred := by
  rw [Inferred, read_text]

/-- What is printed alike is a constant alike. -/
theorem Value.Inferred.isConstant_eq {v v' : Value} (inferred : v.Inferred) (inferred' : v'.Inferred)
    (same : v.text = v'.text) : v.isConstant = v'.isConstant := by
  simp only [isConstant, inferred.trans (same ▸ inferred'.symm)]

theorem Value.not_numeric_of_not_constant {v : Value} (noConstant : v.isConstant = false) : v.isNumeric = false := by
  unfold isConstant at noConstant
  unfold isNumeric
  split at noConstant <;> simp_all

namespace Statement

/-- The kinds of the operands are those of their texts. -/
def Inferred (u : Statement) : Prop := ∀ v ∈ u.left :: u.right :: u.base :: u.index :: u.args, v.Inferred

instance (u : Statement) : Decidable u.Inferred := inferInstanceAs (Decidable (∀ _ ∈ _, _))

theorem Inferred.operands {u : Statement} (inferred : u.Inferred) {v : Value} (member : v ∈ u.operands) :
    v.Inferred := by
  have received : ∀ x ∈ u.left :: u.right :: u.base :: u.index :: u.args,
      v ∈ (if x.base != "" then [x, .read x.base] else [x]) → v.Inferred := by
    intro x operand member
    split at member
    · rcases List.mem_cons.mp member with rfl | receiver
      · exact inferred v operand
      · rw [List.mem_singleton.mp receiver]
        exact Value.inferred_read x.base
    · rw [List.mem_singleton.mp member]
      exact inferred x operand
  have listed := (List.mem_filter.mp member).1
  simp only [List.mem_append, List.mem_cons, List.not_mem_nil, or_false] at listed
  rcases listed with ((left | right) | rfl | rfl) | argument
  · exact received u.left (by simp) left
  · exact received u.right (by simp) right
  · exact inferred _ (by simp)
  · exact inferred _ (by simp)
  · exact inferred v (by simp [argument])

theorem text_ne_empty_of_mem_operands {u : Statement} {v : Value} (member : v ∈ u.operands) : v.text ≠ "" := by
  simpa [Value.isAbsent] using (List.mem_filter.mp member).2

end Statement

namespace Relevance

/-- The names of the operands that are no constants. -/
def operandNames (u : Statement) : List String := (variableOperands u).map (·.text)

/-- The statements share an operand that is no constant. -/
def Joined (u u' : Statement) : Prop := ∃ name ∈ operandNames u, name ∈ operandNames u'

instance (u u' : Statement) : Decidable (Joined u u') := inferInstanceAs (Decidable (∃ _ ∈ _, _))

/-- A step from a statement to a retained one that it is joined with. -/
def Leads (retained : List Statement) (u u' : Statement) : Prop := u' ∈ retained ∧ Joined u u'

/-- Joins between retained statements lead from the seed to the statement. -/
def Connected (seed : Option Statement) (retained : List Statement) (u : Statement) : Prop :=
  ∃ s ∈ seed, Relation.TransGen (Leads retained) s u

variable {seed : Option Statement} {retained : List Statement} {u : Statement} {name : String} {vars : ValueSet}
  {left : List Statement}

theorem mem_operandNames : name ∈ operandNames u ↔ ∃ v ∈ u.operands, v.isConstant = false ∧ v.text = name := by
  simp [operandNames, variableOperands, and_assoc]

theorem mem_insertAll_variableOperands :
    name ∈ vars.insertAll (variableOperands u) ↔ name ∈ operandNames u ∨ name ∈ vars := by
  rw [ValueSet.mem_insertAll, mem_operandNames]
  refine or_congr_left ⟨?_, ?_⟩
  · rintro ⟨v, member, _, rfl⟩
    obtain ⟨operand, noConstant⟩ := List.mem_filter.mp member
    exact ⟨v, operand, by simpa using noConstant, rfl⟩
  · rintro ⟨v, operand, noConstant, rfl⟩
    exact ⟨v, List.mem_filter.mpr ⟨operand, by simpa using noConstant⟩, Statement.text_ne_empty_of_mem_operands operand,
      rfl⟩

theorem Connected.member (connected : Connected seed retained u) : u ∈ retained := by
  obtain ⟨_, _, path⟩ := connected
  cases path with
  | single leads => exact leads.1
  | tail _ leads => exact leads.1

/-- A name that the seed or a connected statement has. -/
def Reached (seed : Option Statement) (retained : List Statement) (name : String) : Prop :=
  (∃ s ∈ seed, name ∈ operandNames s) ∨ ∃ u, Connected seed retained u ∧ name ∈ operandNames u

theorem connected_iff : Connected seed retained u ↔ u ∈ retained ∧ ∃ name ∈ operandNames u, Reached seed retained name := by
  constructor
  · intro connected
    refine ⟨connected.member, ?_⟩
    obtain ⟨s, seeded, path⟩ := connected
    cases path with
    | single leads =>
      obtain ⟨name, first, second⟩ := leads.2
      exact ⟨name, second, .inl ⟨s, seeded, first⟩⟩
    | tail path leads =>
      obtain ⟨name, first, second⟩ := leads.2
      exact ⟨name, second, .inr ⟨_, ⟨s, seeded, path⟩, first⟩⟩
  · rintro ⟨member, name, named, ⟨s, seeded, first⟩ | ⟨u', ⟨s, seeded, path⟩, first⟩⟩
    · exact ⟨s, seeded, .single ⟨member, name, first, named⟩⟩
    · exact ⟨s, seeded, path.tail ⟨member, name, first, named⟩⟩

/-- What is known in the middle of the search: the names found are those of the seed and of connected statements, and
what is not left is connected, with its names found. -/
structure Searching (seed : Option Statement) (retained left : List Statement) (vars : ValueSet) : Prop where
  inside : ∀ u ∈ left, u ∈ retained
  sound : ∀ name, name ∈ vars → Reached seed retained name
  seeded : ∀ s ∈ seed, ∀ name ∈ operandNames s, name ∈ vars
  found : ∀ u ∈ retained, u ∈ left ∨ Connected seed retained u ∧ ∀ name ∈ operandNames u, name ∈ vars

/-- An operand that is printed like one that is no constant is none itself. -/
theorem mem_operandNames_of_operand {u' : Statement} {v : Value} (inferred : u.Inferred) (inferred' : u'.Inferred)
    (operand : v ∈ u.operands) (named : v.text ∈ operandNames u') : v.text ∈ operandNames u := by
  obtain ⟨v', operand', noConstant, same⟩ := mem_operandNames.mp named
  refine mem_operandNames.mpr ⟨v, operand, ?_, rfl⟩
  rw [(inferred.operands operand).isConstant_eq (inferred'.operands operand') same.symm, noConstant]

/-- A statement that shares a name found is connected. -/
theorem connected_of_common (inferred : ∀ u ∈ seed.toList ++ retained, u.Inferred) (member : u ∈ retained)
    (sound : ∀ name, name ∈ vars → Reached seed retained name) (shares : vars.common u.operands ≠ []) :
    Connected seed retained u := by
  obtain ⟨v, operand, _, _, found⟩ := ValueSet.common_ne_nil.mp shares
  have here := inferred u (List.mem_append_right _ member)
  have reached := sound v.text found
  refine connected_iff.mpr ⟨member, v.text, ?_, reached⟩
  rcases reached with ⟨s, seeded, named⟩ | ⟨u', connected, named⟩
  · exact mem_operandNames_of_operand here (inferred s (List.mem_append_left _ (Option.mem_toList.mpr seeded))) operand named
  · exact mem_operandNames_of_operand here (inferred u' (List.mem_append_right _ connected.member)) operand named

/-- A statement that shares no name found has none of them. -/
theorem not_mem_of_common (none : vars.common u.operands = []) (named : name ∈ operandNames u) : name ∉ vars := by
  intro found
  obtain ⟨v, operand, noConstant, rfl⟩ := mem_operandNames.mp named
  exact ValueSet.common_ne_nil.mpr ⟨v, operand, Statement.text_ne_empty_of_mem_operands operand,
    Value.not_numeric_of_not_constant noConstant, found⟩ none

theorem Searching.perm {left' : List Statement} (perm : left.Perm left')
    (searching : Searching seed retained left vars) : Searching seed retained left' vars := by
  obtain ⟨inside, sound, seeded, found⟩ := searching
  exact ⟨fun u member => inside u (perm.mem_iff.mpr member), sound, seeded,
    fun u member => (found u member).imp_left perm.mem_iff.mp⟩

/-- Going over a part of what is left keeps what is known. -/
theorem Searching.after_scan (inferred : ∀ u ∈ seed.toList ++ retained, u.Inferred) (passed : List Statement)
    (searching : Searching seed retained (passed ++ left) vars) :
    Searching seed retained (passed ++ (scan left vars).1) (scan left vars).2 := by
  induction left generalizing passed vars with
  | nil => exact searching
  | cons u rest ih =>
    simp only [scan]
    split
    · have onward : Searching seed retained ((passed ++ [u]) ++ (scan rest vars).1) (scan rest vars).2 :=
        ih (passed ++ [u]) (by rwa [List.append_assoc])
      rwa [List.append_assoc] at onward
    · rename_i shares
      obtain ⟨inside, sound, seeded, found⟩ := searching
      have connected : Connected seed retained u :=
        connected_of_common inferred (inside u (by simp)) sound (by simpa using shares)
      refine ih passed ⟨fun u' member => inside u' ?_, fun name known => ?_, fun s given name named => ?_,
        fun u' member => ?_⟩
      · rcases List.mem_append.mp member with before | after
        · exact List.mem_append_left _ before
        · exact List.mem_append_right _ (List.mem_cons_of_mem _ after)
      · rcases mem_insertAll_variableOperands.mp known with new | old
        · exact .inr ⟨u, connected, new⟩
        · exact sound name old
      · exact mem_insertAll_variableOperands.mpr (.inr (seeded s given name named))
      · have new : ∀ name ∈ operandNames u, name ∈ vars.insertAll (variableOperands u) :=
          fun name named => mem_insertAll_variableOperands.mpr (.inl named)
        rcases found u' member with waits | ⟨connected', named⟩
        · rcases List.mem_append.mp waits with before | later
          · exact .inl (List.mem_append_left _ before)
          · rcases List.mem_cons.mp later with rfl | after
            · exact .inr ⟨connected, new⟩
            · exact .inl (List.mem_append_right _ after)
        · exact .inr ⟨connected', fun name here => mem_insertAll_variableOperands.mpr (.inr (named name here))⟩

theorem length_scan_le (left : List Statement) (vars : ValueSet) : (scan left vars).1.length ≤ left.length := by
  induction left generalizing vars with
  | nil => exact Nat.le_refl _
  | cons u rest ih =>
    simp only [scan]
    split
    · exact Nat.succ_le_succ (ih vars)
    · exact (ih _).trans (Nat.le_succ _)

/-- Going over the statements without finding one leaves everything as it is: none of them shares a name found. -/
theorem scan_still (still : (scan left vars).1.length = left.length) :
    scan left vars = (left, vars) ∧ ∀ u ∈ left, vars.common u.operands = [] := by
  induction left generalizing vars with
  | nil => exact ⟨rfl, by simp⟩
  | cons u rest ih =>
    simp only [scan] at still ⊢
    split at still
    · rename_i none
      obtain ⟨same, others⟩ := ih (Nat.succ.inj still)
      rw [if_pos none, same]
      refine ⟨rfl, fun u' member => ?_⟩
      rcases List.mem_cons.mp member with rfl | later
      · exact List.isEmpty_iff.mp none
      · exact others u' later
    · have shorter := length_scan_le rest (vars.insertAll (variableOperands u))
      rw [still, List.length_cons] at shorter
      omega

/-- One round: what is left is gone over backward and forward. -/
def round (x : List Statement × ValueSet) : List Statement × ValueSet :=
  let back := scan x.1 x.2
  let forth := scan back.1.reverse back.2
  (forth.1.reverse, forth.2)

/-- A round finds nothing more. -/
def Still (x : List Statement × ValueSet) : Prop := (round x).1.length = x.1.length

instance (x : List Statement × ValueSet) : Decidable (Still x) := inferInstanceAs (Decidable (_ = _))

variable {x : List Statement × ValueSet}

theorem settle_succ (fuel : Nat) (x : List Statement × ValueSet) :
    settle (fuel + 1) x.1 x.2 = if Still x then x.1 else settle fuel (round x).1 (round x).2 := by
  simp only [settle, Still, round, List.length_reverse, beq_iff_eq]

theorem length_round_le (x : List Statement × ValueSet) : (round x).1.length ≤ x.1.length := by
  have back := length_scan_le x.1 x.2
  have forth := length_scan_le (scan x.1 x.2).1.reverse (scan x.1 x.2).2
  rw [List.length_reverse] at forth
  simpa [round] using forth.trans back

theorem Searching.after_round (inferred : ∀ u ∈ seed.toList ++ retained, u.Inferred)
    (searching : Searching seed retained x.1 x.2) :
    Searching seed retained (round x).1 (round x).2 := by
  have back : Searching seed retained (scan x.1 x.2).1 (scan x.1 x.2).2 := Searching.after_scan inferred [] searching
  have forth := Searching.after_scan inferred [] (back.perm (List.reverse_perm _).symm)
  exact forth.perm (List.reverse_perm _).symm

/-- Where a round finds nothing more, what is left is what is not connected. -/
theorem Searching.mem_iff (searching : Searching seed retained x.1 x.2) (still : Still x) :
    u ∈ x.1 ↔ u ∈ retained ∧ ¬Connected seed retained u := by
  have back : (scan x.1 x.2).1.length = x.1.length := by
    have forth := length_scan_le (scan x.1 x.2).1.reverse (scan x.1 x.2).2
    have same : (scan (scan x.1 x.2).1.reverse (scan x.1 x.2).2).1.length =
        x.1.length := by
      simpa [Still, round] using still
    rw [same, List.length_reverse] at forth
    exact Nat.le_antisymm (length_scan_le x.1 x.2) forth
  obtain ⟨_, untouched⟩ := scan_still back
  -- all names of the seed and of what is connected are found, so what is connected would share one
  have spread : ∀ {s}, s ∈ seed → ∀ {u}, Relation.TransGen (Leads retained) s u → u ∉ x.1 := by
    intro s given u path
    induction path with
    | single leads =>
      obtain ⟨_, name, first, second⟩ := leads
      exact fun waits => not_mem_of_common (untouched _ waits) second (searching.seeded s given name first)
    | @tail u' u path leads ih =>
      obtain ⟨_, name, first, second⟩ := leads
      have member : u' ∈ retained := Connected.member ⟨s, given, path⟩
      obtain ⟨_, known⟩ := (searching.found u' member).resolve_left ih
      exact fun waits => not_mem_of_common (untouched _ waits) second (known name first)
  constructor
  · exact fun waits => ⟨searching.inside u waits, fun ⟨s, given, path⟩ => spread given path waits⟩
  · rintro ⟨member, apart⟩
    exact (searching.found u member).resolve_right fun ⟨connected, _⟩ => apart connected

/-- Rounds come to an end after at most as many as there are statements left, at the first one that finds nothing more,
and fuel for one more round is enough. -/
theorem exists_still (x : List Statement × ValueSet) :
    ∃ n ≤ x.1.length, Still (round^[n] x) ∧ (∀ m < n, ¬Still (round^[m] x)) ∧
      ∀ fuel, n < fuel → settle fuel x.1 x.2 = (round^[n] x).1 := by
  induction size : x.1.length using Nat.strong_induction_on generalizing x with
  | _ size' ih =>
    by_cases still : Still x
    · refine ⟨0, Nat.zero_le _, still, by simp, fun fuel enough => ?_⟩
      obtain ⟨fuel, rfl⟩ := Nat.exists_eq_succ_of_ne_zero (Nat.ne_of_gt enough)
      rw [settle_succ, if_pos still]
      rfl
    · have shorter : (round x).1.length < size' := by
        rw [← size]
        exact Nat.lt_of_le_of_ne (length_round_le x) still
      obtain ⟨n, few, ends, first, settles⟩ := ih _ shorter (round x) rfl
      refine ⟨n + 1, by omega, ends, fun m earlier => ?_, fun fuel enough => ?_⟩
      · cases m with
        | zero => exact still
        | succ m => exact first m (by omega)
      · obtain ⟨fuel, rfl⟩ := Nat.exists_eq_succ_of_ne_zero (Nat.ne_of_gt (Nat.zero_lt_of_lt enough))
        rw [settle_succ, if_neg still, settles fuel (by omega)]
        rfl

/-- The search before its first round. -/
def start (seed : Option Statement) (retained : List Statement) : List Statement × ValueSet :=
  (retained.reverse, .ofList (match seed with | some u => variableOperands u | none => []))

theorem start_searching : Searching seed retained (start seed retained).1 (start seed retained).2 := by
  have named : ∀ name, name ∈ (start seed retained).2 ↔ ∃ s ∈ seed, name ∈ operandNames s := by
    intro name
    cases seed with
    | none => simp [start, ValueSet.ofList]
    | some s =>
      show name ∈ ValueSet.empty.insertAll (variableOperands s) ↔ _
      rw [mem_insertAll_variableOperands]
      simp
  exact ⟨fun u member => List.mem_reverse.mp member, fun name known => .inl ((named name).mp known),
    fun s given name here => (named name).mpr ⟨s, given, here⟩, fun u member => .inl (List.mem_reverse.mpr member)⟩

theorem iterate_searching (inferred : ∀ u ∈ seed.toList ++ retained, u.Inferred) (n : Nat) :
    Searching seed retained (round^[n] (start seed retained)).1 (round^[n] (start seed retained)).2 := by
  induction n with
  | zero => exact start_searching
  | succ n ih =>
    rw [Function.iterate_succ_apply']
    exact ih.after_round inferred

/-- The search ends with the first round that finds nothing more, and what is left then is of no use, jumps apart. -/
theorem useless_settled (seed : Option Statement) (retained : List Statement) :
    ∃ n ≤ retained.length, Still (round^[n] (start seed retained)) ∧ (∀ m < n, ¬Still (round^[m] (start seed retained))) ∧
      useless seed retained = ((round^[n] (start seed retained)).1.reverse.filter (!·.kind.isBranch)).map (·.pos) := by
  obtain ⟨n, few, still, first, settles⟩ := exists_still (start seed retained)
  have size : (start seed retained).1.length = retained.length := List.length_reverse
  rw [size] at few
  refine ⟨n, few, still, first, ?_⟩
  rw [← settles (retained.length + 1) (Nat.lt_succ_of_le few)]
  rfl

/-- Of no use are the positions of the statements that joins do not lead to, jumps apart. -/
theorem mem_useless (inferred : ∀ u ∈ seed.toList ++ retained, u.Inferred) {p : Nat} :
    p ∈ useless seed retained ↔
      ∃ u ∈ retained, u.pos = p ∧ u.kind.isBranch = false ∧ ¬Connected seed retained u := by
  obtain ⟨n, _, still, _, result⟩ := useless_settled seed retained
  have left : ∀ u, u ∈ (round^[n] (start seed retained)).1 ↔ u ∈ retained ∧ ¬Connected seed retained u :=
    fun u => (iterate_searching inferred n).mem_iff still
  simp only [result, List.mem_map, List.mem_filter, List.mem_reverse, left, Bool.not_eq_true']
  constructor
  · rintro ⟨u, ⟨⟨member, apart⟩, plain⟩, rfl⟩
    exact ⟨u, member, rfl, plain, apart⟩
  · rintro ⟨u, member, rfl, plain, apart⟩
    exact ⟨u, ⟨⟨member, apart⟩, plain⟩, rfl⟩

/-- What joins lead to does not depend on the order of the statements. -/
theorem Connected.perm {retained' : List Statement} (perm : retained'.Perm retained) :
    Connected seed retained' u ↔ Connected seed retained u := by
  have leads : Leads retained' = Leads retained := by
    funext u u'
    simp only [Leads, perm.mem_iff]
  rw [Connected, Connected, leads]

/-- The search for what is of use ends: no more rounds find something than there are statements. Of no use then is a
retained statement, unless it is a jump, exactly if no joins lead to it from the seed; the order in which the
statements are given does not matter. -/
theorem useless_exact (seed : Option Statement) (retained : List Statement) (distinct : (retained.map (·.pos)).Nodup)
    (inferred : ∀ u ∈ seed.toList ++ retained, u.Inferred) :
    (∃ n ≤ retained.length, Still (round^[n] (start seed retained)) ∧
      (∀ m < n, ¬Still (round^[m] (start seed retained))) ∧
      useless seed retained = ((round^[n] (start seed retained)).1.reverse.filter (!·.kind.isBranch)).map (·.pos)) ∧
    (∀ u ∈ retained, u.pos ∈ useless seed retained ↔ u.kind.isBranch = false ∧ ¬Connected seed retained u) ∧
    (∀ p ∈ useless seed retained, ∃ u ∈ retained, u.pos = p) ∧
    ∀ retained' : List Statement, retained'.Perm retained →
      ∀ p, p ∈ useless seed retained' ↔ p ∈ useless seed retained := by
  refine ⟨useless_settled seed retained, fun u member => ?_, fun p unused => ?_, fun retained' perm p => ?_⟩
  · rw [mem_useless inferred]
    constructor
    · rintro ⟨u', member', same, plain, apart⟩
      obtain rfl := List.inj_on_of_nodup_map distinct member' member same
      exact ⟨plain, apart⟩
    · rintro ⟨plain, apart⟩
      exact ⟨u, member, rfl, plain, apart⟩
  · obtain ⟨u, member, place, _⟩ := (mem_useless inferred).mp unused
    exact ⟨u, member, place⟩
  · have inferred' : ∀ u ∈ seed.toList ++ retained', u.Inferred :=
      fun u member => inferred u ((perm.append_left seed.toList).mem_iff.mp member)
    rw [mem_useless inferred, mem_useless inferred']
    simp only [perm.mem_iff, Connected.perm perm]

/-- The key is copied after it was made; the counter and the choice have nothing to do with it. -/
private def copies : List Statement :=
  [{ Statement.assign "i4" "i5" with pos := 0 }, { Statement.branch "i5" "==" "0" 4 with pos := 1 },
    { Statement.assign "r0" "r1" with pos := 2 }, { Statement.assign "r2" "r1" with pos := 3 }]

private def encrypts : Statement := { Statement.call "" "<lib.X: void x(java.lang.Object)>" ["r0"] with pos := 4 }

set_option maxRecDepth 100000 in
/-- The copy of the key is of use, though it is found forward only, and the counter is not. -/
theorem copies_useless :
    (copies.map (·.pos)).Nodup ∧ (∀ u ∈ (some encrypts).toList ++ copies, u.Inferred) ∧
      useless (some encrypts) copies.reverse = [0] ∧
      (∀ u ∈ copies[3]?, Connected (some encrypts) copies u) ∧ ∀ u ∈ copies[0]?, ¬Connected (some encrypts) copies u := by
  have distinct : (copies.map (·.pos)).Nodup := by decide +kernel
  have inferred : ∀ u ∈ (some encrypts).toList ++ copies, u.Inferred := by decide +kernel
  obtain ⟨_, told, _⟩ := useless_exact (some encrypts) copies distinct inferred
  refine ⟨distinct, inferred, by decide +kernel, fun u here => ?_, fun u here => ?_⟩
  · have used : ∀ u ∈ copies[3]?, u.pos ∉ useless (some encrypts) copies ∧ u.kind.isBranch = false := by decide +kernel
    obtain ⟨absent, plain⟩ := used u here
    by_contra apart
    exact absent ((told u (List.mem_of_getElem? here)).mpr ⟨plain, apart⟩)
  · have unused : ∀ u ∈ copies[0]?, u.pos ∈ useless (some encrypts) copies := by decide +kernel
    exact ((told u (List.mem_of_getElem? here)).mp (unused u here)).2

end Relevance

end MisuseSlice
