import MisuseSlice.Proofs.Body.Names
import MisuseSlice.Proofs.Folds
import MisuseSlice.Proofs.Slicer.Books
import MisuseSlice.Proofs.Slicer.Roots

/-! The criteria that the ends of scans bring about in the callers. Each of them is merged into the queued criterion of
its call, known already, or queued. What it tracks is tracked from then on by a criterion of its place that is queued or
was started, whatever is merged later, and that criterion is sliced in the end. -/
namespace MisuseSlice

namespace Text

/-- What stands before the first separator and what stands after it make a text of two parts. -/
theorem split_unique {α : Type} {a : α} {xs ys zs ts : List α} (first : a ∉ xs) (second : a ∉ zs)
    (same : xs ++ a :: ys = zs ++ a :: ts) : xs = zs ∧ ys = ts := by
  induction xs generalizing zs with
  | nil =>
    cases zs with
    | nil => exact ⟨rfl, (List.cons.inj same).2⟩
    | cons z zs => exact absurd ((List.cons.inj same).1 ▸ List.mem_cons_self) second
  | cons x xs ih =>
    cases zs with
    | nil => exact absurd ((List.cons.inj same).1 ▸ List.mem_cons_self) first
    | cons z zs =>
      obtain ⟨rfl, rest⟩ := List.cons.inj same
      obtain ⟨rfl, rfl⟩ := ih (fun member => first (List.mem_cons_of_mem _ member))
        (fun member => second (List.mem_cons_of_mem _ member)) rest
      exact ⟨rfl, rfl⟩

theorem toList_ofInt (n : Int) :
    (ofInt n).toList = if n < 0 then '-' :: Nat.toDigits 10 n.natAbs else Nat.toDigits 10 n.natAbs := by
  cases n with
  | ofNat m => simp [ofInt]
  | negSucc m =>
    rw [if_pos (Int.negSucc_lt_zero m)]
    simp [ofInt]

/-- The text of a number holds digits, after a sign for a negative one. -/
theorem hash_not_mem_ofInt (n : Int) : '#' ∉ (ofInt n).toList := by
  have digits : '#' ∉ Nat.toDigits 10 n.natAbs := fun member => by
    have decimal := Number.isDecimal_toDigits member
    simp [Number.isDecimal] at decimal
  rw [toList_ofInt]
  split
  · exact fun member => (List.mem_cons.mp member).elim (by decide) digits
  · exact digits

theorem ofInt_inj {m n : Int} (same : ofInt m = ofInt n) : m = n := by
  have unsigned : ∀ k : Nat, '-' ∉ Nat.toDigits 10 k := fun k member => by
    have decimal := Number.isDecimal_toDigits member
    simp [Number.isDecimal] at decimal
  have digits : ∀ j k : Nat, Nat.toDigits 10 j = Nat.toDigits 10 k → j = k := fun j k same => by
    rw [← Nat.ofDigitChars_ten_toDigits (n := j), same, Nat.ofDigitChars_ten_toDigits]
  have lists := congrArg String.toList same
  rw [toList_ofInt, toList_ofInt] at lists
  split at lists <;> split at lists
  · have size := digits _ _ (List.cons.inj lists).2
    omega
  · exact absurd (lists ▸ List.mem_cons_self) (unsigned n.natAbs)
  · exact absurd (lists ▸ List.mem_cons_self) (unsigned m.natAbs)
  · have size := digits _ _ lists
    omega

end Text

namespace SlicerState

/-- The name of a call tells its method and its place. -/
theorem callKey_inj {c k : Criterion} (same : callKey c = callKey k) : c.caller = k.caller ∧ c.start = k.start := by
  have lists := congrArg (fun text : String => text.toList.reverse) same
  simp only [callKey, String.toList_append, List.reverse_append, List.append_assoc] at lists
  obtain ⟨place, method⟩ := Text.split_unique (a := '#') (by simpa using Text.hash_not_mem_ofInt c.start)
    (by simpa using Text.hash_not_mem_ofInt k.start) lists
  exact ⟨String.toList_injective (List.reverse_injective method),
    Text.ofInt_inj (String.toList_injective (List.reverse_injective place))⟩

end SlicerState

namespace Criterion

/-- The criterion stands at the place of the other one, and tracks all values that the other one tracks. -/
structure Tracks (m k : Criterion) : Prop where
  caller : m.caller = k.caller
  start : m.start = k.start
  targets : ∀ v ∈ k.targets, v.isAbsent = false → v.text ∈ m.targets.map (·.text)

variable {w : Workspace} {m n k old : Criterion}

theorem Tracks.refl (k : Criterion) : k.Tracks k := ⟨rfl, rfl, fun _ tracked _ => List.mem_map_of_mem tracked⟩

/-- Who covers a criterion tracks what it tracks. -/
theorem Covers.tracks (covers : m.Covers n) (tracks : n.Tracks k) : m.Tracks k := by
  refine ⟨covers.caller.trans tracks.caller, covers.start.trans tracks.start, ?_⟩
  intro v tracked there
  obtain ⟨v', tracked', same⟩ := List.mem_map.mp (tracks.targets v tracked there)
  rw [← same]
  exact covers.targets v' tracked' (by simpa [Value.isAbsent, same] using there)

/-- A merged criterion tracks what was merged into it. -/
theorem merged_tracks (call : SlicerState.callKey old = SlicerState.callKey k) :
    (SlicerState.merged old k).Tracks k := by
  obtain ⟨caller, start⟩ := SlicerState.callKey_inj call
  refine ⟨caller, start, ?_⟩
  intro v tracked there
  exact ValueSet.mem_texts_ofList.mpr
    ⟨v, List.mem_append_right _ tracked, by simpa [Value.isAbsent] using there, rfl⟩

/-- A created criterion tracks values that are there. -/
theorem present_of_created {caller target : String} {kind : SeedKind} {positions : List Int} {level : Int}
    (member : k ∈ created w caller target kind positions level) : ∀ v ∈ k.targets, v.isAbsent = false := by
  have targets : ∃ vs, k.targets = normalized vs := by
    unfold created at member
    split at member
    · cases member
    · split at member
      · cases member
      · obtain ⟨_, _, _, _, _, rfl⟩ := mem_inBody.mp member
        exact ⟨_, rfl⟩
  obtain ⟨vs, same⟩ := targets
  intro v tracked
  rw [same] at tracked
  obtain ⟨_, _, some, same⟩ := ValueSet.mem_texts_ofList.mp (List.mem_map_of_mem (f := (·.text)) tracked)
  simpa [Value.isAbsent, same] using some

end Criterion

namespace SlicerState

/-- The criteria that the end of a scan asks for in the callers: those of the calls of its method by the parameters that
its slice retains, unless a suspended scan waits for it. -/
def ascents (s : SlicerState) (w : Workspace) (st : Scan) : List Criterion :=
  let params := (s.finish w st).1.params
  if s.descents.contains st.criterion.id || params.isEmpty || w.settings.upperLevel < st.criterion.level + 1 then []
  else (callSites w st.criterion.caller).flatMap fun site =>
    Criterion.created w site.1 site.2 .parameter params (st.criterion.level + 1)

end SlicerState

namespace Phase

open Criterion SlicerState

variable {w : Workspace} {A : Criterion → Prop} {p p' : Phase} {id : String} {c k : Criterion}

/-- The criterion was started, or is about to be queued. -/
def Held (p : Phase) (id : String) : Prop :=
  p.state.store.contains id = true ∨ id ∈ p.state.active ∨ (∃ c, p.ending = some c ∧ c.id = id) ∨
    ∃ c ∈ p.pending, c.id = id

theorem Move.held (move : Move w p p') (held : p.Held id) : p'.Held id ∨ p'.state.queued.contains id = true := by
  rcases move with spends | keeps
  · cases spends with
    | suspend suspends =>
      obtain ⟨ledger, tree, descents, rfl⟩ := suspends.state
      rcases held with stored | active | ⟨_, ⟨⟩, _⟩ | ⟨_, ⟨⟩, _⟩
      · exact .inl (.inl stored)
      · exact .inl (.inr (.inl active))
    | @close queue s st pending ids _ =>
      rcases held with stored | active | ⟨_, ⟨⟩, _⟩ | brought
      · exact .inl (.inl (by simpa using stored))
      · by_cases ends : st.criterion.id = id
        · exact .inl (.inr (.inr (.inl ⟨_, rfl, ends⟩)))
        · exact .inl (.inr (.inl (by simpa using ⟨active, Ne.symm ends⟩)))
      · exact .inl (.inr (.inr (.inr brought)))
  · cases keeps with
    | report reports =>
      obtain ⟨ledger, tree, stats, retainedParams, rfl⟩ := reports
      exact .inl held
    | release | forgive | keepAll => exact .inl (by simpa [Held] using held)
    | start => exact .inl (held.imp_right (.imp_left (List.mem_cons_of_mem _)))
    | skip _ fresh =>
      rcases held with stored | active | ⟨_, ended, _⟩ | brought
      · exact .inl (.inl stored)
      · exact .inl (.inr (.inl active))
      · rw [fresh] at ended
        cases ended
      · exact .inl (.inr (.inr (.inr brought)))
    | complete completes =>
      obtain ⟨ledger, tree, rfl⟩ := completes.recorded
      rcases held with stored | active | ⟨_, ⟨⟩, _⟩ | ⟨_, ⟨⟩, _⟩
      · exact .inl (.inl stored)
      · exact .inl (.inr (.inl active))
    | merge | ready => exact .inl held
    | bring =>
      exact .inl (held.imp_right (.imp_right (.imp_right fun ⟨c, member, named⟩ =>
        ⟨c, List.mem_append_left _ member, named⟩)))
    | @put _ c slice ending _ named =>
      rcases held with stored | active | ⟨c', ended, rfl⟩ | brought
      · exact .inl (.inl (SliceStore.contains_put.mpr (.inr stored)))
      · exact .inl (.inr (.inl active))
      · obtain rfl := Option.some.inj (ending.symm.trans ended)
        exact .inl (.inl (SliceStore.contains_put.mpr (.inl named)))
      · exact .inl (.inr (.inr (.inr brought)))
    | @enqueue _ c rest first =>
      rcases held with stored | active | ended | ⟨c', member, rfl⟩
      · exact .inl (.inl stored)
      · exact .inl (.inr (.inl active))
      · exact .inl (.inr (.inr (.inl ended)))
      · rw [first] at member
        rcases List.mem_cons.mp member with rfl | later
        · exact .inr (by simp [SlicerState.enqueue])
        · exact .inl (.inr (.inr (.inr ⟨c', later, rfl⟩)))

/-- A criterion that tracks what the criterion tracks is queued, about to be queued, or was started. -/
def Tracked (A : Criterion → Prop) (k : Criterion) (p : Phase) : Prop :=
  ∃ m, A m ∧ m.AtCall ∧ m.Tracks k ∧ (p.Held m.id ∨ p.state.queued.contains m.id = true)

theorem Move.tracked (closed : Closed w A) (distinct : Distinct A) (move : Move w p p') (arising : Arising A p)
    (tracked : Tracked A k p) : Tracked A k p' := by
  obtain ⟨m, arises, call, tracks, held | queued⟩ := tracked
  · exact ⟨m, arises, call, tracks, move.held held⟩
  · obtain ⟨m', arises', call', covers, queued'⟩ :=
      move.covered closed distinct arising ⟨m, arises, call, .refl m, queued⟩
    exact ⟨m', arises', call', covers.tracks tracks, .inr queued'⟩

theorem Moves.tracked (closed : Closed w A) (distinct : Distinct A) (moves : Moves w p p') (arising : Arising A p)
    (tracked : Tracked A k p) : Tracked A k p' := by
  induction moves with
  | refl => exact tracked
  | tail before move ih => exact move.tracked closed distinct (Moves.arising closed before arising) ih

/-- Where criteria come from does not depend on how many may still come. -/
theorem Arising.credit (arising : Arising A p) (n : Nat) : Arising A { p with credit := n } :=
  ⟨arising.tickets, arising.pending, arising.due, arising.ending, arising.scans, arising.held, arising.retracted,
    arising.params⟩

/-- The end of a criterion, while the criteria of its callers are found. -/
def ascending (queue : List Task) (pending : List Criterion) (c : Criterion) (x : List Criterion × SlicerState) : Phase :=
  { queue, state := x.2, ending := some c, pending := pending ++ x.1 }

end Phase

namespace SlicerState

open Criterion Phase

variable {w : Workspace} {rules : List CallRule} {A : Criterion → Prop} {s s' : SlicerState} {c k : Criterion}
  {queue : List Task} {pending : List Criterion} {x : List Criterion × SlicerState} {params : List Int}

/-- The criterion that takes over a ticket is queued. -/
theorem queued_replaced {ticket : Nat} {old new : Criterion} (queued : s.queued[old.id]? = some ticket) :
    (if new.id == old.id then s else s.replaceTicket ticket old new).queued.contains new.id = true := by
  split
  · rename_i same
    rw [beq_iff_eq.mp same]
    exact Maps.contains_of_getElem? queued
  · simp only [replaceTicket, note]
    exact Std.TreeMap.contains_insert_self

/-- What the end of a scan asks for is created for a method. -/
theorem created_of_ascents {st : Scan} (asked : k ∈ s.ascents w st) :
    ∃ caller target params level, k ∈ Criterion.created w caller target .parameter params level := by
  unfold ascents at asked
  dsimp only at asked
  split at asked
  · cases asked
  · obtain ⟨site, _, made⟩ := List.mem_flatMap.mp asked
    exact ⟨_, _, _, _, made⟩

/-- A criterion is merged into a queued one of its call, or nothing happens. -/
theorem mergePending_cases (s : SlicerState) (k callee : Criterion) :
    s.mergePending k callee = (false, s) ∨
      ∃ t old, s.pendingParams[callKey k]? = some t ∧ s.tickets[t]? = some old ∧
        (s.mergePending k callee).1 = true ∧ (s.mergePending k callee).2.queued.contains (merged old k).id = true := by
  cases param : s.pendingParams[callKey k]? with
  | none => exact .inl (by simp only [mergePending, param])
  | some t =>
    cases ticket : s.tickets[t]? with
    | none => exact .inl (by simp only [mergePending, param, ticket])
    | some old =>
      by_cases condition : (s.queued[old.id]? != some t || old.id == k.id) = true
      · exact .inl (by simp only [mergePending, param, ticket, condition, ↓reduceIte])
      · have queued : s.queued[old.id]? = some t := by
          simp only [Bool.or_eq_true, bne_iff_ne, ne_eq, not_or, not_not] at condition
          exact condition.1
        -- the state is made a variable before the names of the criteria would be computed
        obtain ⟨base, tree, done, replaced⟩ : ∃ (base : SlicerState) (tree : CriteriaTree),
            s.mergePending k callee = (true, { base with tree }) ∧
              base.queued.contains (merged old k).id = true := by
          refine ⟨if (merged old k).id == old.id then s else s.replaceTicket t old (merged old k),
            (if (merged old k).id == old.id then s else s.replaceTicket t old (merged old k)).tree.addEdge
              (merged old k).id callee.id true, ?_, queued_replaced queued⟩
          simp only [mergePending, param, ticket, condition, Bool.false_eq_true, ↓reduceIte]
        rw [done]
        exact .inr ⟨t, old, rfl, ticket, rfl, replaced⟩

/-- A criterion that is linked is sliced, under way or queued already, or has to be queued. -/
theorem link_known {target : String} (known : (s.link k k.id target true).1 = false) :
    s.store.contains k.id = true ∨ k.id ∈ s.active ∨ s.queued.contains k.id = true := by
  unfold link at known
  split at known
  · rename_i stored
    exact .inl stored
  · simp only [Bool.and_eq_false_iff, Bool.not_eq_eq_eq_not, Bool.not_false, isActive, isQueued,
      List.contains_eq_mem, decide_eq_true_eq] at known
    exact .inr known

/-- Taking in the criterion of a call. -/
theorem ascendCall_keeps (called : CalledBy w c k) :
    ∃ left, Moves w { ascending queue pending c x with credit := 1 }
      { ascending queue pending c (ascendCall c x k) with credit := left } := by
  obtain ⟨left, _, moves⟩ := ascendCall_moves (w := w) (c := c) (k := k) (n := 0)
    (p := { queue, state := x.2, ending := some c, pending, credit := 1 }) x.1 rfl called rfl
  exact ⟨left, moves⟩

theorem ascendCall_arising (closed : Closed w A) (called : CalledBy w c k)
    (arising : Arising A (ascending queue pending c x)) : Arising A (ascending queue pending c (ascendCall c x k)) := by
  obtain ⟨left, moves⟩ : ∃ left, Moves w { ascending queue pending c x with credit := 1 }
      { ascending queue pending c (ascendCall c x k) with credit := left } := ascendCall_keeps called
  exact (Moves.arising closed moves (arising.credit 1)).credit 0

theorem ascendCall_stays (closed : Closed w A) (distinct : Distinct A) {k' : Criterion} (called : CalledBy w c k')
    (arising : Arising A (ascending queue pending c x)) (tracked : Tracked A k (ascending queue pending c x)) :
    Tracked A k (ascending queue pending c (ascendCall c x k')) := by
  obtain ⟨left, moves⟩ : ∃ left, Moves w { ascending queue pending c x with credit := 1 }
      { ascending queue pending c (ascendCall c x k') with credit := left } := ascendCall_keeps called
  have stays : Tracked A k { ascending queue pending c (ascendCall c x k') with credit := left } :=
    moves.tracked closed distinct (arising.credit 1) tracked
  exact stays

/-- Once it is taken in, what the criterion of a call tracks is tracked. -/
theorem ascendCall_tracked (closed : Closed w A) (called : CalledBy w c k)
    (arising : Arising A (ascending queue pending c x)) : Tracked A k (ascending queue pending c (ascendCall c x k)) := by
  have arises : A k := closed.called c k (arising.ending c rfl) called
  have call : k.AtCall := .inr called.kind
  unfold ascendCall
  rcases x.2.mergePending_cases k c with nothing | ⟨t, old, param, ticket, done, queued⟩
  · rw [nothing]
    dsimp only
    rw [if_neg (by simp)]
    obtain ⟨ledger, tree, same⟩ : x.2.Recorded (x.2.link k k.id c.id true).2 := link_recorded
    split
    · exact ⟨k, arises, call, .refl k, .inl (.inr (.inr (.inr ⟨k, by simp [ascending], rfl⟩)))⟩
    · rename_i known
      refine ⟨k, arises, call, .refl k, ?_⟩
      unfold ascending Held
      rw [same]
      rcases link_known (by simpa using known) with stored | active | queued
      · exact .inl (.inl stored)
      · exact .inl (.inr (.inl active))
      · exact .inr queued
  · obtain ⟨_, same, kind, key⟩ := arising.params _ t param
    obtain rfl := Option.some.inj (same.symm.trans ticket)
    generalize x.2.mergePending k c = result at done queued ⊢
    obtain ⟨_, s'⟩ := result
    dsimp only at done queued ⊢
    rw [if_pos done]
    have here := arising.tickets _ (List.mem_of_getElem? ticket)
    exact ⟨_, closed.merged _ k here arises kind called.kind key, .inr kind, merged_tracks key, .inr queued⟩

section Sites

variable {site : String × String}

theorem called_of_site (high : c.level + 1 ≤ w.settings.upperLevel) (inside : site ∈ callSites w c.caller) :
    ∀ k ∈ (s.create w site.1 site.2 .parameter params (c.level + 1)).1, CalledBy w c k := by
  intro k member
  rw [create_fst] at member
  exact ⟨high, site, inside, params, member⟩

/-- Creating the criteria of the calls that one method holds. -/
theorem site_arising (arising : Arising A (ascending queue pending c x)) :
    Arising A (ascending queue pending c (x.1, (x.2.create w site.1 site.2 .parameter params (c.level + 1)).2)) := by
  obtain ⟨_, _, same⟩ : x.2.Recorded (x.2.create w site.1 site.2 .parameter params (c.level + 1)).2 := create_recorded
  rw [same]
  exact ⟨arising.tickets, arising.pending, arising.due, arising.ending, arising.scans, arising.held, arising.retracted,
    arising.params⟩

theorem site_stays (tracked : Tracked A k (ascending queue pending c x)) :
    Tracked A k (ascending queue pending c (x.1, (x.2.create w site.1 site.2 .parameter params (c.level + 1)).2)) := by
  obtain ⟨_, _, same⟩ : x.2.Recorded (x.2.create w site.1 site.2 .parameter params (c.level + 1)).2 := create_recorded
  rw [same]
  exact tracked

/-- Taking in the criteria of the calls that one method holds. -/
theorem ascendSite_arising (closed : Closed w A) (high : c.level + 1 ≤ w.settings.upperLevel)
    (inside : site ∈ callSites w c.caller) (arising : Arising A (ascending queue pending c x)) :
    Arising A (ascending queue pending c (ascendSite w c params x site)) :=
  List.foldlRecOn (x.2.create w site.1 site.2 .parameter params (c.level + 1)).1 (ascendCall c)
    (motive := fun y : List Criterion × SlicerState => Arising A (ascending queue pending c y)) (site_arising arising)
    fun _ here k' member => ascendCall_arising closed (called_of_site high inside k' member) here

theorem ascendSite_stays (closed : Closed w A) (distinct : Distinct A) (high : c.level + 1 ≤ w.settings.upperLevel)
    (inside : site ∈ callSites w c.caller) (arising : Arising A (ascending queue pending c x))
    (tracked : Tracked A k (ascending queue pending c x)) :
    Tracked A k (ascending queue pending c (ascendSite w c params x site)) := by
  have both : Arising A (ascending queue pending c (ascendSite w c params x site)) ∧
      Tracked A k (ascending queue pending c (ascendSite w c params x site)) := by
    refine List.foldlRecOn (x.2.create w site.1 site.2 .parameter params (c.level + 1)).1 (ascendCall c)
      (motive := fun y : List Criterion × SlicerState =>
        Arising A (ascending queue pending c y) ∧ Tracked A k (ascending queue pending c y))
      ⟨site_arising arising, site_stays tracked⟩ fun _ here k' member => ?_
    have called := called_of_site high inside k' member
    exact ⟨ascendCall_arising closed called here.1, ascendCall_stays closed distinct called here.1 here.2⟩
  exact both.2

theorem ascendSite_tracked (closed : Closed w A) (distinct : Distinct A) (high : c.level + 1 ≤ w.settings.upperLevel)
    (inside : site ∈ callSites w c.caller)
    (asked : k ∈ Criterion.created w site.1 site.2 .parameter params (c.level + 1))
    (arising : Arising A (ascending queue pending c x)) :
    Tracked A k (ascending queue pending c (ascendSite w c params x site)) := by
  rw [← create_fst (s := x.2)] at asked
  have called : ∀ k' ∈ (x.2.create w site.1 site.2 .parameter params (c.level + 1)).1, CalledBy w c k' :=
    called_of_site high inside
  have both := foldl_makes (f := ascendCall c) (I := fun y => Arising A (ascending queue pending c y))
    (Q := fun y => Tracked A k (ascending queue pending c y))
    (b := (x.1, (x.2.create w site.1 site.2 .parameter params (c.level + 1)).2)) asked
    (fun y k' member here => ascendCall_arising closed (called k' member) here)
    (fun y k' member here tracked => ascendCall_stays closed distinct (called k' member) here tracked)
    (fun y here => ascendCall_tracked closed (called k asked) here) (site_arising arising)
  exact both.2

end Sites

theorem ascendParams_tracked (closed : Closed w A) (distinct : Distinct A)
    (high : c.level + 1 ≤ w.settings.upperLevel)
    (asked : k ∈ (callSites w c.caller).flatMap fun site =>
      Criterion.created w site.1 site.2 .parameter params (c.level + 1))
    (arising : Arising A (ascending queue pending c ([], s))) :
    Tracked A k (ascending queue pending c (s.ascendParams w c params)) := by
  obtain ⟨site, inside, created⟩ := List.mem_flatMap.mp asked
  unfold ascendParams
  rw [if_neg (Int.not_lt.mpr high)]
  have both := foldl_makes (f := ascendSite w c params) (I := fun y => Arising A (ascending queue pending c y))
    (Q := fun y => Tracked A k (ascending queue pending c y)) inside
    (fun y site' member here => ascendSite_arising closed high member here)
    (fun y site' member here tracked => ascendSite_stays closed distinct high member here tracked)
    (fun y here => ascendSite_tracked closed distinct high inside created here) arising
  exact both.2

/-- Ending a criterion that nobody waits for takes in the criteria of its callers. -/
theorem settle_tracked {slice : PartialSlice} (closed : Closed w A) (distinct : Distinct A)
    (high : c.level + 1 ≤ w.settings.upperLevel) (unawaited : s.descents[c.id]? = none) (some : slice.params ≠ [])
    (asked : k ∈ (callSites w c.caller).flatMap fun site =>
      Criterion.created w site.1 site.2 .parameter slice.params (c.level + 1))
    (arising : Arising A { queue, state := s, due := Option.some c, ending := Option.some c, pending }) :
    Tracked A k (ascending queue pending c (s.settle w c slice).2) := by
  have told : (s.recordSlice c slice).release c.id slice.params = (s.recordSlice c slice, false) := by
    have nobody : (s.recordSlice c slice).descents[c.id]? = none := unawaited
    simp only [release, nobody]
  have recorded : Arising A { queue, state := s.recordSlice c slice, ending := Option.some c, pending := pending ++ [] } := by
    rw [List.append_nil]
    exact ⟨arising.tickets, arising.pending, by simp, arising.ending, arising.scans, arising.held, arising.retracted,
      arising.params⟩
  have settled : s.settle w c slice = (slice, (s.recordSlice c slice).ascendParams w c slice.params) := by
    simp only [settle, told, Bool.false_or, List.isEmpty_iff, some, ↓reduceIte]
  rw [settled]
  exact ascendParams_tracked closed distinct high asked recorded

/-- The end of a complete scan is the end of its criterion with its slice. -/
theorem finish_settles (s : SlicerState) (w : Workspace) (st : Scan) :
    ∃ ids, (∀ id ∈ ids, ∃ e ∈ st.spawned, e.2 = id) ∧ s.finish w st =
      ({ s with active := s.active.filter (· != st.criterion.id) }.retract ids).settle w st.criterion
        (s.finish w st).1 := by
  refine ⟨((droppedFrom w st (SliceLine.sort st.lines)).eraseDups).flatMap fun p =>
    (st.spawned.filter (·.1 == p)).map (·.2), ?_, ?_⟩
  · intro id member
    obtain ⟨p, _, here⟩ := List.mem_flatMap.mp member
    obtain ⟨e, spawned, rfl⟩ := List.mem_map.mp here
    exact ⟨e, (List.mem_filter.mp spawned).1, rfl⟩
  · rw [finish_slice]
    rfl

/-- The end of a scan takes in the criteria that it asks for. -/
theorem finish_tracked {st : Scan} (closed : Closed w A) (distinct : Distinct A)
    (arising : Arising A { queue, state := s, busy := some st, pending }) (asked : k ∈ s.ascents w st) :
    Tracked A k (ascending queue pending st.criterion (s.finish w st).2) := by
  obtain ⟨ids, spawned, ends⟩ := finish_settles s w st
  have closes : Spends w { queue, state := s, busy := some st, pending } _ := .close spawned
  have ended := (closes.arising closed arising).credit 0
  obtain ⟨_, _, _, same, _⟩ :=
    ({ s with active := s.active.filter (· != st.criterion.id) } : SlicerState).retract_frame ids
  unfold ascents at asked
  generalize s.finish w st = result at asked ends ⊢
  obtain ⟨slice, found⟩ := result
  dsimp only at asked ends ⊢
  split at asked
  · cases asked
  · rename_i condition
    simp only [Bool.or_eq_true, decide_eq_true_eq, not_or, List.isEmpty_iff, Bool.not_eq_true, Int.not_lt] at condition
    obtain ⟨⟨unawaited, some⟩, high⟩ := condition
    rw [show found = ((({ s with active := s.active.filter (· != st.criterion.id) } : SlicerState).retract ids).settle w
      st.criterion slice).2 from congrArg Prod.snd ends]
    refine settle_tracked closed distinct high ?_ some asked ended
    rw [same]
    exact Maps.getElem?_eq_none_iff.mpr unawaited

theorem resume_tracked {st last : Scan} {more : List Criterion} (closed : Closed w A) (distinct : Distinct A)
    (known : w.body? st.criterion.caller = some st.body) (placed : st.body.Placed)
    (arising : Arising A { queue, state := s, busy := some st })
    (ran : s.scan w rules st = (more, .complete last, s')) (asked : k ∈ s'.ascents w last) :
    Tracked A k { queue := queue ++ (absorb (s.resume w rules st)).1, state := (absorb (s.resume w rules st)).2 } := by
  rcases scan_spec s rules known placed with ⟨more', st', s'', ran', completes⟩ | ⟨_, _, _, ran', _⟩
  · obtain ⟨rfl, ⟨⟩, rfl⟩ := Prod.mk.inj (ran.symm.trans ran') |>.imp_right Prod.mk.inj
    have complete : Arising A { queue, state := s', busy := some last, pending := more } :=
      Keeps.arising closed (.complete completes) arising
    have tracked := finish_tracked closed distinct complete asked
    obtain ⟨left, spent⟩ := finish_spent w s' queue last more
    have ended := Moves.arising closed spent.moves complete
    have resumed : s.resume w rules st =
        ({ children := more ++ (s'.finish w last).2.1, slice := some (s'.finish w last).1 },
          (s'.finish w last).2.2) := by
      simp only [resume, ran]
    rw [resumed]
    have leaves : Leaves { children := more ++ (s'.finish w last).2.1, slice := some (s'.finish w last).1 }
        { queue, state := (s'.finish w last).2.2, ending := some last.criterion
          pending := more ++ (s'.finish w last).2.1, credit := left } :=
      ⟨rfl, rfl, rfl, .inr ⟨_, _, rfl, rfl, finish_id⟩⟩
    exact Moves.tracked closed distinct (absorb_moves leaves) ended tracked
  · rw [ran] at ran'
    cases ran'

end SlicerState

namespace Worklist

open Criterion Phase SlicerState

variable {w : Workspace} {rules : List CallRule} {A : Criterion → Prop} {x : Worklist} {s : SlicerState} {st : Scan}
  {k : Criterion} {roots : List Criterion}

/-- The scan that the next turn goes on with, after the state that it starts from. -/
def working? (w : Workspace) (x : Worklist) : Option (SlicerState × Scan) :=
  match x.queue with
  | [] => none
  | task :: _ =>
    match x.state.turn task with
    | .over _ => none
    | .scan st => some (x.state, st)
    | .criterion c s =>
      if s.store.contains c.id || s.isActive c.id then none
      else
        match s.ledger.openBody w c.caller with
        | (none, _) => none
        | (some b, ledger) =>
          if b.size ≤ c.pos || b.dead.contains c.pos then none
          else
            some ({ s with
              ledger, active := c.id :: s.active, stats := { s.stats with processed := s.stats.processed + 1 } },
              .start c b)

/-- The criteria that the next turn asks for in the callers: those of the end of the scan that it goes on with. -/
def ascents (w : Workspace) (rules : List CallRule) (x : Worklist) : List Criterion :=
  match x.working? w with
  | none => []
  | some (s, st) =>
    match s.scan w rules st with
    | (_, .suspended _, _) => []
    | (_, .complete last, s') => s'.ascents w last

/-- How a turn goes on with a scan. -/
inductive WorksOn (w : Workspace) (x : Worklist) : SlicerState → Scan → Prop where
  | scan {task : Task} {rest : List Task} {st : Scan} (first : x.queue = task :: rest)
      (turn : x.state.turn task = .scan st) : WorksOn w x x.state st
  /-- The scan of a new criterion starts. -/
  | criterion {task : Task} {rest : List Task} {c : Criterion} {s : SlicerState} {b : Body} {ledger : Ledger}
      (first : x.queue = task :: rest) (turn : x.state.turn task = .criterion c s)
      (unknown : s.store.contains c.id = false) (inactive : s.isActive c.id = false)
      (opened : s.ledger.openBody w c.caller = (some b, ledger)) (inside : c.pos < b.size)
      (alive : b.dead.contains c.pos = false) :
      WorksOn w x
        { s with
          ledger, active := c.id :: s.active, stats := { s.stats with processed := s.stats.processed + 1 } }
        (.start c b)

theorem worksOn_of_working? (works : x.working? w = some (s, st)) : x.WorksOn w s st := by
  unfold working? at works
  split at works
  · cases works
  · rename_i task rest first
    split at works
    · cases works
    · rename_i turn
      cases works
      exact .scan first turn
    · rename_i c s' turn
      split at works
      · cases works
      · rename_i known
        simp only [Bool.or_eq_true, not_or, Bool.not_eq_true] at known
        split at works
        · cases works
        · rename_i b ledger opened
          split at works
          · cases works
          · rename_i condition
            simp only [Bool.or_eq_true, decide_eq_true_eq, not_or, Nat.not_le, Bool.not_eq_true] at condition
            cases works
            exact .criterion first turn known.1 known.2 opened condition.1 condition.2

/-- Where a criterion is asked for, a scan that the turn goes on with is complete. -/
theorem complete_of_ascents (asked : k ∈ x.ascents w rules) :
    ∃ s st more last s', x.WorksOn w s st ∧ s.scan w rules st = (more, .complete last, s') ∧ k ∈ s'.ascents w last := by
  unfold ascents at asked
  split at asked
  · cases asked
  · rename_i s st works
    split at asked
    · cases asked
    · rename_i more last s' ran
      exact ⟨s, st, more, last, s', worksOn_of_working? works, ran, asked⟩

theorem begins_of_opened {c : Criterion} {b : Body} {ledger : Ledger} (unknown : s.store.contains c.id = false)
    (inactive : s.isActive c.id = false) (opened : s.ledger.openBody w c.caller = (some b, ledger))
    (inside : c.pos < b.size) (alive : b.dead.contains c.pos = false) : s.Begins w c b :=
  ⟨unknown, inactive, by rw [← Ledger.openBody_fst (l := s.ledger), opened], inside, alive⟩

/-- A turn that goes on with a scan absorbs what that gives. -/
theorem WorksOn.next (rules : List CallRule) (works : x.WorksOn w s st) :
    ∃ task rest, x.queue = task :: rest ∧ next w rules x = append rest (absorb (s.resume w rules st)) := by
  cases works with
  | @scan task rest st first turn => exact ⟨task, rest, first, by simp only [Worklist.next, first, turn]⟩
  | @criterion task rest c s b ledger first turn unknown inactive opened inside alive =>
    refine ⟨task, rest, first, ?_⟩
    have begins := begins_of_opened unknown inactive opened inside alive
    simp only [Worklist.next, first, turn, begins.begin_eq, starting, opened]

/-- When a turn goes on with a scan, the criteria come from where they came from before it. -/
theorem WorksOn.arising (works : x.WorksOn w s st) (closed : Closed w A) {task : Task} {rest : List Task}
    (queue : x.queue = task :: rest) (arising : Arising A x.phase) :
    Arising A { queue := rest, state := s, busy := some st } := by
  obtain ⟨tasks, state⟩ := x
  obtain rfl : tasks = task :: rest := queue
  cases works with
  | scan first turn =>
    cases first
    cases task with
    | resume st' =>
      cases turn
      exact Opens.arising .pick arising
    | start t =>
      have scan := turn_scan turn
      cases scan
  | @criterion _ _ c s b ledger first turn unknown inactive opened inside alive =>
    cases first
    have taken : Arising A { queue := rest, state := s, due := some c } :=
      (turn_criterion rest turn).arising arising
    have counted := Keeps.arising closed (.report (s := { s with
      ledger, stats := { s.stats with processed := s.stats.processed + 1 } }) ⟨_, _, _, _, rfl⟩) taken
    have begins := begins_of_opened unknown inactive opened inside alive
    exact Keeps.arising closed (.start rfl rfl rfl unknown begins.inactive begins.found) counted

theorem WorksOn.known (works : x.WorksOn w s st) (plays : x.phase.Plays w) :
    w.body? st.criterion.caller = some st.body := by
  cases works with
  | scan first turn =>
    refine plays.known _ (List.mem_append_left _ ?_)
    simp [phase, Phase.scans, first, turn_scan turn]
  | @criterion _ _ c s b ledger first turn unknown inactive opened inside alive =>
    show w.body? c.caller = some b
    rw [← Ledger.openBody_fst (l := s.ledger), opened]

/-- After the turn at whose end a criterion is asked for, what it tracks is tracked. -/
theorem next_tracked (closed : Closed w A) (distinct : Distinct A) (placed : w.Placed) (sound : x.Sound w A)
    (asked : k ∈ x.ascents w rules) : Tracked A k (next w rules x).phase := by
  obtain ⟨s, st, more, last, s', works, ran, asked⟩ := complete_of_ascents asked
  obtain ⟨task, rest, queue, turns⟩ := works.next rules
  have known := works.known sound.plays
  have arising := works.arising closed queue sound.settled.arising
  rw [turns]
  exact resume_tracked closed distinct known (placed _ _ known) arising ran asked

/-- What is tracked between two turns is tracked by a criterion that has its slice in the end. -/
theorem exists_tracks {n : Nat} (closed : Closed w A) (distinct : Distinct A) (placed : w.Placed) (sound : x.Sound w A)
    (empty : (after w rules x n).queue = []) (tracked : Tracked A k x.phase) :
    ∃ m, A m ∧ m.Tracks k ∧ (after w rules x n).Stored m.id := by
  obtain ⟨m, arises, call, tracks, held | queued⟩ := tracked
  · have started : x.Started m.id := by
      rcases held with stored | active | ⟨_, ⟨⟩, _⟩ | ⟨_, ⟨⟩, _⟩
      · exact .inl stored
      · exact .inr active
    exact ⟨m, arises, tracks, stored_of_started (i := 0) sound closed placed empty started⟩
  · obtain ⟨m', arises', covers, stored⟩ := exists_covers sound closed distinct placed empty arises call queued
    exact ⟨m', arises', covers.tracks tracks, stored⟩

/-- Every slice stored is one of a criterion that arose. -/
def Told (A : Criterion → Prop) (x : Worklist) : Prop :=
  ∀ id q, x.state.store.get? id = some q → ∃ c, A c ∧ c.id = id ∧ q.IsOf c

theorem told_of_enters {y : Worklist} {b : Books} {c : Criterion} {r : StepResult × SlicerState} (arises : A c)
    (store : b.store = x.state.store) (enters : Enters b c r) (books : y.state.books = (absorb r).2.books)
    (told : x.Told A) : y.Told A := by
  intro id q found
  have same : y.state.store = (absorb r).2.books.store := congrArg Books.store books
  rcases enters with ⟨_, kept⟩ | ⟨p, _, isOf, entered⟩
  · rw [same, kept, store] at found
    exact told id q found
  · rw [same, entered] at found
    rw [Books.finish, store, SliceStore.get?_put] at found
    split at found
    · rename_i same
      obtain rfl := Option.some.inj found
      exact ⟨c, arises, isOf.id.symm.trans same, isOf⟩
    · exact told id q found

theorem next_told (rules : List CallRule) (placed : w.Placed) (sound : x.Sound w A) (orderly : Orderly w [] x)
    (told : x.Told A) : (next w rules x).Told A := by
  have arising := sound.settled.arising
  cases next_entered rules placed orderly with
  | nothing begins gives books =>
    intro id q found
    rw [show (next w rules x).state.store = x.state.store from congrArg Books.store books] at found
    exact told id q found
  | starts ticket unknown inactive begins gives enters books =>
    exact told_of_enters (arising.tickets _ ticket) rfl enters books told
  | goesOn scan active begins gives enters books =>
    exact told_of_enters (arising.scans _ (List.mem_append_left _ scan)).1 rfl enters books told

theorem after_told (rules : List CallRule) (closed : Closed w A) (placed : w.Placed) (sound : x.Sound w A)
    (orderly : Orderly w [] x) (told : x.Told A) (n : Nat) : (after w rules x n).Told A := by
  have both : Orderly w [] (after w rules x n) ∧ (after w rules x n).Told A := by
    induction n with
    | zero => exact ⟨orderly, told⟩
    | succ n ih =>
      rw [after_succ]
      exact ⟨ih.1.next placed rules, next_told rules placed (after_sound rules closed placed sound n) ih.1 ih.2⟩
  exact both.2

/-- No argument that the end of a scan asks for is lost. In a run of a new slicer that is neither cancelled nor limited,
whose roots stand at statements, and where no two criteria share a name by accident, there is in the end, for each
criterion that the end of a scan asks for in a caller, the slice of a criterion in that caller at the same seed that
tracks all its values. -/
theorem ascended_stored (p : Program) (settings : Settings) (rules : List CallRule) (ledger : Ledger)
    (roots : List Criterion) (unlimited : settings.maxCriteria ≤ 0)
    (seated : ∀ r ∈ roots, ∃ b u, Seated (.ofProgram p.finalize.1 settings true) r b u)
    (distinct : Distinct (Arises (.ofProgram p.finalize.1 settings true) roots)) :
    let w := Workspace.ofProgram p.finalize.1 settings true
    ∃ s, ({ ledger } : SlicerState).run w rules roots = (.complete, s) ∧
      ∀ i, ∀ k ∈ (after w rules (ofRoots ledger roots) i).ascents w rules,
        ∃ c q, Arises w roots c ∧ s.store.get? c.id = some q ∧ q.IsOf c ∧ c.caller = k.caller ∧ c.pos = k.pos ∧
          ∀ v ∈ k.targets, v.text ∈ c.targets.map (·.text) := by
  intro w
  have prepared : ∀ method b, w.body? method = some b → b.Prepared := fun _ _ => Workspace.body?_prepared
  have placed : w.Placed := fun method b found => (prepared method b found).placed
  have closed : Closed w (Arises w roots) := Arises.closed_of prepared seated distinct
  have sound : (ofRoots ledger roots).Sound w (Arises w roots) := ofRoots_sound closed ledger fun _ => .root
  have orderly : Orderly w [] (ofRoots ledger roots) := (fresh_orderly ledger).again roots
  obtain ⟨n, message, empty, ran⟩ := run_ends (w := w) rfl unlimited placed rules ledger roots
  refine ⟨_, ran, fun i k asked => ?_⟩
  have here := after_sound rules closed placed sound i
  have tracked := next_tracked closed distinct placed here asked
  rw [← after_succ] at tracked
  have later : after w rules (after w rules (ofRoots ledger roots) (i + 1)) n = after w rules (ofRoots ledger roots) n := by
    unfold after
    rw [← Function.iterate_add_apply]
    exact after_of_le empty (Nat.le_add_right _ _)
  obtain ⟨m, arises, tracks, stored⟩ := exists_tracks (n := n) closed distinct placed
    (after_sound rules closed placed sound (i + 1)) (by rw [later]; exact empty) tracked
  rw [later] at stored
  obtain ⟨q, found⟩ := Maps.contains_iff.mp stored
  have unsliced : (ofRoots ledger roots).Told (Arises w roots) := by
    intro id q found
    rw [show (ofRoots ledger roots).state.store = {} from (addRoots_rooted ledger roots).store] at found
    simp [SliceStore.get?] at found
  obtain ⟨c, arises', named, isOf⟩ := after_told rules closed placed sound orderly unsliced n m.id q found
  have same : c.SameAs m := distinct c m arises' arises named
  have all : c.Tracks k := same.covers.tracks tracks
  obtain ⟨_, _, _, last, s', _, _, asked⟩ := complete_of_ascents asked
  obtain ⟨caller, target, params, level, made⟩ := created_of_ascents asked
  obtain ⟨_, _, place⟩ := arises'.seated_of prepared seated
  obtain ⟨_, _, place'⟩ := seated_of_created prepared made
  rw [← named] at found
  exact ⟨c, q, arises', found, isOf, all.caller, place.pos_eq place' all.caller all.start,
    fun v tracked => all.targets v tracked (present_of_created made v tracked)⟩

/-- A method that hashes its two parameters, one after the other, and a call of it. -/
def pairing : Program :=
  { package := "a"
    classes := [some { name := "a.B", methods := [
      some { signature := "<a.B: void m()>", isStatic := true, units := [
        some (.assign "i0" "5"), some (.assign "i1" "6"),
        some (.call "" "<a.B: void t(int,int)>" ["i0", "i1"]), some .retVoid] },
      some { signature := "<a.B: void t(int,int)>", isStatic := true, units := [
        some (.param "i0" 0 "int"), some (.param "i1" 1 "int"), some (.call "" "<lib.X: void x(int)>" ["i0"]),
        some (.call "" "<lib.X: void x(int)>" ["i1"]), some .retVoid] }] }] }

/-- The program made ready. -/
def paired : Workspace := .ofProgram pairing.finalize.1 {} true

/-- The calls of the hash, the last one first. -/
def pairingRoots : List Criterion := created paired "<a.B: void t(int,int)>" "<lib.X: void x(int)>" .invoke [0] 0

/-- The call of the method with some of its arguments. -/
def pairingCall (names : List String) : Criterion :=
  { caller := "<a.B: void m()>", target := "<a.B: void t(int,int)>", kind := .parameter
    statement := "staticinvoke <a.B: void t(int,int)>(i0, i1)", start := 1, pos := 2, positions := []
    targets := names.map .read, level := 1 }

/-- The roots, and the call with any of its arguments. -/
def pairingCriteria : List Criterion := pairingRoots ++ ["i0", "i1"].sublists.map pairingCall

set_option maxRecDepth 100000 in
/-- What is computed for the program: what the statements bring about, where the methods are called, that the criteria
have names of their own, and what the first two turns ask for. -/
private theorem paired_facts :
    (∀ c ∈ pairingRoots ++ [pairingCall []], ∀ u ∈ ((paired.body? c.caller).map Body.whole).getD [],
      u.kind ≠ .assignVariableField ∧ (u.kind.isInvoke = true →
        created paired u.signature u.signature .returned [] (c.level - 1) = [])) ∧
    ((∀ c ∈ pairingRoots, c.kind = .invoke ∧ c.level = 0 ∧
        callSites paired c.caller = [((pairingCall []).caller, (pairingCall []).target)]) ∧
      callSites paired (pairingCall []).caller = [] ∧
      ∀ e ∈ (((paired.body? (pairingCall []).caller).map Body.source).getD []).reverse.zipIdx,
        isSeed e.1 (pairingCall []).target .parameter = true →
          e.2 = 1 ∧ e.1.base.text = "" ∧ e.1.args.map (·.text) = ["i0", "i1"]) ∧
    ((∀ c ∈ pairingCriteria, ∀ k ∈ pairingCriteria, c.id = k.id → c = k) ∧
      ["i0", "i1"].Pairwise (fun a b => compare a b = .lt) ∧
      ∀ names ∈ ["i0", "i1"].sublists, (pairingCall names).targets.map (·.text) = names) ∧
    ∀ name ∈ ["i0", "i1"], ∃ i < 2, ∃ k ∈ (after paired CallRule.standard (ofRoots {} pairingRoots) i).ascents paired
      CallRule.standard, k.caller = "<a.B: void m()>" ∧ k.targets.map (·.text) = [name] := by
  decide +kernel

/-- The criterion is one of the call, with some of its arguments. -/
private structure OfPair (c : Criterion) : Prop where
  caller : c.caller = (pairingCall []).caller
  target : c.target = (pairingCall []).target
  kind : c.kind = .parameter
  start : c.start = 1
  level : c.level = 1
  targets : (c.targets.map (·.text)).Sublist ["i0", "i1"]

private theorem OfPair.same {c : Criterion} (pair : OfPair c) : ∃ k ∈ pairingCriteria, c.SameAs k := by
  have listed := List.mem_sublists.mpr pair.targets
  exact ⟨_, List.mem_append_right _ (List.mem_map_of_mem listed), pair.caller, pair.target, pair.start,
    (paired_facts.2.2.1.2.2 _ listed).symm⟩

private theorem paired_made {k : Criterion} {params : List Int}
    (here : k ∈ created paired (pairingCall []).caller (pairingCall []).target .parameter params 1) : OfPair k := by
  unfold created at here
  split at here
  · cases here
  · split at here
    · cases here
    · rename_i b found
      obtain ⟨i, u, place, seed, -, rfl⟩ := mem_inBody.mp here
      obtain ⟨rfl, base, args⟩ := paired_facts.2.1.2.2 (u, i)
        (by rw [found]; exact List.mk_mem_zipIdx_iff_getElem?.mpr place) seed
      refine ⟨rfl, rfl, rfl, rfl, rfl, ValueSet.sublist_texts_ofList paired_facts.2.2.1.2.1 fun v given there => ?_⟩
      rw [← args]
      obtain ⟨-, rfl | argument⟩ := mem_valuesOf_call (.inr rfl) given
      · exact absurd base there
      · exact List.mem_map_of_mem argument

private theorem paired_arises {c : Criterion} (arises : Arises paired pairingRoots c) :
    c ∈ pairingRoots ∨ OfPair c := by
  refine arises.holds_of_fieldless (P := fun c => c ∈ pairingRoots ∨ OfPair c) (fun _ => .inl)
    (fun c known u visited => ?_) (fun c known site inside params k here => ?_) fun c k known known' kind kind' => .inr ?_
  · obtain ⟨c', listed, caller, level⟩ :
        ∃ c' ∈ pairingRoots ++ [pairingCall []], c'.caller = c.caller ∧ c'.level = c.level := by
      rcases known with given | pair
      · exact ⟨c, List.mem_append_left _ given, rfl, rfl⟩
      · exact ⟨_, List.mem_append_right _ (List.mem_singleton.mpr rfl), pair.caller.symm, pair.level.symm⟩
    have spawns := paired_facts.1 c' listed
    rw [caller, level] at spawns
    obtain ⟨reads, calls⟩ := spawns u visited
    exact ⟨reads, fun call k here => by rw [calls call] at here; cases here⟩
  · rcases known with given | pair
    · obtain ⟨-, level, sites⟩ := paired_facts.2.1.1 c given
      rw [sites, List.mem_singleton] at inside
      rw [inside, level] at here
      exact .inr (paired_made here)
    · rw [pair.caller, paired_facts.2.1.2.1] at inside
      cases inside
  · have roots : ∀ r ∈ pairingRoots, r.kind ≠ .parameter := fun r given same => by
      rw [(paired_facts.2.1.1 r given).1] at same
      cases same
    have first := known.resolve_left fun given => roots c given kind
    have second := known'.resolve_left fun given => roots k given kind'
    refine ⟨first.caller, first.target, first.kind, first.start, first.level,
      ValueSet.sublist_texts_ofList paired_facts.2.2.1.2.1 fun v given _ => ?_⟩
    rcases List.mem_append.mp given with given | given
    · exact first.targets.subset (List.mem_map_of_mem given)
    · exact second.targets.subset (List.mem_map_of_mem given)

private theorem paired_distinct : Distinct (Arises paired pairingRoots) := by
  have listed : ∀ c, Arises paired pairingRoots c → ∃ k ∈ pairingCriteria, c.SameAs k := fun c arises =>
    (paired_arises arises).elim (fun given => ⟨c, List.mem_append_left _ given, rfl, rfl, rfl, rfl⟩) OfPair.same
  intro c c' arises arises' name
  obtain ⟨k, member, same⟩ := listed c arises
  obtain ⟨k', member', same'⟩ := listed c' arises'
  obtain rfl := paired_facts.2.2.1.1 k member k' member' (by rw [← same.id, name, same'.id])
  exact ⟨same.caller.trans same'.caller.symm, same.target.trans same'.target.symm, same.start.trans same'.start.symm,
    same.targets.trans same'.targets.symm⟩

/-- Each of the two hashes asks for its own argument at the call of the method. In the end there is a slice of the call
that tracks the first argument, and one that tracks the second one. -/
theorem pairing_ascended_stored :
    ∃ s, ({} : SlicerState).run paired CallRule.standard pairingRoots = (.complete, s) ∧
      ∀ name ∈ ["i0", "i1"],
        (∃ i, ∃ k ∈ (after paired CallRule.standard (ofRoots {} pairingRoots) i).ascents paired CallRule.standard,
          k.targets.map (·.text) = [name]) ∧
        ∃ c q, s.store.get? c.id = some q ∧ q.IsOf c ∧ c.caller = "<a.B: void m()>" ∧
          name ∈ c.targets.map (·.text) := by
  obtain ⟨s, ran, stored⟩ := ascended_stored pairing {} CallRule.standard {} pairingRoots (by decide)
    (fun r given => seated_of_created (fun _ _ => Workspace.body?_prepared) given) paired_distinct
  refine ⟨s, ran, fun name member => ?_⟩
  obtain ⟨i, -, k, asked, caller, own⟩ := paired_facts.2.2.2 name member
  refine ⟨⟨i, k, asked, own⟩, ?_⟩
  obtain ⟨v, given, rfl⟩ := List.mem_map.mp (own ▸ List.mem_singleton.mpr rfl : name ∈ k.targets.map (·.text))
  obtain ⟨c, q, -, found, isOf, same, -, all⟩ := stored i k asked
  exact ⟨c, q, found, isOf, same.trans caller, all v given⟩

end Worklist

end MisuseSlice
