import MisuseSlice.Proofs.Body.Preparing
import MisuseSlice.Proofs.Body.Scopes

/-! Values in one iteration of a loop. A redefinition in a loop gets a name of its own where the positions around it say
that its value stays in the iteration. Inside the loop they say it rightly. Control that has left the loop at its end can
come to a read above the loop, though, and nothing asks for such a read. -/
namespace MisuseSlice

namespace Region

variable {units : List Statement} {regions : List Region} {r : Region} {slot : String} {pos p n m k : Nat}
  {mid path : List Nat} {first last : Nat} {u : Statement}

theorem getElem?_slice : (slice units first last)[k]? = if k < last - first then units[first + k]? else none := by
  rw [slice, List.getElem?_take, List.getElem?_drop]

/-- Where the accesses to a slot are followed up to its first definition, no statement up to that one reads it. -/
theorem exists_first_definition {us : List Statement} {b c : Bool} (named : slot ≠ "")
    (followed : accesses slot us (false, b) = some (true, c)) :
    ∃ d, DefinedAt us slot d ∧ ∀ j ≤ d, ∀ u ∈ us[j]?, u.readsSlot slot = false := by
  induction us generalizing b with
  | nil => cases followed
  | cons u us ih =>
    simp only [accesses, Bool.not_false, Bool.and_true] at followed
    split at followed
    · cases followed
    · rename_i unread
      have unread : u.readsSlot slot = false := by simpa using unread
      split at followed
      · rename_i defines
        have text : u.defined.text = slot := by simpa using defines
        refine ⟨0, ⟨u, rfl, by simpa [Value.isAbsent, text] using named, text⟩, fun j first w here => ?_⟩
        cases Nat.le_zero.mp first
        cases here
        exact unread
      · rw [unread, Bool.or_false] at followed
        obtain ⟨d, defined, clear⟩ := ih followed
        refine ⟨d + 1, defined, fun j before w here => ?_⟩
        cases j with
        | zero =>
          cases here
          exact unread
        | succ j => exact clear j (Nat.le_of_succ_le_succ before) w here

/-- What the test of a redefinition in a loop says about the positions around it. -/
structure Local (units : List Statement) (r : Region) (slot : String) (pos : Nat) : Prop where
  inside : r.start ≤ pos ∧ (pos : Int) ≤ r.stop
  /-- The loop comes to a definition above the position before it comes to a read. -/
  defined : ∃ d : Nat, r.start ≤ d ∧ d < pos ∧ DefinedAt units slot d ∧
    ∀ j : Nat, r.start ≤ j → j ≤ d → ∀ u ∈ units[j]?, u.readsSlot slot = false
  unread : ∀ j : Nat, r.stop < j → ∀ u ∈ units[j]?, u.readsSlot slot = false
  /-- In the loop control goes on below, back to the start from the end, or out past the end. -/
  steps : ∀ n m : Nat, r.start ≤ n → (n : Int) ≤ r.stop → Flows units n m →
    m = n + 1 ∨ ((n : Int) = r.stop ∧ (m : Int) = r.start) ∨ r.stop < m
  /-- Control enters the loop at its start. -/
  enters : ∀ n m : Nat, ¬(r.start ≤ n ∧ (n : Int) ≤ r.stop) → Flows units n m →
    (m : Int) = r.start ∨ ¬(r.start ≤ m ∧ (m : Int) ≤ r.stop)

theorem steps_of_isSimpleLoop (start : 0 ≤ r.start) (simple : r.isSimpleLoop units = true) (above : r.start ≤ n)
    (below : (n : Int) ≤ r.stop) (flows : Flows units n m) :
    m = n + 1 ∨ ((n : Int) = r.stop ∧ (m : Int) = r.start) ∨ r.stop < m := by
  obtain ⟨u, here, goes⟩ := flows
  have place : r.start.toNat + (n - r.start.toNat) = n := by omega
  have listed : (slice units r.start.toNat (r.stop.toNat + 1))[n - r.start.toNat]? = some u := by
    rw [getElem?_slice, if_pos (by omega), place]
    exact here
  have allowed := List.all_eq_true.mp simple (u, n - r.start.toNat) (List.mk_mem_zipIdx_iff_getElem?.mpr listed)
  simp only at allowed
  rcases Statement.mem_successors goes with jump | ⟨-, falls⟩
  · simp only [Statement.jumps] at jump
    have aims : (m : Int) = u.target → ((r.start + ((n - r.start.toNat : Nat) : Int) == r.stop && u.target == r.start) ||
        decide (r.stop < u.target)) = true → ((n : Int) = r.stop ∧ (m : Int) = r.start) ∨ r.stop < m := by
      intro target allowed
      simp only [Bool.or_eq_true, Bool.and_eq_true, beq_iff_eq, decide_eq_true_eq] at allowed
      omega
    split at jump
    · rename_i kind
      simp only [kind] at allowed
      exact .inr (aims (List.mem_singleton.mp jump) allowed)
    · rename_i kind
      simp only [kind] at allowed
      exact .inr (aims (List.mem_singleton.mp jump) allowed)
    · rename_i kind
      simp [kind] at allowed
    · simp at jump
  · exact .inl falls

theorem enters_of_isEnteredAtStart (entered : r.isEnteredAtStart units = true)
    (outside : ¬(r.start ≤ n ∧ (n : Int) ≤ r.stop)) (flows : Flows units n m) :
    (m : Int) = r.start ∨ ¬(r.start ≤ m ∧ (m : Int) ≤ r.stop) := by
  obtain ⟨u, here, goes⟩ := flows
  rcases Statement.mem_successors goes with jump | ⟨-, falls⟩
  · have allowed := List.all_eq_true.mp entered (u, n) (List.mk_mem_zipIdx_iff_getElem?.mpr here)
    have apart : r.contains (n : Int) = false := Bool.eq_false_iff.mpr fun holds => outside (contains_iff.mp holds)
    simp only [apart, Bool.false_or, List.all_eq_true] at allowed
    have target := allowed _ jump
    simp only [Bool.not_eq_true', Bool.and_eq_false_iff, decide_eq_false_iff_not] at target
    omega
  · omega

/-- The test of a redefinition in a loop is made of these facts. -/
theorem local_of_isLoopLocal (start : 0 ≤ r.start) (contains_ : r.contains pos = true) (named : slot ≠ "")
    (passes : r.isLoopLocal units slot pos = true) : Local units r slot pos := by
  have inside := contains_iff.mp contains_
  simp only [isLoopLocal, Bool.and_eq_true] at passes
  obtain ⟨⟨⟨⟨simple, entered⟩, followed⟩, -⟩, unread⟩ := passes
  refine ⟨inside, ?_, fun j below u here => ?_, fun n m above below flows => steps_of_isSimpleLoop start simple above below flows,
    fun n m outside flows => enters_of_isEnteredAtStart entered outside flows⟩
  · split at followed
    · rename_i wasDefined wasRead accessed
      obtain ⟨rfl, rfl⟩ := Bool.and_eq_true_iff.mp followed
      obtain ⟨d, ⟨u, here, defines⟩, clear⟩ := exists_first_definition named accessed
      rw [Option.mem_def, getElem?_slice] at here
      split at here
      · refine ⟨r.start.toNat + d, by omega, by omega, ⟨u, here, defines⟩, fun j above below w there => ?_⟩
        refine clear (j - r.start.toNat) (by omega) w ?_
        rw [Option.mem_def, getElem?_slice, if_pos (by omega), show r.start.toNat + (j - r.start.toNat) = j by omega]
        exact there
      · cases here
    · cases followed
  · have listed : u ∈ units.drop (r.stop.toNat + 1) := by
      refine List.mem_iff_getElem?.mpr ⟨j - (r.stop.toNat + 1), ?_⟩
      rw [List.getElem?_drop, show r.stop.toNat + 1 + (j - (r.stop.toNat + 1)) = j by omega]
      exact here
    simpa using List.all_eq_true.mp unread u listed

/-- The read at `p` stays in the iteration of the definition at `pos`: it lies below it in the loop, and the path to it
takes the back edge of no loop that holds the definition. -/
def InIteration (regions : List Region) (r : Region) (pos : Nat) (mid : List Nat) (p : Nat) : Prop :=
  pos < p ∧ (p : Int) ≤ r.stop ∧ ∀ l ∈ regions, l.kind = .loop → l.contains pos = true →
    (pos :: mid ++ [p]).IsChain fun (a b : Nat) => ¬((a : Int) = l.stop ∧ (b : Int) = l.start)

instance (regions : List Region) (r : Region) (pos : Nat) (mid : List Nat) (p : Nat) :
    Decidable (InIteration regions r pos mid p) :=
  inferInstanceAs (Decidable (_ ∧ _ ∧ ∀ l ∈ regions, _ → _ → List.IsChain _ _))

/-- No step of the path goes from below the region to above it. -/
def KeepsBelow (r : Region) (path : List Nat) : Prop := path.IsChain fun (a b : Nat) => r.stop < a → r.start ≤ b

instance (r : Region) (path : List Nat) : Decidable (KeepsBelow r path) :=
  inferInstanceAs (Decidable (List.IsChain _ _))

/-- The position is outside the region, or in it and not below the definition that comes first there. -/
def Away (r : Region) (d n : Nat) : Prop := ¬(r.start ≤ n ∧ (n : Int) ≤ r.stop) ∨ n ≤ d

namespace Local

variable (bound : Local units r slot pos)
include bound

/-- Control that has left the loop reads the slot above the loop only. -/
theorem read_above (mid : List Nat) {d : Nat} (above : r.start ≤ d ∧ d < pos) (defined : DefinedAt units slot d)
    (unread : ∀ j : Nat, r.start ≤ j → j ≤ d → ∀ u ∈ units[j]?, u.readsSlot slot = false)
    (away : ∀ n ∈ (mid ++ [p]).head?, Away r d n) (path : IsPath units (mid ++ [p]))
    (clear : ∀ m ∈ mid, ¬DefinedAt units slot m) (reads : ∃ u ∈ units[p]?, u.readsSlot slot = true) :
    (p : Int) < r.start := by
  obtain ⟨low, high⟩ := bound.inside
  induction mid with
  | nil =>
    obtain ⟨u, here, reads⟩ := reads
    by_contra inside
    rcases away p rfl with outside | first
    · rw [bound.unread p (by omega) u here] at reads
      cases reads
    · rw [unread p (by omega) first u here] at reads
      cases reads
  | cons n mid ih =>
    have starts := away n rfl
    have other : n ≠ d := fun same => clear n List.mem_cons_self (same ▸ defined)
    rw [List.cons_append] at path
    refine ih (fun m next => ?_) path.tail fun m member => clear m (List.mem_cons_of_mem _ member)
    have flows : Flows units n m := (List.isChain_cons.mp path).1 m next
    rw [Away] at starts ⊢
    by_cases inside : r.start ≤ n ∧ (n : Int) ≤ r.stop
    · have goes := bound.steps n m inside.1 inside.2 flows
      omega
    · have goes := bound.enters n m inside flows
      omega

/-- From the definition control goes down the loop, and where it does not come to the read so, the read is above the
loop. -/
theorem down_or_above {q : Nat} (below : pos ≤ q ∧ (q : Int) ≤ r.stop) (path : IsPath units (q :: (mid ++ [p])))
    (clear : ∀ m ∈ mid, ¬DefinedAt units slot m) (reads : ∃ u ∈ units[p]?, u.readsSlot slot = true) :
    ((q :: (mid ++ [p])).IsChain (fun a b => b = a + 1) ∧ q < p ∧ (p : Int) ≤ r.stop) ∨ (p : Int) < r.start := by
  obtain ⟨low, high⟩ := bound.inside
  obtain ⟨d, startD, before, defined, unread⟩ := bound.defined
  have gone : ∀ (mid : List Nat) (n : Nat), (mid ++ [p]).head? = some n → (n : Int) = r.start ∨ r.stop < n →
      IsPath units (mid ++ [p]) → (∀ m ∈ mid, ¬DefinedAt units slot m) → (p : Int) < r.start := by
    intro mid n first leaves path clear
    refine bound.read_above mid ⟨startD, before⟩ defined unread (fun m next => ?_) path clear reads
    cases first.symm.trans next
    rw [Away]
    omega
  induction mid generalizing q with
  | nil =>
    obtain ⟨flows, -⟩ := List.isChain_cons_cons.mp path
    rcases bound.steps q p (by omega) below.2 flows with rfl | leaves
    · by_cases stays : ((q + 1 : Nat) : Int) ≤ r.stop
      · exact .inl ⟨.cons_cons rfl (.singleton _), by omega, stays⟩
      · exact .inr (gone [] (q + 1) rfl (by omega) (.singleton _) clear)
    · exact .inr (gone [] p rfl (by omega) (.singleton _) clear)
  | cons n mid ih =>
    obtain ⟨flows, rest⟩ := List.isChain_cons_cons.mp path
    rcases bound.steps q n (by omega) below.2 flows with rfl | leaves
    · by_cases stays : ((q + 1 : Nat) : Int) ≤ r.stop
      · have clear' : ∀ m ∈ mid, ¬DefinedAt units slot m := fun m member => clear m (List.mem_cons_of_mem _ member)
        rcases ih ⟨by omega, stays⟩ rest clear' with ⟨down, under, last⟩ | above
        · exact .inl ⟨.cons_cons rfl down, by omega, last⟩
        · exact .inr above
      · exact .inr (gone ((q + 1) :: mid) (q + 1) rfl (by omega) rest clear)
    · exact .inr (gone (n :: mid) n rfl (by omega) rest clear)

/-- A path from the loop that never steps from below it to above it does not come above it. -/
theorem not_above {q : Nat} (low : r.start ≤ q) (path : IsPath units (q :: (mid ++ [p])))
    (keeps : KeepsBelow r (q :: (mid ++ [p]))) : r.start ≤ p := by
  have next : ∀ n m : Nat, r.start ≤ n → Flows units n m → (r.stop < n → r.start ≤ m) → r.start ≤ m := by
    intro n m above flows back
    by_cases below : (n : Int) ≤ r.stop
    · have goes := bound.steps n m above below flows
      have inside := bound.inside
      omega
    · exact back (by omega)
  induction mid generalizing q with
  | nil => exact next q p low (List.isChain_cons_cons.mp path).1 (List.isChain_cons_cons.mp keeps).1
  | cons n mid ih =>
    obtain ⟨flows, path⟩ := List.isChain_cons_cons.mp path
    obtain ⟨back, keeps⟩ := List.isChain_cons_cons.mp keeps
    exact ih (next q n low flows back) path keeps

end Local

/-- A redefinition that passes the test of its loop keeps its value in the iteration, unless control steps from below the
loop to above it: a read that the definition reaches lies below it in the loop, on a path that takes the back edge of no
loop around it, exactly if no step of the path leads from below the loop to above it. Otherwise the read is above the
loop. -/
theorem reads_in_iteration_iff (inside : BranchesInside units.length units) (found : all units = some regions)
    (member : r ∈ regions) (contains_ : r.contains pos = true) (defined : DefinedAt units slot pos)
    (passes : r.isLoopLocal units slot pos = true) (path : IsPath units (pos :: mid ++ [p]))
    (clear : ∀ m ∈ mid, ¬DefinedAt units slot m) (reads : ∃ u ∈ units[p]?, u.readsSlot slot = true) :
    (InIteration regions r pos mid p ↔ KeepsBelow r (pos :: mid ++ [p])) ∧
      (¬InIteration regions r pos mid p → (p : Int) < r.start) := by
  obtain ⟨regions', found', starts⟩ := exists_all inside
  cases found.symm.trans found'
  have named : slot ≠ "" := by
    obtain ⟨u, -, present, rfl⟩ := defined
    simpa [Value.isAbsent] using present
  have bound := local_of_isLoopLocal (starts r member) contains_ named passes
  obtain ⟨low, high⟩ := bound.inside
  have cases_ := bound.down_or_above ⟨Nat.le_refl pos, high⟩ path clear reads
  have stays : ((pos :: (mid ++ [p])).IsChain (fun a b => b = a + 1) ∧ pos < p ∧ (p : Int) ≤ r.stop) →
      InIteration regions r pos mid p := by
    rintro ⟨down, under, last⟩
    refine ⟨under, last, fun l _ _ holds => down.imp fun a b next => ?_⟩
    have around := contains_iff.mp holds
    omega
  refine ⟨⟨fun iteration => ?_, fun keeps => ?_⟩, fun gone => ?_⟩
  · rcases cases_ with ⟨down, -, -⟩ | above
    · exact down.imp fun a b next => by omega
    · have under := iteration.1
      omega
  · have above := bound.not_above low path keeps
    rcases cases_ with down | above'
    · exact stays down
    · omega
  · rcases cases_ with down | above
    · exact absurd (stays down) gone
    · exact above

/-- A loop that sets a variable, passes it on and sets it again. -/
private def renewing : List Statement := Method.finalBody "<a.B: void m(int)>"
  [.assign "$i0" "0", .branch "$i0" ">=" "16" 9, .assign "$r1" "\"ECB\"", .call "" "<lib.Y: void y(java.lang.String)>" ["$r1"],
    .assign "$r1" "\"GCM\"", .call "" "<lib.X: void x()>" [], .call "" "<lib.Y: void y(java.lang.String)>" ["$r1"],
    .operation "$i0" "$i0" "+" "1", .jump 1, .retVoid]

/-- A loop in a loop. The inner one sets a variable at its start, passes it on and sets it again, and a call between the
starts of the two reads what the inner one left. -/
private def retrying : List Statement := Method.finalBody "<a.B: void m(int)>"
  [.param "i0" 0 "int", .assign "i1" "0", .call "" "<lib.Y: void y(int)>" ["i1"], .assign "i1" "1",
    .call "" "<lib.Y: void y(int)>" ["i1"], .assign "i1" "2", .call "" "<lib.Y: void y(int)>" ["i1"],
    .branch "i0" "==" "0" 3, .branch "i0" "==" "1" 2, .retVoid]

set_option maxRecDepth 100000 in
private theorem renewing_facts : BranchesInside renewing.length renewing ∧
    ∃ regions ∈ all renewing, ∃ r ∈ regions, r.contains 4 = true ∧ DefinedAt renewing "$r1" 4 ∧
      r.isLoopLocal renewing "$r1" 4 = true ∧ IsPath renewing [4, 5, 6] ∧ (∀ m ∈ [5], ¬DefinedAt renewing "$r1" m) ∧
      (∃ u ∈ renewing[6]?, u.readsSlot "$r1" = true) ∧ KeepsBelow r [4, 5, 6] := by
  decide +kernel

/-- The last call of an iteration reads what the iteration set last. -/
theorem renewing_read_in_iteration : ∃ regions ∈ all renewing, ∃ r ∈ regions,
    r.isLoopLocal renewing "$r1" 4 = true ∧ InIteration regions r 4 [5] 6 := by
  obtain ⟨inside, regions, found, r, member, holds, defined, passes, path, clear, reads, keeps⟩ := renewing_facts
  have path : IsPath renewing (4 :: [5] ++ [6]) := path
  exact ⟨regions, found, r, member, passes,
    (reads_in_iteration_iff inside found member holds defined passes path clear reads).1.mpr keeps⟩

set_option maxRecDepth 100000 in
/-- A redefinition passes the test of the inner loop, and on the way back to the start of the outer loop a call reads its
value. The redefinition gets a name of its own, and the call reads the old one. -/
theorem retrying_read_outside : BranchesInside retrying.length retrying ∧
    (∃ regions ∈ all retrying, ∃ r ∈ regions, r.kind = .loop ∧ r.contains 5 = true ∧ DefinedAt retrying "i1" 5 ∧
      r.isLoopLocal retrying "i1" 5 = true ∧ IsPath retrying [5, 6, 7, 8, 2] ∧
      (∀ m ∈ [6, 7, 8], ¬DefinedAt retrying "i1" m) ∧ (∃ u ∈ retrying[2]?, u.readsSlot "i1" = true) ∧
      ¬InIteration regions r 5 [6, 7, 8] 2) ∧
    ∃ x ∈ renameBody? retrying, (x.1[5]?.map (·.left.text)) = some "i2" ∧
      (x.1[2]?.map fun u => u.args.map (·.text)) = some ["i1"] := by
  decide +kernel

end Region

end MisuseSlice
