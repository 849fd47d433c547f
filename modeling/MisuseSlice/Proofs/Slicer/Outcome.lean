import MisuseSlice.Proofs.Slicer.Roots

/-! The outcome of a run as a whole. -/
namespace MisuseSlice

/-- Nothing is left to do: nothing is queued, no scan is under way, and nobody waits. -/
structure SlicerState.Idle (s : SlicerState) : Prop where
  queued : s.queued.isEmpty = true
  active : s.active = []
  suspensions : s.suspensions.isEmpty = true
  descents : s.descents.isEmpty = true
  ready : s.ready = []

namespace Worklist

open Criterion

/-- A run of a new slicer that is neither cancelled nor limited ends idle, where no two criteria share a
name by accident. Every root has its slice in the end unless it gave way to a criterion of its call that
tracks its values too, and did not come back to the queue; such a criterion has its slice in any case. Every
criterion that was ever suspended has its slice, and a task went on with its scan exactly once after each
suspension. -/
theorem run_outcome (p : Program) (settings : Settings) (rules : List CallRule) (ledger : Ledger)
    (roots : List Criterion) (unlimited : settings.maxCriteria ≤ 0)
    (asked : ∀ r ∈ roots, IsRoot (.ofProgram p settings true) r)
    (distinct : Distinct (Arises (.ofProgram p settings true) roots)) :
    let w := Workspace.ofProgram p settings true
    let x := ofRoots ledger roots
    ∃ s, ({ ledger } : SlicerState).run w rules roots = (.complete, s) ∧ s.Idle ∧
      (∀ r ∈ roots, s.store.contains r.id = true ↔
        ¬∃ i, GivesWay (Arises w roots) r (after w rules x i) (after w rules x (i + 1)) ∧
          ∀ j, i < j → ¬(after w rules x j).Queued r.id) ∧
      (∀ r ∈ roots, ∃ m, Arises w roots m ∧ m.Covers r ∧ s.store.contains m.id = true) ∧
      (∀ id i, SuspendsAt w rules x id i → s.store.contains id = true ∧
        ∃! k, i < k ∧ ResumesAt w rules x id k ∧ ∀ j, i < j → j < k → ¬SuspendsAt w rules x id j) ∧
      ∀ id k, ResumesAt w rules x id k →
        ∃ i, i < k ∧ SuspendsAt w rules x id i ∧ ∀ j, i < j → j < k → ¬ResumesAt w rules x id j := by
  intro w x
  have prepared : ∀ method b, w.body? method = some b → b.Prepared := fun _ _ => Workspace.body?_prepared
  have placed : w.Placed := fun method b found => (prepared method b found).placed
  have closed : Closed w (Arises w roots) := Arises.closed prepared asked distinct
  have sound : x.Sound w (Arises w roots) := ofRoots_sound closed ledger fun _ => .root
  obtain ⟨n, message, empty, ran⟩ := run_ends (w := w) rfl unlimited placed rules ledger roots
  have last := after_sound rules closed placed sound n
  obtain ⟨queued, active, suspensions, descents⟩ := last.quiet empty
  have first : ∀ id, ¬x.Scheduled id ∧ ¬x.Suspended id := by
    obtain ⟨scanless, _, _, _, held, _⟩ := addRoots_rooted ledger roots
    intro id
    constructor
    · simp [x, Scheduled, ofRoots, append, scanless, Scan.names]
    · simp [x, Suspended, ofRoots, append, held]
  refine ⟨_, ran, ⟨queued, active, suspensions, descents, last.ready⟩, ?_, ?_, ?_, ?_⟩
  · intro r given
    exact stored_iff sound closed distinct placed empty (.root given) (asked r given).atCall
      (ofRoots_queued ledger given)
  · intro r given
    exact exists_covers sound closed distinct placed empty (.root given) (asked r given).atCall
      (ofRoots_queued ledger given)
  · intro id i suspends
    refine ⟨?_, resumed_once sound closed placed empty suspends⟩
    exact stored_of_started sound closed placed empty
      ((after_sound rules closed placed sound (i + 1)).started (.inr suspends.2))
  · intro id k resumes
    exact exists_suspends sound closed placed (first id).1 (first id).2 (.inl resumes.scheduled)

/-- A method that hashes three numbers, and one that calls it with constants. -/
private def hashing : Program :=
  { package := "a"
    classes := [some { name := "a.B", methods := [
      some { signature := "<a.B: void t(int,int,int)>", isStatic := true, units := [
        some (.param "i0" 0 "int"), some (.param "i1" 1 "int"), some (.param "i2" 2 "int"),
        some (.call "" "<lib.X: void x(int)>" ["i0"]), some (.call "" "<lib.X: void x(int)>" ["i1"]),
        some (.call "" "<lib.X: void x(int)>" ["i2"]), some .retVoid] },
      some { signature := "<a.B: void m()>", isStatic := true, units := [
        some (.assign "i0" "1"), some (.assign "i1" "2"), some (.assign "i2" "3"),
        some (.call "" "<a.B: void t(int,int,int)>" ["i0", "i1", "i2"]), some .retVoid] }] }] }

/-- The calls of the hash, and the call with constants as far as its last two arguments go. -/
private def hashingRoots : List Criterion :=
  created (.ofProgram hashing.finalize.1 {} true) "<a.B: void t(int,int,int)>" "<lib.X: void x(int)>" .invoke [0] 0 ++
    created (.ofProgram hashing.finalize.1 {} true) "<a.B: void m()>" "<a.B: void t(int,int,int)>" .invoke [1, 2] 0

set_option maxRecDepth 100000 in
/-- A root can give way for good. The slices of the hash calls ask for the arguments of the caller one by
one, the criteria of the second and the third merge into one that has the name of the root, and that one
merges with the criterion of the first. -/
theorem hashing_root_unstored :
    let outcome := ({} : SlicerState).run (.ofProgram hashing.finalize.1 {} true) CallRule.standard hashingRoots
    outcome.1 = .complete ∧
      hashingRoots.map (fun r => outcome.2.store.contains r.id) = [true, true, true, false] := by
  decide +kernel

/-- A method that hashes the key that another one returns. -/
private def fetching : Program :=
  { package := "a"
    classes := [some { name := "a.B", methods := [
      some { signature := "<a.B: void m()>", isStatic := true, units := [
        some (.callAssign "r0" "" "<a.B: java.lang.String key()>" []),
        some (.call "" "<lib.X: void x(java.lang.String)>" ["r0"]), some .retVoid] },
      some { signature := "<a.B: java.lang.String key()>", isStatic := true, units := [
        some (.assign "r1" "\"k\""), some (.ret "r1")] }] }] }

private def fetched : Workspace := .ofProgram fetching.finalize.1 {} true

private def fetchingRoot : Criterion :=
  { caller := "<a.B: void m()>", target := "<lib.X: void x(java.lang.String)>"
    kind := .invoke, statement := "staticinvoke <lib.X: void x(java.lang.String)>(r0)"
    start := 1, pos := 1, positions := [0], targets := [.read "r0"], level := 0 }

private def keyReturn : Criterion :=
  { caller := "<a.B: java.lang.String key()>", target := "<a.B: java.lang.String key()>"
    kind := .returned, statement := "return r1"
    start := 0, pos := 1, positions := [], targets := [.read "r1"], level := -1 }

/-- A call without receiver and arguments has no values of interest. -/
private theorem created_bare {w : Workspace} {caller target : String} {params : List Int} {level : Int}
    (bare : ∀ u ∈ ((w.body? caller).map Body.source).getD [], isSeed u target .parameter = true →
      u.base = {} ∧ u.args = []) : created w caller target .parameter params level = [] := by
  refine List.eq_nil_iff_forall_not_mem.mpr fun k member => ?_
  unfold created at member
  split at member
  · cases member
  · split at member
    · cases member
    · rename_i b found
      obtain ⟨i, u, here, seed, some, _⟩ := mem_inBody.mp member
      rw [found] at bare
      obtain ⟨base, args⟩ := bare u (List.mem_reverse.mp (List.mem_of_getElem? here)) seed
      refine some (List.eq_nil_iff_forall_not_mem.mpr fun v given => ?_)
      obtain ⟨there, receiver | argument⟩ := mem_valuesOf_call (.inr rfl) given
      · exact there (by rw [receiver, base])
      · rw [args] at argument
        cases argument

set_option maxRecDepth 100000 in
/-- The two criteria have names of their own and bring about none but each other, nobody calls them with values, and the
root is suspended at its first turn. -/
private theorem fetched_facts :
    (∀ c ∈ [fetchingRoot, keyReturn],
      (∀ u ∈ ((fetched.body? c.caller).map Body.whole).getD [],
        u.kind ≠ .assignVariableField ∧ (u.kind.isInvoke = true →
          ∀ k ∈ created fetched u.signature u.signature .returned [] (c.level - 1), k ∈ [fetchingRoot, keyReturn])) ∧
      (∀ site ∈ SlicerState.callSites fetched c.caller,
        ∀ u ∈ ((fetched.body? site.1).map Body.source).getD [], isSeed u site.2 .parameter = true →
          u.base = {} ∧ u.args = []) ∧
      ∀ k ∈ [fetchingRoot, keyReturn], c.id = k.id → c = k) ∧
    SuspendsAt fetched CallRule.standard (ofRoots {} [fetchingRoot]) fetchingRoot.id 0 ∧
    fetchingRoot ∈ created fetched "<a.B: void m()>" "<lib.X: void x(java.lang.String)>" .invoke [0] 0 := by
  unfold SuspendsAt Suspended
  decide +kernel

/-- Slicing the root brings about the return of the key only. -/
private theorem fetched_arises {c : Criterion} (arises : Arises fetched [fetchingRoot] c) :
    c ∈ [fetchingRoot, keyReturn] := by
  refine arises.holds_of_fieldless (fun r given => ?_) (fun c here => (fetched_facts.1 c here).1)
    (fun c here site inside params k made => ?_) fun c _ here _ kind => ?_
  · exact List.mem_cons.mpr (.inl (List.mem_singleton.mp given))
  · rw [created_bare ((fetched_facts.1 c here).2.1 site inside)] at made
    cases made
  · rcases List.mem_cons.mp here with rfl | later
    · cases kind
    · rw [List.mem_singleton.mp later] at kind
      cases kind

/-- The hash of the key waits for the key once. A task goes on with it, and both slices are stored. -/
theorem fetching_outcome :
    ∃ s, ({} : SlicerState).run fetched CallRule.standard [fetchingRoot] = (.complete, s) ∧ s.Idle ∧
      s.store.contains fetchingRoot.id = true ∧
      ∃! k, 0 < k ∧ ResumesAt fetched CallRule.standard (ofRoots {} [fetchingRoot]) fetchingRoot.id k ∧
        ∀ j, 0 < j → j < k → ¬SuspendsAt fetched CallRule.standard (ofRoots {} [fetchingRoot]) fetchingRoot.id j := by
  have asked : ∀ r ∈ [fetchingRoot], IsRoot fetched r := by
    rintro r given
    rw [List.mem_singleton.mp given]
    exact ⟨_, _, _, fetched_facts.2.2⟩
  have distinct : Distinct (Arises fetched [fetchingRoot]) := by
    intro c k arises arises' name
    rw [(fetched_facts.1 c (fetched_arises arises)).2.2 k (fetched_arises arises') name]
    exact ⟨rfl, rfl, rfl, rfl⟩
  obtain ⟨s, ran, idle, -, -, once, -⟩ :=
    run_outcome fetching.finalize.1 {} CallRule.standard {} [fetchingRoot] (by decide) asked distinct
  obtain ⟨stored, resumed⟩ := once fetchingRoot.id 0 fetched_facts.2.1
  exact ⟨s, ran, idle, stored, resumed⟩

end Worklist

end MisuseSlice
