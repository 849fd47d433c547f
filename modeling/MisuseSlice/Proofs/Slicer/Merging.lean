import MisuseSlice.Proofs.Criterion.Seeds
import MisuseSlice.Proofs.Slice.Tree
import MisuseSlice.Slicer.Run

/-! What merging gives for a root: of the combined slices of the ways down to it, those that no other one contains. The
slices are recorded, and a later merge gives the record, whatever became of the tree and the slices meanwhile. -/
namespace MisuseSlice

namespace CombinedSlice

variable {c d e : CombinedSlice} {cs ds : List CombinedSlice}

/-- The lines of a slice are among those of another one. -/
def Inside (d c : CombinedSlice) : Prop := d.lines.map (·.key) ⊆ c.lines.map (·.key)

instance (d c : CombinedSlice) : Decidable (d.Inside c) := 
  inferInstanceAs (Decidable (d.lines.map (·.key) ⊆ c.lines.map (·.key)))

theorem contains_iff : c.contains d = true ↔ d.Inside c := by
  simp only [contains, List.all_eq_true, List.contains_iff_mem, Inside, List.subset_def, List.forall_mem_map]

theorem Inside.refl (c : CombinedSlice) : c.Inside c := List.Subset.refl _

theorem Inside.trans (first : c.Inside d) (second : d.Inside e) : c.Inside e := List.Subset.trans first second

/-- No slice of the list is inside another one. -/
def Incomparable (cs : List CombinedSlice) : Prop := cs.Pairwise fun c d => ¬c.Inside d ∧ ¬d.Inside c

/-- Inserting a slice keeps out what is inside another one. -/
theorem Incomparable.insertMaximal (incomparable : Incomparable cs) (c : CombinedSlice) :
    Incomparable (insertMaximal cs c) := by
  unfold CombinedSlice.insertMaximal
  split
  · exact incomparable
  · rename_i outside
    simp only [List.any_eq_true, contains_iff, not_exists, not_and] at outside
    refine List.pairwise_append.mpr ⟨incomparable.filter _, List.pairwise_singleton _ c, ?_⟩
    intro e kept d last
    obtain ⟨member, left⟩ := List.mem_filter.mp kept
    rw [List.mem_singleton.mp last]
    have apart : ¬e.Inside c := fun inside => by simp [contains_iff.mpr inside] at left
    exact ⟨apart, outside e member⟩

theorem mem_of_mem_insertMaximal (member : d ∈ insertMaximal cs c) : d ∈ cs ∨ d = c := by
  unfold insertMaximal at member
  split at member
  · exact .inl member
  · exact (List.mem_append.mp member).imp (fun kept => (List.mem_filter.mp kept).1) List.mem_singleton.mp

/-- The inserted slice is inside one of those kept, and so is each of the slices that were there. -/
theorem exists_inside_insertMaximal (known : (∃ e ∈ cs, d.Inside e) ∨ d.Inside c) :
    ∃ e ∈ insertMaximal cs c, d.Inside e := by
  unfold insertMaximal
  split
  · rename_i full
    obtain ⟨e, member, contains⟩ := List.any_eq_true.mp full
    exact known.elim id fun inside => ⟨e, member, inside.trans (contains_iff.mp contains)⟩
  · rcases known with ⟨e, member, inside⟩ | inside
    · cases contains : c.contains e with
      | true => exact ⟨c, by simp, inside.trans (contains_iff.mp contains)⟩
      | false => exact ⟨e, List.mem_append_left _ (List.mem_filter.mpr ⟨member, by simp [contains]⟩), inside⟩
    · exact ⟨c, by simp, inside⟩

/-- Of all slices those are kept that no other one contains. -/
theorem foldl_insertMaximal (ds : List CombinedSlice) (incomparable : Incomparable cs) :
    Incomparable (ds.foldl insertMaximal cs) ∧ (∀ c ∈ ds.foldl insertMaximal cs, c ∈ cs ∨ c ∈ ds) ∧
      ∀ d, (∃ e ∈ cs, d.Inside e) ∨ d ∈ ds → ∃ e ∈ ds.foldl insertMaximal cs, d.Inside e := by
  induction ds generalizing cs with
  | nil => exact ⟨incomparable, fun _ => .inl, fun d known => known.resolve_right List.not_mem_nil⟩
  | cons d ds ih =>
    obtain ⟨apart, given, covers⟩ := ih (incomparable.insertMaximal d)
    refine ⟨apart, fun c member => ?_, fun c known => covers c ?_⟩
    · rcases given c member with first | later
      · rcases mem_of_mem_insertMaximal first with before | rfl
        · exact .inl before
        · exact .inr List.mem_cons_self
      · exact .inr (List.mem_cons_of_mem _ later)
    · rcases known with known | here
      · exact .inl (exists_inside_insertMaximal (.inl known))
      · rcases List.mem_cons.mp here with rfl | later
        · exact .inl (exists_inside_insertMaximal (.inr (.refl c)))
        · exact .inr later

/-- No line comes twice. -/
def Distinct (c : CombinedSlice) : Prop := (c.lines.map (·.key)).Nodup

theorem Distinct.addLine (distinct : c.Distinct) (l : SliceLine) : (c.addLine l).Distinct := by
  unfold CombinedSlice.addLine
  split
  · exact distinct
  · rename_i new
    simp only [List.any_eq_true, beq_iff_eq, not_exists, not_and] at new
    unfold Distinct
    rw [List.map_append]
    refine List.nodup_append.mpr ⟨distinct, List.nodup_singleton _, ?_⟩
    rintro key old _ last rfl
    obtain ⟨l', member, same⟩ := List.mem_map.mp old
    exact new l' member (same.trans (List.mem_singleton.mp last))

theorem Distinct.addLines (distinct : c.Distinct) (ls : List SliceLine) :
    (ls.foldl CombinedSlice.addLine c).Distinct :=
  List.foldlRecOn ls CombinedSlice.addLine (motive := Distinct) distinct fun _ distinct l _ => distinct.addLine l

end CombinedSlice

namespace SlicerState

open CombinedSlice

variable {w : Workspace} {store : SliceStore} {s : SlicerState} {root : String} {way : List String} {l l' : Ledger}

/-- What was opened and noted before makes no difference to a combined slice. -/
theorem combineFrom_fst (way : List String) (values : KnownValues) (acc : CombinedSlice) (l l' : Ledger) :
    (combineFrom w store way values acc l).1 = (combineFrom w store way values acc l').1 := by
  induction way generalizing values acc l l' with
  | nil => rfl
  | cons id rest ih =>
    unfold combineFrom
    split
    · exact ih _ _ _ _
    · rename_i p _
      have opened : (l.openBody w p.caller).1 = (l'.openBody w p.caller).1 := by
        rw [Ledger.openBody_fst, Ledger.openBody_fst]
      generalize l.openBody w p.caller = x at opened ⊢
      generalize l'.openBody w p.caller = y at opened ⊢
      obtain ⟨b, l⟩ := x
      obtain ⟨b', l'⟩ := y
      obtain rfl : b = b' := opened
      cases b with
      | none => exact ih _ _ _ _
      | some b =>
        dsimp only
        split
        · exact ih _ _ _ _
        · exact ih _ _ _ _

theorem combineFrom_distinct (way : List String) (values : KnownValues) {acc : CombinedSlice} (l : Ledger)
    (distinct : acc.Distinct) : CombinedSlice.Distinct (combineFrom w store way values acc l).1 := by
  induction way generalizing values acc l with
  | nil => exact distinct
  | cons id rest ih =>
    unfold combineFrom
    split
    · exact ih _ _ distinct
    · rename_i p _
      generalize l.openBody w p.caller = x
      obtain ⟨b, l⟩ := x
      cases b with
      | none => exact ih _ _ (distinct.addLines _)
      | some b =>
        dsimp only
        split
        · exact ih _ _ ((distinct.addLines _).addLine _)
        · exact ih _ _ (distinct.addLines _)

/-- The combined slice of a way. -/
def combined (s : SlicerState) (w : Workspace) (root : String) (way : List String) : CombinedSlice :=
  (combineFrom w s.store way {} { root, path := way } {}).1

/-- The slices are what merging the combined slices of the ways gives. -/
structure Merges (s : SlicerState) (w : Workspace) (root : String) (ways : List (List String))
    (slices : List CombinedSlice) : Prop where
  distinct : ∀ c ∈ slices, (c.lines.map (·.key)).Nodup
  incomparable : slices.Pairwise fun c d => ¬c.Inside d ∧ ¬d.Inside c
  combined : ∀ c ∈ slices, ∃ way ∈ ways, c = s.combined w root way
  covering : ∀ way ∈ ways, ∃ c ∈ slices, (s.combined w root way).Inside c

/-- Merging gives the record where there is one, and records what it gives where there is none. -/
theorem merge_cases (s : SlicerState) (w : Workspace) (root : String) :
    (∃ cs, s.store.combined? root = some cs ∧ s.merge w root = (cs, s)) ∨
      s.store.combined? root = none ∧
        (s.merge w root).1 = ((s.tree.paths w.settings.maxCallerChains.toNat root).map (s.combined w root)).foldl
          insertMaximal [] ∧
        (s.merge w root).2.store.combined? root = some (s.merge w root).1 := by
  cases recorded : s.store.combined? root with
  | some cs => exact .inl ⟨cs, rfl, by simp only [merge, recorded]⟩
  | none =>
    let step (x : List CombinedSlice × Ledger) (way : List String) : List CombinedSlice × Ledger :=
      (insertMaximal x.1 (combineFrom w s.store way {} { root, path := way } x.2).1,
        (combineFrom w s.store way {} { root, path := way } x.2).2)
    have slices : ∀ (ways : List (List String)) (x : List CombinedSlice × Ledger),
        (ways.foldl step x).1 = (ways.map (s.combined w root)).foldl insertMaximal x.1 := by
      intro ways x
      rw [List.foldl_map]
      refine (List.foldl_hom Prod.fst fun x way => ?_).symm
      rw [combined, combineFrom_fst way _ _ {} x.2]
    have result : s.merge w root =
        (((s.tree.paths w.settings.maxCallerChains.toNat root).foldl step ([], s.ledger)).1,
          { s with
            ledger := ((s.tree.paths w.settings.maxCallerChains.toNat root).foldl step ([], s.ledger)).2
            store := s.store.putCombined root
              ((s.tree.paths w.settings.maxCallerChains.toNat root).foldl step ([], s.ledger)).1 }) := by
      simp only [merge, recorded]
      rfl
    refine .inr ⟨rfl, ?_, ?_⟩
    · rw [result]
      exact slices _ _
    · rw [result]
      simp [SliceStore.putCombined, SliceStore.combined?]

/-- The ways down to a root, found without a limit, are those of the directed edges between criteria that are not
removed: each way comes once, and a limit leaves the first ones of them. Of their combined slices the first merge of the
root gives those that no other one contains, without lines that come twice, and records them. A merge of a root that has
a record gives the record. -/
theorem merge_maximal (s : SlicerState) (w : Workspace) (root : String) (built : s.tree.Built) :
    let limit := w.settings.maxCallerChains.toNat
    let ways := s.tree.paths limit root
    let all := s.tree.paths 0 root
    all.Nodup ∧ (∀ way, way ∈ all ↔ s.tree.IsWay root way) ∧ ways = (if limit = 0 then all else all.take limit) ∧
      (s.store.combined? root = none → s.Merges w root ways (s.merge w root).1) ∧
      (∀ cs, s.store.combined? root = some cs → (s.merge w root).1 = cs) ∧
      (s.merge w root).2.store.combined? root = some (s.merge w root).1 := by
  intro limit ways all
  have sound := built.sound
  have limited : ways = if limit = 0 then all else all.take limit := by
    by_cases unlimited : limit = 0
    · rw [if_pos unlimited]
      exact congrArg (s.tree.paths · root) unlimited
    · rw [if_neg unlimited]
      exact CriteriaTree.paths_of_limit unlimited
  refine ⟨sound.nodup_paths, fun way => sound.mem_paths, limited, ?_⟩
  rcases s.merge_cases w root with ⟨cs, recorded, result⟩ | ⟨new, result, record⟩
  · rw [result]
    refine ⟨fun new => ?_, fun cs' recorded' => ?_, recorded⟩
    · rw [recorded] at new
      cases new
    · exact Option.some.inj (recorded.symm.trans recorded')
  · refine ⟨fun _ => ?_, fun cs recorded => ?_, record⟩
    · obtain ⟨incomparable, given, covers⟩ := foldl_insertMaximal (ways.map (s.combined w root)) List.Pairwise.nil
      have combined : ∀ c ∈ (s.merge w root).1, ∃ way ∈ ways, c = s.combined w root way := fun c member => by
        obtain ⟨way, here, same⟩ := List.mem_map.mp ((given c (result ▸ member)).resolve_left List.not_mem_nil)
        exact ⟨way, here, same.symm⟩
      refine ⟨fun c member => ?_, result ▸ incomparable, combined, fun way here => ?_⟩
      · obtain ⟨way, _, rfl⟩ := combined c member
        exact combineFrom_distinct way _ _ List.nodup_nil
      · obtain ⟨c, member, inside⟩ := covers _ (.inr (List.mem_map_of_mem here))
        exact ⟨c, result ▸ member, inside⟩
    · rw [new] at recorded
      cases recorded

/-- A method that hashes its parameter, and a call of it. -/
private def calling : Program :=
  { package := "z"
    classes := [some { name := "z.B", methods := [
      some { signature := "<z.B: void t(int)>", isStatic := true, units := [
        some (.param "i0" 0 "int"), some (.call "" "<lib.X: void x(int)>" ["i0"]), some .retVoid] },
      some { signature := "<z.B: void m()>", isStatic := true, units := [
        some (.assign "i0" "5"), some (.call "" "<z.B: void t(int)>" ["i0"]), some .retVoid] }] }] }

/-- The program made ready, with a limit on criteria. -/
private def called (limit : Int) : Workspace := .ofProgram calling.finalize.1 { maxCriteria := limit } true

/-- The hash, and the call. -/
private def callingRoots : List Criterion :=
  Criterion.created (called 0) "<z.B: void t(int)>" "<lib.X: void x(int)>" .invoke [0] 0 ++
    Criterion.created (called 0) "<z.B: void m()>" "<z.B: void t(int)>" .invoke [0] 0

/-- A run with a limit on criteria. -/
private def runCalling (limit : Int) (s : SlicerState) : SlicerState :=
  (s.run (called limit) CallRule.standard callingRoots).2

/-- The names of the hash and of the call. -/
private def hashId : String := (callingRoots.map (·.id)).headD ""

private def callId : String := (callingRoots.map (·.id)).getLastD ""

/-- Both slices, and a tree in which the call leads to the hash. -/
private def joined : SlicerState := { runCalling 0 {} with tree := ({} : CriteriaTree).addEdge callId hashId true }

set_option maxRecDepth 100000 in
private theorem joined_ways :
    (called 0).settings.maxCallerChains.toNat = 1000 ∧ joined.store.combined? hashId = none ∧
      joined.tree.paths 0 hashId = [[callId, hashId]] ∧
      (joined.merge (called 0) hashId).1.map (fun c => c.lines.map (·.code)) =
        [["i0 = 5", "staticinvoke <z.B: void t(int)>(i0)", "i0 := @parameter0: int"]] := by
  decide +kernel

/-- There is one way down to the hash, from the call, and merging gives the slice of it. -/
theorem joined_merged :
    joined.tree.IsWay hashId [callId, hashId] ∧ ∃ c, (joined.merge (called 0) hashId).1 = [c] ∧
      c = joined.combined (called 0) hashId [callId, hashId] ∧
      c.lines.map (·.code) = ["i0 = 5", "staticinvoke <z.B: void t(int)>(i0)", "i0 := @parameter0: int"] := by
  obtain ⟨limit, new, paths, lines⟩ := joined_ways
  have built : joined.tree.Built := by
    simp only [joined]
    exact .addEdge .empty callId hashId true
  obtain ⟨-, isWay, limited, merges, -⟩ := merge_maximal joined (called 0) hashId built
  obtain ⟨c, slices, code⟩ := List.map_eq_singleton_iff.mp lines
  obtain ⟨way, member, same⟩ := (merges new).combined c (by rw [slices]; exact List.mem_singleton.mpr rfl)
  rw [limited, limit, if_neg (by decide), paths] at member
  obtain rfl := List.mem_singleton.mp member
  exact ⟨(isWay _).mp (by rw [paths]; exact List.mem_singleton.mpr rfl), c, slices, same, code⟩

set_option maxRecDepth 100000 in
/-- A run that reaches its limit leaves the call unsliced, and the hash merged after it has the lines of its own method
only. The call is sliced in a second run, but merging the hash once more gives the record: no slice of it holds what the
way from the call gives by now. -/
theorem recorded_merge_stale :
    let s := runCalling 1 ((runCalling 1 {}).merge (called 1) hashId).2
    ∃ way ∈ s.tree.paths (called 1).settings.maxCallerChains.toNat hashId,
      ∀ c ∈ (s.merge (called 1) hashId).1, ¬(s.combined (called 1) hashId way).Inside c := by
  decide +kernel

end SlicerState

end MisuseSlice
