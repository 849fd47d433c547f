import MisuseSlice.Proofs.Digraph.Ways
import MisuseSlice.Proofs.Folds
import MisuseSlice.Proofs.Maps
import MisuseSlice.Slicer.Merge

/-! The tree of criteria and the ways down it. However a tree was made, its numbers and its links fit together, so that
the ways found are those of the edges between criteria that are not removed. -/
namespace MisuseSlice.CriteriaTree

open Ways

variable {t : CriteriaTree} {id root source target : String} {i f d limit : Nat} {way : List String}

/-- The trees that adding and removing makes. -/
inductive Built : CriteriaTree → Prop where
  | empty : Built {}
  | add {t : CriteriaTree} (built : Built t) (id : String) (level : Int) : Built (t.add id level).2
  | addEdge {t : CriteriaTree} (built : Built t) (source target : String) (directed : Bool) :
      Built (t.addEdge source target directed)
  | remove {t : CriteriaTree} (built : Built t) (id : String) : Built (t.remove id)

/-- A directed edge leads from one criterion to another one, and neither of them is removed. -/
def Calls (t : CriteriaTree) (caller callee : String) : Prop :=
  ∃ f d, t.number? caller = some f ∧ t.number? callee = some d ∧ (f, d, true) ∈ t.edges

/-- A way of calls down to a criterion in the tree. No criterion comes twice, and whatever calls the first one is on the
way. -/
structure IsWay (t : CriteriaTree) (root : String) (way : List String) : Prop where
  live : t.contains root = true
  ends : way.getLast? = some root
  linked : way.IsChain t.Calls
  simple : way.Nodup
  topped : ∀ top, way.head? = some top → ∀ caller, t.Calls caller top → caller ∈ way

/-- The numbers stand for the criteria, and the callers kept for each of them are those of the edges. -/
structure Sound (t : CriteriaTree) : Prop where
  numbers : ∀ (id : String) (i : Nat), t.numbers[id]? = some i ↔ t.ids[i]? = some id
  size : t.callers.length = t.ids.length
  ends : ∀ (f d : Nat) (directed : Bool), (f, d, directed) ∈ t.edges → f < t.ids.length ∧ d < t.ids.length
  callers : ∀ f d : Nat, f ∈ t.callers.getD d [] ↔ (f, d, true) ∈ t.edges
  nodup : ∀ d : Nat, (t.callers.getD d []).Nodup

theorem Sound.empty : Sound {} := by
  constructor <;> simp

/-- Adding a criterion to a tree that does not know it. -/
theorem Sound.append (sound : t.Sound) (level : Int) (unknown : t.numbers[id]? = none) :
    Sound { t with
      ids := t.ids ++ [id], numbers := t.numbers.insert id t.ids.length
      levels := t.levels ++ [level], removed := t.removed ++ [false]
      callers := t.callers ++ [[]], callees := t.callees ++ [[]], neighbors := t.neighbors ++ [[]] } := by
  refine ⟨?_, ?_, ?_, ?_, ?_⟩
  · intro id' i
    rw [Std.TreeMap.getElem?_insert, List.getElem?_append]
    split
    · rename_i named
      obtain rfl := Std.compare_eq_iff_eq.mp named
      constructor
      · rintro ⟨⟩
        simp
      · intro found
        split at found
        · rw [(sound.numbers _ _).mpr found] at unknown
          cases unknown
        · rename_i outside
          obtain ⟨inside, -⟩ := List.getElem?_eq_some_iff.mp found
          rw [List.length_singleton] at inside
          congr 1
          omega
    · rename_i other
      rw [sound.numbers]
      split
      · rfl
      · rename_i outside
        rw [List.getElem?_eq_none (Nat.not_lt.mp outside)]
        refine ⟨nofun, fun found => ?_⟩
        have named := List.mem_singleton.mp (List.mem_of_getElem? found)
        exact absurd (Std.compare_eq_iff_eq.mpr named.symm) other
  · simp [sound.size]
  · intro f d directed edge
    have inside := sound.ends f d directed edge
    rw [List.length_append]
    omega
  · intro f d
    rw [getD_concat_default]
    exact sound.callers f d
  · intro d
    rw [getD_concat_default]
    exact sound.nodup d

theorem Sound.add (sound : t.Sound) (id : String) (level : Int) : (t.add id level).2.Sound := by
  unfold CriteriaTree.add
  split
  · exact ⟨sound.numbers, sound.size, sound.ends, sound.callers, sound.nodup⟩
  · rename_i unknown
    exact sound.append level unknown

theorem Sound.numberOrAdd (sound : t.Sound) (id : String) :
    (t.numberOrAdd id).2.Sound ∧ (t.numberOrAdd id).1 < (t.numberOrAdd id).2.ids.length ∧
      t.ids.length ≤ (t.numberOrAdd id).2.ids.length := by
  unfold CriteriaTree.numberOrAdd
  split
  · rename_i i found
    exact ⟨sound, (List.getElem?_eq_some_iff.mp ((sound.numbers id i).mp found)).1, Nat.le_refl _⟩
  · rename_i unknown
    have added := sound.add id 0
    unfold CriteriaTree.add at added ⊢
    rw [unknown] at added ⊢
    exact ⟨added, by simp, by simp⟩

/-- Adding an undirected edge. -/
theorem Sound.join (sound : t.Sound) (inside : f < t.ids.length) (inside' : d < t.ids.length)
    (neighbors : List (List Nat)) : Sound { t with edges := t.edges ++ [(f, d, false)], neighbors } := by
  refine ⟨sound.numbers, sound.size, ?_, ?_, sound.nodup⟩
  · intro f' d' directed edge
    rcases List.mem_append.mp edge with old | new
    · exact sound.ends f' d' directed old
    · obtain ⟨rfl, rfl, -⟩ : f' = f ∧ d' = d ∧ directed = false := by simpa using new
      exact ⟨inside, inside'⟩
  · intro f' d'
    rw [sound.callers]
    simp

/-- Adding a directed edge that is not there. -/
theorem Sound.point (sound : t.Sound) (inside : f < t.ids.length) (inside' : d < t.ids.length)
    (new : (f, d, true) ∉ t.edges) (callees : List (List Nat)) :
    Sound { t with edges := t.edges ++ [(f, d, true)], callees, callers := t.callers.modify d (· ++ [f]) } := by
  have callers : ∀ d', (t.callers.modify d (· ++ [f])).getD d' [] =
      t.callers.getD d' [] ++ if d' = d then [f] else [] := by
    intro d'
    simp only [getD_modify_concat, sound.size, inside', and_true]
  refine ⟨sound.numbers, by simpa using sound.size, ?_, ?_, ?_⟩
  · intro f' d' directed edge
    rcases List.mem_append.mp edge with old | new
    · exact sound.ends f' d' directed old
    · obtain ⟨rfl, rfl, -⟩ : f' = f ∧ d' = d ∧ directed = true := by simpa using new
      exact ⟨inside, inside'⟩
  · intro f' d'
    dsimp only
    rw [callers, List.mem_append, List.mem_append, sound.callers]
    refine or_congr Iff.rfl ?_
    by_cases same : d' = d <;> simp [same]
  · intro d'
    dsimp only
    rw [callers]
    split
    · rename_i same
      subst same
      have fresh : f ∉ t.callers.getD d' [] := fun member => new ((sound.callers f d').mp member)
      exact List.nodup_append.mpr ⟨sound.nodup d', List.nodup_singleton f,
        fun a old b last => by rw [List.mem_singleton.mp last]; rintro rfl; exact fresh old⟩
    · rw [List.append_nil]
      exact sound.nodup d'

theorem Sound.addEdge (sound : t.Sound) (source target : String) (directed : Bool) :
    (t.addEdge source target directed).Sound := by
  unfold CriteriaTree.addEdge
  obtain ⟨first, inside, _⟩ := sound.numberOrAdd source
  generalize t.numberOrAdd source = result at first inside ⊢
  obtain ⟨f, t'⟩ := result
  dsimp only at first inside ⊢
  obtain ⟨second, inside', grown⟩ := first.numberOrAdd target
  generalize t'.numberOrAdd target = result at second inside' grown ⊢
  obtain ⟨d, t⟩ := result
  dsimp only at second inside' grown ⊢
  cases directed with
  | true =>
    rw [if_pos rfl, if_pos rfl]
    split
    · exact second
    · rename_i new
      exact second.point (by omega) inside' (by simpa using new) _
  | false =>
    rw [if_neg Bool.false_ne_true, if_neg Bool.false_ne_true]
    split
    · exact second
    · exact second.join (by omega) (by omega) _

theorem Sound.remove (sound : t.Sound) (id : String) : (t.remove id).Sound := by
  unfold CriteriaTree.remove
  split
  · exact ⟨sound.numbers, sound.size, sound.ends, sound.callers, sound.nodup⟩
  · exact sound

theorem Built.sound (built : Built t) : t.Sound := by
  induction built with
  | empty => exact .empty
  | add _ id level ih => exact ih.add id level
  | addEdge _ source target directed ih => exact ih.addEdge source target directed
  | remove _ id ih => exact ih.remove id

/-- The search goes through the callers of the first node. One that is on the way is left out, and so is each of them
once the limit is reached; the way itself is found where none was gone on to and the limit is not reached. -/
theorem extendPath_succ (t : CriteriaTree) (limit fuel : Nat) (way : List Nat) (found : List (List Nat)) :
    ∃ (callers : List Nat) (step : Bool × List (List Nat) → Nat → Bool × List (List Nat)),
      onward t.callerNumbers way = callers.filter (!way.contains ·) ∧
      (∀ x c, way.contains c = true ∨ Reached limit x.2 → step x c = x) ∧
      (∀ x c, way.contains c = false → ¬Reached limit x.2 →
        step x c = (true, t.extendPath limit fuel (c :: way) x.2)) ∧
      t.extendPath limit (fuel + 1) way found =
        if (callers.foldl step (false, found)).1 = true ∨ Reached limit (callers.foldl step (false, found)).2 then
          (callers.foldl step (false, found)).2
        else (callers.foldl step (false, found)).2 ++ [way] := by
  have reached : ∀ found : List (List Nat), (limit != 0 && decide (limit ≤ found.length)) = decide (Reached limit found) := by
    intro found
    rw [Bool.eq_iff_iff, Bool.and_eq_true, bne_iff_ne, decide_eq_true_eq, decide_eq_true_eq]
    exact Iff.rfl
  obtain ⟨callers, step, nexts, steps, result⟩ :
      ∃ (callers : List Nat) (step : Bool × List (List Nat) → Nat → Bool × List (List Nat)),
        onward t.callerNumbers way = callers.filter (!way.contains ·) ∧
        (∀ x c, step x c = if way.contains c || (limit != 0 && decide (limit ≤ x.2.length)) then x
          else (true, t.extendPath limit fuel (c :: way) x.2)) ∧
        t.extendPath limit (fuel + 1) way found =
          if !(callers.foldl step (false, found)).1 &&
            !(limit != 0 && decide (limit ≤ (callers.foldl step (false, found)).2.length)) then
              (callers.foldl step (false, found)).2 ++ [way]
          else (callers.foldl step (false, found)).2 := by
    cases way with
    | nil => exact ⟨[], _, rfl, fun _ _ => rfl, rfl⟩
    | cons n rest => exact ⟨t.callerNumbers n, _, rfl, fun _ _ => rfl, rfl⟩
  refine ⟨callers, step, nexts, fun x c skipped => ?_, fun x c outside room => ?_, ?_⟩
  · rw [steps, reached, if_pos (by simpa only [Bool.or_eq_true, decide_eq_true_eq] using skipped)]
  · rw [steps, reached, if_neg (by simp only [outside, room, decide_false, Bool.or_self, Bool.false_eq_true, not_false_eq_true])]
  · rw [result, reached]
    by_cases marked : (callers.foldl step (false, found)).1 = true ∨ Reached limit (callers.foldl step (false, found)).2
    · rw [if_pos marked, if_neg]
      rcases marked with extended | full
      · simp [extended]
      · simp [full]
    · obtain ⟨new, room⟩ := not_or.mp marked
      rw [if_neg marked, if_pos (by simp [new, room])]

/-- The search that stops at a limit adds to what was found the ways that go on from a way, up to the limit. -/
theorem extendPath_eq (t : CriteriaTree) (limit fuel : Nat) (way : List Nat) {found : List (List Nat)}
    (within : Within limit found) :
    t.extendPath limit fuel way found = upTo limit (found ++ full t.callerNumbers fuel way) := by
  induction fuel generalizing way found with
  | zero => rw [extendPath, full, List.append_nil, within.upTo_eq]
  | succ fuel ih =>
    obtain ⟨callers, step, nexts, stays, goes, result⟩ := t.extendPath_succ limit fuel way found
    have one : ∀ c ∈ callers, ∀ x : Bool × List (List Nat), Within limit x.2 →
        (step x c).2 = upTo limit (x.2 ++ if !way.contains c then full t.callerNumbers fuel (c :: way) else []) := by
      intro c _ x within
      by_cases skipped : way.contains c = true ∨ Reached limit x.2
      · rw [stays x c skipped]
        rcases skipped with inside | reached
        · simp only [inside, Bool.not_true, Bool.false_eq_true, ↓reduceIte, List.append_nil, within.upTo_eq]
        · rw [reached.upTo_append within]
      · obtain ⟨outside, room⟩ := not_or.mp skipped
        rw [Bool.not_eq_true] at outside
        rw [goes x c outside room, ih _ within, outside]
        rfl
    have all : (callers.foldl step (false, found)).2 =
        upTo limit (found ++ (onward t.callerNumbers way).flatMap fun c => full t.callerNumbers fuel (c :: way)) := by
      rw [nexts, flatMap_filter]
      exact foldl_upTo Prod.snd one within
    unfold full
    rw [result]
    by_cases ends : onward t.callerNumbers way = []
    · have unchanged : callers.foldl step (false, found) = (false, found) := by
        have inside : ∀ c ∈ callers, way.contains c = true := by
          rw [nexts] at ends
          simpa using List.filter_eq_nil_iff.mp ends
        exact List.foldlRecOn callers step (motive := (· = (false, found))) rfl fun x same c member => by
          rw [same, stays _ c (.inl (inside c member))]
      rw [unchanged, if_pos (List.isEmpty_iff.mpr ends), upTo_append_singleton within]
      simp only [Bool.false_eq_true, false_or]
    · obtain ⟨c, next⟩ := List.exists_mem_of_ne_nil _ ends
      rw [nexts] at next
      obtain ⟨member, outside⟩ := List.mem_filter.mp next
      rw [Bool.not_eq_true'] at outside
      have marked : (callers.foldl step (false, found)).1 = true ∨ Reached limit (callers.foldl step (false, found)).2 := by
        refine (foldl_makes (I := fun _ => True) (Q := fun x : Bool × List (List Nat) => x.1 = true ∨ Reached limit x.2) member
          (fun _ _ _ _ => trivial) (fun x c' _ _ marked => ?_) (fun x _ => ?_) trivial).2
        · by_cases skipped : way.contains c' = true ∨ Reached limit x.2
          · rwa [stays x c' skipped]
          · obtain ⟨outside', room⟩ := not_or.mp skipped
            rw [goes x c' (by simpa using outside') room]
            exact .inl rfl
        · by_cases reached : Reached limit x.2
          · rw [stays x c (.inr reached)]
            exact .inr reached
          · rw [goes x c outside reached]
            exact .inl rfl
      rw [if_pos marked, all, if_neg (by simpa using ends)]

/-- The number is that of a criterion that is not removed. -/
def IsLive (t : CriteriaTree) (i : Nat) : Prop := i < t.ids.length ∧ t.isRemoved i = false

namespace Sound

theorem number?_eq_some (sound : t.Sound) : t.number? id = some i ↔ t.ids[i]? = some id ∧ t.isRemoved i = false := by
  rw [← sound.numbers]
  unfold number?
  cases found : t.numbers[id]? with
  | none => simp
  | some j =>
    cases removed : t.isRemoved j with
    | false => simpa [removed] using fun same : j = i => same ▸ removed
    | true => simpa [removed] using fun same : j = i => same ▸ removed

theorem number?_idOf (sound : t.Sound) (live : t.IsLive i) : t.number? (t.idOf i) = some i := by
  refine sound.number?_eq_some.mpr ⟨?_, live.2⟩
  rw [idOf, List.getD_eq_getElem?_getD, List.getElem?_eq_getElem live.1]
  rfl

theorem idOf_eq (sound : t.Sound) (found : t.number? id = some i) : t.IsLive i ∧ t.idOf i = id := by
  obtain ⟨here, live⟩ := sound.number?_eq_some.mp found
  refine ⟨⟨(List.getElem?_eq_some_iff.mp here).1, live⟩, ?_⟩
  rw [idOf, List.getD_eq_getElem?_getD, here]
  rfl

theorem mem_callerNumbers (sound : t.Sound) :
    f ∈ t.callerNumbers d ↔ (f, d, true) ∈ t.edges ∧ t.isRemoved f = false := by
  simp [callerNumbers, CriteriaTree.live, ← sound.callers]

theorem live_of_caller (sound : t.Sound) (caller : f ∈ t.callerNumbers d) : t.IsLive f := by
  obtain ⟨edge, live⟩ := sound.mem_callerNumbers.mp caller
  exact ⟨(sound.ends f d true edge).1, live⟩

theorem calls_iff (sound : t.Sound) (live : t.IsLive f) (live' : t.IsLive d) :
    t.Calls (t.idOf f) (t.idOf d) ↔ f ∈ t.callerNumbers d := by
  rw [sound.mem_callerNumbers, Calls, sound.number?_idOf live, sound.number?_idOf live']
  simp [live.2]

theorem contains_of_calls {caller callee : String} (calls : t.Calls caller callee) : t.contains caller = true := by
  obtain ⟨f, _, found, _⟩ := calls
  rw [contains, found]
  rfl

/-- What holds at the end of a chain, and of all that stands before another element, holds throughout. -/
theorem forall_of_isChain {α : Type} {R : α → α → Prop} {P : α → Prop} {xs : List α} (linked : xs.IsChain R)
    (last : ∀ z, xs.getLast? = some z → P z) (before : ∀ a b, R a b → P a) : ∀ a ∈ xs, P a := by
  induction xs with
  | nil => exact nofun
  | cons a rest ih =>
    cases rest with
    | nil => exact List.forall_mem_singleton.mpr (last a rfl)
    | cons b rest =>
      obtain ⟨here, later⟩ := List.isChain_cons_cons.mp linked
      exact List.forall_mem_cons.mpr ⟨before a b here, ih later fun z ends => last z (by rwa [List.getLast?_cons_cons])⟩

/-- The ways of criteria are those of their numbers. -/
theorem isWay_iff (sound : t.Sound) {p : List Nat} (live : ∀ n ∈ p, t.IsLive n) (found : t.number? root = some i)
    (ends : p.getLast? = some i) :
    t.IsWay root (p.map t.idOf) ↔ Ways.IsWay t.callerNumbers p ∧ onward t.callerNumbers p = [] := by
  have inj : ∀ m ∈ p, ∀ n ∈ p, t.idOf m = t.idOf n → m = n := fun m here n there same => by
    have number := sound.number?_idOf (live m here)
    rw [same, sound.number?_idOf (live n there)] at number
    exact (Option.some.inj number).symm
  have linked : (p.map t.idOf).IsChain t.Calls ↔ p.IsChain fun a b => a ∈ t.callerNumbers b := by
    rw [List.isChain_map]
    exact List.IsChain.iff_of_mem_imp fun a b here there => sound.calls_iff (live a here) (live b there)
  have topped : (∀ top, (p.map t.idOf).head? = some top → ∀ caller, t.Calls caller top → caller ∈ p.map t.idOf) ↔
      onward t.callerNumbers p = [] := by
    rw [List.eq_nil_iff_forall_not_mem, List.head?_map]
    constructor
    · intro topped c next
      obtain ⟨⟨n, first, caller⟩, new⟩ := mem_onward.mp next
      have above := sound.live_of_caller caller
      have calls := (sound.calls_iff above (live n (List.mem_of_mem_head? first))).mpr caller
      obtain ⟨m, here, same⟩ := List.mem_map.mp (topped _ (by rw [first]; rfl) _ calls)
      have number := sound.number?_idOf above
      rw [← same, sound.number?_idOf (live m here)] at number
      exact new (Option.some.inj number ▸ here)
    · intro closed top first caller calls
      obtain ⟨n, top, rfl⟩ := Option.map_eq_some_iff.mp first
      have below := live n (List.mem_of_mem_head? top)
      obtain ⟨f, d, found, found', edge⟩ := calls
      obtain ⟨above, rfl⟩ := sound.idOf_eq found
      rw [sound.number?_idOf below] at found'
      obtain rfl := Option.some.inj found'
      by_contra new
      refine closed f (mem_onward.mpr ⟨⟨_, top, sound.mem_callerNumbers.mpr ⟨edge, above.2⟩⟩, fun here => ?_⟩)
      exact new (List.mem_map_of_mem here)
  constructor
  · rintro ⟨-, -, chain, simple, closed⟩
    exact ⟨⟨linked.mp chain, simple.of_map t.idOf⟩, topped.mp closed⟩
  · rintro ⟨⟨chain, simple⟩, closed⟩
    refine ⟨by rw [contains, found]; rfl, ?_, linked.mpr chain, simple.map_on inj, topped.mpr closed⟩
    rw [List.getLast?_map, ends, Option.map_some, (sound.idOf_eq found).2]

/-- The numbers found are those of the ways down to a criterion, all of them live. -/
theorem mem_full_iff (sound : t.Sound) (live : t.IsLive i) {p : List Nat} :
    p ∈ full t.callerNumbers (t.order + 1) [i] ↔
      Ways.IsWay t.callerNumbers p ∧ p.getLast? = some i ∧ onward t.callerNumbers p = [] := by
  have suffix : [i] <:+ p ↔ p.getLast? = some i := by
    rw [List.getLast?_eq_some_iff]
    exact ⟨fun ⟨ext, same⟩ => ⟨ext, same.symm⟩, fun ⟨ext, same⟩ => ⟨ext, same.symm⟩⟩
  rw [← suffix]
  refine mem_full (fun n c caller => (sound.live_of_caller caller).1) (List.cons_ne_nil _ _)
    ⟨.singleton i, List.nodup_singleton i⟩ (List.forall_mem_singleton.mpr live.1) ?_
  rw [List.length_singleton]
  unfold order
  omega

theorem live_of_isWay (sound : t.Sound) {p : List Nat} (isWay : Ways.IsWay t.callerNumbers p) (live : t.IsLive i)
    (ends : p.getLast? = some i) : ∀ n ∈ p, t.IsLive n := by
  refine forall_of_isChain isWay.linked (fun z last => ?_) fun _ _ => sound.live_of_caller
  rw [ends] at last
  exact Option.some.inj last ▸ live

/-- Criteria that are in the tree have numbers. -/
theorem exists_numbers (sound : t.Sound) (inTree : ∀ id ∈ way, t.contains id = true) :
    ∃ p : List Nat, (∀ n ∈ p, t.IsLive n) ∧ p.map t.idOf = way := by
  induction way with
  | nil => exact ⟨[], nofun, rfl⟩
  | cons id rest ih =>
    obtain ⟨here, later⟩ := List.forall_mem_cons.mp inTree
    obtain ⟨i, found⟩ := Option.isSome_iff_exists.mp here
    obtain ⟨live, named⟩ := sound.idOf_eq found
    obtain ⟨p, all, rfl⟩ := ih later
    exact ⟨i :: p, List.forall_mem_cons.mpr ⟨live, all⟩, by rw [List.map_cons, named]⟩

end Sound

theorem paths_eq (found : t.number? root = some i) :
    t.paths limit root = (upTo limit (full t.callerNumbers (t.order + 1) [i])).map (·.map t.idOf) := by
  simp only [paths, found, extendPath_eq t limit _ [i] (.nil limit), List.nil_append]

/-- The ways found without a limit are the ways down to the criterion. -/
theorem Sound.mem_paths (sound : t.Sound) : way ∈ t.paths 0 root ↔ t.IsWay root way := by
  cases found : t.number? root with
  | none =>
    simp only [paths, found, List.not_mem_nil, false_iff]
    intro isWay
    have live := isWay.live
    rw [contains, found] at live
    cases live
  | some i =>
    obtain ⟨live, named⟩ := sound.idOf_eq found
    rw [paths_eq found, List.mem_map]
    constructor
    · rintro ⟨p, member, rfl⟩
      obtain ⟨isWay, ends, closed⟩ := (sound.mem_full_iff live).mp member
      exact (sound.isWay_iff (sound.live_of_isWay isWay live ends) found ends).mpr ⟨isWay, closed⟩
    · intro isWay
      have inTree : ∀ id ∈ way, t.contains id = true := by
        refine forall_of_isChain isWay.linked (fun z last => ?_) fun _ _ => contains_of_calls
        rw [isWay.ends] at last
        exact Option.some.inj last ▸ isWay.live
      obtain ⟨p, all, rfl⟩ := sound.exists_numbers inTree
      obtain ⟨j, last, same⟩ := Option.map_eq_some_iff.mp (List.getLast?_map .. ▸ isWay.ends)
      have number := sound.number?_idOf (all j (List.mem_of_getLast? last))
      rw [same, found] at number
      obtain rfl := Option.some.inj number
      obtain ⟨isWay', closed⟩ := (sound.isWay_iff all found last).mp isWay
      exact ⟨p, (sound.mem_full_iff live).mpr ⟨isWay', last, closed⟩, rfl⟩

/-- No way is found twice, -/
theorem Sound.nodup_paths (sound : t.Sound) : (t.paths 0 root).Nodup := by
  cases found : t.number? root with
  | none => simp only [paths, found, List.nodup_nil]
  | some i =>
    obtain ⟨live, -⟩ := sound.idOf_eq found
    have nodup : ∀ n, (t.callerNumbers n).Nodup := fun n => (sound.nodup n).filter _
    rw [paths_eq found]
    refine (nodup_full nodup).map_on fun p member q member' same => ?_
    have numbered : ∀ p ∈ full t.callerNumbers (t.order + 1) [i], (p.map t.idOf).map t.number? = p.map some := by
      intro p member
      obtain ⟨isWay, ends, -⟩ := (sound.mem_full_iff live).mp member
      rw [List.map_map]
      exact List.map_congr_left fun n here => sound.number?_idOf (sound.live_of_isWay isWay live ends n here)
    have both := numbered p member
    rw [same, numbered q member'] at both
    exact (List.map_injective_iff.mpr (Option.some_injective Nat) both).symm

/-- and a limit leaves the first ones of them. -/
theorem paths_of_limit (some : limit ≠ 0) : t.paths limit root = (t.paths 0 root).take limit := by
  cases found : t.number? root with
  | none => simp only [paths, found, List.take_nil]
  | some i => rw [paths_eq found, paths_eq found, upTo, upTo, if_neg some, if_pos rfl, List.map_take]

end MisuseSlice.CriteriaTree
