import Mathlib
import MisuseSlice.Proofs.Slice.Tree
import MisuseSlice.Proofs.Sorting

/-! The tree of criteria as a labelled graph. What the tree answers for a criterion is told by the changes that made it:
which criteria were added and not removed since, and which links were ever made. The numbers and the rows of links that
the tree keeps for them show nowhere. -/
namespace MisuseSlice.CriteriaTree

variable {t : CriteriaTree} {a b x y id source target : String} {i j f d n : Nat}

/-- The rows of links between numbers, none of them twice in a row, are those of a relation. -/
structure Lists (links : List (List Nat)) (n : Nat) (R : Nat → Nat → Prop) : Prop where
  size : links.length = n
  mem : ∀ i j, j ∈ links.getD i [] ↔ R i j
  nodup : ∀ i, (links.getD i []).Nodup

namespace Lists

variable {links : List (List Nat)} {R R' : Nat → Nat → Prop}

theorem congr (lists : Lists links n R) (same : ∀ i j, R i j ↔ R' i j) : Lists links n R' :=
  ⟨lists.size, fun i j => (lists.mem i j).trans (same i j), lists.nodup⟩

/-- One more number has no links. -/
theorem grow (lists : Lists links n R) : Lists (links ++ [[]]) (n + 1) R := by
  refine ⟨by simp [lists.size], fun i j => ?_, fun i => ?_⟩
  · rw [getD_concat_default]
    exact lists.mem i j
  · rw [getD_concat_default]
    exact lists.nodup i

/-- A new link stands at the end of its row. -/
theorem insert (lists : Lists links n R) (inside : f < n) (new : ¬R f d) :
    Lists (links.modify f (· ++ [d])) n fun i j => R i j ∨ (i = f ∧ j = d) := by
  have row : ∀ i, (links.modify f (· ++ [d])).getD i [] = links.getD i [] ++ if i = f then [d] else [] := by
    intro i
    simp only [getD_modify_concat, lists.size, inside, and_true]
  refine ⟨by simpa using lists.size, fun i j => ?_, fun i => ?_⟩
  · rw [row, List.mem_append, lists.mem]
    refine or_congr Iff.rfl ?_
    by_cases same : i = f <;> simp [same]
  · rw [row]
    split
    · rename_i same
      subst same
      have fresh : d ∉ links.getD i [] := fun member => new ((lists.mem i d).mp member)
      exact (lists.nodup i).append (List.nodup_singleton d) (List.disjoint_singleton.mpr fresh)
    · rw [List.append_nil]
      exact lists.nodup i

end Lists

/-- The entry of an edge: its ends and direction, the ends of an undirected one in ascending order. -/
def entry (directed : Bool) (f d : Nat) : Nat × Nat × Bool :=
  if directed then (f, d, true) else (min f d, max f d, false)

/-- All that is kept for a number fits together, and no undirected edge has one end. -/
structure Complete (t : CriteriaTree) : Prop where
  sound : t.Sound
  levels : t.levels.length = t.ids.length
  removed : t.removed.length = t.ids.length
  callees : Lists t.callees t.ids.length fun f d => entry true f d ∈ t.edges
  neighbors : Lists t.neighbors t.ids.length fun f d => entry false f d ∈ t.edges
  apart : ∀ f, entry false f f ∉ t.edges

/-- The level of a criterion that was ever in the tree. -/
def level? (t : CriteriaTree) (id : String) : Option Int := t.numbers[id]?.map (t.levels.getD · 0)

/-- The edges of the tree have one between the criteria, be they removed or not. -/
def Links (t : CriteriaTree) (directed : Bool) (a b : String) : Prop :=
  ∃ f d, t.ids[f]? = some a ∧ t.ids[d]? = some b ∧ entry directed f d ∈ t.edges

theorem level_eq : t.level id = (t.level? id).getD 0 := by
  unfold level level?
  cases t.numbers[id]? <;> rfl

theorem entry_inj {f' d' : Nat} {directed directed' : Bool} : entry directed' f' d' = entry directed f d ↔
    directed' = directed ∧ ((f' = f ∧ d' = d) ∨ (directed = false ∧ f' = d ∧ d' = f)) := by
  unfold entry
  cases directed <;> cases directed' <;> simp
  omega

theorem Sound.entry_lt (sound : t.Sound) {directed : Bool} (edge : entry directed f d ∈ t.edges) :
    f < t.ids.length ∧ d < t.ids.length := by
  unfold entry at edge
  split at edge
  · exact sound.ends f d true edge
  · have inside := sound.ends _ _ false edge
    omega

theorem Sound.contains_iff (sound : t.Sound) :
    t.contains id = true ↔ ∃ i, t.ids[i]? = some id ∧ t.isRemoved i = false := by
  simp only [contains, Option.isSome_iff_exists, sound.number?_eq_some]

theorem Sound.number_unique (sound : t.Sound) (here : t.ids[i]? = some x) (there : t.ids[j]? = some x) : i = j :=
  Option.some.inj (((sound.numbers x i).mpr here).symm.trans ((sound.numbers x j).mpr there))

theorem Sound.level?_of_getElem? (sound : t.Sound) (here : t.ids[i]? = some id) : t.level? id = some (t.levels.getD i 0) := by
  rw [level?, (sound.numbers id i).mpr here]
  rfl

theorem Sound.level?_eq_none (sound : t.Sound) : t.level? id = none ↔ id ∉ t.ids := by
  rw [level?, Option.map_eq_none_iff, List.mem_iff_getElem?]
  constructor
  · rintro unknown ⟨i, here⟩
    rw [(sound.numbers id i).mpr here] at unknown
    cases unknown
  · intro unknown
    rw [Option.eq_none_iff_forall_ne_some]
    exact fun i found => unknown ⟨i, (sound.numbers id i).mp found⟩

theorem unknown_iff : t.numbers[id]? = none ↔ t.level? id = none := by
  rw [level?, Option.map_eq_none_iff]

/-- The tree with a criterion that it did not know. -/
def appended (t : CriteriaTree) (id : String) (level : Int) : CriteriaTree :=
  { t with
    ids := t.ids ++ [id], numbers := t.numbers.insert id t.ids.length
    levels := t.levels ++ [level], removed := t.removed ++ [false]
    callers := t.callers ++ [[]], callees := t.callees ++ [[]], neighbors := t.neighbors ++ [[]] }

theorem add_of_unknown (unknown : t.numbers[id]? = none) (level : Int) :
    t.add id level = (t.ids.length, t.appended id level) := by
  unfold add
  rw [unknown]
  rfl

theorem add_of_known (found : t.numbers[id]? = some i) (level : Int) :
    t.add id level = (i, { t with removed := t.removed.set i false }) := by
  unfold add
  rw [found]

theorem getElem?_ids_appended {level : Int} :
    (t.appended id level).ids[i]? = some x ↔ t.ids[i]? = some x ∨ (i = t.ids.length ∧ x = id) := by
  rw [appended, List.getElem?_append]
  by_cases inside : i < t.ids.length
  · simp [inside, inside.ne]
  · have first : i - t.ids.length = 0 ↔ i = t.ids.length := by omega
    rw [if_neg inside, List.getElem?_eq_none (Nat.not_lt.mp inside), List.getElem?_singleton]
    simp only [first]
    by_cases last : i = t.ids.length <;> simp [last, eq_comm]

theorem isRemoved_appended {level : Int} : (t.appended id level).isRemoved i = t.isRemoved i := by
  simp only [isRemoved, appended, getD_concat_default]

namespace Complete

theorem level?_appended (complete : t.Complete) (level : Int) (unknown : t.numbers[id]? = none) (x : String) :
    (t.appended id level).level? x = (t.level? x).or (if x = id then some level else none) := by
  have sound : (t.appended id level).Sound := complete.sound.append level unknown
  by_cases same : x = id
  · subst same
    have last : (t.appended x level).ids[t.ids.length]? = some x := getElem?_ids_appended.mpr (.inr ⟨rfl, rfl⟩)
    rw [sound.level?_of_getElem? last, unknown_iff.mp unknown, if_pos rfl, CriteriaTree.appended, ← complete.levels]
    simp
  · rw [if_neg same]
    by_cases known : x ∈ t.ids
    · obtain ⟨i, here⟩ := List.mem_iff_getElem?.mp known
      have inside : i < t.levels.length := by
        rw [complete.levels]
        exact (List.getElem?_eq_some_iff.mp here).1
      rw [sound.level?_of_getElem? (getElem?_ids_appended.mpr (.inl here)), complete.sound.level?_of_getElem? here,
        CriteriaTree.appended, List.getD_eq_getElem?_getD, List.getElem?_append_left inside, List.getD_eq_getElem?_getD]
      rfl
    · have still : x ∉ (t.appended id level).ids := by simp [CriteriaTree.appended, known, same]
      rw [sound.level?_eq_none.mpr still, complete.sound.level?_eq_none.mpr known]
      rfl

theorem contains_appended (complete : t.Complete) (level : Int) (unknown : t.numbers[id]? = none) (x : String) :
    (t.appended id level).contains x = true ↔ t.contains x = true ∨ x = id := by
  have sound : (t.appended id level).Sound := complete.sound.append level unknown
  rw [sound.contains_iff, complete.sound.contains_iff]
  simp only [getElem?_ids_appended, isRemoved_appended]
  constructor
  · rintro ⟨i, here | ⟨-, rfl⟩, live⟩
    · exact .inl ⟨i, here, live⟩
    · exact .inr rfl
  · rintro (⟨i, here, live⟩ | rfl)
    · exact ⟨i, .inl here, live⟩
    · refine ⟨t.ids.length, .inr ⟨rfl, rfl⟩, ?_⟩
      rw [isRemoved, List.getD_eq_getElem?_getD, List.getElem?_eq_none complete.removed.le]
      rfl

/-- No edge has a criterion that the tree did not know. -/
theorem links_appended (complete : t.Complete) (level : Int) (directed : Bool) (a b : String) :
    (t.appended id level).Links directed a b ↔ t.Links directed a b := by
  constructor
  · rintro ⟨f, d, source, target, edge⟩
    have inside := complete.sound.entry_lt edge
    have source := (getElem?_ids_appended.mp source).resolve_right fun last => by omega
    have target := (getElem?_ids_appended.mp target).resolve_right fun last => by omega
    exact ⟨f, d, source, target, edge⟩
  · rintro ⟨f, d, source, target, edge⟩
    exact ⟨f, d, getElem?_ids_appended.mpr (.inl source), getElem?_ids_appended.mpr (.inl target), edge⟩

/-- A criterion that the tree did not know is there with its level, and no edge has it. -/
theorem appended (complete : t.Complete) (level : Int) (unknown : t.numbers[id]? = none) :
    (t.appended id level).Complete ∧
      (∀ x, (t.appended id level).level? x = (t.level? x).or (if x = id then some level else none)) ∧
      (∀ x, (t.appended id level).contains x = true ↔ t.contains x = true ∨ x = id) ∧
      ∀ directed a b, (t.appended id level).Links directed a b ↔ t.Links directed a b := by
  have sound : (t.appended id level).Sound := complete.sound.append level unknown
  have size : (t.appended id level).ids.length = t.ids.length + 1 := List.length_append
  refine ⟨⟨sound, ?_, ?_, ?_, ?_, complete.apart⟩, complete.level?_appended level unknown,
    complete.contains_appended level unknown, complete.links_appended level⟩
  · rw [size, ← complete.levels]
    exact List.length_append
  · rw [size, ← complete.removed]
    exact List.length_append
  · rw [size]
    exact complete.callees.grow
  · rw [size]
    exact complete.neighbors.grow

/-- Marking a criterion as removed or not decides whether it is in the tree, and changes nothing else. -/
theorem marked (complete : t.Complete) (here : t.ids[i]? = some id) (gone : Bool) :
    Complete { t with removed := t.removed.set i gone } ∧
      ∀ x, contains { t with removed := t.removed.set i gone } x = true ↔
        if x = id then gone = false else t.contains x = true := by
  have sound := complete.sound
  have inside : i < t.removed.length := by
    rw [complete.removed]
    exact (List.getElem?_eq_some_iff.mp here).1
  have marked : Sound { t with removed := t.removed.set i gone } :=
    ⟨sound.numbers, sound.size, sound.ends, sound.callers, sound.nodup⟩
  refine ⟨⟨marked, complete.levels, ?_, complete.callees, complete.neighbors, complete.apart⟩, fun x => ?_⟩
  · rw [List.length_set]
    exact complete.removed
  · rw [marked.contains_iff, sound.contains_iff]
    have one : ∀ j, (t.removed.set i gone).getD j false = if i = j then gone else t.removed.getD j false := by
      intro j
      rw [List.getD_eq_getElem?_getD, List.getElem?_set, List.getD_eq_getElem?_getD]
      split
      · simp
      · rfl
    simp only [isRemoved, one]
    by_cases same : x = id
    · subst same
      rw [if_pos rfl]
      constructor
      · rintro ⟨j, there, live⟩
        obtain rfl := sound.number_unique here there
        simpa using live
      · exact fun live => ⟨i, here, by simpa using live⟩
    · rw [if_neg same]
      refine exists_congr fun j => and_congr_right fun there => ?_
      have other : i ≠ j := by
        rintro rfl
        exact same (Option.some.inj (there.symm.trans here))
      rw [if_neg other]

/-- Adding a criterion puts it into the tree. It gets the level if it was never there. -/
theorem add (complete : t.Complete) (id : String) (level : Int) :
    (t.add id level).2.Complete ∧
      (∀ x, (t.add id level).2.level? x = (t.level? x).or (if x = id then some level else none)) ∧
      (∀ x, (t.add id level).2.contains x = true ↔ t.contains x = true ∨ x = id) ∧
      ∀ directed a b, (t.add id level).2.Links directed a b ↔ t.Links directed a b := by
  cases found : t.numbers[id]? with
  | none =>
    rw [add_of_unknown found]
    exact complete.appended level found
  | some i =>
    have here := (complete.sound.numbers id i).mp found
    obtain ⟨complete', contains⟩ := complete.marked here false
    rw [add_of_known found]
    refine ⟨complete', fun x => ?_, fun x => ?_, fun directed a b => Iff.rfl⟩
    · have same : level? { t with removed := t.removed.set i false } x = t.level? x := rfl
      rw [same]
      split
      · rename_i named
        subst named
        rw [complete.sound.level?_of_getElem? here]
        rfl
      · cases t.level? x <;> rfl
    · rw [contains]
      split
      · rename_i named
        simp [named]
      · rename_i other
        simp [other]

/-- A criterion that an edge names is numbered. It gets into the tree only if it was never there. -/
theorem numberOrAdd (complete : t.Complete) (id : String) :
    (t.numberOrAdd id).2.Complete ∧ (t.numberOrAdd id).2.ids[(t.numberOrAdd id).1]? = some id ∧
      (∀ (i : Nat) x, t.ids[i]? = some x → (t.numberOrAdd id).2.ids[i]? = some x) ∧
      (∀ x, (t.numberOrAdd id).2.level? x = (t.level? x).or (if x = id then some 0 else none)) ∧
      (∀ x, (t.numberOrAdd id).2.contains x = true ↔ t.contains x = true ∨ (x = id ∧ t.level? x = none)) ∧
      ∀ directed a b, (t.numberOrAdd id).2.Links directed a b ↔ t.Links directed a b := by
  unfold CriteriaTree.numberOrAdd
  cases found : t.numbers[id]? with
  | none =>
    obtain ⟨complete', level, contains, links⟩ := complete.appended 0 found
    dsimp only
    rw [add_of_unknown found]
    refine ⟨complete', getElem?_ids_appended.mpr (.inr ⟨rfl, rfl⟩), fun i x here => getElem?_ids_appended.mpr (.inl here),
      level, fun x => ?_, links⟩
    rw [contains]
    refine or_congr_right (iff_self_and.mpr ?_)
    rintro rfl
    exact unknown_iff.mp found
  | some i =>
    have here := (complete.sound.numbers id i).mp found
    have known := complete.sound.level?_of_getElem? here
    dsimp only
    refine ⟨complete, here, fun i x old => old, fun x => ?_, fun x => ?_, fun _ _ _ => Iff.rfl⟩
    · by_cases named : x = id
      · rw [named, known]
        rfl
      · rw [if_neg named]
        cases t.level? x <;> rfl
    · refine (or_iff_left ?_).symm
      rintro ⟨rfl, unknown⟩
      rw [known] at unknown
      cases unknown

end Complete

/-- Adds an edge between two numbers once. -/
def connect (t : CriteriaTree) (f d : Nat) (directed : Bool) : CriteriaTree :=
  if t.edges.contains (entry directed f d) then t
  else if directed then
    { t with
      edges := t.edges ++ [entry directed f d]
      callees := t.callees.modify f (· ++ [d]), callers := t.callers.modify d (· ++ [f]) }
  else
    { t with
      edges := t.edges ++ [entry directed f d]
      neighbors := (t.neighbors.modify f (· ++ [d])).modify d (· ++ [f]) }

theorem addEdge_eq (source target : String) (directed : Bool) :
    t.addEdge source target directed =
      ((t.numberOrAdd source).2.numberOrAdd target).2.connect (t.numberOrAdd source).1
        ((t.numberOrAdd source).2.numberOrAdd target).1 directed := by
  unfold addEdge connect entry
  cases directed <;> rfl

/-- Linking two numbers changes no criterion and adds no edge but theirs. -/
theorem connect_view (t : CriteriaTree) (f d : Nat) (directed : Bool) :
    (t.connect f d directed).ids = t.ids ∧ (∀ x, (t.connect f d directed).level? x = t.level? x) ∧
      (∀ x, (t.connect f d directed).contains x = t.contains x) ∧
      ∀ e, e ∈ (t.connect f d directed).edges ↔ e ∈ t.edges ∨ e = entry directed f d := by
  unfold connect
  split
  · rename_i known
    refine ⟨rfl, fun _ => rfl, fun _ => rfl, fun e => (or_iff_left_of_imp ?_).symm⟩
    rintro rfl
    simpa using known
  · split <;> exact ⟨rfl, fun _ => rfl, fun _ => rfl, fun e => by simp⟩

/-- An edge links the criteria with its numbers. -/
theorem links_connect {directed directed' : Bool} (first : t.ids[f]? = some source) (second : t.ids[d]? = some target) :
    (t.connect f d directed).Links directed' a b ↔ t.Links directed' a b ∨
      (directed' = directed ∧ ((a = source ∧ b = target) ∨ (directed = false ∧ a = target ∧ b = source))) := by
  obtain ⟨ids, -, -, edges⟩ := connect_view t f d directed
  simp only [Links, ids, edges, entry_inj]
  constructor
  · rintro ⟨i, j, here, there, edge | ⟨same, ⟨rfl, rfl⟩ | ⟨undirected, rfl, rfl⟩⟩⟩
    · exact .inl ⟨i, j, here, there, edge⟩
    · rw [first] at here
      rw [second] at there
      exact .inr ⟨same, .inl ⟨(Option.some.inj here).symm, (Option.some.inj there).symm⟩⟩
    · rw [second] at here
      rw [first] at there
      exact .inr ⟨same, .inr ⟨undirected, (Option.some.inj here).symm, (Option.some.inj there).symm⟩⟩
  · rintro (⟨i, j, here, there, edge⟩ | ⟨same, ⟨rfl, rfl⟩ | ⟨undirected, rfl, rfl⟩⟩)
    · exact ⟨i, j, here, there, .inl edge⟩
    · exact ⟨f, d, first, second, .inr ⟨same, .inl ⟨rfl, rfl⟩⟩⟩
    · exact ⟨d, f, second, first, .inr ⟨same, .inr ⟨undirected, rfl, rfl⟩⟩⟩

namespace Complete

theorem connect (complete : t.Complete) {directed : Bool} (inside : f < t.ids.length) (inside' : d < t.ids.length)
    (apart : directed = false → f ≠ d) : (t.connect f d directed).Complete := by
  unfold CriteriaTree.connect
  split
  · exact complete
  · rename_i known
    have new : entry directed f d ∉ t.edges := by simpa using known
    cases directed with
    | true =>
      refine ⟨complete.sound.point inside inside' new _, complete.levels, complete.removed, ?_, ?_, fun i edge => ?_⟩
      · refine (complete.callees.insert inside new).congr fun i j => ?_
        simp [entry_inj]
      · refine complete.neighbors.congr fun i j => ?_
        simp [entry_inj]
      · refine complete.apart i ?_
        simpa [entry_inj] using edge
    | false =>
      have apart := apart rfl
      have sym : ∀ i j, entry false i j = entry false j i := fun i j => entry_inj.mpr ⟨rfl, .inr ⟨rfl, rfl, rfl⟩⟩
      have new' : ¬(entry false d f ∈ t.edges ∨ (d = f ∧ f = d)) := by
        rw [sym]
        rintro (edge | ⟨same, -⟩)
        · exact new edge
        · exact apart same.symm
      have joined := complete.sound.join (f := min f d) (d := max f d) (by omega) (by omega)
        ((t.neighbors.modify f (· ++ [d])).modify d (· ++ [f]))
      refine ⟨joined, complete.levels, complete.removed, ?_, ?_, fun i edge => ?_⟩
      · refine complete.callees.congr fun i j => ?_
        simp [entry_inj]
      · refine ((complete.neighbors.insert inside new).insert inside' new').congr fun i j => ?_
        simp [entry_inj, or_assoc]
      · rcases List.mem_append.mp edge with old | last
        · exact complete.apart i old
        · have same := entry_inj.mp (List.mem_singleton.mp last)
          omega

/-- An edge makes the criteria at its ends known and links them. -/
theorem addEdge (complete : t.Complete) {directed : Bool} (apart : directed = false → source ≠ target) :
    (t.addEdge source target directed).Complete ∧
      (∀ x, (t.addEdge source target directed).level? x =
        (t.level? x).or (if x = source ∨ x = target then some 0 else none)) ∧
      (∀ x, (t.addEdge source target directed).contains x = true ↔
        t.contains x = true ∨ ((x = source ∨ x = target) ∧ t.level? x = none)) ∧
      ∀ directed' a b, (t.addEdge source target directed).Links directed' a b ↔ t.Links directed' a b ∨
        (directed' = directed ∧ ((a = source ∧ b = target) ∨ (directed = false ∧ a = target ∧ b = source))) := by
  rw [addEdge_eq]
  obtain ⟨complete₁, first, -, level₁, contains₁, links₁⟩ := complete.numberOrAdd source
  generalize t.numberOrAdd source = result at *
  obtain ⟨f, t₁⟩ := result
  dsimp only at *
  obtain ⟨complete₂, second, kept, level₂, contains₂, links₂⟩ := complete₁.numberOrAdd target
  generalize t₁.numberOrAdd target = result at *
  obtain ⟨d, t₂⟩ := result
  dsimp only at *
  have first := kept _ _ first
  obtain ⟨-, level₃, contains₃, -⟩ := connect_view t₂ f d directed
  refine ⟨?_, fun x => ?_, fun x => ?_, fun directed' a b => ?_⟩
  · refine complete₂.connect (List.getElem?_eq_some_iff.mp first).1 (List.getElem?_eq_some_iff.mp second).1
      fun undirected same => apart undirected ?_
    subst same
    exact Option.some.inj (first.symm.trans second)
  · rw [level₃, level₂, level₁]
    cases t.level? x with
    | some level => rfl
    | none => by_cases here : x = source <;> simp [here]
  · rw [contains₃, contains₂, contains₁, level₁]
    cases t.level? x with
    | some level => simp
    | none => by_cases here : x = source <;> simp [here]
  · rw [links_connect first second, links₂, links₁]

/-- A criterion that is removed is no longer in the tree; its level and its edges stay. -/
theorem remove (complete : t.Complete) (id : String) :
    (t.remove id).Complete ∧ (∀ x, (t.remove id).level? x = t.level? x) ∧
      (∀ x, (t.remove id).contains x = true ↔ t.contains x = true ∧ x ≠ id) ∧
      ∀ directed a b, (t.remove id).Links directed a b ↔ t.Links directed a b := by
  unfold CriteriaTree.remove
  cases found : t.numbers[id]? with
  | none =>
    refine ⟨complete, fun _ => rfl, fun x => (and_iff_left_of_imp ?_).symm, fun _ _ _ => Iff.rfl⟩
    rintro inTree rfl
    obtain ⟨i, here, -⟩ := complete.sound.contains_iff.mp inTree
    rw [(complete.sound.numbers x i).mpr here] at found
    cases found
  | some i =>
    obtain ⟨complete', contains⟩ := complete.marked ((complete.sound.numbers id i).mp found) true
    refine ⟨complete', fun _ => rfl, fun x => ?_, fun _ _ _ => Iff.rfl⟩
    rw [contains]
    split <;> simp [*]

end Complete

section

variable {links : List (List Nat)} {R : Nat → Nat → Prop} (sound : t.Sound) (lists : Lists links t.ids.length R)
  (inside : ∀ i j, R i j → j < t.ids.length)

include sound lists inside

/-- The criteria that rows of links give for one in the tree are those in the tree that it is linked to. -/
theorem mem_idsOf : y ∈ t.idsOf links x ↔ ∃ i j, t.number? x = some i ∧ t.number? y = some j ∧ R i j := by
  unfold idsOf
  cases found : t.number? x with
  | none => simp
  | some i =>
    simp only [Text.sort, Sorting.mem_sort, CriteriaTree.live, List.mem_map, List.mem_filter, lists.mem, Bool.not_eq_true']
    constructor
    · rintro ⟨j, ⟨link, live⟩, rfl⟩
      exact ⟨i, j, rfl, sound.number?_idOf ⟨inside i j link, live⟩, link⟩
    · rintro ⟨_, j, ⟨⟩, there, link⟩
      obtain ⟨live, named⟩ := sound.idOf_eq there
      exact ⟨j, ⟨link, live.2⟩, named⟩

/-- They are sorted, none of them twice. -/
theorem pairwise_idsOf : (t.idsOf links x).Pairwise (· < ·) := by
  unfold idsOf
  cases t.number? x with
  | none => exact .nil
  | some i =>
    refine Text.pairwise_sort (((lists.nodup i).filter _).map_on fun j here k there same => ?_)
    have live : ∀ j ∈ t.live (links.getD i []), t.number? (t.idOf j) = some j := by
      intro j member
      obtain ⟨member, live⟩ := List.mem_filter.mp member
      exact sound.number?_idOf ⟨inside i j ((lists.mem i j).mp member), by simpa using live⟩
    have number := live j here
    rw [same, live k there] at number
    exact (Option.some.inj number).symm

end

namespace Complete

/-- Criteria in the tree are linked as their numbers are. -/
theorem links_iff (complete : t.Complete) {directed : Bool} :
    (∃ i j, t.number? x = some i ∧ t.number? y = some j ∧ entry directed i j ∈ t.edges) ↔
      t.contains x = true ∧ t.contains y = true ∧ t.Links directed x y := by
  have sound := complete.sound
  simp only [sound.number?_eq_some, sound.contains_iff]
  constructor
  · rintro ⟨i, j, ⟨here, live⟩, ⟨there, live'⟩, edge⟩
    exact ⟨⟨i, here, live⟩, ⟨j, there, live'⟩, i, j, here, there, edge⟩
  · rintro ⟨⟨i, here, live⟩, ⟨j, there, live'⟩, f, d, first, second, edge⟩
    obtain rfl := sound.number_unique here first
    obtain rfl := sound.number_unique there second
    exact ⟨i, j, ⟨here, live⟩, ⟨there, live'⟩, edge⟩

theorem callers (complete : t.Complete) : Lists t.callers t.ids.length fun d f => entry true f d ∈ t.edges :=
  ⟨complete.sound.size, fun d f => complete.sound.callers f d, complete.sound.nodup⟩

/-- The callers of a criterion, sorted and none of them twice. -/
theorem callersOf (complete : t.Complete) : (t.callersOf x).Pairwise (· < ·) ∧
    ∀ y, y ∈ t.callersOf x ↔ t.contains y = true ∧ t.contains x = true ∧ t.Links true y x := by
  have inside : ∀ d f, entry true f d ∈ t.edges → f < t.ids.length := fun d f edge => (complete.sound.entry_lt edge).1
  refine ⟨pairwise_idsOf complete.sound complete.callers inside, fun y => ?_⟩
  rw [CriteriaTree.callersOf, mem_idsOf complete.sound complete.callers inside, ← complete.links_iff, exists_comm]
  exact exists_congr fun i => exists_congr fun j => and_left_comm

/-- The callees of a criterion, sorted and none of them twice. -/
theorem calleesOf (complete : t.Complete) : (t.calleesOf x).Pairwise (· < ·) ∧
    ∀ y, y ∈ t.calleesOf x ↔ t.contains x = true ∧ t.contains y = true ∧ t.Links true x y := by
  have inside : ∀ f d, entry true f d ∈ t.edges → d < t.ids.length := fun f d edge => (complete.sound.entry_lt edge).2
  refine ⟨pairwise_idsOf complete.sound complete.callees inside, fun y => ?_⟩
  rw [CriteriaTree.calleesOf, mem_idsOf complete.sound complete.callees inside, complete.links_iff]

/-- The neighbors of a criterion, sorted and none of them twice. -/
theorem neighborsOf (complete : t.Complete) : (t.neighborsOf x).Pairwise (· < ·) ∧
    ∀ y, y ∈ t.neighborsOf x ↔ t.contains x = true ∧ t.contains y = true ∧ t.Links false x y := by
  have inside : ∀ f d, entry false f d ∈ t.edges → d < t.ids.length := fun f d edge => (complete.sound.entry_lt edge).2
  refine ⟨pairwise_idsOf complete.sound complete.neighbors inside, fun y => ?_⟩
  rw [CriteriaTree.neighborsOf, mem_idsOf complete.sound complete.neighbors inside, complete.links_iff]

end Complete

/-- A change of a tree. -/
inductive Change where
  | add (id : String) (level : Int)
  | link (source target : String) (directed : Bool)
  | remove (id : String)

namespace Change

/-- The tree after a change. -/
def apply (t : CriteriaTree) : Change → CriteriaTree
  | add id level => (t.add id level).2
  | link source target directed => t.addEdge source target directed
  | remove id => t.remove id

/-- The level that a change gives to a criterion that it is the first to name. -/
def level? (x : String) : Change → Option Int
  | add id level => if x = id then some level else none
  | link source target _ => if x = source ∨ x = target then some 0 else none
  | remove _ => none

/-- After the changes before it, a change adds a criterion: it says so, or it is the first to name it and links it. -/
def Adds (x : String) (before : List Change) : Change → Prop
  | add id _ => x = id
  | link source target _ => (x = source ∨ x = target) ∧ before.findSome? (level? x) = none
  | remove _ => False

end Change

variable {cs : List Change} {c : Change}

/-- The tree that changes make. -/
def ofChanges (cs : List Change) : CriteriaTree := cs.foldl Change.apply {}

/-- The level that a criterion was first added with. -/
def firstLevel? (cs : List Change) (x : String) : Option Int := cs.findSome? (Change.level? x)

/-- Some change adds a criterion, and no later one removes it; so nothing removes it after it was added last. -/
def IsAlive (cs : List Change) (x : String) : Prop :=
  ∃ before c behind, cs = before ++ c :: behind ∧ c.Adds x before ∧ .remove x ∉ behind

/-- Some change links two criteria; where the link is not directed, their order does not matter. -/
def AreLinked (cs : List Change) (directed : Bool) (a b : String) : Prop :=
  .link a b directed ∈ cs ∨ (directed = false ∧ .link b a false ∈ cs)

/-- One more change adds a criterion, or leaves it unless it removes it. -/
theorem isAlive_concat : IsAlive (cs ++ [c]) x ↔ (IsAlive cs x ∧ c ≠ .remove x) ∨ c.Adds x cs := by
  constructor
  · rintro ⟨before, d, behind, parts, adds, stays⟩
    rcases List.eq_nil_or_concat behind with rfl | ⟨behind, last, rfl⟩
    · obtain ⟨rfl, same⟩ := List.append_inj' parts rfl
      obtain rfl := List.singleton_inj.mp same
      exact .inr adds
    · have parts : cs ++ [c] = (before ++ d :: behind) ++ [last] := by simpa using parts
      obtain ⟨rfl, same⟩ := List.append_inj' parts rfl
      obtain rfl := List.singleton_inj.mp same
      simp only [List.concat_eq_append, List.mem_append, List.mem_singleton, not_or] at stays
      exact .inl ⟨⟨before, d, behind, rfl, adds, stays.1⟩, Ne.symm stays.2⟩
  · rintro (⟨⟨before, d, behind, rfl, adds, stays⟩, other⟩ | adds)
    · refine ⟨before, d, behind ++ [c], by simp, adds, ?_⟩
      simpa [stays] using other.symm
    · exact ⟨cs, c, [], rfl, adds, List.not_mem_nil⟩

/-- What a tree answers is what the changes tell. -/
structure Reflects (t : CriteriaTree) (cs : List Change) : Prop where
  complete : t.Complete
  level : ∀ x, t.level? x = firstLevel? cs x
  alive : ∀ x, t.contains x = true ↔ IsAlive cs x
  links : ∀ directed a b, t.Links directed a b ↔ AreLinked cs directed a b

namespace Reflects

theorem empty : Reflects {} [] := by
  refine ⟨⟨.empty, rfl, rfl, ⟨rfl, by simp, by simp⟩, ⟨rfl, by simp, by simp⟩, by simp⟩, fun x => ?_, fun x => ?_, ?_⟩
  · simp [level?, firstLevel?]
  · simp [contains, number?, IsAlive]
  · simp [Links, AreLinked]

/-- A change of the tree is one more change told. -/
theorem apply (reflects : t.Reflects cs) (apart : ∀ x, c ≠ .link x x false) : (c.apply t).Reflects (cs ++ [c]) := by
  have level : ∀ x, firstLevel? (cs ++ [c]) x = (t.level? x).or (c.level? x) := by
    intro x
    rw [firstLevel?, List.findSome?_append, reflects.level, firstLevel?, List.findSome?_singleton]
  have alive : ∀ x, IsAlive (cs ++ [c]) x ↔ (t.contains x = true ∧ c ≠ .remove x) ∨ c.Adds x cs := fun x => by
    rw [isAlive_concat, reflects.alive]
  have unknown : ∀ x, t.level? x = none ↔ cs.findSome? (Change.level? x) = none := fun x => by
    rw [reflects.level, firstLevel?]
  cases c with
  | add id l =>
    obtain ⟨complete, level', contains, links⟩ := reflects.complete.add id l
    refine ⟨complete, fun x => ?_, fun x => ?_, fun directed a b => ?_⟩
    · rw [level]
      exact level' x
    · rw [alive]
      refine (contains x).trans ?_
      simp [Change.Adds]
    · refine (links directed a b).trans ((reflects.links directed a b).trans ?_)
      simp [AreLinked]
  | link source target directed =>
    have ends : directed = false → source ≠ target := by
      rintro rfl rfl
      exact apart source rfl
    obtain ⟨complete, level', contains, links⟩ := reflects.complete.addEdge ends
    refine ⟨complete, fun x => ?_, fun x => ?_, fun directed' a b => ?_⟩
    · rw [level]
      exact level' x
    · rw [alive]
      refine (contains x).trans ?_
      simp only [Change.Adds, unknown, ne_eq, reduceCtorEq, not_false_eq_true, and_true]
    · refine (links directed' a b).trans ?_
      simp only [reflects.links, AreLinked, List.mem_append, List.mem_singleton, Change.link.injEq]
      grind
  | remove id =>
    obtain ⟨complete, level', contains, links⟩ := reflects.complete.remove id
    refine ⟨complete, fun x => ?_, fun x => ?_, fun directed a b => ?_⟩
    · rw [level]
      exact (level' x).trans (Option.or_none).symm
    · rw [alive]
      refine (contains x).trans ?_
      simp only [Change.Adds, or_false, ne_eq, Change.remove.injEq, eq_comm]
    · refine (links directed a b).trans ((reflects.links directed a b).trans ?_)
      simp [AreLinked]

end Reflects

/-- What changes make tells of all of them. -/
theorem ofChanges_reflects (apart : ∀ x, .link x x false ∉ cs) : (ofChanges cs).Reflects cs := by
  induction cs using List.reverseRecOn with
  | nil => exact .empty
  | append_singleton cs c ih =>
    simp only [List.mem_append, List.mem_singleton, not_or] at apart
    rw [ofChanges, List.foldl_append]
    exact (ih fun x => (apart x).1).apply fun x => Ne.symm (apart x).2

/-- The tree is the labelled graph that changes tell of. The criteria are the nodes; each has the level that it was first
added with, and is there if it was not removed since it was last added. Every link that was ever made counts between two
criteria that are there, also one made while they were not. -/
structure IsGraphOf (t : CriteriaTree) (cs : List Change) : Prop where
  alive : ∀ x, t.contains x = true ↔ IsAlive cs x
  callers : ∀ x, IsAlive cs x → (t.callersOf x).Pairwise (· < ·) ∧
    ∀ y, y ∈ t.callersOf x ↔ IsAlive cs y ∧ .link y x true ∈ cs
  callees : ∀ x, IsAlive cs x → (t.calleesOf x).Pairwise (· < ·) ∧
    ∀ y, y ∈ t.calleesOf x ↔ IsAlive cs y ∧ .link x y true ∈ cs
  neighbors : ∀ x, IsAlive cs x → (t.neighborsOf x).Pairwise (· < ·) ∧
    ∀ y, y ∈ t.neighborsOf x ↔ IsAlive cs y ∧ (.link x y false ∈ cs ∨ .link y x false ∈ cs)
  mirrored : ∀ x y, y ∈ t.callersOf x ↔ x ∈ t.calleesOf y
  symmetric : ∀ x y, y ∈ t.neighborsOf x ↔ x ∈ t.neighborsOf y
  level : ∀ x level, firstLevel? cs x = some level → t.level x = level

theorem Reflects.isGraphOf (reflects : t.Reflects cs) : t.IsGraphOf cs := by
  have complete := reflects.complete
  have symm : ∀ a b, t.Links false a b ↔ t.Links false b a := by
    intro a b
    rw [reflects.links, reflects.links, AreLinked, AreLinked]
    simp [or_comm]
  refine ⟨reflects.alive, fun x alive => ⟨complete.callersOf.1, fun y => ?_⟩,
    fun x alive => ⟨complete.calleesOf.1, fun y => ?_⟩, fun x alive => ⟨complete.neighborsOf.1, fun y => ?_⟩,
    fun x y => ?_, fun x y => ?_, fun x level first => ?_⟩
  · rw [complete.callersOf.2, reflects.alive, reflects.alive, reflects.links, AreLinked]
    simp [alive]
  · rw [complete.calleesOf.2, reflects.alive, reflects.alive, reflects.links, AreLinked]
    simp [alive]
  · rw [complete.neighborsOf.2, reflects.alive, reflects.alive, reflects.links, AreLinked]
    simp [alive]
  · rw [complete.callersOf.2, complete.calleesOf.2]
  · rw [complete.neighborsOf.2, complete.neighborsOf.2, symm]
    exact and_left_comm
  · rw [level_eq, reflects.level, first]
    rfl

/-- Trees that have the same criteria and the same links between them give the same answers. -/
theorem Complete.answers_eq {t' : CriteriaTree} (complete : t.Complete) (complete' : t'.Complete)
    (contains : ∀ x, t'.contains x = true ↔ t.contains x = true)
    (links : ∀ directed a b, t'.Links directed a b ↔ t.Links directed a b) (x : String) :
    t'.callersOf x = t.callersOf x ∧ t'.calleesOf x = t.calleesOf x ∧ t'.neighborsOf x = t.neighborsOf x := by
  refine ⟨complete'.callersOf.1.eq_of_mem_iff complete.callersOf.1 fun y => ?_,
    complete'.calleesOf.1.eq_of_mem_iff complete.calleesOf.1 fun y => ?_,
    complete'.neighborsOf.1.eq_of_mem_iff complete.neighborsOf.1 fun y => ?_⟩
  · rw [complete'.callersOf.2, complete.callersOf.2, contains, contains, links]
  · rw [complete'.calleesOf.2, complete.calleesOf.2, contains, contains, links]
  · rw [complete'.neighborsOf.2, complete.neighborsOf.2, contains, contains, links]

/-- A tree made by adding, linking and removing criteria is the labelled graph that these changes tell of, if no criterion is
linked to itself without a direction. A criterion that is removed and added again has all its links again. -/
theorem ofChanges_isGraphOf (apart : ∀ x, .link x x false ∉ cs) :
    (ofChanges cs).IsGraphOf cs ∧
      ∀ x level, IsAlive cs x → ∀ y, let t' := ofChanges (cs ++ [.remove x, .add x level])
        t'.callersOf y = (ofChanges cs).callersOf y ∧ t'.calleesOf y = (ofChanges cs).calleesOf y ∧
          t'.neighborsOf y = (ofChanges cs).neighborsOf y := by
  have reflects := ofChanges_reflects apart
  refine ⟨reflects.isGraphOf, fun x level alive y => ?_⟩
  obtain ⟨gone, -, left, kept⟩ := reflects.complete.remove x
  obtain ⟨back, -, there, kept'⟩ := gone.add x level
  have same : ofChanges (cs ++ [.remove x, .add x level]) = (((ofChanges cs).remove x).add x level).2 := by
    rw [ofChanges, List.foldl_append]
    rfl
  rw [same]
  refine reflects.complete.answers_eq back (fun z => ?_) (fun directed a b => (kept' directed a b).trans (kept directed a b)) y
  rw [there, left]
  constructor
  · rintro (⟨here, -⟩ | rfl)
    · exact here
    · exact (reflects.alive z).mpr alive
  · intro here
    by_cases named : z = x
    · exact .inr named
    · exact .inl ⟨here, named⟩

/-- A criterion is linked, removed, linked again while it is removed, and added again with another level. -/
def relinking : List Change :=
  [.add "b" 2, .link "a" "b" true, .link "c" "b" false, .remove "b", .link "d" "b" true, .add "b" 5]

/-- The criterion that comes back has its first level, and all its callers and neighbors. -/
theorem relinking_isGraphOf :
    (∀ x, .link x x false ∉ relinking) ∧ IsAlive relinking "b" ∧ .link "d" "b" true ∈ relinking ∧
      "d" ∈ (ofChanges relinking).callersOf "b" ∧ (ofChanges relinking).callersOf "b" = ["a", "d"] ∧
      (ofChanges relinking).level "b" = 2 := by
  have apart : ∀ x, .link x x false ∉ relinking := by
    intro x member
    have same : x = "c" ∧ x = "b" := by simpa [relinking] using member
    exact absurd (same.1.symm.trans same.2) (by decide)
  obtain ⟨graph, -⟩ := ofChanges_isGraphOf apart
  have alive : ∀ x ∈ ["b", "d"], IsAlive relinking x := by
    intro x member
    rw [← graph.alive]
    revert x
    decide +kernel
  have linked : Change.link "d" "b" true ∈ relinking := by simp [relinking]
  refine ⟨apart, alive "b" (by simp), linked, ?_, by decide +kernel, graph.level "b" 2 (by decide +kernel)⟩
  exact ((graph.callers "b" (alive "b" (by simp))).2 "d").mpr ⟨alive "d" (by simp), linked⟩

end MisuseSlice.CriteriaTree
