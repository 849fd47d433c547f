import Mathlib.Data.List.Chain
import Mathlib.Data.List.Nodup
import Mathlib.Data.List.Perm.Subperm
import Mathlib.Data.List.Range
import Mathlib.Tactic.Tauto
import MisuseSlice.Digraph.Cycles

/-! The search for the cycles through one node. As long as it never goes on to a node of its own path, it finds each way
back to the start once. A blocked node off the path only leads to blocked nodes, and waits for each of them, so there is no
way back from it that avoids the path; unblocking a node unblocks all that wait for it. -/
namespace MisuseSlice.Digraph

namespace CycleSearch

variable {s : CycleSearch} {fuel u y z : Nat} {ws : List Nat}

/-- Unblocks the blocked ones of some nodes. -/
def unblockAll (fuel : Nat) (ws : List Nat) (s : CycleSearch) : CycleSearch :=
  ws.foldl (fun s w => if s.blocked.contains w then unblock fuel w s else s) s

theorem unblock_succ : unblock (fuel + 1) u s =
    unblockAll fuel ((s.waiting.filter (·.1 == u)).map (·.2)) { s with blocked := s.blocked.filter (· != u) } := rfl

/-- One state comes from another one by unblocking nodes, together with all that wait for them. -/
structure Unblocks (s s' : CycleSearch) : Prop where
  waiting : s'.waiting = s.waiting
  found : s'.found = s.found
  blocked : s'.blocked.Sublist s.blocked
  closed : ∀ y ∈ s.blocked, y ∉ s'.blocked → ∀ z, (y, z) ∈ s.waiting → z ∉ s'.blocked

theorem Unblocks.refl (s : CycleSearch) : Unblocks s s :=
  ⟨rfl, rfl, List.Sublist.refl _, fun _ member gone => absurd member gone⟩

theorem Unblocks.trans {s' s'' : CycleSearch} (first : Unblocks s s') (second : Unblocks s' s'') : Unblocks s s'' := by
  refine ⟨second.waiting.trans first.waiting, second.found.trans first.found, second.blocked.trans first.blocked, ?_⟩
  intro y member gone z waits
  by_cases kept : y ∈ s'.blocked
  · exact second.closed y kept gone z (first.waiting ▸ waits)
  · exact fun here => first.closed y member kept z waits (second.blocked.subset here)

theorem unblockAll_cons {w : Nat} : unblockAll fuel (w :: ws) s =
    unblockAll fuel ws (if s.blocked.contains w then unblock fuel w s else s) := rfl

/-- Every nested call takes a blocked node away, so one more step than there are other blocked nodes is enough. -/
theorem unblock_unblocks (enough : (s.blocked.filter (· != u)).length < fuel) :
    Unblocks s (unblock fuel u s) ∧ u ∉ (unblock fuel u s).blocked ∧
      ∀ z, (u, z) ∈ s.waiting → z ∉ (unblock fuel u s).blocked := by
  induction fuel generalizing u s with
  | zero => exact absurd enough (Nat.not_lt_zero _)
  | succ fuel ih =>
    have all : ∀ (ws : List Nat) (t : CycleSearch), t.blocked.length < fuel + 1 →
        Unblocks t (unblockAll fuel ws t) ∧ ∀ w ∈ ws, w ∉ (unblockAll fuel ws t).blocked := by
      intro ws
      induction ws with
      | nil => exact fun t _ => ⟨.refl t, fun _ none => absurd none List.not_mem_nil⟩
      | cons w ws next =>
        intro t few
        rw [unblockAll_cons]
        by_cases blocked : w ∈ t.blocked
        · rw [if_pos (List.contains_iff_mem.mpr blocked)]
          have fewer : (t.blocked.filter (· != w)).length < t.blocked.length :=
            List.length_filter_lt_length_iff_exists.mpr ⟨w, blocked, by simp⟩
          obtain ⟨here, gone, _⟩ := ih (show (t.blocked.filter (· != w)).length < fuel by omega)
          obtain ⟨later, rest⟩ := next _ (Nat.lt_of_le_of_lt here.blocked.length_le few)
          refine ⟨here.trans later, List.forall_mem_cons.mpr ⟨fun kept => gone (later.blocked.subset kept), rest⟩⟩
        · rw [if_neg fun member => blocked (List.contains_iff_mem.mp member)]
          obtain ⟨later, rest⟩ := next t few
          exact ⟨later, List.forall_mem_cons.mpr ⟨fun kept => blocked (later.blocked.subset kept), rest⟩⟩
    rw [unblock_succ]
    obtain ⟨after, gone⟩ := all ((s.waiting.filter (·.1 == u)).map (·.2))
      { s with blocked := s.blocked.filter (· != u) } enough
    have waiters : ∀ z, (u, z) ∈ s.waiting → z ∉ (unblockAll fuel ((s.waiting.filter (·.1 == u)).map (·.2))
        { s with blocked := s.blocked.filter (· != u) }).blocked :=
      fun z waits => gone z (List.mem_map.mpr ⟨(u, z), List.mem_filter.mpr ⟨waits, beq_self_eq_true u⟩, rfl⟩)
    refine ⟨⟨after.waiting, after.found, after.blocked.trans List.filter_sublist, ?_⟩, ?_, waiters⟩
    · intro y member absent z waits
      by_cases own : y = u
      · exact waiters z (own ▸ waits)
      · exact after.closed y (List.mem_filter.mpr ⟨member, bne_iff_ne.mpr own⟩) absent z waits
    · intro kept
      have := (List.mem_filter.mp (after.blocked.subset kept)).2
      simp at this

/-- Waiting only adds to what waits. -/
theorem await_eq (s : CycleSearch) (v : Nat) (ws : List Nat) :
    (s.await v ws).blocked = s.blocked ∧ (s.await v ws).found = s.found ∧
      (∀ e ∈ s.waiting, e ∈ (s.await v ws).waiting) ∧ ∀ w ∈ ws, (w, v) ∈ (s.await v ws).waiting := by
  unfold await
  induction ws generalizing s with
  | nil => simp
  | cons w ws ih =>
    rw [List.foldl_cons]
    split
    · rename_i known
      obtain ⟨blocked, found, grows, waits⟩ := ih s
      exact ⟨blocked, found, grows, List.forall_mem_cons.mpr ⟨grows _ (List.contains_iff_mem.mp known), waits⟩⟩
    · obtain ⟨blocked, found, grows, waits⟩ := ih { s with waiting := s.waiting ++ [(w, v)] }
      refine ⟨blocked, found, fun e member => grows e (List.mem_append_left _ member), ?_⟩
      exact List.forall_mem_cons.mpr ⟨grows _ (List.mem_append_right _ List.mem_cons_self), waits⟩

/-- A state with more lists found before. -/
def onto (before : List (List Nat)) (s : CycleSearch) : CycleSearch := { s with found := before ++ s.found }

variable {before : List (List Nat)}

theorem unblock_onto : unblock fuel u (s.onto before) = (unblock fuel u s).onto before := by
  induction fuel generalizing u s with
  | zero => rfl
  | succ fuel ih =>
    rw [unblock_succ, unblock_succ, unblockAll, unblockAll]
    change List.foldl _ (onto before { s with blocked := s.blocked.filter (· != u) }) _ = _
    refine List.foldl_hom (onto before) (fun t w => ?_)
    by_cases blocked : t.blocked.contains w = true
    · rw [if_pos blocked, ← ih]
      exact if_pos blocked
    · rw [if_neg blocked]
      exact if_neg blocked

theorem await_onto {v : Nat} : (s.onto before).await v ws = (s.await v ws).onto before := by
  refine List.foldl_hom (onto before) (fun t w => ?_)
  by_cases known : t.waiting.contains (w, v) = true
  · rw [if_pos known]
    exact if_pos known
  · rw [if_neg known]
    exact if_neg known

end CycleSearch

variable {g : Digraph} {start v w x fuel : Nat} {path ext ws : List Nat} {s : CycleSearch} {r : Bool × CycleSearch}

/-- There is an edge. -/
def Edge (g : Digraph) (v w : Nat) : Prop := w ∈ g.next v

instance (g : Digraph) : DecidableRel g.Edge := fun v w => inferInstanceAs (Decidable (w ∈ g.next v))

/-- What the search does at a successor of the last node of its path. -/
def step (g : Digraph) (start fuel : Nat) (path : List Nat) (r : Bool × CycleSearch) (w : Nat) : Bool × CycleSearch :=
  if w == start then (true, { r.2 with found := r.2.found ++ [path ++ [w]] })
  else if r.2.blocked.contains w then r
  else (r.1 || (circuit g start fuel w path r.2).1, (circuit g start fuel w path r.2).2)

/-- The search at all successors of the last node of its path. -/
def around (g : Digraph) (start fuel v : Nat) (path : List Nat) (s : CycleSearch) : Bool × CycleSearch :=
  (g.next v).foldl (step g start fuel (path ++ [v])) (false, { s with blocked := v :: s.blocked })

theorem circuit_succ : circuit g start (fuel + 1) v path s =
    if (around g start fuel v path s).1 then (true, (around g start fuel v path s).2.unblock (g.order + 1) v)
    else (false, (around g start fuel v path s).2.await v (g.next v)) := rfl

/-- What is gathered from the states in which steps go on to a node. -/
def gather (start : Nat) (step : Bool × CycleSearch → Nat → Bool × CycleSearch)
    (into : Nat → CycleSearch → List (List Nat)) : List Nat → Bool × CycleSearch → List (List Nat)
  | [], _ => []
  | w :: ws, r =>
    (if w == start || r.2.blocked.contains w then [] else into w r.2) ++ gather start step into ws (step r w)

/-- The paths that the search goes along. -/
def walks (g : Digraph) (start : Nat) : Nat → Nat → List Nat → CycleSearch → List (List Nat)
  | 0, _, _, _ => []
  | fuel + 1, v, path, s =>
    (path ++ [v]) :: gather start (step g start fuel (path ++ [v])) (fun w => walks g start fuel w (path ++ [v]))
      (g.next v) (false, { s with blocked := v :: s.blocked })

/-- A path that goes on from `v` back to the start, over nodes that are all different. -/
def IsReturn (g : Digraph) (start : Nat) (path : List Nat) (v : Nat) (l : List Nat) : Prop :=
  ∃ ext, l = path ++ v :: ext ++ [start] ∧ (v :: ext ++ [start]).IsChain g.Edge ∧ (path ++ v :: ext).Nodup

/-- A path that ends at the start, or goes on from there back to the start. -/
def Way (g : Digraph) (start : Nat) (path : List Nat) (w : Nat) (l : List Nat) : Prop :=
  (w = start ∧ l = path ++ [start]) ∨ g.IsReturn start path w l

/-- Each number is blocked at most once, and off the path blocked nodes only lead to blocked nodes, which they wait for. -/
structure Settled (g : Digraph) (start : Nat) (path : List Nat) (s : CycleSearch) : Prop where
  once : s.blocked.Nodup
  below : ∀ x ∈ s.blocked, x < g.order
  stuck : ∀ x ∈ s.blocked, x ∉ path → ∀ w ∈ g.next x, w ≠ start ∧ w ∈ s.blocked ∧ (w, x) ∈ s.waiting

/-- A part of the search found all ways of a kind, each once; where there was none, the given nodes are blocked after it. -/
structure Explores (g : Digraph) (start : Nat) (path : List Nat) (ways : List Nat → Prop) (ends : List Nat)
    (r r' : Bool × CycleSearch) : Prop where
  settled : g.Settled start path r'.2
  found : ∃ new, r'.2.found = r.2.found ++ new ∧ new.Nodup ∧ ∀ l, l ∈ new ↔ ways l
  closed : r'.1 = true ↔ r.1 = true ∨ ∃ l, ways l
  stuck : (∀ l, ¬ways l) → ∀ x, x ∈ r.2.blocked ∨ x ∈ ends → x ∈ r'.2.blocked

theorem Way.getElem? {l : List Nat} (way : g.Way start path w l) : l[path.length]? = some w := by
  rcases way with ⟨rfl, rfl⟩ | ⟨ext, rfl, _, _⟩ <;> simp

/-- What goes on from a path goes on through a successor of its last node. -/
theorem isReturn_iff {l : List Nat} (simple : (path ++ [v]).Nodup) :
    g.IsReturn start path v l ↔ ∃ w ∈ g.next v, g.Way start (path ++ [v]) w l := by
  constructor
  · rintro ⟨ext, rfl, chain, nodup⟩
    cases ext with
    | nil => exact ⟨start, (List.isChain_cons_cons.mp chain).1, .inl ⟨rfl, by simp⟩⟩
    | cons w ext =>
      obtain ⟨edge, chain⟩ := List.isChain_cons_cons.mp chain
      exact ⟨w, edge, .inr ⟨ext, by simp, chain, by simpa using nodup⟩⟩
  · rintro ⟨w, edge, ⟨rfl, rfl⟩ | ⟨ext, rfl, chain, nodup⟩⟩
    · exact ⟨[], by simp, List.isChain_pair.mpr edge, simple⟩
    · exact ⟨w :: ext, by simp, List.isChain_cons_cons.mpr ⟨edge, chain⟩, by simpa using nodup⟩

/-- There is no way back through a blocked node. -/
theorem Settled.no_return {l : List Nat} (settled : g.Settled start path s) (blocked : w ∈ s.blocked) :
    ¬g.IsReturn start path w l := by
  rintro ⟨ext, rfl, chain, nodup⟩
  -- along the way all nodes are off the path, so one after the other is blocked, and none leads to the start
  have off : ∀ x ∈ w :: ext, x ∉ path := fun x member onPath => (List.nodup_append.mp nodup).2.2 x onPath x member rfl
  clear nodup
  induction ext generalizing w with
  | nil => exact (settled.stuck w blocked (off w List.mem_cons_self) start (List.isChain_pair.mp chain)).1 rfl
  | cons x ext ih =>
    obtain ⟨edge, chain⟩ := List.isChain_cons_cons.mp chain
    exact ih (settled.stuck w blocked (off w List.mem_cons_self) x edge).2.1 chain
      fun y member => off y (List.mem_cons_of_mem _ member)

theorem Settled.blocked_length (settled : g.Settled start path s) : s.blocked.length ≤ g.order := by
  have inside : s.blocked ⊆ List.range g.order := fun x member => List.mem_range.mpr (settled.below x member)
  simpa using (List.subperm_of_subset settled.once inside).length_le

/-- A path may be entered at a node that is not blocked. -/
theorem Settled.enter (settled : g.Settled start path s) (free : v ∉ s.blocked) (below : v < g.order) :
    g.Settled start (path ++ [v]) { s with blocked := v :: s.blocked } := by
  refine ⟨List.nodup_cons.mpr ⟨free, settled.once⟩, List.forall_mem_cons.mpr ⟨below, settled.below⟩, ?_⟩
  intro x member off w edge
  simp only [List.mem_append, List.mem_singleton, not_or] at off
  obtain ⟨other, blocked, waits⟩ := settled.stuck x ((List.mem_cons.mp member).resolve_left off.2) off.1 w edge
  exact ⟨other, List.mem_cons_of_mem _ blocked, waits⟩

/-- Where there is no way nothing needs to change. -/
theorem Explores.none {ways : List Nat → Prop} {ends : List Nat} (settled : g.Settled start path r.2)
    (none : ∀ l, ¬ways l) (blocked : ∀ w ∈ ends, w ∈ r.2.blocked) : g.Explores start path ways ends r r := by
  refine ⟨settled, ⟨[], (List.append_nil _).symm, List.nodup_nil, fun l => ?_⟩, ?_, fun _ x => ?_⟩
  · exact iff_of_false List.not_mem_nil (none l)
  · simp [none]
  · rintro (kept | isEnd)
    · exact kept
    · exact blocked x isEnd

theorem Explores.cons {r' r'' : Bool × CycleSearch} (new : w ∉ ws)
    (first : g.Explores start path (g.Way start path w) [w] r r')
    (rest : g.Explores start path (fun l => ∃ x ∈ ws, g.Way start path x l) ws r' r'') :
    g.Explores start path (fun l => ∃ x ∈ w :: ws, g.Way start path x l) (w :: ws) r r'' := by
  obtain ⟨here, foundHere, onceHere, waysHere⟩ := first.found
  obtain ⟨later, foundLater, onceLater, waysLater⟩ := rest.found
  refine ⟨rest.settled, ⟨here ++ later, ?_, ?_, fun l => ?_⟩, ?_, fun none x member => ?_⟩
  · rw [foundLater, foundHere, List.append_assoc]
  · refine List.nodup_append.mpr ⟨onceHere, onceLater, ?_⟩
    rintro l inFirst _ inRest rfl
    obtain ⟨x, member, other⟩ := (waysLater l).mp inRest
    obtain rfl := Option.some.inj (((waysHere l).mp inFirst).getElem?.symm.trans other.getElem?)
    exact new member
  · rw [List.mem_append, waysHere, waysLater, List.exists_mem_cons_iff]
  · rw [rest.closed, first.closed, or_assoc]
    simp only [List.exists_mem_cons_iff, exists_or]
  · have noneHere : ∀ l, ¬g.Way start path w l := fun l way => none l ⟨w, List.mem_cons_self, way⟩
    refine rest.stuck (fun l ⟨u, inside, way⟩ => none l ⟨u, List.mem_cons_of_mem _ inside, way⟩) x ?_
    rcases member with kept | isEnd
    · exact .inl (first.stuck noneHere x (.inl kept))
    · rcases List.mem_cons.mp isEnd with rfl | isEnd
      · exact .inl (first.stuck noneHere x (.inr List.mem_cons_self))
      · exact .inr isEnd

/-- Every edge leads to a number below the order, and is listed once. -/
structure Bounded (g : Digraph) : Prop where
  below : ∀ v, ∀ w ∈ g.next v, w < g.order
  once : ∀ v, (g.next v).Nodup

theorem step_start (settled : g.Settled start path r.2) (began : start ∈ path) :
    g.Explores start path (g.Way start path start) [start] r (step g start fuel path r start) := by
  rw [step, if_pos (beq_self_eq_true start)]
  have only : ∀ l, g.Way start path start l ↔ l = path ++ [start] := by
    refine fun l => ⟨?_, fun same => .inl ⟨rfl, same⟩⟩
    rintro (⟨_, same⟩ | ⟨ext, rfl, _, nodup⟩)
    · exact same
    · exact absurd rfl ((List.nodup_append.mp nodup).2.2 start began start List.mem_cons_self)
  refine ⟨⟨settled.once, settled.below, settled.stuck⟩, ⟨[path ++ [start]], rfl, List.nodup_singleton _, fun l => ?_⟩, ?_, ?_⟩
  · rw [List.mem_singleton, only]
  · exact iff_of_true rfl (.inr ⟨_, (only _).mpr rfl⟩)
  · exact fun none => absurd ((only _).mpr rfl) (none _)

theorem step_blocked (settled : g.Settled start path r.2) (other : w ≠ start) (blocked : w ∈ r.2.blocked) :
    g.Explores start path (g.Way start path w) [w] r (step g start fuel path r w) := by
  rw [step, if_neg (by simpa using other), if_pos (List.contains_iff_mem.mpr blocked)]
  refine .none settled (fun l way => ?_) (List.forall_mem_singleton.mpr blocked)
  rcases way with ⟨same, _⟩ | way
  · exact other same
  · exact settled.no_return blocked way

theorem step_free (other : w ≠ start) (free : w ∉ r.2.blocked)
    (explored : g.Explores start path (g.IsReturn start path w) [w] (false, r.2) (circuit g start fuel w path r.2)) :
    g.Explores start path (g.Way start path w) [w] r (step g start fuel path r w) := by
  rw [step, if_neg (by simpa using other), if_neg fun blocked => free (List.contains_iff_mem.mp blocked)]
  have same : ∀ l, g.Way start path w l ↔ g.IsReturn start path w l := fun l => or_iff_right fun way => other way.1
  simp only [funext fun l => propext (same l)]
  exact ⟨explored.settled, explored.found, by simp [explored.closed], explored.stuck⟩

/-- What holds of each step from a state in which the search goes on as it may, holds of all steps. -/
theorem foldl_explores {into : Nat → CycleSearch → List (List Nat)} (settled : g.Settled start path r.2) (once : ws.Nodup)
    (simple : ∀ walk ∈ gather start (step g start fuel path) into ws r, walk.Nodup)
    (each : ∀ w ∈ ws, ∀ r, g.Settled start path r.2 →
      (w ≠ start → w ∉ r.2.blocked → ∀ walk ∈ into w r.2, walk.Nodup) →
      g.Explores start path (g.Way start path w) [w] r (step g start fuel path r w)) :
    g.Explores start path (fun l => ∃ w ∈ ws, g.Way start path w l) ws r (ws.foldl (step g start fuel path) r) := by
  induction ws generalizing r with
  | nil => exact .none settled (by simp) (by simp)
  | cons w ws ih =>
    rw [gather, List.forall_mem_append] at simple
    obtain ⟨here, later⟩ := simple
    obtain ⟨new, once⟩ := List.nodup_cons.mp once
    have first := each w List.mem_cons_self r settled fun other free => by
      rwa [if_neg (by simpa using ⟨other, free⟩)] at here
    exact .cons new first (ih first.settled once later fun x member => each x (List.mem_cons_of_mem _ member))

/-- Once a node is explored along with what it leads to, it is unblocked, or it waits for its successors. -/
theorem explores_of_around (simple : (path ++ [v]).Nodup)
    (around : g.Explores start (path ++ [v]) (fun l => ∃ w ∈ g.next v, g.Way start (path ++ [v]) w l) (g.next v)
      (false, { s with blocked := v :: s.blocked }) (around g start fuel v path s)) :
    g.Explores start path (g.IsReturn start path v) [v] (false, s) (circuit g start (fuel + 1) v path s) := by
  simp only [← isReturn_iff simple] at around
  obtain ⟨inner, found, closed, stuck⟩ := around
  rw [circuit_succ]
  generalize Digraph.around g start fuel v path s = r at *
  have off : ∀ x, x ∉ path → x ≠ v → x ∉ path ++ [v] := by simp; tauto
  by_cases back : ∃ l, g.IsReturn start path v l
  · rw [if_pos (closed.mpr (.inr back))]
    have enough : (r.2.blocked.filter (· != v)).length < g.order + 1 :=
      Nat.lt_succ_of_le ((List.length_filter_le _ _).trans inner.blocked_length)
    obtain ⟨after, gone, _⟩ := CycleSearch.unblock_unblocks enough
    refine ⟨⟨inner.once.sublist after.blocked, fun x member => inner.below x (after.blocked.subset member), ?_⟩, ?_, ?_, ?_⟩
    · intro x member free w edge
      have own : x ≠ v := fun same => gone (same ▸ member)
      obtain ⟨other, blocked, waits⟩ := inner.stuck x (after.blocked.subset member) (off x free own) w edge
      refine ⟨other, ?_, after.waiting ▸ waits⟩
      by_contra unblocked
      exact after.closed w blocked unblocked x waits member
    · rw [after.found]
      exact found
    · simp [back]
    · exact fun none => absurd back (not_exists.mpr none)
  · have none : ∀ l, ¬g.IsReturn start path v l := not_exists.mp back
    have open' : ¬r.1 = true := fun yes => back ((closed.mp yes).resolve_left Bool.false_ne_true)
    rw [if_neg open']
    obtain ⟨blocked, same, grows, waits⟩ := CycleSearch.await_eq r.2 v (g.next v)
    refine ⟨⟨blocked ▸ inner.once, fun x member => inner.below x (blocked ▸ member), ?_⟩, ?_, ?_, ?_⟩
    · intro x member free w edge
      rw [blocked] at member ⊢
      by_cases own : x = v
      · subst own
        refine ⟨fun toStart => ?_, stuck none w (.inr edge), waits w edge⟩
        exact none _ ((isReturn_iff simple).mpr ⟨w, edge, .inl ⟨toStart, rfl⟩⟩)
      · obtain ⟨other, stays, waiting⟩ := inner.stuck x member (off x free own) w edge
        exact ⟨other, stays, grows _ waiting⟩
    · rw [same]
      exact found
    · simp [none]
    · intro _ x member
      rw [blocked]
      refine stuck none x (.inl ?_)
      rcases member with kept | isEnd
      · exact List.mem_cons_of_mem _ kept
      · exact List.mem_singleton.mp isEnd ▸ List.mem_cons_self

/-- The search from a node finds each way through it back to the start once, and blocks it where there is none. -/
theorem circuit_explores (bounded : g.Bounded) (settled : g.Settled start path s) (enough : g.order < fuel + path.length)
    (inside : ∀ x ∈ path ++ [v], x < g.order) (nodup : path.Nodup) (began : start ∈ path ++ [v]) (free : v ∉ s.blocked)
    (simple : ∀ walk ∈ walks g start fuel v path s, walk.Nodup) :
    g.Explores start path (g.IsReturn start path v) [v] (false, s) (circuit g start fuel v path s) := by
  induction fuel generalizing v path s with
  | zero =>
    have short : path.length ≤ g.order := by
      have within : path ⊆ List.range g.order := fun x member =>
        List.mem_range.mpr (inside x (List.mem_append_left _ member))
      simpa using (List.subperm_of_subset nodup within).length_le
    omega
  | succ fuel ih =>
    rw [walks, List.forall_mem_cons] at simple
    obtain ⟨distinct, further⟩ := simple
    have opened := settled.enter free (inside v (List.mem_append_right _ List.mem_cons_self))
    refine explores_of_around distinct (foldl_explores opened (bounded.once v) further fun w edge r settled walked => ?_)
    by_cases isStart : w = start
    · rw [isStart]
      exact step_start settled began
    by_cases blocked : w ∈ r.2.blocked
    · exact step_blocked settled isStart blocked
    refine step_free isStart blocked (ih settled ?_ ?_ distinct ?_ blocked (walked isStart blocked))
    · rw [List.length_append, List.length_singleton]
      omega
    · exact List.forall_mem_append.mpr ⟨inside, List.forall_mem_singleton.mpr (bounded.below v w edge)⟩
    · exact List.mem_append_left _ began

section Onto

variable {before : List (List Nat)}

theorem step_onto (inner : ∀ w s, circuit g start fuel w path (s.onto before) =
    ((circuit g start fuel w path s).1, (circuit g start fuel w path s).2.onto before)) :
    step g start fuel path (r.1, r.2.onto before) w =
      ((step g start fuel path r w).1, (step g start fuel path r w).2.onto before) := by
  have blocked : (r.2.onto before).blocked = r.2.blocked := rfl
  unfold step
  rw [inner, blocked]
  split
  · simp [CycleSearch.onto]
  · split <;> rfl

/-- The search does not look at what was found. -/
theorem circuit_onto : circuit g start fuel v path (s.onto before) =
    ((circuit g start fuel v path s).1, (circuit g start fuel v path s).2.onto before) := by
  induction fuel generalizing v path s with
  | zero => rfl
  | succ fuel ih =>
    have same : around g start fuel v path (s.onto before) =
        ((around g start fuel v path s).1, (around g start fuel v path s).2.onto before) := by
      let moved (r : Bool × CycleSearch) : Bool × CycleSearch := (r.1, r.2.onto before)
      change List.foldl _ (moved (false, { s with blocked := v :: s.blocked })) _ = moved _
      exact List.foldl_hom moved fun r w => step_onto fun w s => ih
    rw [circuit_succ, circuit_succ, same, CycleSearch.unblock_onto, CycleSearch.await_onto]
    split <;> rfl

end Onto

/-- A search from a node in which nothing is blocked finds the ways from the node back to it, each once. -/
theorem circuit_finds (bounded : g.Bounded) (inside : start < g.order) (before : List (List Nat))
    (simple : ∀ walk ∈ walks g start (g.order + 1) start [] {}, walk.Nodup) :
    ∃ new, (circuit g start (g.order + 1) start [] { found := before }).2.found = before ++ new ∧ new.Nodup ∧
      ∀ l, l ∈ new ↔ g.IsReturn start [] start l := by
  have settled : g.Settled start [] {} :=
    ⟨List.nodup_nil, fun _ none => absurd none List.not_mem_nil, fun _ none => absurd none List.not_mem_nil⟩
  obtain ⟨new, found, once, ways⟩ := (circuit_explores bounded settled (Nat.lt_succ_self _)
    (List.forall_mem_singleton.mpr inside) List.nodup_nil List.mem_cons_self List.not_mem_nil simple).found
  refine ⟨new, ?_, once, ways⟩
  have moved : ({ found := before } : CycleSearch) = CycleSearch.onto before {} := by simp [CycleSearch.onto]
  rw [moved, circuit_onto]
  exact congrArg (before ++ ·) found

/-- A search that goes on to a node of its own path: 3 waits for 2 from the first time on, so it is unblocked with 2 while
it stands on the path, and 2 is entered again from there. -/
example : let g := ofTargets [[1, 2], [2, 0], [1, 3], [2]]
    [0, 2, 3, 2] ∈ walks g 0 5 0 [] {} ∧ [0, 2, 3, 2, 1, 0] ∈ (circuit g 0 5 0 [] {}).2.found := by decide +kernel

end MisuseSlice.Digraph
