import Mathlib
import MisuseSlice.CallGraph.Build
import MisuseSlice.Proofs.Breadth
import MisuseSlice.Proofs.Folds
import MisuseSlice.Proofs.Maps
import MisuseSlice.Proofs.Program.Finalizing

/-! The hierarchy of classes. Links lead from a declared class to its super class and its interfaces, also to names that
are not declared, and also in circles. Two searches follow them: one in depth, which looks for a name, and one in
breadth, which lists what is above a class. Both end, and the one finds exactly the names that the other lists. -/
namespace MisuseSlice

namespace Program

variable {p : Program} {name goal : String} {pending visited : List String} {answer : Bool}

/-- A declared class links to its super class and to its interfaces. -/
def Links (p : Program) (name above : String) : Prop :=
  ∃ c, p.class? name = some c ∧ (above = c.super ∨ above ∈ c.interfaces)

theorem mem_superNames {above : String} : above ∈ p.superNames name ↔ p.Links name above := by
  unfold superNames Links
  cases p.class? name <;> simp

/-- No class is declared under the empty name once a program is finalized. -/
theorem finalize_class?_empty (p : Program) : p.finalize.1.class? "" = none := by
  let nameless (ix : Std.TreeMap String ClassDecl) : Prop := ix[""]? = none
  have empty : nameless {} := by simp [nameless]
  refine List.foldlRecOn (motive := nameless) p.finalize.1.namedClasses _ empty fun ix unnamed c member => ?_
  have named : ¬compare c.name "" = .eq := fun same => named_of_namedClasses member (Std.compare_eq_iff_eq.mp same)
  simp only [nameless, Std.TreeMap.getElem?_insert, named, ↓reduceIte]
  exact unnamed

theorem mem_declaredClasses : name ∈ p.declaredClasses ↔ ∃ c, p.class? name = some c := by
  rw [declaredClasses, Std.TreeMap.map_fst_toList_eq_keys, Std.TreeMap.mem_keys, ← Std.TreeMap.contains_iff_mem]
  exact Maps.contains_iff

theorem nodup_declaredClasses (p : Program) : p.declaredClasses.Nodup := by
  rw [declaredClasses, Std.TreeMap.map_fst_toList_eq_keys]
  exact Std.TreeMap.nodup_keys

/-- What holds of a name, and of each name but the empty one to which links lead on, holds of all names but the empty
one that can be reached. -/
theorem holds_of_path {Holds : String → Prop} (nameless : p.class? "" = none) (start : name = "" ∨ Holds name)
    (onward : ∀ a, Holds a → ∀ b, p.Links a b → b = "" ∨ Holds b) (path : Relation.ReflTransGen p.Links name goal) :
    goal = "" ∨ Holds goal := by
  induction path with
  | refl => exact start
  | tail _ link ih =>
    rcases ih with rfl | here
    · obtain ⟨c, found, _⟩ := link
      simp [nameless] at found
    · exact onward _ here _ link

/-- The number of links from the declared classes that are not visited yet. -/
def linksLeft (p : Program) (visited : List String) : Nat :=
  ((p.declaredClasses.filter (· ∉ visited)).map fun name => (p.superNames name).length).sum

theorem linksLeft_cons (new : name ∉ visited) :
    (p.superNames name).length + p.linksLeft (name :: visited) = p.linksLeft visited := by
  have rest : p.declaredClasses.filter (· ∉ name :: visited) = (p.declaredClasses.filter (· ∉ visited)).erase name := by
    rw [(p.nodup_declaredClasses.filter _).erase_eq_filter, List.filter_filter]
    exact List.filter_congr fun other _ => by simp [Bool.beq_eq_decide_eq, bne]
  unfold linksLeft
  rw [rest]
  by_cases declared : name ∈ p.declaredClasses
  · exact List.sum_map_erase (fun name => (p.superNames name).length)
      (List.mem_filter.mpr ⟨declared, decide_eq_true new⟩)
  · -- a name that is not declared has no links, and is none of those left
    have unknown : p.class? name = none := by
      rw [Option.eq_none_iff_forall_ne_some]
      exact fun c found => declared (mem_declaredClasses.mpr ⟨c, found⟩)
    rw [superNames, unknown, List.length_nil, Nat.zero_add,
      List.erase_of_not_mem fun member => declared (List.mem_of_mem_filter member)]

/-- The links from different names and those that are left are all links of the declared classes. -/
theorem sum_links_add_linksLeft (nodup : visited.Nodup) :
    (visited.map fun name => (p.superNames name).length).sum + p.linksLeft visited = p.linksLeft [] := by
  induction visited with
  | nil => simp
  | cons name visited ih =>
    obtain ⟨new, nodup⟩ := List.nodup_cons.mp nodup
    rw [← ih nodup, ← linksLeft_cons new, List.map_cons, List.sum_cons]
    omega

theorem linkBound_eq (p : Program) : p.linkBound = 2 + p.linksLeft [] := by
  have sum : ∀ (entries : List (String × ClassDecl)) (n : Nat),
      entries.foldl (fun n c => n + c.2.interfaces.length + 1) n =
        n + (entries.map fun c => (c.2.super :: c.2.interfaces).length).sum := by
    intro entries
    induction entries with
    | nil => simp
    | cons c entries ih =>
      intro n
      rw [List.foldl_cons, ih, List.map_cons, List.sum_cons, List.length_cons]
      omega
  have each : ∀ c ∈ p.classIndex.toList, (c.2.super :: c.2.interfaces).length = (p.superNames c.1).length := by
    intro c member
    have known : p.class? c.1 = some c.2 := Std.TreeMap.mem_toList_iff_getElem?_eq_some.mp member
    rw [superNames, known]
  have all : p.declaredClasses.filter (· ∉ ([] : List String)) = p.declaredClasses := by simp
  rw [linkBound, sum, List.map_congr_left each, linksLeft, all, declaredClasses, List.map_map]
  rfl

/-! ### The search in depth -/

/-- A search for a name goes through pending names and ends with an answer. It passes over the empty name and over the
names that were visited before, and goes on with the links of a new name before the others. -/
inductive Seeks (p : Program) (goal : String) : (pending visited : List String) → (answer : Bool) → Prop where
  | nowhere {visited : List String} : Seeks p goal [] visited false
  | here {pending visited : List String} : Seeks p goal (goal :: pending) visited true
  | known {name : String} {pending visited : List String} {answer : Bool} (other : name ≠ goal)
      (old : name = "" ∨ name ∈ visited) (rest : Seeks p goal pending visited answer) :
      Seeks p goal (name :: pending) visited answer
  | new {name : String} {pending visited : List String} {answer : Bool} (other : name ≠ goal) (named : name ≠ "")
      (fresh : name ∉ visited) (rest : Seeks p goal (p.superNames name ++ pending) (name :: visited) answer) :
      Seeks p goal (name :: pending) visited answer

/-- The links of a class are followed once, and a name is looked at once for each link to it, so the search ends within
its fuel. -/
theorem seeks_linksTo {fuel : Nat} (enough : pending.length + p.linksLeft visited < fuel) :
    p.Seeks goal pending visited (p.linksTo goal fuel pending visited) := by
  induction fuel generalizing pending visited with
  | zero => omega
  | succ fuel ih =>
    cases pending with
    | nil => exact .nowhere
    | cons name pending =>
      rw [List.length_cons] at enough
      rw [linksTo]
      by_cases same : name = goal
      · subst same
        simpa using Seeks.here
      · by_cases old : name = "" ∨ name ∈ visited
        · simp only [beq_iff_eq, same, ↓reduceIte, Bool.or_eq_true, List.contains_iff_mem, old]
          exact .known same old (ih (by omega))
        · simp only [beq_iff_eq, same, ↓reduceIte, Bool.or_eq_true, List.contains_iff_mem, old]
          obtain ⟨named, fresh⟩ := not_or.mp old
          have drop := linksLeft_cons (p := p) fresh
          exact .new same named fresh (ih (by rw [List.length_append]; omega))

theorem seeks_implements (p : Program) (name goal : String) : p.Seeks goal [name] [] (p.implements name goal) := by
  refine seeks_linksTo ?_
  rw [linkBound_eq, List.length_singleton]
  omega

/-- Links lead from a pending name to one that is found. -/
theorem Seeks.reaches (seeks : p.Seeks goal pending visited answer) (found : answer = true) :
    ∃ name ∈ pending, Relation.ReflTransGen p.Links name goal := by
  induction seeks with
  | nowhere => cases found
  | here => exact ⟨goal, List.mem_cons_self, .refl⟩
  | known other old rest ih =>
    obtain ⟨a, member, path⟩ := ih found
    exact ⟨a, List.mem_cons_of_mem _ member, path⟩
  | @new name pending visited answer other named fresh rest ih =>
    obtain ⟨a, member, path⟩ := ih found
    rcases List.mem_append.mp member with link | member
    · exact ⟨name, List.mem_cons_self, .head (mem_superNames.mp link) path⟩
    · exact ⟨a, List.mem_cons_of_mem _ member, path⟩

/-- Where nothing is found, the pending and the visited names are among some from which links lead to no others but the
empty name, and the goal is none of them. -/
theorem Seeks.closed (seeks : p.Seeks goal pending visited answer) (missed : answer = false)
    (apart : goal ∉ visited) (known : ∀ a ∈ visited, ∀ b, p.Links a b → b = "" ∨ b ∈ visited ∨ b ∈ pending) :
    ∃ names : List String, goal ∉ names ∧ (∀ a ∈ visited, a ∈ names) ∧ (∀ a ∈ pending, a = "" ∨ a ∈ names) ∧
      ∀ a ∈ names, ∀ b, p.Links a b → b = "" ∨ b ∈ names := by
  induction seeks with
  | @nowhere visited =>
    refine ⟨visited, apart, fun a member => member, nofun, fun a member b link => ?_⟩
    exact (known a member b link).imp_right fun here => here.resolve_right List.not_mem_nil
  | here => cases missed
  | @known name pending visited answer other old rest ih =>
    -- the name is empty or visited, so a link to it needs no pending name any more
    have stays : ∀ a ∈ visited, ∀ b, p.Links a b → b = "" ∨ b ∈ visited ∨ b ∈ pending := by
      intro a member b link
      rcases known a member b link with empty | here | here
      · exact .inl empty
      · exact .inr (.inl here)
      · rcases List.mem_cons.mp here with rfl | here
        · exact old.imp_right .inl
        · exact .inr (.inr here)
    obtain ⟨names, without, holds, covers, closed⟩ := ih missed apart stays
    exact ⟨names, without, holds, List.forall_mem_cons.mpr ⟨old.imp_right (holds name), covers⟩, closed⟩
  | @new name pending visited answer other named fresh rest ih =>
    -- what the name links to is pending now, so the name may count as visited
    have apart : goal ∉ name :: visited := by
      rw [List.mem_cons, not_or]
      exact ⟨Ne.symm other, apart⟩
    have grown : ∀ a ∈ name :: visited, ∀ b, p.Links a b →
        b = "" ∨ b ∈ name :: visited ∨ b ∈ p.superNames name ++ pending := by
      intro a member b link
      rw [List.mem_cons, List.mem_append]
      rcases List.mem_cons.mp member with rfl | member
      · exact .inr (.inr (.inl (mem_superNames.mpr link)))
      · rcases known a member b link with empty | here | here
        · exact .inl empty
        · exact .inr (.inl (.inr here))
        · exact .inr ((List.mem_cons.mp here).imp .inl .inr)
    obtain ⟨names, without, holds, covers, closed⟩ := ih missed apart grown
    refine ⟨names, without, fun a member => holds a (List.mem_cons_of_mem _ member), ?_, closed⟩
    refine List.forall_mem_cons.mpr ⟨.inr (holds name List.mem_cons_self), fun a member => ?_⟩
    exact covers a (List.mem_append_right _ member)

/-- A class extends or implements what links lead to from it. -/
theorem implements_iff (nameless : p.class? "" = none) (given : goal ≠ "") :
    p.implements name goal = true ↔ Relation.ReflTransGen p.Links name goal := by
  have seeks := p.seeks_implements name goal
  constructor
  · intro found
    obtain ⟨a, member, path⟩ := seeks.reaches found
    exact List.mem_singleton.mp member ▸ path
  · intro path
    by_contra missed
    obtain ⟨names, without, -, covers, closed⟩ :=
      seeks.closed (Bool.eq_false_iff.mpr missed) List.not_mem_nil nofun
    have inside : goal = "" ∨ goal ∈ names :=
      holds_of_path nameless (covers name (List.mem_singleton_self name)) closed path
    exact inside.elim given without

end Program

/-! ### The listing in breadth -/

namespace Provider

variable {p : Provider} {name : String} {queue found listed pending seen visited : List String}

/-- The names that a declared class links to, the empty name apart. -/
def above (p : Provider) (name : String) : List String := (p.superNames name).filter (· ≠ "")

/-- The names above a class that were not found before, each once. -/
def fresh (p : Provider) (name : String) (found : List String) : List String :=
  ((p.above name).filter (· ∉ found)).eraseDups

theorem mem_fresh {s : String} : s ∈ p.fresh name found ↔ s ∈ p.above name ∧ s ∉ found := by
  simp [fresh, List.mem_eraseDups]

theorem superTypesFrom_cons {fuel : Nat} :
    p.superTypesFrom (fuel + 1) (name :: queue) found =
      p.superTypesFrom fuel (queue ++ p.fresh name found) (found ++ p.fresh name found) := by
  have passes :
      (fun (acc : List String) s => if s == "" || found.contains s || acc.contains s then acc else acc ++ [s]) =
        fun acc s => if decide (s ≠ "") then
          (if decide (s ∉ found) then (if acc.contains s then acc else acc ++ [s]) else acc) else acc := by
    funext acc s
    by_cases empty : s = ""
    · simp [empty]
    · by_cases old : s ∈ found
      · simp [empty, old]
      · simp [empty, old]
  rw [superTypesFrom, passes, ← List.foldl_filter, ← List.foldl_filter, foldl_concat_new]
  rfl

/-- A listing goes through a queue, and lists the new names above each name that it takes from there. -/
inductive Gathers (p : Provider) : (queue found listed : List String) → Prop where
  | done {found : List String} : Gathers p [] found []
  | turn {name : String} {queue found listed : List String}
      (rest : Gathers p (queue ++ p.fresh name found) (found ++ p.fresh name found) listed) :
      Gathers p (name :: queue) found (p.fresh name found ++ listed)

/-- Each name is queued once, so the listing ends within as many turns. -/
theorem Gathers.superTypesFrom_eq (gathers : p.Gathers queue found listed) {fuel : Nat}
    (enough : queue.length + listed.length ≤ fuel) : p.superTypesFrom fuel queue found = found ++ listed := by
  induction gathers generalizing fuel with
  | done => cases fuel <;> simp [superTypesFrom]
  | turn rest ih =>
    rw [List.length_cons, List.length_append] at enough
    obtain ⟨fuel, rfl⟩ : ∃ n, fuel = n + 1 := ⟨fuel - 1, by omega⟩
    rw [superTypesFrom_cons, ih (by rw [List.length_append]; omega), List.append_assoc]

/-- A listing finds the names of a search in breadth, in its order. For the search a name is found when it comes to it,
for the listing when it is queued, so the queue has the pending names that were not seen, each once. -/
theorem gathers_of_visits (visits : Breadth.Visits p.above pending seen visited)
    (waiting : queue = (pending.filter (· ∉ seen)).eraseDups) (known : ∀ s, s ∈ found ↔ s ∈ seen ∨ s ∈ pending) :
    ∃ listed, visited = queue ++ listed ∧ p.Gathers queue found listed := by
  induction visits generalizing queue found with
  | done => exact ⟨[], by simp [waiting], waiting ▸ .done⟩
  | @known name pending seen visited old rest ih =>
    rw [List.filter_cons_of_neg (by simpa using old)] at waiting
    refine ih waiting fun s => ?_
    rw [known, List.mem_cons]
    constructor
    · rintro (here | rfl | here)
      · exact .inl here
      · exact .inl old
      · exact .inr here
    · rintro (here | here)
      · exact .inl here
      · exact .inr (.inr here)
  | @new name pending seen visited unseen rest ih =>
    -- the name leaves the queue; of the names above it, those that were neither seen nor pending join it
    have others : ((pending.filter (· ∉ seen)).filter fun s => !s == name) = pending.filter (· ∉ name :: seen) := by
      rw [List.filter_filter]
      exact List.filter_congr fun s _ => by simp [Bool.beq_eq_decide_eq]
    have added : ((p.above name).filter (· ∉ name :: seen)).removeAll (pending.filter (· ∉ name :: seen)) =
        (p.above name).filter (· ∉ found) := by
      rw [List.removeAll, List.filter_filter]
      refine List.filter_congr fun s _ => ?_
      rw [Bool.eq_iff_iff]
      simp only [List.elem_eq_mem, List.mem_filter, List.mem_cons, known, Bool.and_eq_true, Bool.not_eq_true',
        decide_eq_true_eq, decide_eq_false_iff_not]
      tauto
    rw [List.filter_cons_of_pos (by simpa using unseen), List.eraseDups_cons, others] at waiting
    have next : (pending.filter (· ∉ name :: seen)).eraseDups ++ p.fresh name found =
        ((pending ++ p.above name).filter (· ∉ name :: seen)).eraseDups := by
      rw [List.filter_append, List.eraseDups_append, added]
      rfl
    have known' : ∀ s, s ∈ found ++ p.fresh name found ↔ s ∈ name :: seen ∨ s ∈ pending ++ p.above name := by
      intro s
      rw [List.mem_append, mem_fresh, known, List.mem_cons, List.mem_cons, List.mem_append]
      tauto
    obtain ⟨listed, parts, gathers⟩ := ih next known'
    refine ⟨p.fresh name found ++ listed, ?_, waiting ▸ .turn gathers⟩
    rw [waiting, parts, List.cons_append, List.append_assoc]

end Provider

namespace Program

variable {p : Program} {fetch : String → Except String (List Statement)} {name : String} {visited : List String}

theorem mem_above {above : String} :
    above ∈ (p.provider fetch).above name ↔ above ≠ "" ∧ p.Links name above := by
  rw [Provider.above, List.mem_filter, decide_eq_true_eq, and_comm]
  exact and_congr_right fun _ => mem_superNames

/-- A search in breadth from a class comes to as many names as there are links, and to the class. -/
theorem length_visited_le (visits : Breadth.Visits (p.provider fetch).above [name] [] visited) :
    visited.length ≤ 1 + p.linksLeft [] := by
  have subset : visited ⊆ name :: visited.flatMap (p.provider fetch).above := by
    intro s member
    rw [List.mem_cons, List.mem_flatMap, ← List.mem_singleton]
    exact visits.mem_iff_step.mp member
  have few : ∀ s, ((p.provider fetch).above s).length ≤ (p.superNames s).length := fun s => List.length_filter_le _ _
  calc visited.length
      ≤ (name :: visited.flatMap (p.provider fetch).above).length :=
        (List.subperm_of_subset visits.nodup subset).length_le
    _ = (visited.map fun s => ((p.provider fetch).above s).length).sum + 1 := by
        rw [List.length_cons, List.length_flatMap]
    _ ≤ (visited.map fun s => (p.superNames s).length).sum + 1 :=
        Nat.succ_le_succ (List.sum_le_sum fun s _ => few s)
    _ ≤ 1 + p.linksLeft [] := by
        rw [← sum_links_add_linksLeft visits.nodup]
        omega

/-- What is listed above a class is what a search in breadth finds besides the class. -/
theorem superTypes_visited (p : Program) (fetch : String → Except String (List Statement)) (name : String) :
    (p.provider fetch).Gathers [name] [name] ((p.provider fetch).superTypes name) ∧
      Breadth.Visits (p.provider fetch).above [name] [] (name :: (p.provider fetch).superTypes name) := by
  have closed : ∀ s ∈ name :: p.declaredClasses.flatMap p.superNames, ∀ t ∈ (p.provider fetch).above s,
      t ∈ name :: p.declaredClasses.flatMap p.superNames := by
    intro s _ t member
    obtain ⟨_, c, found, linked⟩ := mem_above.mp member
    refine List.mem_cons_of_mem _ (List.mem_flatMap.mpr ⟨s, mem_declaredClasses.mpr ⟨c, found⟩, ?_⟩)
    exact mem_superNames.mpr ⟨c, found, linked⟩
  obtain ⟨visited, visits⟩ := Breadth.exists_visits closed [name] [] (by simp)
  have waiting : [name] = ([name].filter (· ∉ ([] : List String))).eraseDups := by simp [List.eraseDups_cons]
  have known : ∀ s, s ∈ [name] ↔ s ∈ ([] : List String) ∨ s ∈ [name] := by simp
  obtain ⟨listed, rfl, gathers⟩ := Provider.gathers_of_visits visits waiting known
  have enough : [name].length + listed.length ≤ (p.provider fetch).linkBound + 1 := by
    have bound : (p.provider fetch).linkBound = 2 + p.linksLeft [] := p.linkBound_eq
    have few := length_visited_le visits
    rw [List.length_append] at few
    omega
  have result : (p.provider fetch).superTypes name = listed := by
    rw [Provider.superTypes, gathers.superTypesFrom_eq enough]
    rfl
  rw [result]
  exact ⟨gathers, visits⟩

/-- Above a class are the other names that can be reached. -/
theorem mem_superTypes (nameless : p.class? "" = none) {s : String} :
    s ∈ (p.provider fetch).superTypes name ↔ s ≠ "" ∧ s ≠ name ∧ Relation.ReflTransGen p.Links name s := by
  obtain ⟨_, visits⟩ := p.superTypes_visited fetch name
  have apart := (List.nodup_cons.mp visits.nodup).1
  have reached : s ∈ name :: (p.provider fetch).superTypes name ↔
      Relation.ReflTransGen (fun a b => b ∈ (p.provider fetch).above a) name s := by
    rw [visits.mem_iff]
    simp
  constructor
  · intro member
    have other : s ≠ name := fun same => apart (same ▸ member)
    have path := reached.mp (List.mem_cons_of_mem _ member)
    rcases Relation.ReflTransGen.cases_tail path with same | ⟨_, _, last⟩
    · exact absurd same other
    · have links := Relation.ReflTransGen.mono (fun a b link => (mem_above.mp link).2) _ _ path
      exact ⟨(mem_above.mp last).1, other, links⟩
  · rintro ⟨given, other, path⟩
    have inside : s = "" ∨ Relation.ReflTransGen (fun a b => b ∈ (p.provider fetch).above a) name s := by
      refine holds_of_path nameless (.inr .refl) (fun a here b link => ?_) path
      by_cases empty : b = ""
      · exact .inl empty
      · exact .inr (here.tail (mem_above.mpr ⟨empty, link⟩))
    exact (List.mem_cons.mp (reached.mpr (inside.resolve_left given))).resolve_left other

/-- The two searches agree in every finalized program, also where classes are above themselves, names are not declared
and links come twice. The search for a name ends, and finds it exactly if it is the class itself or links of declared
classes lead to it. The listing above a class ends too: it has no name twice, has exactly the other names that the
search finds, and has nearer ones before farther ones. -/
theorem hierarchy_searches_agree (p : Program) (fetch : String → Except String (List Statement)) (name : String) :
    let table := p.finalize.1
    let listed := (table.provider fetch).superTypes name
    (∀ goal, goal ≠ "" → table.Seeks goal [name] [] (table.implements name goal) ∧
      (table.implements name goal = true ↔ Relation.ReflTransGen table.Links name goal)) ∧
    (table.provider fetch).Gathers [name] [name] listed ∧ listed.Nodup ∧
    (∀ s, s ∈ listed ↔ s ≠ "" ∧ s ≠ name ∧ table.implements name s = true) ∧
    listed.Pairwise fun a b => ∀ n, Breadth.Within (table.provider fetch).above [name] n b →
      Breadth.Within (table.provider fetch).above [name] n a := by
  intro table listed
  have nameless : table.class? "" = none := p.finalize_class?_empty
  obtain ⟨gathers, visits⟩ := table.superTypes_visited fetch name
  refine ⟨fun goal given => ⟨table.seeks_implements name goal, implements_iff nameless given⟩, gathers,
    (List.nodup_cons.mp visits.nodup).2, fun s => ?_, (List.pairwise_cons.mp visits.nearest_first).2⟩
  rw [mem_superTypes nameless]
  exact and_congr_right fun given => and_congr_right fun _ => (implements_iff nameless given).symm

/-- Two classes above each other, and an interface above itself, which is named twice. -/
def circling : Program :=
  { classes := [
      some { name := "a.A", super := "a.B", interfaces := ["a.C", "lib.R", "a.C"] },
      some { name := "a.B", super := "a.A" },
      some { name := "a.C", interfaces := ["a.C", "lib.S"], isInterface := true }] }

/-- From a class that is above itself both searches come to a name that is not declared. From the interface neither
comes back to the class. -/
theorem circling_searches :
    let table := circling.finalize.1
    let provider := table.provider fun _ => .ok []
    ("lib.S" ≠ "" ∧ table.Seeks "lib.S" ["a.A"] [] true ∧ Relation.ReflTransGen table.Links "a.A" "lib.S" ∧
      provider.superTypes "a.A" = ["a.B", "a.C", "lib.R", "lib.S"] ∧
      provider.Gathers ["a.A"] ["a.A"] ["a.B", "a.C", "lib.R", "lib.S"]) ∧
    "a.A" ≠ "" ∧ table.Seeks "a.A" ["a.C"] [] false ∧ ¬Relation.ReflTransGen table.Links "a.C" "a.A" ∧
      "a.A" ∉ provider.superTypes "a.C" := by
  intro table provider
  have answers : table.implements "a.A" "lib.S" = true ∧ table.implements "a.C" "a.A" = false ∧
      provider.superTypes "a.A" = ["a.B", "a.C", "lib.R", "lib.S"] := by decide +kernel
  obtain ⟨found, missed, listed⟩ := answers
  obtain ⟨seeks, gathers, _⟩ := hierarchy_searches_agree circling (fun _ => .ok []) "a.A"
  obtain ⟨seeks', _, _, lists, _⟩ := hierarchy_searches_agree circling (fun _ => .ok []) "a.C"
  have up := seeks "lib.S" (by decide)
  have back := seeks' "a.A" (by decide)
  refine ⟨⟨by decide, found ▸ up.1, up.2.mp found, listed, listed ▸ gathers⟩, by decide, missed ▸ back.1,
    fun path => ?_, fun member => ?_⟩
  · exact absurd (back.2.mpr path) (Bool.eq_false_iff.mp missed)
  · exact absurd ((lists "a.A").mp member).2.2 (Bool.eq_false_iff.mp missed)

end Program

end MisuseSlice
