import Mathlib.Data.List.Basic
import Mathlib.Data.List.Induction

/-! What going through a list keeps, makes and collects, what is added to rows, and what is found by a search that stops at
a limit. -/
namespace MisuseSlice

/-- Going through a list keeps an invariant, and what an element of the list makes and the others keep. -/
theorem foldl_makes {α β : Type} {f : β → α → β} {I Q : β → Prop} {xs : List α} {a : α} {b : β} (member : a ∈ xs)
    (keeps : ∀ b, ∀ x ∈ xs, I b → I (f b x)) (stays : ∀ b, ∀ x ∈ xs, I b → Q b → Q (f b x))
    (makes : ∀ b, I b → Q (f b a)) (start : I b) : I (xs.foldl f b) ∧ Q (xs.foldl f b) := by
  have onward : ∀ (ys : List α) (b : β), (∀ y ∈ ys, y ∈ xs) → I b → Q b → I (ys.foldl f b) ∧ Q (ys.foldl f b) := by
    intro ys
    induction ys with
    | nil => exact fun b _ invariant made => ⟨invariant, made⟩
    | cons y ys ih =>
      intro b inside invariant made
      have here := inside y List.mem_cons_self
      exact ih _ (fun y' later => inside y' (List.mem_cons_of_mem _ later)) (keeps b y here invariant)
        (stays b y here invariant made)
  obtain ⟨before, behind, rfl⟩ := List.append_of_mem member
  rw [List.foldl_append, List.foldl_cons]
  have reached : I (before.foldl f b) :=
    List.foldlRecOn before f (motive := I) start fun b invariant x here =>
      keeps b x (List.mem_append_left _ here) invariant
  exact onward behind _ (fun y later => List.mem_append_right _ (List.mem_cons_of_mem _ later))
    (keeps _ a member reached) (makes _ reached)

theorem nodup_eraseDups {α : Type} [BEq α] [LawfulBEq α] (xs : List α) : xs.eraseDups.Nodup := by
  cases xs with
  | nil => exact .nil
  | cons x xs =>
    rw [List.eraseDups_cons, List.nodup_cons]
    exact ⟨by simp [List.mem_eraseDups], nodup_eraseDups (xs.filter fun y => !y == x)⟩
termination_by xs.length
decreasing_by exact Nat.lt_succ_of_le (List.length_filter_le _ _)

/-- Adding each element that is not there yet leaves every element once, at its first place. -/
theorem foldl_concat_new {α : Type} [BEq α] [LawfulBEq α] (xs : List α) :
    xs.foldl (fun acc x => if acc.contains x then acc else acc ++ [x]) [] = xs.eraseDups := by
  induction xs using List.reverseRecOn with
  | nil => rfl
  | append_singleton xs x ih =>
    rw [List.foldl_append, ih, List.eraseDups_append]
    by_cases twice : x ∈ xs
    · simp [List.removeAll, List.mem_eraseDups, twice]
    · simp [List.removeAll, List.mem_eraseDups, twice, List.eraseDups_cons]

section

variable {α β : Type} {f : α → Option β} {xs : List α} {ys : List β}

/-- A list is made of what a partial function gives at each place. -/
theorem map_of_mapM_eq_some (made : xs.mapM f = some ys) : xs.map f = ys.map some := by
  induction xs generalizing ys with
  | nil =>
    obtain rfl := Option.some.inj made
    rfl
  | cons x xs ih =>
    rw [List.mapM_cons] at made
    obtain ⟨y, here, rest⟩ := Option.bind_eq_some_iff.mp made
    obtain ⟨ys, there, joined⟩ := Option.bind_eq_some_iff.mp rest
    obtain rfl := Option.some.inj joined
    rw [List.map_cons, List.map_cons, here, ih there]

theorem mem_of_mapM_eq_some (made : xs.mapM f = some ys) : ∀ y ∈ ys, ∃ x ∈ xs, f x = some y := by
  intro y member
  have among : some y ∈ xs.map f := map_of_mapM_eq_some made ▸ List.mem_map_of_mem member
  exact List.mem_map.mp among

theorem exists_of_mapM_eq_some (made : xs.mapM f = some ys) : ∀ x ∈ xs, ∃ y ∈ ys, f x = some y := by
  intro x member
  have among : f x ∈ ys.map some := map_of_mapM_eq_some made ▸ List.mem_map_of_mem member
  obtain ⟨y, inside, gives⟩ := List.mem_map.mp among
  exact ⟨y, inside, gives.symm⟩

end

/-- One more entry with the default value is as good as none. -/
theorem getD_concat_default {α : Type} (xs : List α) (a : α) (n : Nat) : (xs ++ [a]).getD n a = xs.getD n a := by
  simp only [List.getD_eq_getElem?_getD, List.getElem?_append, List.getElem?_singleton]
  split
  · rfl
  · rename_i outside
    rw [List.getElem?_eq_none (Nat.not_lt.mp outside)]
    split <;> rfl

/-- An entry is added at the end of its row, and to no other row. -/
theorem getD_modify_concat {α : Type} (rows : List (List α)) (i : Nat) (a : α) (n : Nat) :
    (rows.modify i (· ++ [a])).getD n [] = rows.getD n [] ++ if n = i ∧ i < rows.length then [a] else [] := by
  simp only [List.getD_eq_getElem?_getD, List.getElem?_modify]
  by_cases same : i = n
  · subst same
    by_cases inside : i < rows.length
    · simp [inside]
    · simp [inside]
  · simp [same, Ne.symm same]

section Collect

variable {α β σ : Type} {f : σ → α → List β × σ}

/-- Runs a step for each element, and collects what the steps give. -/
def collect (f : σ → α → List β × σ) (s : σ) (xs : List α) : List β × σ :=
  xs.foldl (fun r x => (r.1 ++ (f r.2 x).1, (f r.2 x).2)) ([], s)

theorem collect_nil {s : σ} : collect f s [] = ([], s) := rfl

theorem collect_cons {s : σ} {x : α} {xs : List α} :
    collect f s (x :: xs) = ((f s x).1 ++ (collect f (f s x).2 xs).1, (collect f (f s x).2 xs).2) := by
  have onto : ∀ (xs : List α) (given : List β) (s : σ),
      xs.foldl (fun r x => (r.1 ++ (f r.2 x).1, (f r.2 x).2)) (given, s) =
        (given ++ (collect f s xs).1, (collect f s xs).2) := by
    intro xs
    induction xs with
    | nil => simp [collect_nil]
    | cons x xs ih =>
      intro given s
      have first : collect f s (x :: xs) =
          xs.foldl (fun r x => (r.1 ++ (f r.2 x).1, (f r.2 x).2)) ([] ++ (f s x).1, (f s x).2) := rfl
      rw [List.foldl_cons, ih, first, ih, List.nil_append, List.append_assoc]
  rw [collect, List.foldl_cons, onto, List.nil_append]

theorem collect_append {s : σ} {xs ys : List α} :
    collect f s (xs ++ ys) =
      ((collect f s xs).1 ++ (collect f (collect f s xs).2 ys).1, (collect f (collect f s xs).2 ys).2) := by
  induction xs generalizing s with
  | nil => simp [collect_nil]
  | cons x xs ih => rw [List.cons_append, collect_cons, collect_cons, ih, List.append_assoc]

end Collect

section Limit

variable {α β : Type} {limit : Nat} {found more : List α}

/-- The first elements of a list, as many as the limit allows; zero is no limit. -/
def upTo (limit : Nat) (found : List α) : List α := if limit = 0 then found else found.take limit

/-- No more is found than the limit allows. -/
def Within (limit : Nat) (found : List α) : Prop := limit ≠ 0 → found.length ≤ limit

/-- No more may be found. -/
def Reached (limit : Nat) (found : List α) : Prop := limit ≠ 0 ∧ limit ≤ found.length

instance (limit : Nat) (found : List α) : Decidable (Reached limit found) := inferInstanceAs (Decidable (_ ∧ _))

theorem Within.nil (limit : Nat) : Within limit ([] : List α) := fun _ => Nat.zero_le _

theorem upTo_within (limit : Nat) (found : List α) : Within limit (upTo limit found) := fun some => by
  rw [upTo, if_neg some]
  exact List.length_take_le limit found

theorem Within.upTo_eq (within : Within limit found) : upTo limit found = found := by
  unfold upTo
  split
  · rfl
  · rename_i some
    exact List.take_of_length_le (within some)

theorem upTo_append (limit : Nat) (found more : List α) : upTo limit (upTo limit found ++ more) = upTo limit (found ++ more) := by
  unfold upTo
  split
  · rfl
  · rw [List.take_append, List.take_append, List.take_take, List.length_take, Nat.min_self]
    congr 2
    omega

/-- Nothing is found once the limit is reached. -/
theorem Reached.upTo_append (reached : Reached limit found) (within : Within limit found) (more : List α) :
    upTo limit (found ++ more) = found := by
  rw [upTo, if_neg reached.1, List.take_append_of_le_length reached.2, List.take_of_length_le (within reached.1)]

theorem upTo_append_singleton (within : Within limit found) (a : α) :
    upTo limit (found ++ [a]) = if Reached limit found then found else found ++ [a] := by
  split
  · rename_i reached
    exact reached.upTo_append within [a]
  · rename_i room
    refine Within.upTo_eq fun some => ?_
    have small : ¬limit ≤ found.length := fun le => room ⟨some, le⟩
    rw [List.length_append, List.length_singleton]
    omega

theorem flatMap_filter (p : β → Bool) (g : β → List α) (cs : List β) :
    (cs.filter p).flatMap g = cs.flatMap fun c => if p c then g c else [] := by
  induction cs with
  | nil => rfl
  | cons c cs ih =>
    rw [List.filter_cons, List.flatMap_cons, ← ih]
    split <;> rfl

/-- Searches that each stop at the limit, one after the other, find what is found without a limit, up to it. -/
theorem foldl_upTo {σ : Type} (view : σ → List α) {f : σ → β → σ} {g : β → List α} {cs : List β} {x : σ}
    (step : ∀ c ∈ cs, ∀ x, Within limit (view x) → view (f x c) = upTo limit (view x ++ g c))
    (within : Within limit (view x)) : view (cs.foldl f x) = upTo limit (view x ++ cs.flatMap g) := by
  induction cs generalizing x with
  | nil => rw [List.flatMap_nil, List.append_nil, within.upTo_eq, List.foldl_nil]
  | cons c cs ih =>
    have here := step c List.mem_cons_self x within
    rw [List.foldl_cons, ih (fun c' later => step c' (List.mem_cons_of_mem _ later)) (here ▸ upTo_within _ _), here,
      upTo_append, List.flatMap_cons, List.append_assoc]

end Limit

end MisuseSlice
