/-!
Sorting by insertion. Elements that neither precedes the other keep their order.
-/
namespace MisuseSlice.Sorting

variable {α : Type} (le : α → α → Bool)

/-- Puts an element before the first one that it precedes. -/
def insert (a : α) : List α → List α
  | [] => [a]
  | b :: bs => if le a b then a :: b :: bs else b :: insert a bs

/-- The elements in ascending order. -/
def sort (xs : List α) : List α := xs.foldr (insert le) []

variable {le}

@[simp] theorem mem_insert {a x : α} {xs : List α} : x ∈ insert le a xs ↔ x = a ∨ x ∈ xs := by
  induction xs with
  | nil => simp [insert]
  | cons b bs ih =>
    simp only [insert]
    split
    · simp
    · simp only [List.mem_cons, ih]
      exact or_left_comm

@[simp] theorem mem_sort {x : α} {xs : List α} : x ∈ sort le xs ↔ x ∈ xs := by
  induction xs with
  | nil => simp [sort]
  | cons a xs ih => simp only [sort, List.foldr_cons, mem_insert, List.mem_cons] at ih ⊢; rw [ih]

@[simp] theorem length_insert {a : α} {xs : List α} : (insert le a xs).length = xs.length + 1 := by
  induction xs with
  | nil => rfl
  | cons b bs ih =>
    simp only [insert]
    split
    · rfl
    · rw [List.length_cons, ih, List.length_cons]

@[simp] theorem length_sort {xs : List α} : (sort le xs).length = xs.length := by
  induction xs with
  | nil => rfl
  | cons a xs ih =>
    have step : sort le (a :: xs) = insert le a (sort le xs) := rfl
    rw [step, length_insert, ih, List.length_cons]

/-- A list that is in order already is left alone. -/
theorem sort_of_pairwise {xs : List α} (ascending : xs.Pairwise fun a b => le a b = true) :
    sort le xs = xs := by
  induction xs with
  | nil => rfl
  | cons a xs ih =>
    obtain ⟨first, rest⟩ := List.pairwise_cons.mp ascending
    have same : sort le (a :: xs) = insert le a xs := congrArg (insert le a) (ih rest)
    rw [same]
    cases xs with
    | nil => rfl
    | cons b bs => simp [insert, first b List.mem_cons_self]

end MisuseSlice.Sorting
