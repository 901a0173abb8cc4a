import Mathlib

/-!
# Lists of threads

A component's threads are a list of program counters, and one step replaces one
entry. A measure summed over the threads splits into the moving thread's part and
the rest (`sum_map_set`); a projection the step keeps is the same for the whole
list (`map_set_of_eq`).
-/
namespace FlashSpark

variable {α β : Type*}

theorem map_set_of_eq (f : α → β) {l : List α} {j : Nat} {a b : α} (hj : l[j]? = some a)
    (hab : f b = f a) : (l.set j b).map f = l.map f := by
  rw [List.map_set, hab]
  apply List.ext_getElem?
  intro i
  rw [List.getElem?_set]
  split
  · rename_i hi
    subst hi
    have : j < l.length := (List.getElem?_eq_some_iff.mp hj).1
    rw [List.length_map, if_pos this, List.getElem?_map, hj]; rfl
  · rfl

/-- The share of thread `j` in a sum, and what the sum is when `j` moves. -/
theorem sum_map_set {M : Type*} [AddCommMonoid M] (f : α → M) {l : List α} {j : Nat} {a : α}
    (hj : l[j]? = some a) :
    ∃ rest, (l.map f).sum = rest + f a ∧ ∀ b, ((l.set j b).map f).sum = rest + f b := by
  induction l generalizing j with
  | nil => simp at hj
  | cons x l ih =>
    cases j with
    | zero =>
      obtain rfl : x = a := by simpa using hj
      refine ⟨(l.map f).sum, ?_, fun b => ?_⟩
      · rw [List.map_cons, List.sum_cons, add_comm]
      · rw [List.set_cons_zero, List.map_cons, List.sum_cons, add_comm]
    | succ j =>
      obtain ⟨rest, hrest, hset⟩ := ih (j := j) (by simpa using hj)
      refine ⟨f x + rest, ?_, fun b => ?_⟩
      · rw [List.map_cons, List.sum_cons, hrest, add_assoc]
      · rw [List.set_cons_succ, List.map_cons, List.sum_cons, hset, add_assoc]

end FlashSpark
