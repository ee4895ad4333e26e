import Mathlib.Algebra.BigOperators.Group.List.Basic
import Mathlib.Data.List.Basic
import Mathlib.Data.List.Perm.Basic

/-! # One cell of a list

Where many parties take turns, a step of one of them changes one cell of a list.
-/
namespace PhasedWorkload

variable {α β : Type} {items : List α} {i j : ℕ} {a b : α} {moved : List β}

theorem getElem?_set_cases (h : (items.set i a)[j]? = some b) : j = i ∧ b = a ∨ j ≠ i ∧ items[j]? = some b := by
  by_cases hj : j = i
  · subst hj
    obtain ⟨hlt, hget⟩ := List.getElem?_eq_some_iff.mp h
    rw [List.getElem_set_self] at hget
    exact .inl ⟨rfl, hget.symm⟩
  · rw [List.getElem?_set_ne (Ne.symm hj)] at h
    exact .inr ⟨hj, h⟩

theorem sum_map_set {M : Type} [AddCommMonoid M] (f : α → M) (hi : items[i]? = some a) :
    ((items.set i b).map f).sum + f a = (items.map f).sum + f b := by
  induction items generalizing i with
  | nil => simp at hi
  | cons item items ih =>
    cases i with
    | zero =>
      obtain rfl : item = a := by simpa using hi
      simp only [List.set_cons_zero, List.map_cons, List.sum_cons]
      ac_rfl
    | succ i =>
      have hrest := ih (by simpa using hi)
      simp only [List.set_cons_succ, List.map_cons, List.sum_cons]
      rw [add_assoc, hrest, add_assoc]

/-- What one party gives away is all that is missing from what the parties had together. -/
theorem perm_flatMap_set (f : α → List β) (hi : items[i]? = some a) (h : (f a).Perm (moved ++ f b)) :
    (items.flatMap f).Perm (moved ++ (items.set i b).flatMap f) := by
  induction items generalizing i with
  | nil => simp at hi
  | cons item items ih =>
    cases i with
    | zero =>
      obtain rfl : item = a := by simpa using hi
      simpa [List.flatMap_cons] using h.append_right (items.flatMap f)
    | succ i =>
      have hrest := (ih (by simpa using hi)).append_left (f item)
      simp only [List.set_cons_succ, List.flatMap_cons]
      exact hrest.trans (List.perm_append_comm_assoc _ _ _)

theorem perm_set_flatMap (f : α → List β) (hi : items[i]? = some a) (h : (f b).Perm (moved ++ f a)) :
    ((items.set i b).flatMap f).Perm (moved ++ items.flatMap f) := by
  obtain ⟨hlt, hget⟩ := List.getElem?_eq_some_iff.mp hi
  have hback := perm_flatMap_set f (List.getElem?_set_self hlt) h
  rwa [List.set_set, ← hget, List.set_getElem_self] at hback

theorem perm_flatten_set {lists : List (List β)} {rest : List β} (h : lists[i]? = some (moved ++ rest)) :
    (moved ++ (lists.set i rest).flatten).Perm lists.flatten := by
  simpa using (perm_flatMap_set id h (List.Perm.refl _)).symm

end PhasedWorkload
