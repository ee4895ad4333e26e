import Mathlib.Data.List.Basic
import Mathlib.Data.List.Perm.Basic
import Mathlib.Data.List.Range

/-! # Keyed lists

A list of values with keys is read by looking up a key. Where every key occurs once and all of them are below
a bound, the values are met by going through the keys up to the bound, in whatever order they stand.
-/
namespace PhasedWorkload.Keyed

variable {α β γ : Type} [DecidableEq α] {l : List (α × β)} {k : α}

theorem lookup_cons (k : α) (first : α × β) (l : List (α × β)) :
    (first :: l).lookup k = if k = first.1 then some first.2 else l.lookup k := by
  obtain ⟨key, b⟩ := first
  by_cases hk : k = key
  · simp [hk]
  · have hkey : (k == key) = false := beq_false_of_ne hk
    simp [List.lookup_cons, hkey, hk]

theorem lookup_eq_none (h : ∀ r ∈ l, r.1 ≠ k) : l.lookup k = none := by
  refine List.lookup_eq_none_iff.mpr fun r hr => ?_
  simpa using Ne.symm (h r hr)

/-- Changing the values of one key changes what is found under that key only. -/
theorem lookup_change (l : List (α × β)) (key : α) (change : β → β) (k : α) :
    (l.map fun r => if r.1 = key then (r.1, change r.2) else r).lookup k =
      if k = key then (l.lookup k).map change else l.lookup k := by
  induction l with
  | nil => simp
  | cons first rest ih =>
    rw [List.map_cons, lookup_cons, lookup_cons, ih]
    by_cases hk : k = first.1
    · by_cases hfirst : first.1 = key <;> simp [hk, hfirst]
    · by_cases hfirst : first.1 = key
      · have hother : k ≠ key := fun h => hk (h.trans hfirst.symm)
        simp [hfirst, hother]
      · simp [hfirst, hk]

theorem mem_of_lookup {b : β} (h : l.lookup k = some b) : (k, b) ∈ l := by
  obtain ⟨l₁, l₂, rfl, _⟩ := List.lookup_eq_some_iff.mp h
  simp

theorem flatMap_range_single {n key : ℕ} (hkey : key < n) (x : List γ) :
    ((List.range n).flatMap fun k => if k = key then x else []) = x := by
  induction n with
  | zero => exact absurd hkey (Nat.not_lt_zero key)
  | succ n ih =>
    rw [List.range_succ, List.flatMap_append, List.flatMap_singleton]
    by_cases hlast : n = key
    · have hnone : ((List.range n).flatMap fun k => if k = key then x else []) = [] := by
        refine List.flatMap_eq_nil_iff.mpr fun k hk => ?_
        have hlt := List.mem_range.mp hk
        exact if_neg (by omega)
      rw [hnone, if_pos hlast, List.nil_append]
    · rw [ih (by omega), if_neg hlast, List.append_nil]

theorem flatMap_range_lookup {l : List (ℕ × β)} {n : ℕ} (hkeys : (l.map Prod.fst).Nodup)
    (hbound : ∀ r ∈ l, r.1 < n) (f : β → List γ) :
    ((List.range n).flatMap fun k => (l.lookup k).elim [] f).Perm (l.flatMap fun r => f r.2) := by
  induction l with
  | nil => simp
  | cons first rest ih =>
    rw [List.map_cons, List.nodup_cons] at hkeys
    have hrest := ih hkeys.2 fun r hr => hbound r (List.mem_cons_of_mem _ hr)
    have hsplit : (fun k => ((first :: rest).lookup k).elim [] f) = fun k =>
        (if k = first.1 then f first.2 else []) ++ (rest.lookup k).elim [] f := by
      funext k
      rw [lookup_cons]
      by_cases hk : k = first.1
      · have hnone : rest.lookup k = none := by
          refine lookup_eq_none fun r hr heq => hkeys.1 ?_
          rw [← hk, ← heq]
          exact List.mem_map_of_mem hr
        simp [hk ▸ hnone, hk]
      · simp [hk]
    rw [hsplit, List.flatMap_cons]
    refine (List.flatMap_append_perm _ _ _).symm.trans ?_
    rw [flatMap_range_single (hbound first List.mem_cons_self)]
    exact hrest.append_left _

end PhasedWorkload.Keyed
