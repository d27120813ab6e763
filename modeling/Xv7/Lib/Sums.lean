import Mathlib

/-!
# Sums over tables

A table is a function on a finite type.  When one entry of it is changed, a sum over the table changes
by that entry; and a count that was at most one tells which entry it is about.
-/

namespace Table

variable {ι α : Type*} [Fintype ι]

/-- The number of entries with a property. -/
def count (p : α → Prop) [DecidablePred p] (f : ι → α) : ℕ := ∑ i, if p (f i) then 1 else 0

section

variable {p : α → Prop} [DecidablePred p] {f : ι → α} {i : ι}

lemma count_pos (h : p (f i)) : 0 < count p f := by
  have := Finset.single_le_sum (f := fun j => if p (f j) then 1 else 0) (fun _ _ => Nat.zero_le _)
    (Finset.mem_univ i)
  simp only [if_pos h] at this
  exact this

lemma exists_of_count_pos (h : 0 < count p f) : ∃ i, p (f i) := by
  by_contra hno
  simp only [not_exists] at hno
  rw [count, Finset.sum_eq_zero fun j _ => if_neg (hno j)] at h
  exact lt_irrefl 0 h

end

variable [DecidableEq ι]

/-- A sum over a table of which one entry is changed. -/
lemma sum_update_add (g : α → ℕ) (f : ι → α) (i : ι) (x : α) :
    (∑ j, g (Function.update f i x j)) + g (f i) = (∑ j, g (f j)) + g x := by
  rw [← Finset.add_sum_erase _ _ (Finset.mem_univ i), ← Finset.add_sum_erase _ _ (Finset.mem_univ i),
    Function.update_self]
  have hrest : ∑ j ∈ Finset.univ.erase i, g (Function.update f i x j) =
      ∑ j ∈ Finset.univ.erase i, g (f j) := by
    refine Finset.sum_congr rfl fun j hj => ?_
    rw [Function.update_of_ne (Finset.ne_of_mem_erase hj)]
  omega

variable {p : α → Prop} [DecidablePred p] {f : ι → α} {i : ι}

/-- The number of entries with a property, when one entry is changed. -/
lemma count_update_add (f : ι → α) (i : ι) (x : α) :
    count p (Function.update f i x) + (if p (f i) then 1 else 0) = count p f + if p x then 1 else 0 :=
  sum_update_add (fun y => if p y then 1 else 0) f i x

end Table
