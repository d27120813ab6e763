import Mathlib

/-!
# Lists of updates of a store

A store is a function `d : ι → α`.  `applyUpdates us d` performs the updates of the list `us` in
order, so that a later update of an index wins over an earlier one.  The lemmas are what a redo
log rests on: an index that is not written keeps its value, an index that is written does not
depend on the store underneath, and performing the whole list again after a part of it changes
nothing.
-/

namespace Updates

variable {ι α : Type*} [DecidableEq ι]

/-- Perform a list of updates, the first one first. -/
def applyUpdates (us : List (ι × α)) (d : ι → α) : ι → α :=
  us.foldl (fun d u => Function.update d u.1 u.2) d

@[simp] lemma applyUpdates_nil (d : ι → α) : applyUpdates [] d = d := rfl

@[simp] lemma applyUpdates_cons (u : ι × α) (us : List (ι × α)) (d : ι → α) :
    applyUpdates (u :: us) d = applyUpdates us (Function.update d u.1 u.2) := rfl

/-- Performing two lists of updates one after the other. -/
lemma applyUpdates_append (us vs : List (ι × α)) (d : ι → α) :
    applyUpdates (us ++ vs) d = applyUpdates vs (applyUpdates us d) := by
  simp [applyUpdates, List.foldl_append]

/-- One more update at the end. -/
lemma applyUpdates_concat (us : List (ι × α)) (u : ι × α) (d : ι → α) :
    applyUpdates (us ++ [u]) d = Function.update (applyUpdates us d) u.1 u.2 := by
  simp [applyUpdates_append]

/-- An index that no update names keeps its value. -/
lemma applyUpdates_of_notMem {us : List (ι × α)} {d : ι → α} {i : ι}
    (h : i ∉ us.map Prod.fst) : applyUpdates us d i = d i := by
  induction us generalizing d with
  | nil => rfl
  | cons u us ih =>
    rw [List.map_cons, List.mem_cons, not_or] at h
    rw [applyUpdates_cons, ih h.2, Function.update_of_ne h.1]

/-- The result at an index depends on the store underneath only at that index, and not even there
when some update names it. -/
lemma applyUpdates_congr {us : List (ι × α)} {d d' : ι → α} {i : ι}
    (h : i ∈ us.map Prod.fst ∨ d i = d' i) : applyUpdates us d i = applyUpdates us d' i := by
  induction us generalizing d d' with
  | nil =>
    rcases h with h | h
    · simp at h
    · exact h
  | cons u us ih =>
    rw [applyUpdates_cons, applyUpdates_cons]
    apply ih
    by_cases hu : i = u.1
    · subst hu
      exact Or.inr (by simp)
    · rcases h with h | h
      · rw [List.map_cons, List.mem_cons] at h
        exact Or.inl (h.resolve_left hu)
      · exact Or.inr (by rw [Function.update_of_ne hu, Function.update_of_ne hu, h])

/-- Performing the whole list after a part of it is performing the whole list. -/
lemma applyUpdates_take (us : List (ι × α)) (m : ℕ) (d : ι → α) :
    applyUpdates us (applyUpdates (us.take m) d) = applyUpdates us d := by
  funext i
  apply applyUpdates_congr
  by_cases h : i ∈ us.map Prod.fst
  · exact Or.inl h
  · refine Or.inr (applyUpdates_of_notMem fun hi => h ?_)
    rw [List.map_take] at hi
    exact List.mem_of_mem_take hi

/-- Performing a list twice is performing it once. -/
lemma applyUpdates_idem (us : List (ι × α)) (d : ι → α) :
    applyUpdates us (applyUpdates us d) = applyUpdates us d := by
  simpa using applyUpdates_take us us.length d

/-- When every update of an index writes the value `v`, the index holds `v` afterwards. -/
lemma applyUpdates_of_forall {us : List (ι × α)} {d : ι → α} {i : ι} {v : α}
    (hmem : i ∈ us.map Prod.fst) (hval : ∀ u ∈ us, u.1 = i → u.2 = v) :
    applyUpdates us d i = v := by
  induction us generalizing d with
  | nil => simp at hmem
  | cons u us ih =>
    rw [applyUpdates_cons]
    by_cases hi : i ∈ us.map Prod.fst
    · exact ih hi fun w hw => hval w (List.mem_cons_of_mem _ hw)
    · have hu : i = u.1 := by
        rw [List.map_cons, List.mem_cons] at hmem
        exact hmem.resolve_right hi
      rw [applyUpdates_of_notMem hi, ← hval u List.mem_cons_self hu.symm, hu]
      simp

end Updates
