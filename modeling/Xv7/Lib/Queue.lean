import Xv7.Lib.DList

/-!
# Singly linked queues

The nodes of a queue are a head, `none`, and elements; `f` is the pointer of a node.  The elements of
the queue are a path from the head that ends with a null pointer.  An element is appended at the end
of a walk along the pointers, with the assignments that C code makes, and removed at the head.  The
pointers of elements that are not in the queue can be anything.
-/

namespace Queue

open Function (update update_of_ne update_self)
open DList

variable {α : Type*} {f : Option α → Option α} {x : Option α} {a : α} {l : List α}

/-- Walk along the pointers to the node whose pointer is null. -/
def walk (f : Option α → Option α) : ℕ → Option α → Option (Option α)
  | 0, _ => none
  | k + 1, x =>
    match f x with
    | none => some x
    | some a => walk f k (some a)

/-- The walk along a path ends at its last node. -/
lemma walk_eq (h : Path f x l none) {k : ℕ} (hk : l.length < k) : walk f k x = some (lastNode x l) := by
  induction l generalizing x k with
  | nil =>
    obtain ⟨k, rfl⟩ := Nat.exists_eq_succ_of_ne_zero (Nat.ne_zero_of_lt hk)
    rw [walk, show f x = none from h]
    rfl
  | cons a l ih =>
    obtain ⟨k, rfl⟩ := Nat.exists_eq_succ_of_ne_zero (Nat.ne_zero_of_lt hk)
    rw [walk, h.1, lastNode_cons]
    exact ih h.2 (by simpa using hk)

variable [DecidableEq α]

/-- `a->next = 0; *pp = a`, where `pp` is the pointer of the node `x`. -/
def append (f : Option α → Option α) (x : Option α) (a : α) : Option α → Option α :=
  Function.update (Function.update f (some a) none) x (some a)

/-- An element is appended at the last node. -/
lemma path_append (h : Path f none l none) (hnodup : l.Nodup) (ha : a ∉ l) :
    Path (append f (lastNode none l) a) none (l ++ [a]) none := by
  have hnull : Path (update f (some a) none) none l none :=
    h.congr (update_of_ne (by simp) _ _) fun b hb => update_of_ne (by
      rintro heq
      exact ha (Option.some.inj heq ▸ hb)) _ _
  have hlast : some a ≠ lastNode none l := by
    intro heq
    rcases lastNode_mem (x := none) (l := l) with hlast | ⟨b, hb, hlast⟩
    · rw [hlast] at heq
      exact absurd heq (by simp)
    · rw [hlast, Option.some.injEq] at heq
      exact ha (heq ▸ hb)
  refine DList.path_append.mpr ⟨hnull.redirect (nodup_none_cons hnodup), ?_⟩
  show append f (lastNode none l) a (some a) = none
  rw [append, update_of_ne hlast, update_self]

/-- The first element is removed: `head = head->next`. -/
lemma path_tail (h : Path f none (a :: l) none) :
    Path (update f none (f (some a))) none l none := by
  have hrest : ∀ {l}, Path f (some a) l none →
      Path (update f none (f (some a))) none l none := by
    intro l hl
    cases l with
    | nil => exact (update_self _ _ _).trans hl
    | cons b l =>
      exact ⟨(update_self _ _ _).trans hl.1,
        hl.2.congr (update_of_ne (by simp) _ _) fun c _ => update_of_ne (by simp) _ _⟩
  exact hrest h.2

end Queue
