import Mathlib

/-!
# Extents of memory

An extent is a run of addresses.  `cover l x` counts the extents of a list that hold the address `x`:
the extents are disjoint where the count is at most one, and two lists with the same count hold the
same memory.  Splitting an extent and joining two that touch keep the count.
-/

/-- A run of `len` addresses from `start` on. -/
structure Extent where
  start : ℕ
  len : ℕ
  deriving DecidableEq, Repr

namespace Extent

/-- The first address behind the extent. -/
def stop (e : Extent) : ℕ := e.start + e.len

/-- One for an address of the extent, and zero for another. -/
def ind (e : Extent) (x : ℕ) : ℕ := if e.start ≤ x ∧ x < e.stop then 1 else 0

/-- The number of extents that hold an address. -/
def cover (l : List Extent) (x : ℕ) : ℕ := (l.map (ind · x)).sum

variable {e e' : Extent} {l l1 l2 : List Extent} {x : ℕ}

lemma ind_eq_one : e.ind x = 1 ↔ e.start ≤ x ∧ x < e.stop := by simp [ind]

lemma ind_eq_zero : e.ind x = 0 ↔ x < e.start ∨ e.stop ≤ x := by
  simp only [ind, ite_eq_right_iff, one_ne_zero, imp_false]
  omega

lemma ind_start (h : 0 < e.len) : e.ind e.start = 1 := ind_eq_one.2 ⟨le_rfl, by rw [stop]; omega⟩

@[simp] lemma cover_nil : cover [] x = 0 := rfl

@[simp] lemma cover_cons : cover (e :: l) x = e.ind x + cover l x := by simp [cover]

@[simp] lemma cover_append : cover (l1 ++ l2) x = cover l1 x + cover l2 x := by simp [cover]

/-- Two extents that touch are one. -/
lemma ind_join (h : e.stop = e'.start) (x : ℕ) :
    ind ⟨e.start, e.len + e'.len⟩ x = e.ind x + e'.ind x := by
  simp only [ind, stop] at h ⊢
  grind

/-- An extent without its end, and its end. -/
lemma ind_split {n : ℕ} (h : n ≤ e.len) (x : ℕ) :
    ind ⟨e.start, e.len - n⟩ x + ind ⟨e.stop - n, n⟩ x = e.ind x := by
  simp only [ind, stop]
  grind

lemma ind_le_cover (h : e ∈ l) (x : ℕ) : e.ind x ≤ cover l x :=
  List.single_le_sum (by simp) _ (List.mem_map_of_mem h)

/-- An address that is counted is in an extent. -/
lemma exists_of_cover_pos (h : 0 < cover l x) : ∃ e ∈ l, e.ind x = 1 := by
  induction l with
  | nil => exact absurd h (by simp)
  | cons e l ih =>
    by_cases he : e.ind x = 1
    · exact ⟨e, List.mem_cons_self, he⟩
    · have hzero : e.ind x = 0 := by
        unfold ind at he ⊢
        split_ifs at he ⊢ <;> simp_all
      rw [cover_cons, hzero, Nat.zero_add] at h
      obtain ⟨e', he', hx⟩ := ih h
      exact ⟨e', List.mem_cons_of_mem e he', hx⟩

/-- The extents do not overlap. -/
def Apart (e e' : Extent) : Prop := e.stop ≤ e'.start ∨ e'.stop ≤ e.start

lemma Apart.symm (h : Apart e e') : Apart e' e := h.elim .inr .inl

instance : Std.Symm Apart := ⟨fun _ _ => Apart.symm⟩

/-- Extents that hold no common address do not overlap. -/
lemma apart_of_ind (he : 0 < e.len) (he' : 0 < e'.len) (h : ∀ x, e.ind x + e'.ind x ≤ 1) :
    Apart e e' := by
  have h1 := h e.start
  have h2 := h e'.start
  have hz1 := (ind_start he)
  have hz2 := (ind_start he')
  have h1' : e'.ind e.start = 0 := by omega
  have h2' : e.ind e'.start = 0 := by omega
  rw [ind_eq_zero] at h1' h2'
  unfold Apart
  omega

/-- Where no address is counted twice, the extents do not overlap. -/
lemma pairwise_apart (hpos : ∀ e ∈ l, 0 < e.len) (h : ∀ x, cover l x ≤ 1) : l.Pairwise Apart := by
  induction l with
  | nil => exact .nil
  | cons e l ih =>
    refine List.pairwise_cons.2 ⟨fun e' he' => ?_, ih (fun e' he' => hpos e' (.tail e he')) ?_⟩
    · refine apart_of_ind (hpos e List.mem_cons_self) (hpos e' (.tail e he')) fun x => ?_
      have hle := ind_le_cover he' x
      have hx := h x
      rw [cover_cons] at hx
      omega
    · intro x
      have hx := h x
      rw [cover_cons] at hx
      omega

/-- A list of extents in address order is not longer than its memory. -/
lemma length_mul_le {a n t : ℕ} (horder : l.Pairwise fun e e' => e.stop < e'.start)
    (hlen : ∀ e ∈ l, n ≤ e.len) (hl : ∀ e ∈ l, a ≤ e.start ∧ e.stop ≤ t) (ha : a ≤ t) :
    a + n * l.length ≤ t := by
  induction l generalizing a with
  | nil => simpa using ha
  | cons e l ih =>
    obtain ⟨hlt, horder⟩ := List.pairwise_cons.1 horder
    have he := hl e List.mem_cons_self
    have hn := hlen e List.mem_cons_self
    have hrest := ih horder (fun e' he' => hlen e' (.tail e he'))
      (fun e' he' => ⟨(hlt e' he').le, (hl e' (.tail e he')).2⟩) he.2
    rw [List.length_cons, Nat.mul_succ]
    unfold stop at hrest
    omega

end Extent
