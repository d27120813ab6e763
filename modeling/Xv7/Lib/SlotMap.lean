import Mathlib

/-!
# Finite maps in a list of slots

A map is kept in a list of slots, each of them empty or with a key and a value.  `find` returns the
value in the first slot with a key, and the number of the slot; `put` fills the first empty slot, or
adds one at the end; `clear` empties a slot.  Where every key is in at most one slot (`Unique`),
these are the operations of a finite map.
-/

namespace SlotMap

variable {κ ν : Type*}

/-- The value of a key and the number of its slot. -/
def find [DecidableEq κ] (k : κ) : List (Option (κ × ν)) → Option (ν × ℕ)
  | [] => none
  | s :: m =>
    match s with
    | some (k', v) => if k' = k then some (v, 0) else (find k m).map fun r => (r.1, r.2 + 1)
    | none => (find k m).map fun r => (r.1, r.2 + 1)

/-- The number of the first empty slot, or of the slot after the last. -/
def free (m : List (Option (κ × ν))) : ℕ := m.findIdx Option.isNone

/-- Fill the first empty slot, or a new one at the end. -/
def put (m : List (Option (κ × ν))) (k : κ) (v : ν) : List (Option (κ × ν)) :=
  if free m < m.length then m.set (free m) (some (k, v)) else m ++ [some (k, v)]

/-- Empty a slot. -/
def clear (m : List (Option (κ × ν))) (i : ℕ) : List (Option (κ × ν)) := m.set i none

/-- Every key is in at most one slot. -/
def Unique (m : List (Option (κ × ν))) : Prop :=
  ∀ (i j : ℕ) (k : κ) (v w : ν), m[i]? = some (some (k, v)) → m[j]? = some (some (k, w)) → i = j

variable {m : List (Option (κ × ν))} {k k' : κ} {v w : ν} {i j : ℕ}

/-! ## The slots after an operation -/

lemma free_le : free m ≤ m.length := List.findIdx_le_length

/-- The slot that is filled next is empty or not there yet. -/
lemma getElem?_free : m[free m]? ≠ some (some (k, v)) := by
  intro h
  obtain ⟨hlt, hget⟩ := List.getElem?_eq_some_iff.mp h
  have hnone : (m.get ⟨free m, hlt⟩).isNone = true := List.findIdx_getElem (w := hlt)
  have hget' : m.get ⟨free m, hlt⟩ = some (k, v) := hget
  rw [hget'] at hnone
  exact absurd hnone (by simp)

lemma getElem?_put : (put m k v)[i]? = if i = free m then some (some (k, v)) else m[i]? := by
  have hle : free m ≤ m.length := free_le
  unfold put
  split_ifs with hlt hi hi
  · rw [hi, List.getElem?_set_self hlt]
  · rw [List.getElem?_set_ne (Ne.symm hi)]
  · have heq : free m = m.length := by omega
    rw [hi, heq]
    simp
  · have heq : free m = m.length := by omega
    rw [heq] at hi
    rcases Nat.lt_or_gt_of_ne hi with hi | hi
    · rw [List.getElem?_append_left hi]
    · rw [List.getElem?_eq_none (by simp; omega), List.getElem?_eq_none (by omega)]

/-- The slots that hold a key after an insertion. -/
lemma getElem?_put_eq : (put m k v)[i]? = some (some (k', w)) ↔
    (i = free m ∧ k = k' ∧ v = w) ∨ m[i]? = some (some (k', w)) := by
  rw [getElem?_put]
  split_ifs with hi
  · subst hi
    simp [getElem?_free]
  · simp [hi]

/-- The slots that hold a key after a slot is emptied. -/
lemma getElem?_clear_eq : (clear m i)[j]? = some (some (k, v)) ↔
    j ≠ i ∧ m[j]? = some (some (k, v)) := by
  unfold clear
  by_cases hj : j = i
  · subst hj
    by_cases hlt : j < m.length
    · simp [List.getElem?_set_self hlt]
    · simp [List.getElem?_eq_none (by simpa using hlt : (m.set j none).length ≤ j)]
  · simp [List.getElem?_set_ne (Ne.symm hj), hj]

/-! ## Finding a key -/

section Find

variable [DecidableEq κ]

/-- The key is found in the first slot that holds it. -/
lemma find_eq_some : find k m = some (v, i) ↔
    m[i]? = some (some (k, v)) ∧ ∀ j, j < i → ∀ w, m[j]? ≠ some (some (k, w)) := by
  induction m generalizing i with
  | nil => simp [find]
  | cons s m ih =>
    have hskip : ((find k m).map fun r => (r.1, r.2 + 1)) = some (v, i) ↔
        ∃ i', i = i' + 1 ∧ find k m = some (v, i') := by
      constructor
      · intro h
        obtain ⟨⟨v', i'⟩, hf, heq⟩ := Option.map_eq_some_iff.mp h
        simp only [Prod.mk.injEq] at heq
        obtain ⟨rfl, rfl⟩ := heq
        exact ⟨i', rfl, hf⟩
      · rintro ⟨i', rfl, hf⟩
        rw [hf]
        rfl
    -- a first slot without the key can be skipped
    have hrest : (∀ w, s ≠ some (k, w)) → ((∃ i', i = i' + 1 ∧ find k m = some (v, i')) ↔
        (s :: m)[i]? = some (some (k, v)) ∧
          ∀ j, j < i → ∀ w, (s :: m)[j]? ≠ some (some (k, w))) := by
      intro hs
      constructor
      · rintro ⟨i', rfl, hf⟩
        obtain ⟨hget, hfirst⟩ := ih.mp hf
        refine ⟨by rwa [List.getElem?_cons_succ], fun j hj w => ?_⟩
        cases j with
        | zero => simpa using hs w
        | succ j =>
          rw [List.getElem?_cons_succ]
          exact hfirst j (by omega) w
      · rintro ⟨hget, hfirst⟩
        cases i with
        | zero =>
          rw [List.getElem?_cons_zero, Option.some.injEq] at hget
          exact absurd hget (hs v)
        | succ i =>
          rw [List.getElem?_cons_succ] at hget
          refine ⟨i, rfl, ih.mpr ⟨hget, fun j hj w => ?_⟩⟩
          have := hfirst (j + 1) (by omega) w
          rwa [List.getElem?_cons_succ] at this
    match s with
    | none =>
      rw [find, hskip]
      exact hrest (by simp)
    | some (k', v') =>
      rw [find]
      split_ifs with hk
      · subst hk
        constructor
        · intro h
          simp only [Option.some.injEq, Prod.mk.injEq] at h
          obtain ⟨rfl, rfl⟩ := h
          exact ⟨rfl, fun j hj => absurd hj (Nat.not_lt_zero j)⟩
        · rintro ⟨hget, hfirst⟩
          cases i with
          | zero => simpa using hget
          | succ i => exact absurd rfl (hfirst 0 (Nat.succ_pos i) v')
      · rw [hskip]
        exact hrest (by simp [hk])

/-- The key is not found when no slot holds it. -/
lemma find_eq_none : find k m = none ↔ ∀ (i : ℕ) (v : ν), m[i]? ≠ some (some (k, v)) := by
  constructor
  · intro h i
    induction i using Nat.strong_induction_on with
    | _ i ih =>
      intro v hget
      have := find_eq_some.mpr ⟨hget, ih⟩
      rw [h] at this
      exact absurd this (by simp)
  · intro h
    by_contra hne
    obtain ⟨⟨v, i⟩, hf⟩ := Option.ne_none_iff_exists'.mp hne
    exact h i v (find_eq_some.mp hf).1

/-- Only the values change. -/
lemma find_map {ν' : Type*} (f : ν → ν') :
    find k (m.map (Option.map fun e => (e.1, f e.2))) = (find k m).map fun r => (f r.1, r.2) := by
  induction m with
  | nil => rfl
  | cons s m ih =>
    rcases s with _ | ⟨k', v⟩
    · simp only [List.map_cons, Option.map_none, find, ih, Option.map_map, Function.comp_def]
    · simp only [List.map_cons, Option.map_some, find, ih]
      split_ifs
      · rfl
      · rw [Option.map_map, Option.map_map]
        rfl

/-- Where keys are unique, any slot with the key is the one that is found. -/
lemma Unique.find_eq_some (h : Unique m) : find k m = some (v, i) ↔ m[i]? = some (some (k, v)) := by
  rw [SlotMap.find_eq_some]
  refine and_iff_left_of_imp fun hget j hj w hget' => ?_
  exact absurd (h i j k v w hget hget') (by omega)

/-- Lists whose slots hold a key alike find it alike. -/
lemma find_congr {m' : List (Option (κ × ν))}
    (h : ∀ (i : ℕ) (v : ν), m'[i]? = some (some (k, v)) ↔ m[i]? = some (some (k, v))) :
    find k m' = find k m := by
  refine Option.ext fun r => ?_
  obtain ⟨v, i⟩ := r
  rw [SlotMap.find_eq_some, SlotMap.find_eq_some]
  simp only [Ne, h]

/-! ## The laws of a finite map -/

lemma Unique.put (h : Unique m) (hk : find k m = none) : Unique (put m k v) := by
  intro i j k' w w' hi hj
  rw [getElem?_put_eq] at hi hj
  rw [find_eq_none] at hk
  rcases hi with ⟨rfl, rfl, -⟩ | hi
  · rcases hj with ⟨rfl, -, -⟩ | hj
    · rfl
    · exact absurd hj (hk j w')
  · rcases hj with ⟨-, rfl, -⟩ | hj
    · exact absurd hi (hk i w)
    · exact h i j k' w w' hi hj

omit [DecidableEq κ] in
lemma Unique.clear (h : Unique m) (i : ℕ) : Unique (clear m i) := by
  intro j j' k v w hj hj'
  rw [getElem?_clear_eq] at hj hj'
  exact h j j' k v w hj.2 hj'.2

/-- A key that was inserted is found in the slot that was filled. -/
lemma find_put_self (hk : find k m = none) : find k (put m k v) = some (v, free m) := by
  rw [find_eq_none] at hk
  refine SlotMap.find_eq_some.mpr ⟨getElem?_put_eq.mpr (Or.inl ⟨rfl, rfl, rfl⟩), fun j hj w hget => ?_⟩
  rcases getElem?_put_eq.mp hget with ⟨rfl, -, -⟩ | hget
  · exact absurd hj (Nat.lt_irrefl _)
  · exact hk j w hget

/-- The other keys are found as before. -/
lemma find_put_of_ne (hne : k' ≠ k) : find k' (put m k v) = find k' m :=
  find_congr fun i w => by
    rw [getElem?_put_eq]
    exact or_iff_right fun h => hne h.2.1.symm

/-- A key is gone when its slot is emptied. -/
lemma Unique.find_clear_self (h : Unique m) (hk : find k m = some (v, i)) :
    find k (SlotMap.clear m i) = none := by
  rw [h.find_eq_some] at hk
  refine find_eq_none.mpr fun j w hj => ?_
  obtain ⟨hne, hj⟩ := getElem?_clear_eq.mp hj
  exact hne (h j i k w v hj hk)

/-- The other keys are found as before. -/
lemma find_clear_of_ne (hk : find k m = some (v, i)) (hne : k' ≠ k) :
    find k' (clear m i) = find k' m :=
  find_congr fun j w => by
    rw [getElem?_clear_eq]
    refine and_iff_right_of_imp fun hj heq => hne ?_
    have hget := (SlotMap.find_eq_some.mp hk).1
    rw [heq, hget] at hj
    simp only [Option.some.injEq, Prod.mk.injEq] at hj
    exact hj.1.symm

end Find

end SlotMap
