import Mathlib

/-!
# Activities on shared objects

Processes that use shared objects are a multiset of activities; each is about at most one object,
and may have its lock.  The number of activities about an object is what a reference count should
be, and where the number of those that have its lock is at most one, the lock excludes.
-/

namespace Activity

variable {A K : Type*} [DecidableEq K] {slot : A → Option K} {lock : A → Bool} {acts : Multiset A}
  {a b : A} {p q : K}

/-- The number of activities about an object. -/
def uses (slot : A → Option K) (acts : Multiset A) (p : K) : ℕ := acts.countP fun a => slot a = some p

/-- The number of activities that have the lock of an object. -/
def locks (slot : A → Option K) (lock : A → Bool) (acts : Multiset A) (p : K) : ℕ :=
  acts.countP fun a => slot a = some p ∧ lock a

@[grind =] lemma uses_cons :
    uses slot (a ::ₘ acts) p = uses slot acts p + if slot a = some p then 1 else 0 :=
  Multiset.countP_cons _ _ _

@[grind =] lemma locks_cons :
    locks slot lock (a ::ₘ acts) p =
      locks slot lock acts p + if slot a = some p ∧ lock a then 1 else 0 :=
  Multiset.countP_cons _ _ _

lemma uses_pos (ha : a ∈ acts) (hp : slot a = some p) : 0 < uses slot acts p :=
  Multiset.countP_pos.mpr ⟨a, ha, hp⟩

lemma locks_pos (ha : a ∈ acts) (hp : slot a = some p) (hl : lock a) : 0 < locks slot lock acts p :=
  Multiset.countP_pos.mpr ⟨a, ha, hp, hl⟩

/-- Two activities with the lock of an object are one. -/
lemma eq_of_locks_le_one (h : locks slot lock acts p ≤ 1) (ha : a ∈ acts) (hb : b ∈ acts)
    (hap : slot a = some p) (hbp : slot b = some p) (hal : lock a) (hbl : lock b) : a = b := by
  by_contra hne
  obtain ⟨rest, rfl⟩ := Multiset.exists_cons_of_mem ha
  have hpos := locks_pos ((Multiset.mem_cons.mp hb).resolve_left (Ne.symm hne)) hbp hbl
  rw [locks_cons, if_pos ⟨hap, hal⟩] at h
  omega

/-- Two activities about an object that has one are one. -/
lemma eq_of_uses_eq_one (h : uses slot acts p = 1) (ha : a ∈ acts) (hb : b ∈ acts)
    (hap : slot a = some p) (hbp : slot b = some p) : a = b := by
  by_contra hne
  obtain ⟨rest, rfl⟩ := Multiset.exists_cons_of_mem ha
  have hpos := uses_pos ((Multiset.mem_cons.mp hb).resolve_left (Ne.symm hne)) hbp
  rw [uses_cons, if_pos hap] at h
  omega

/-- The owners of locks when an activity goes on as another one about the same object. -/
lemma locks_replace {L : K → Bool} {l : Bool}
    (h : ∀ q, locks slot lock (a ::ₘ acts) q = if L q then 1 else 0) (hslot : slot a = some p)
    (hslot' : slot b = some p)
    (hl : lock a = lock b ∧ l = L p ∨ (lock a ∨ ¬ L p) ∧ l = lock b) (q : K) :
    locks slot lock (b ::ₘ acts) q = if (if q = p then l else L q) then 1 else 0 := by
  have hq := h q
  simp only [locks_cons, hslot, Option.some.injEq] at hq
  simp only [locks_cons, hslot', Option.some.injEq]
  by_cases hqp : q = p
  · subst hqp
    rcases hl with ⟨hab, rfl⟩ | ⟨hal, rfl⟩
    · rw [hab] at hq
      simpa using hq
    · cases hb : lock b <;> cases ha : lock a <;> cases hL : L q <;> simp_all
  · simpa [hqp, Ne.symm hqp] using hq

end Activity
