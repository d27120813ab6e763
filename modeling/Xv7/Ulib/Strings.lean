import Xv7.Lib.Copy

/-!
# The two string libraries

`memmove`, `memcmp`, `strncmp` and `strncpy` of the user library (`ulib.c`) and of the kernel
(`string.c`).  The addresses are 32 bits wide; the length is an `int` in the user library, and an
unsigned one in the kernel except in `strncpy`.

The user library's `memmove` always copies up, its `memcmp` returns whether the first byte that differs
is smaller, and its `strncpy` does not stop at a NUL.
-/

namespace Xv7

/-- An address. -/
abbrev Addr := BitVec 32

/-- A memory. -/
abbrev Mem := Addr → UInt8

/-! ## The user library -/

namespace Ulib

/-- `memmove`: what it returns, and the memory after it. -/
def memmove (vdst vsrc : Addr) (n : BitVec 32) (m : Mem) : Addr × Mem :=
  (vdst, Copy.up n.toInt.toNat vdst vsrc m)

/-- The loop of `memcmp` from `i` on, with so many turns left. -/
def memcmpLoop (p₁ p₂ : Addr) (m : Mem) : ℕ → Addr → ℤ
  | 0, _ => 0
  | n + 1, i =>
    if m (p₁ + i) ≠ m (p₂ + i) then if m (p₁ + i) < m (p₂ + i) then 1 else 0
    else memcmpLoop p₁ p₂ m n (i + 1)

/-- `memcmp`. -/
def memcmp (s₁ s₂ : Addr) (n : BitVec 32) (m : Mem) : ℤ := memcmpLoop s₁ s₂ m n.toInt.toNat 0

/-- The loop of `strncmp` from `i` on, with so many turns left. -/
def strncmpLoop (p q : Addr) (m : Mem) : ℕ → Addr → ℤ
  | 0, _ => 0
  | n + 1, i =>
    let uc1 := m (p + i)
    let uc2 := m (q + i)
    if uc1 ≠ uc2 then (uc1.toNat : ℤ) - uc2.toNat
    else if uc1 = 0 then 0
    else strncmpLoop p q m n (i + 1)

/-- `strncmp`. -/
def strncmp (p q : Addr) (n : BitVec 32) (m : Mem) : ℤ := strncmpLoop p q m n.toInt.toNat 0

/-- `strncpy`: what it returns, and the memory after it. -/
def strncpy (dst src : Addr) (n : BitVec 32) (m : Mem) : Addr × Mem :=
  (dst, Copy.up n.toInt.toNat dst src m)

end Ulib

/-! ## The kernel -/

namespace KString

/-- `memmove`: what it returns, and the memory after it. -/
def memmove (dst src : Addr) (n : BitVec 32) (m : Mem) : Addr × Mem :=
  if src < dst ∧ src + n > dst then (dst, Copy.down n.toNat (dst + n) (src + n) m)
  else (dst, Copy.up n.toNat dst src m)

/-- The loop of `memcmp`, with so many turns left. -/
def memcmpLoop (m : Mem) : ℕ → Addr → Addr → ℤ
  | 0, _, _ => 0
  | n + 1, s₁, s₂ =>
    if m s₁ ≠ m s₂ then ((m s₁).toNat : ℤ) - (m s₂).toNat else memcmpLoop m n (s₁ + 1) (s₂ + 1)

/-- `memcmp`. -/
def memcmp (v₁ v₂ : Addr) (n : BitVec 32) (m : Mem) : ℤ := memcmpLoop m n.toNat v₁ v₂

/-- The loop of `strncmp`, with so many turns left, and what is returned after it. -/
def strncmpLoop (m : Mem) : ℕ → Addr → Addr → ℤ
  | 0, _, _ => 0
  | n + 1, p, q =>
    if m p ≠ 0 ∧ m p = m q then strncmpLoop m n (p + 1) (q + 1) else ((m p).toNat : ℤ) - (m q).toNat

/-- `strncmp`. -/
def strncmp (p q : Addr) (n : BitVec 32) (m : Mem) : ℤ := strncmpLoop m n.toNat p q

/-- The two loops of `strncpy`, with so many turns left. -/
def strncpyLoop : ℕ → Addr → Addr → Mem → Mem
  | 0, _, _, m => m
  | n + 1, s, t, m =>
    let m' := Function.update m s (m t)
    if m t ≠ 0 then strncpyLoop n (s + 1) (t + 1) m' else Copy.fill 0 n (s + 1) m'

/-- `strncpy`: what it returns, and the memory after it. -/
def strncpy (s t : Addr) (n : BitVec 32) (m : Mem) : Addr × Mem := (s, strncpyLoop n.toInt.toNat s t m)

end KString

variable {m : Mem} {p q d s : Addr} {n : ℕ}

/-! ## Comparing -/

lemma Ulib.memcmpLoop_add (i j : Addr) :
    Ulib.memcmpLoop p q m n (i + j) = Ulib.memcmpLoop (p + i) (q + i) m n j := by
  induction n generalizing j with
  | zero => rfl
  | succ n ih => simp only [Ulib.memcmpLoop, ← add_assoc, ← ih]

lemma Ulib.strncmpLoop_add (i j : Addr) :
    Ulib.strncmpLoop p q m n (i + j) = Ulib.strncmpLoop (p + i) (q + i) m n j := by
  induction n generalizing j with
  | zero => rfl
  | succ n ih => simp only [Ulib.strncmpLoop, ← add_assoc, ← ih]

/-- At a difference the two `memcmp`s return values of different signs. -/
lemma sign_difference_ne {a b : UInt8} (h : a ≠ b) :
    (if a < b then 1 else 0 : ℤ).sign ≠ ((a.toNat : ℤ) - b.toNat).sign := by
  have hne : a.toNat ≠ b.toNat := fun h' => h (UInt8.toNat_inj.mp h')
  split_ifs with hlt
  · have hlt' := UInt8.lt_iff_toNat_lt.mp hlt
    have hneg : ((a.toNat : ℤ) - b.toNat).sign = -1 := Int.sign_eq_neg_one_of_neg (by omega)
    rw [hneg]
    decide
  · have hlt' := UInt8.lt_iff_toNat_lt.not.mp hlt
    have hpos : ((a.toNat : ℤ) - b.toNat).sign = 1 := Int.sign_eq_one_of_pos (by omega)
    rw [hpos]
    decide

/-- The two values of `memcmp` have the same sign only if there is no difference. -/
lemma sign_memcmpLoop_iff : (Ulib.memcmpLoop p q m n 0).sign = (KString.memcmpLoop m n p q).sign ↔
    ∀ i < n, m (p + BitVec.ofNat 32 i) = m (q + BitVec.ofNat 32 i) := by
  induction n generalizing p q with
  | zero => simp [Ulib.memcmpLoop, KString.memcmpLoop]
  | succ n ih =>
    have hnext : Ulib.memcmpLoop p q m n (0 + 1) = Ulib.memcmpLoop (p + 1) (q + 1) m n 0 := by
      rw [add_comm, Ulib.memcmpLoop_add]
    rw [Ulib.memcmpLoop, KString.memcmpLoop, hnext, add_zero, add_zero, Nat.forall_lt_succ_left]
    simp only [Copy.add_ofNat_succ, BitVec.add_zero]
    by_cases h : m p = m q
    · rw [if_neg (not_not.mpr h), if_neg (not_not.mpr h), ih]
      exact (and_iff_right h).symm
    · rw [if_pos h, if_pos h]
      exact iff_of_false (sign_difference_ne h) fun h' => h h'.1

/-- The two `strncmp`s return the same. -/
lemma strncmpLoop_eq : Ulib.strncmpLoop p q m n 0 = KString.strncmpLoop m n p q := by
  induction n generalizing p q with
  | zero => rfl
  | succ n ih =>
    have hnext : Ulib.strncmpLoop p q m n (0 + 1) = Ulib.strncmpLoop (p + 1) (q + 1) m n 0 := by
      rw [add_comm, Ulib.strncmpLoop_add]
    simp only [Ulib.strncmpLoop, KString.strncmpLoop, hnext, add_zero, ih]
    by_cases h : m p = m q
    · by_cases h0 : m p = 0
      · simp [h0, ← h]
      · simp [h0, ← h]
    · simp [h]

/-! ## Copying -/

/-- A copy that pads with NULs from the first NUL on is a plain copy only if there is nothing else behind
the NUL. -/
lemma strncpyLoop_eq_up_iff (hn : n ≤ 2 ^ 32) : KString.strncpyLoop n d s m = Copy.up n d s m ↔
    ∀ i j, i < j → j < n → Copy.read d s m i = 0 → Copy.read d s m j = 0 := by
  induction n generalizing d s m with
  | zero => exact iff_of_true rfl fun _ _ _ hj => absurd hj (Nat.not_lt_zero _)
  | succ n ih =>
    rw [KString.strncpyLoop, Copy.up]
    by_cases h0 : m s = 0
    · rw [if_neg (not_not.mpr h0), Copy.fill_eq_up_iff (by omega)]
      simp only [Copy.read_succ]
      constructor
      · intro h i j hij hj _
        cases j with
        | zero => exact absurd hij (Nat.not_lt_zero i)
        | succ j => exact h j (by omega)
      · intro h i hi
        exact h 0 (i + 1) (Nat.succ_pos i) (by omega) (Copy.read_zero.trans h0)
    · rw [if_pos h0, ih (by omega)]
      simp only [Copy.read_succ]
      constructor
      · intro h i j hij hj hi
        cases i with
        | zero => exact absurd (Copy.read_zero.symm.trans hi) h0
        | succ i =>
          cases j with
          | zero => exact absurd hij (Nat.not_lt_zero _)
          | succ j => exact h i j (by omega) (by omega) hi
      · intro h i j hij hj
        exact h (i + 1) (j + 1) (by omega) (by omega)

/-- The memory `m'` has at the destination what the source held in `m`. -/
def Moved (m m' : Mem) (dst src : Addr) (n : ℕ) : Prop :=
  ∀ i < n, m' (dst + BitVec.ofNat 32 i) = m (src + BitVec.ofNat 32 i)

lemma moved_up_iff (hn : n ≤ 2 ^ 32) : Moved m (Copy.up n d s m) d s n ↔
    ∀ i < n, Copy.read d s m i = m (s + BitVec.ofNat 32 i) :=
  forall₂_congr fun _ hi => by rw [Copy.up_apply hn hi]

section Length

variable {n : BitVec 32} (hn : 0 ≤ n.toInt)

include hn

lemma toNat_toInt : n.toInt.toNat = n.toNat := by
  have h := BitVec.toInt_eq_toNat_cond n
  omega

/-- The kernel copies down only if that does not overwrite the source. -/
lemma moved_down (hlt : s < d) (hgt : s + n > d) :
    Moved m (Copy.down n.toNat (d + n) (s + n) m) d s n.toNat := by
  intro i hi
  have hn' := BitVec.toInt_eq_toNat_cond n
  have hfar : n.toNat ≤ (s - d).toNat := by bv_omega
  have h := Copy.down_apply (m := m) hfar hi
  rwa [BitVec.ofNat_toNat, BitVec.setWidth_eq] at h

/-- When a copy up is right, the kernel's `memmove` does the same. -/
lemma memmove_eq (h : Moved m (Copy.up n.toNat d s m) d s n.toNat) :
    KString.memmove d s n m = (d, Copy.up n.toNat d s m) := by
  unfold KString.memmove
  split_ifs with hdown
  · have hmoved : Moved m (Copy.down n.toNat (d + n) (s + n) m) d s n.toNat :=
      moved_down hn hdown.1 hdown.2
    refine Prod.ext rfl (Copy.ext_range d n.toNat (fun i hi => ?_) fun a ha => ?_)
    · exact (hmoved i hi).trans (h i hi).symm
    · have hout := Copy.down_of_outside (s := s) (m := m) ha
      rw [BitVec.ofNat_toNat, BitVec.setWidth_eq] at hout
      exact hout.trans (Copy.up_of_outside ha).symm
  · rfl

end Length

/-- The two libraries agree: on `memmove`, and it is right, if the bytes that a copy up reads are those of
the source; on the sign of `memcmp` if there is no difference; on `strncmp`; and on `strncpy` if the copy
has only NULs behind a NUL. -/
theorem libraries_agree_iff (m : Mem) (p q : Addr) (n : BitVec 32) (hn : 0 ≤ n.toInt) :
    (Ulib.memmove p q n m = KString.memmove p q n m ∧ Moved m (Ulib.memmove p q n m).2 p q n.toNat ∧
        Moved m (KString.memmove p q n m).2 p q n.toNat ↔
      ∀ i < n.toNat, Copy.read p q m i = m (q + BitVec.ofNat 32 i)) ∧
    ((Ulib.memcmp p q n m).sign = (KString.memcmp p q n m).sign ↔
      ∀ i < n.toNat, m (p + BitVec.ofNat 32 i) = m (q + BitVec.ofNat 32 i)) ∧
    (Ulib.strncmp p q n m).sign = (KString.strncmp p q n m).sign ∧
    (Ulib.strncpy p q n m = KString.strncpy p q n m ↔
      ∀ i j, i < j → j < n.toNat → Copy.read p q m i = 0 → Copy.read p q m j = 0) := by
  have hN : n.toNat ≤ 2 ^ 32 := n.isLt.le
  have hint := toNat_toInt hn
  refine ⟨?_, ?_, ?_, ?_⟩
  · rw [← moved_up_iff hN, Ulib.memmove, hint]
    constructor
    · exact fun h => h.2.1
    · intro h
      rw [memmove_eq hn h]
      exact ⟨rfl, h, h⟩
  · rw [Ulib.memcmp, hint]
    exact sign_memcmpLoop_iff
  · rw [Ulib.strncmp, hint, strncmpLoop_eq, KString.strncmp]
  · rw [← strncpyLoop_eq_up_iff hN, Ulib.strncpy, KString.strncpy, hint, Prod.mk.injEq]
    exact ⟨fun h => h.2.symm, fun h => ⟨rfl, h.symm⟩⟩

/-- A memory in which every byte is the low byte of its address. -/
def numbered : Mem := fun a => UInt8.ofNat a.toNat

theorem libraries_agree_iff_four :
    (Ulib.memmove 0 4 4 numbered = KString.memmove 0 4 4 numbered ∧
      Moved numbered (Ulib.memmove 0 4 4 numbered).2 0 4 4 ∧
      Moved numbered (KString.memmove 0 4 4 numbered).2 0 4 4) ∧
    (Ulib.strncmp 0 4 4 numbered).sign = (KString.strncmp 0 4 4 numbered).sign := by
  obtain ⟨hmove, -, hcmp, -⟩ := libraries_agree_iff numbered 0 4 4 (by decide)
  exact ⟨hmove.mpr (by decide), hcmp⟩

/-- Two bytes are moved up by one; the bytes 1 and 2 are compared; the string that begins with a NUL
is copied. -/
theorem libraries_disagree :
    Ulib.memmove 1 0 2 numbered ≠ KString.memmove 1 0 2 numbered ∧
    ¬ Moved numbered (Ulib.memmove 1 0 2 numbered).2 1 0 2 ∧
    (Ulib.memcmp 1 2 1 numbered).sign ≠ (KString.memcmp 1 2 1 numbered).sign ∧
    Ulib.strncpy 4 0 2 numbered ≠ KString.strncpy 4 0 2 numbered := by
  refine ⟨fun h => ?_, fun h => ?_, by decide, fun h => ?_⟩
  · exact absurd (congrArg (fun r => r.2 2) h) (by decide)
  · exact absurd (h 1 (by decide)) (by decide)
  · exact absurd (congrArg (fun r => r.2 5) h) (by decide)

end Xv7
