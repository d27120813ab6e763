import Mathlib.Data.BitVec
import Mathlib.Logic.Function.Basic

/-!
# Copying in a memory

A memory is a function from the addresses, which are numbers modulo `2 ^ w`.  A copy that goes up reads
what it has written itself when the destination begins inside the source: it repeats the values before
the beginning of the destination.  A copy that goes down does not, in that case.
-/

namespace Copy

open Function (update update_eq_self update_of_ne update_self)

variable {w : ℕ} {α : Type*} {m : BitVec w → α} {d s a : BitVec w} {v : α} {n i : ℕ}

/-- Copy `n` values from `s` on to the addresses from `d` on, the first one first. -/
def up : ℕ → BitVec w → BitVec w → (BitVec w → α) → BitVec w → α
  | 0, _, _, m => m
  | n + 1, d, s, m => up n (d + 1) (s + 1) (Function.update m d (m s))

/-- Copy the `n` values before `s` to the addresses before `d`, the last one first. -/
def down : ℕ → BitVec w → BitVec w → (BitVec w → α) → BitVec w → α
  | 0, _, _, m => m
  | n + 1, d, s, m => down n (d - 1) (s - 1) (Function.update m (d - 1) (m (s - 1)))

/-- Store the value to the `n` addresses from `d` on. -/
def fill (v : α) : ℕ → BitVec w → (BitVec w → α) → BitVec w → α
  | 0, _, m => m
  | n + 1, d, m => fill v n (d + 1) (Function.update m d v)

/-- What a copy from `s` up to `d` reads in turn `i`, by what was in the memory before. -/
def read (d s : BitVec w) (m : BitVec w → α) (i : ℕ) : α :=
  m (s + BitVec.ofNat w (i % (d - s).toNat))

/-- An address is not one of the `n` from `d` on. -/
def Outside (a d : BitVec w) (n : ℕ) : Prop := ∀ i < n, a ≠ d + BitVec.ofNat w i

/-! ## Addresses -/

lemma add_ofNat_succ (d : BitVec w) (i : ℕ) :
    d + BitVec.ofNat w (i + 1) = d + 1 + BitVec.ofNat w i := by
  rw [Nat.add_comm, BitVec.ofNat_add, ← BitVec.add_assoc]
  rfl

lemma add_ofNat_succ_sub (d : BitVec w) (i : ℕ) :
    d + BitVec.ofNat w (i + 1) - 1 = d + BitVec.ofNat w i := by
  rw [add_ofNat_succ, add_right_comm]
  exact add_sub_cancel_right _ _

lemma ofNat_inj {i j : ℕ} (hi : i < 2 ^ w) (hj : j < 2 ^ w) (h : d + BitVec.ofNat w i = d + BitVec.ofNat w j) :
    i = j := by
  have h' := congrArg BitVec.toNat (BitVec.add_right_inj d |>.mp h)
  rwa [BitVec.toNat_ofNat, BitVec.toNat_ofNat, Nat.mod_eq_of_lt hi, Nat.mod_eq_of_lt hj] at h'

lemma Outside.ne (h : Outside a d (n + 1)) : a ≠ d := by
  have h0 := h 0 (Nat.succ_pos n)
  rwa [BitVec.add_zero] at h0

lemma Outside.succ (h : Outside a d (n + 1)) : Outside a (d + 1) n := by
  intro i hi
  rw [← add_ofNat_succ]
  exact h (i + 1) (Nat.succ_lt_succ hi)

lemma outside_succ_self (hn : n + 1 ≤ 2 ^ w) : Outside d (d + 1) n := by
  intro i hi heq
  rw [← add_ofNat_succ] at heq
  have h0 : d + BitVec.ofNat w 0 = d + BitVec.ofNat w (i + 1) := by
    rwa [BitVec.add_zero]
  exact absurd (ofNat_inj (Nat.pow_pos Nat.two_pos) (by omega) h0) (by omega)

/-- Memories that agree at the `n` addresses from `d` on and outside agree. -/
lemma ext_range (d : BitVec w) (n : ℕ) {f g : BitVec w → α}
    (hin : ∀ i < n, f (d + BitVec.ofNat w i) = g (d + BitVec.ofNat w i))
    (hout : ∀ a, Outside a d n → f a = g a) : f = g := by
  funext a
  by_cases h : Outside a d n
  · exact hout a h
  · simp only [Outside, not_forall, not_not] at h
    obtain ⟨i, hi, rfl⟩ := h
    exact hin i hi

/-! ## Copying up -/

lemma read_zero : read d s m 0 = m s := by
  rw [read, Nat.zero_mod, BitVec.add_zero]

/-- After the first turn, the copy reads what it would have read one turn later. -/
lemma read_succ : read (d + 1) (s + 1) (update m d (m s)) i = read d s m (i + 1) := by
  unfold read
  rw [add_sub_add_right_eq_sub, ← add_ofNat_succ, ← Nat.mod_add_mod i _ 1]
  by_cases h0 : d - s = 0
  · -- the copy stores what is there
    rw [sub_eq_zero.mp h0, update_eq_self, BitVec.sub_self, BitVec.toNat_zero, Nat.mod_zero,
      Nat.mod_zero]
  have hpos : 0 < (d - s).toNat := Nat.pos_of_ne_zero fun h => h0 (BitVec.eq_of_toNat_eq (by simpa using h))
  have hr := Nat.mod_lt i hpos
  generalize i % (d - s).toNat = r at hr ⊢
  have hlt := (d - s).isLt
  by_cases hlast : r + 1 = (d - s).toNat
  · -- this is the first value of the source again
    rw [hlast, BitVec.ofNat_toNat, BitVec.setWidth_eq, add_sub_cancel, update_self, Nat.mod_self,
      BitVec.add_zero]
  · have hne : s + BitVec.ofNat w (r + 1) ≠ d := by
      intro heq
      have hval : BitVec.ofNat w (r + 1) = d - s := eq_sub_of_add_eq' heq
      apply hlast
      rw [← hval, BitVec.toNat_ofNat, Nat.mod_eq_of_lt (by omega)]
    rw [update_of_ne hne, Nat.mod_eq_of_lt (by omega)]

lemma up_of_outside (h : Outside a d n) : up n d s m a = m a := by
  induction n generalizing d s m with
  | zero => rfl
  | succ n ih =>
    rw [up, ih h.succ, update_of_ne h.ne]

lemma up_apply (hn : n ≤ 2 ^ w) (hi : i < n) : up n d s m (d + BitVec.ofNat w i) = read d s m i := by
  induction n generalizing d s m i with
  | zero => exact absurd hi (Nat.not_lt_zero i)
  | succ n ih =>
    cases i with
    | zero =>
      rw [BitVec.add_zero, up, up_of_outside (outside_succ_self hn),
        update_self, read_zero]
    | succ i =>
      rw [add_ofNat_succ, up, ih (by omega) (by omega), read_succ]

/-! ## Copying down -/

lemma down_of_outside (h : Outside a d n) :
    down n (d + BitVec.ofNat w n) (s + BitVec.ofNat w n) m a = m a := by
  induction n generalizing m with
  | zero => rfl
  | succ n ih =>
    rw [down, add_ofNat_succ_sub, add_ofNat_succ_sub, ih fun i hi => h i (by omega),
      update_of_ne (h n (Nat.lt_succ_self n))]

/-- When the source does not begin in the last part of the destination, all of it is copied. -/
lemma down_apply (hn : n ≤ (s - d).toNat) (hi : i < n) :
    down n (d + BitVec.ofNat w n) (s + BitVec.ofNat w n) m (d + BitVec.ofNat w i) =
      m (s + BitVec.ofNat w i) := by
  induction n generalizing m with
  | zero => exact absurd hi (Nat.not_lt_zero i)
  | succ n ih =>
    have hlt := (s - d).isLt
    rw [down, add_ofNat_succ_sub, add_ofNat_succ_sub]
    by_cases hin : i = n
    · subst hin
      have hout : Outside (d + BitVec.ofNat w i) d i := fun j hj heq =>
        absurd (ofNat_inj (by omega) (by omega) heq) (by omega)
      rw [down_of_outside hout, update_self]
    · rw [ih (by omega) (by omega), update_of_ne]
      intro heq
      have hval : s - d = BitVec.ofNat w (n - i) := by
        rw [sub_eq_iff_eq_add, ← add_left_inj (BitVec.ofNat w i), heq, add_right_comm, ← BitVec.ofNat_add,
          Nat.sub_add_cancel (by omega), add_comm]
      rw [hval, BitVec.toNat_ofNat, Nat.mod_eq_of_lt (by omega)] at hn
      omega

/-! ## Filling -/

lemma fill_of_outside (h : Outside a d n) : fill v n d m a = m a := by
  induction n generalizing d m with
  | zero => rfl
  | succ n ih => rw [fill, ih h.succ, update_of_ne h.ne]

lemma fill_apply (hn : n ≤ 2 ^ w) (hi : i < n) : fill v n d m (d + BitVec.ofNat w i) = v := by
  induction n generalizing d m i with
  | zero => exact absurd hi (Nat.not_lt_zero i)
  | succ n ih =>
    cases i with
    | zero =>
      rw [BitVec.add_zero, fill, fill_of_outside (outside_succ_self hn),
        update_self]
    | succ i => rw [add_ofNat_succ, fill, ih (by omega) (by omega)]

/-- A copy fills the destination if it reads nothing else. -/
lemma fill_eq_up_iff (hn : n ≤ 2 ^ w) : fill v n d m = up n d s m ↔ ∀ i < n, read d s m i = v := by
  constructor
  · intro h i hi
    rw [← up_apply hn hi, ← h, fill_apply hn hi]
  · intro h
    refine ext_range d n (fun i hi => ?_) fun a ha => ?_
    · rw [fill_apply hn hi, up_apply hn hi, h i hi]
    · rw [fill_of_outside ha, up_of_outside ha]

end Copy
