import Xv7.Lib.Bytes

/-!
# Words in a memory

A memory is a function from addresses to bytes.  A word is four bytes, the low one first, at any
address.
-/

namespace Memory

open Bytes

variable {m : ℕ → UInt8} {a b v x : ℕ}

/-- The word at an address. -/
def word (m : ℕ → UInt8) (a : ℕ) : ℕ := leNat m a 4

/-- Store the low 32 bits of a number at an address. -/
def setWord (m : ℕ → UInt8) (a v : ℕ) : ℕ → UInt8 :=
  fun x => if a ≤ x ∧ x < a + 4 then leByte v (x - a) else m x

lemma word_lt (m : ℕ → UInt8) (a : ℕ) : word m a < 2 ^ 32 := leNat_lt m a 4

/-- A byte outside the word is unchanged. -/
lemma setWord_of_notMem (h : x < a ∨ a + 4 ≤ x) : setWord m a v x = m x := if_neg (by omega)

lemma word_setWord_self (hv : v < 2 ^ 32) : word (setWord m a v) a = v := by
  have hread : leNat (setWord m a v) a 4 = v % 256 ^ 4 := by
    refine leNat_of_leByte fun i hi => ?_
    rw [setWord, if_pos (by omega), Nat.add_sub_cancel_left]
  rw [word, hread]
  exact Nat.mod_eq_of_lt hv

/-- A word is unchanged when its bytes are. -/
lemma word_congr {m' : ℕ → UInt8} (h : ∀ i < 4, m' (a + i) = m (a + i)) : word m' a = word m a := by
  refine leNat_congr fun i hi hi' => ?_
  have heq := h (i - a) (by omega)
  rwa [Nat.add_sub_cancel' hi] at heq

lemma word_setWord_of_apart (h : b + 4 ≤ a ∨ a + 4 ≤ b) : word (setWord m a v) b = word m b :=
  word_congr fun _ _ => setWord_of_notMem (by omega)

end Memory
