import Mathlib

/-!
# Little-endian numbers in byte buffers

A buffer of `n` bytes is a function `Fin n → UInt8`.  `rd` reads it at any index, `patch` copies
bytes into it, and `getNum`/`setNum` view a run of bytes as an unsigned little-endian number.
The lemmas say that a number reads back as it was stored and that disjoint runs do not disturb
each other; `word` and `setWord` are the special case of 32-bit words.
-/

namespace Bytes

/-! ## Numbers in a function of bytes -/

/-- The number stored in the `len` bytes of `f` from `off` on, the low byte first. -/
def leNat (f : ℕ → UInt8) : ℕ → ℕ → ℕ
  | _, 0 => 0
  | off, len + 1 => (f off).toNat + 256 * leNat f (off + 1) len

/-- Byte number `k` of `v`. -/
def leByte (v k : ℕ) : UInt8 := UInt8.ofNat (v / 256 ^ k)

/-- A stored number depends only on its own bytes. -/
lemma leNat_congr {f g : ℕ → UInt8} {off len : ℕ}
    (h : ∀ i, off ≤ i → i < off + len → f i = g i) : leNat f off len = leNat g off len := by
  induction len generalizing off with
  | zero => rfl
  | succ len ih =>
    have hhead : f off = g off := h off le_rfl (by omega)
    have htail : leNat f (off + 1) len = leNat g (off + 1) len :=
      ih fun i hi hi' => h i (by omega) (by omega)
    rw [leNat, leNat, hhead, htail]

/-- A number of `len` bytes is below `256 ^ len`. -/
lemma leNat_lt (f : ℕ → UInt8) (off len : ℕ) : leNat f off len < 256 ^ len := by
  induction len generalizing off with
  | zero => simp [leNat]
  | succ len ih =>
    have hb : (f off).toNat < 256 := (f off).toNat_lt
    have hr := ih (off + 1)
    rw [leNat, pow_succ]
    omega

/-- Reading the bytes of `v` gives `v`, cut to the length of the field. -/
lemma leNat_of_leByte {f : ℕ → UInt8} {off len v : ℕ}
    (h : ∀ i, i < len → f (off + i) = leByte v i) : leNat f off len = v % 256 ^ len := by
  induction len generalizing off v with
  | zero => simp [leNat, Nat.mod_one]
  | succ len ih =>
    have hhead : f off = leByte v 0 := h 0 (by omega)
    have htail : leNat f (off + 1) len = v / 256 % 256 ^ len := by
      apply ih
      intro i hi
      have hi' := h (i + 1) (by omega)
      rw [show off + 1 + i = off + (i + 1) by omega, hi', leByte, leByte, pow_succ',
        Nat.div_div_eq_div_mul]
    rw [leNat, hhead, htail, pow_succ', Nat.mod_mul]
    simp [leByte]

/-! ## Buffers -/

variable {n : ℕ}

/-- Read a buffer at any index; beyond the end there are zeroes. -/
def rd (b : Fin n → UInt8) (i : ℕ) : UInt8 := if h : i < n then b ⟨i, h⟩ else 0

/-- Copy the bytes `g 0, …, g (len - 1)` to offset `off`. -/
def patch (b : Fin n → UInt8) (off len : ℕ) (g : ℕ → UInt8) : Fin n → UInt8 :=
  fun i => if off ≤ i ∧ i < off + len then g (i - off) else b i

/-- Reading back after a copy. -/
lemma rd_patch (b : Fin n → UInt8) (off len : ℕ) (g : ℕ → UInt8) (i : ℕ) :
    rd (patch b off len g) i =
      if off ≤ i ∧ i < off + len ∧ i < n then g (i - off) else rd b i := by
  unfold rd patch
  by_cases hi : i < n
  · by_cases ho : off ≤ i ∧ i < off + len
    · simp [hi, ho]
    · simp only [hi, ↓reduceDIte, ho, if_false]
      rw [if_neg fun h => ho ⟨h.1, h.2.1⟩]
  · simp [hi]

/-- Outside the copied range a buffer is unchanged. -/
lemma rd_patch_of_notMem {b : Fin n → UInt8} {off len : ℕ} {g : ℕ → UInt8} {i : ℕ}
    (h : i < off ∨ off + len ≤ i) : rd (patch b off len g) i = rd b i := by
  rw [rd_patch, if_neg (by omega)]

/-- Inside the copied range a buffer holds the copied bytes. -/
lemma rd_patch_of_mem {b : Fin n → UInt8} {off len : ℕ} {g : ℕ → UInt8} {i : ℕ}
    (h : off ≤ i) (h' : i < off + len) (hn : i < n) : rd (patch b off len g) i = g (i - off) := by
  rw [rd_patch, if_pos ⟨h, h', hn⟩]

/-- The little-endian number in `len` bytes of a buffer from `off` on. -/
def getNum (b : Fin n → UInt8) (off len : ℕ) : ℕ := leNat (rd b) off len

/-- Store a number in `len` bytes of a buffer from `off` on. -/
def setNum (b : Fin n → UInt8) (off len v : ℕ) : Fin n → UInt8 := patch b off len (leByte v)

/-- A stored number fits its field. -/
lemma getNum_lt (b : Fin n → UInt8) (off len : ℕ) : getNum b off len < 256 ^ len :=
  leNat_lt _ _ _

/-- A number that fits its field reads back as it was stored. -/
lemma getNum_setNum_same {b : Fin n → UInt8} {off len v : ℕ} (hn : off + len ≤ n)
    (hv : v < 256 ^ len) : getNum (setNum b off len v) off len = v := by
  have h : leNat (rd (setNum b off len v)) off len = v % 256 ^ len := by
    apply leNat_of_leByte
    intro i hi
    rw [setNum, rd_patch_of_mem (by omega) (by omega) (by omega)]
    congr 1
    omega
  rw [getNum, h, Nat.mod_eq_of_lt hv]

/-- A copy does not change a number that lies outside the copied range. -/
lemma getNum_patch_of_disjoint {b : Fin n → UInt8} {off len off' len' : ℕ} {g : ℕ → UInt8}
    (h : off' + len' ≤ off ∨ off + len ≤ off') :
    getNum (patch b off len g) off' len' = getNum b off' len' := by
  apply leNat_congr
  intro i hi hi'
  exact rd_patch_of_notMem (by omega)

/-- Storing a number does not change a number in a disjoint field. -/
lemma getNum_setNum_of_disjoint {b : Fin n → UInt8} {off len v off' len' : ℕ}
    (h : off' + len' ≤ off ∨ off + len ≤ off') :
    getNum (setNum b off len v) off' len' = getNum b off' len' :=
  getNum_patch_of_disjoint h

/-- The numbers of a buffer of zero bytes are zero. -/
lemma getNum_zero (off len : ℕ) : getNum (fun _ : Fin n => 0) off len = 0 := by
  have h : leNat (rd fun _ : Fin n => (0 : UInt8)) off len = 0 % 256 ^ len := by
    apply leNat_of_leByte
    intro i _
    simp [rd, leByte]
  rw [getNum, h, Nat.zero_mod]

/-! ## Records -/

/-- Two fields, given by offset and length, do not overlap. -/
def Apart (f g : ℕ × ℕ) : Prop := f.1 + f.2 ≤ g.1 ∨ g.1 + g.2 ≤ f.1

instance : DecidableRel Apart := fun f g =>
  inferInstanceAs (Decidable (f.1 + f.2 ≤ g.1 ∨ g.1 + g.2 ≤ f.1))

/-- Store the record at `base`: each field `(off, len)` of the list receives `v off`. -/
def setFields (b : Fin n → UInt8) (base : ℕ) (fs : List (ℕ × ℕ)) (v : ℕ → ℕ) : Fin n → UInt8 :=
  fs.foldl (fun b f => setNum b (base + f.1) f.2 (v f.1)) b

/-- Storing a record does not change a number outside its fields. -/
lemma getNum_setFields_of_disjoint {b : Fin n → UInt8} {base off len : ℕ} {fs : List (ℕ × ℕ)}
    {v : ℕ → ℕ} (h : ∀ f ∈ fs, off + len ≤ base + f.1 ∨ base + f.1 + f.2 ≤ off) :
    getNum (setFields b base fs v) off len = getNum b off len := by
  induction fs generalizing b with
  | nil => rfl
  | cons f fs ih =>
    have htail : getNum (setFields (setNum b (base + f.1) f.2 (v f.1)) base fs v) off len = _ :=
      ih fun g hg => h g (List.mem_cons_of_mem _ hg)
    exact htail.trans (getNum_setNum_of_disjoint (h f List.mem_cons_self))

/-- The fields of a record read back as they were stored. -/
lemma getNum_setFields {b : Fin n → UInt8} {base : ℕ} {fs : List (ℕ × ℕ)} {v : ℕ → ℕ}
    {f : ℕ × ℕ} (hfs : fs.Pairwise Apart) (hf : f ∈ fs) (hn : base + f.1 + f.2 ≤ n)
    (hv : v f.1 < 256 ^ f.2) : getNum (setFields b base fs v) (base + f.1) f.2 = v f.1 := by
  induction fs generalizing b with
  | nil => simp at hf
  | cons g fs ih =>
    obtain ⟨hg, hfs⟩ := List.pairwise_cons.mp hfs
    rcases List.mem_cons.mp hf with rfl | hf
    · -- the fields that are stored later leave this one alone
      have hlater : getNum (setFields (setNum b (base + f.1) f.2 (v f.1)) base fs v)
          (base + f.1) f.2 = _ := getNum_setFields_of_disjoint fun g hg' => by
        have := hg g hg'
        unfold Apart at this
        omega
      exact hlater.trans (getNum_setNum_same hn hv)
    · exact ih hfs hf

/-! ## Words of 32 bits -/

/-- Word number `i` of a buffer. -/
def word (b : Fin n → UInt8) (i : ℕ) : ℕ := getNum b (4 * i) 4

/-- Store word number `i` of a buffer. -/
def setWord (b : Fin n → UInt8) (i v : ℕ) : Fin n → UInt8 := setNum b (4 * i) 4 v

/-- A word reads back as it was stored. -/
lemma word_setWord_same {b : Fin n → UInt8} {i v : ℕ} (hi : 4 * i + 4 ≤ n) (hv : v < 2 ^ 32) :
    word (setWord b i v) i = v :=
  getNum_setNum_same hi hv

/-- Storing a word leaves the other words alone. -/
lemma word_setWord_of_ne {b : Fin n → UInt8} {i j v : ℕ} (h : j ≠ i) :
    word (setWord b i v) j = word b j :=
  getNum_setNum_of_disjoint (by omega)

/-- The words of a buffer of zero bytes are zero. -/
@[simp] lemma word_zero (i : ℕ) : word (fun _ : Fin n => 0) i = 0 := getNum_zero _ _

end Bytes
