import Xv7.Fs.Layout
import Xv7.Lib.SlotMap

/-!
# Names and directory entries

Names as `strncmp` and `strncpy` treat them, and the entries of a directory as they lie in its
bytes.  A name counts up to its first NUL byte and at most `DIRSIZ` bytes; with this identity of
names the entries of a directory are the slots of a map from names to inode numbers.
-/

namespace Xv7

/-- The size of a name in a directory entry. -/
abbrev DIRSIZ : ℕ := 14

/-- The size of `struct dirent`. -/
abbrev DIRENTSIZE : ℕ := 2 + DIRSIZ

/-! ## Strings -/

/-- `strncmp`; a string ends at its first NUL byte or at the end of the list. -/
def strncmp : ℕ → List UInt8 → List UInt8 → ℤ
  | 0, _, _ => 0
  | n + 1, p, q =>
    if p.headD 0 ≠ 0 ∧ p.headD 0 = q.headD 0 then strncmp n p.tail q.tail
    else (p.headD 0).toNat - (q.headD 0).toNat

/-- The `n` bytes that `strncpy` writes. -/
def strncpy : ℕ → List UInt8 → List UInt8
  | 0, _ => []
  | n + 1, t => if t.headD 0 = 0 then List.replicate (n + 1) 0 else t.headD 0 :: strncpy n t.tail

/-- `namecmp`. -/
def namecmp (s t : List UInt8) : ℤ := strncmp DIRSIZ s t

/-- The first `n` bytes of a string. -/
def strn (n : ℕ) (s : List UInt8) : List UInt8 := (s.take n).takeWhile (· ≠ 0)

/-- The part of a name that counts. -/
def cut (name : List UInt8) : List UInt8 := strn DIRSIZ name

lemma strn_succ (n : ℕ) (s : List UInt8) : strn (n + 1) s =
    if s.headD 0 = 0 then [] else s.headD 0 :: strn n s.tail := by
  cases s with
  | nil => rfl
  | cons c s => by_cases hc : c = 0 <;> simp [strn, hc]

lemma strncmp_eq_zero {n : ℕ} {p q : List UInt8} : strncmp n p q = 0 ↔ strn n p = strn n q := by
  induction n generalizing p q with
  | zero => simp [strncmp, strn]
  | succ n ih =>
    rw [strncmp, strn_succ, strn_succ]
    by_cases hp : p.headD 0 = 0
    · rw [if_neg fun h => h.1 hp, if_pos hp]
      by_cases hq : q.headD 0 = 0
      · rw [if_pos hq, hp, hq]
        simp
      · rw [if_neg hq, hp]
        have hne : (q.headD 0).toNat ≠ 0 := fun h => hq (UInt8.toNat_inj.mp h)
        simp only [UInt8.toNat_zero, List.nil_eq, reduceCtorEq, iff_false]
        omega
    · rw [if_neg hp]
      by_cases heq : p.headD 0 = q.headD 0
      · rw [if_pos ⟨hp, heq⟩, if_neg (heq ▸ hp), heq, ih]
        simp
      · rw [if_neg fun h => heq h.2]
        have hne : (p.headD 0).toNat ≠ (q.headD 0).toNat := fun h => heq (UInt8.toNat_inj.mp h)
        constructor
        · intro h
          omega
        · intro h
          split_ifs at h
          exact absurd (List.cons.inj h).1 heq

lemma namecmp_eq_zero {s t : List UInt8} : namecmp s t = 0 ↔ cut s = cut t := strncmp_eq_zero

@[simp] lemma length_strncpy (n : ℕ) (t : List UInt8) : (strncpy n t).length = n := by
  induction n generalizing t with
  | zero => rfl
  | succ n ih =>
    rw [strncpy]
    split_ifs
    · exact List.length_replicate
    · rw [List.length_cons, ih]

lemma strn_strncpy (n : ℕ) (t : List UInt8) : strn n (strncpy n t) = strn n t := by
  induction n generalizing t with
  | zero => rfl
  | succ n ih =>
    rw [strncpy, strn_succ n t]
    split_ifs with h
    · rw [strn_succ, List.replicate_succ]
      rfl
    · rw [strn_succ]
      simp only [List.headD_cons, List.tail_cons, if_neg h, ih]

@[simp] lemma cut_strncpy (t : List UInt8) : cut (strncpy DIRSIZ t) = cut t := strn_strncpy _ _

/-! ## Entries -/

/-- `struct dirent`. -/
structure Dirent where
  inum : ℕ
  name : List UInt8
  deriving DecidableEq, Repr

/-- The bytes of an entry. -/
def Dirent.bytes (de : Dirent) : List UInt8 :=
  Bytes.leByte de.inum 0 :: Bytes.leByte de.inum 1 :: de.name

/-- The fields of an entry fit their places. -/
structure Dirent.Fits (de : Dirent) : Prop where
  inum : de.inum < 2 ^ 16
  name : de.name.length = DIRSIZ

/-- The entry at an offset. -/
def getDirent (f : ℕ → UInt8) (off : ℕ) : Dirent :=
  ⟨Bytes.leNat f off 2, (List.range DIRSIZ).map fun k => f (off + 2 + k)⟩

/-- The entries of a directory with the given contents. -/
def dirents (data : List UInt8) : List Dirent :=
  (List.range (data.length / DIRENTSIZE)).map fun j =>
    getDirent (fun k => data.getD k 0) (DIRENTSIZE * j)

/-- An entry as a slot of a map: it is empty when the inode number is zero. -/
def Dirent.slot (de : Dirent) : Option (List UInt8 × ℕ) :=
  if de.inum = 0 then none else some (cut de.name, de.inum)

lemma Dirent.Fits.length_bytes {de : Dirent} (h : de.Fits) : de.bytes.length = DIRENTSIZE := by
  rw [Dirent.bytes, List.length_cons, List.length_cons, h.name]
  rfl

/-- An entry reads back from its bytes. -/
lemma getDirent_of_bytes {de : Dirent} (h : de.Fits) {f : ℕ → UInt8} {off : ℕ}
    (hf : ∀ k, k < DIRENTSIZE → f (off + k) = de.bytes.getD k 0) : getDirent f off = de := by
  have hE : DIRENTSIZE = 16 := rfl
  have hD : DIRSIZ = 14 := rfl
  have hinum : Bytes.leNat f off 2 = de.inum := by
    rw [Bytes.leNat_of_leByte (v := de.inum) fun i hi => ?_]
    · exact Nat.mod_eq_of_lt h.inum
    · rw [hf i (by omega)]
      interval_cases i <;> rfl
  have hname : ((List.range DIRSIZ).map fun k => f (off + 2 + k)) = de.name := by
    refine List.ext_getElem (by simp [h.name]) fun k hk hk' => ?_
    simp only [List.getElem_map, List.getElem_range]
    rw [Nat.add_assoc, hf (2 + k) (by rw [h.name] at hk'; omega), Nat.add_comm 2 k]
    simp only [Dirent.bytes, List.getD_cons_succ]
    rw [List.getD_eq_getElem?_getD, List.getElem?_eq_getElem hk', Option.getD_some]
  rw [getDirent, hinum, hname]

lemma getDirent_congr {f g : ℕ → UInt8} {off off' : ℕ}
    (h : ∀ k, k < DIRENTSIZE → f (off + k) = g (off' + k)) :
    getDirent f off = getDirent g off' := by
  have hE : DIRENTSIZE = 16 := rfl
  have hD : DIRSIZ = 14 := rfl
  have hinum : Bytes.leNat f off 2 = Bytes.leNat g off' 2 := by
    have h0 : f off = g off' := h 0 (by decide)
    simp only [Bytes.leNat, h0, h 1 (by decide)]
  have hname : ((List.range DIRSIZ).map fun k => f (off + 2 + k)) =
      (List.range DIRSIZ).map fun k => g (off' + 2 + k) := by
    refine List.map_congr_left fun k hk => ?_
    have := List.mem_range.mp hk
    rw [Nat.add_assoc, Nat.add_assoc]
    exact h (2 + k) (by omega)
  rw [getDirent, getDirent, hinum, hname]

@[simp] lemma length_dirents (data : List UInt8) :
    (dirents data).length = data.length / DIRENTSIZE := by
  simp [dirents]

lemma getElem?_dirents {data : List UInt8} {j : ℕ} (hj : j < data.length / DIRENTSIZE) :
    (dirents data)[j]? = some (getDirent (fun k => data.getD k 0) (DIRENTSIZE * j)) := by
  simp [dirents, hj]

/-- A directory grows by one entry. -/
lemma dirents_append {data : List UInt8} {de : Dirent} (hdata : data.length % DIRENTSIZE = 0)
    (h : de.Fits) : dirents (data ++ de.bytes) = dirents data ++ [de] := by
  have hE : DIRENTSIZE = 16 := rfl
  have hlen : (data ++ de.bytes).length / DIRENTSIZE = data.length / DIRENTSIZE + 1 := by
    rw [List.length_append, h.length_bytes, Nat.add_div_right _ (by decide)]
  have hdiv : DIRENTSIZE * (data.length / DIRENTSIZE) = data.length := by
    rw [hE] at hdata ⊢
    omega
  unfold dirents
  rw [hlen, List.range_succ, List.map_append, List.map_singleton]
  congr 1
  · refine List.map_congr_left fun j hj => getDirent_congr fun k hk => ?_
    have hj := List.mem_range.mp hj
    rw [List.getD_append _ _ _ _ (by rw [hE] at hj hk ⊢; omega)]
  · rw [hdiv, getDirent_of_bytes h fun k hk => ?_]
    rw [List.getD_append_right _ _ _ _ (Nat.le_add_right _ _), Nat.add_sub_cancel_left]

lemma lt_div_direntsize {i n : ℕ} :
    i < n / DIRENTSIZE ↔ DIRENTSIZE * i + DIRENTSIZE ≤ n := by
  have hE : DIRENTSIZE = 16 := rfl
  rw [hE]
  omega

/-- Zeroes after the entries of a directory are entries that are not in use. -/
lemma dirents_append_zeroes {data : List UInt8} (hdata : data.length % DIRENTSIZE = 0) (m : ℕ) :
    ∃ rest, dirents (data ++ List.replicate m 0) = dirents data ++ rest ∧
      ∀ e ∈ rest, e.inum = 0 := by
  have hE : DIRENTSIZE = 16 := rfl
  obtain ⟨k, hk⟩ : ∃ k, (data ++ List.replicate m 0).length / DIRENTSIZE =
      data.length / DIRENTSIZE + k :=
    Nat.exists_eq_add_of_le (Nat.div_le_div_right (by simp))
  have hfirst : ((List.range (data.length / DIRENTSIZE)).map fun j =>
      getDirent (fun k => (data ++ List.replicate m 0).getD k 0) (DIRENTSIZE * j)) =
      dirents data := by
    refine List.map_congr_left fun j hj => getDirent_congr fun i hi => ?_
    have hlt := lt_div_direntsize.mp (List.mem_range.mp hj)
    rw [List.getD_append _ _ _ _ (by omega)]
  refine ⟨_, by rw [dirents, hk, List.range_add, List.map_append, hfirst], fun e he => ?_⟩
  rw [List.map_map] at he
  obtain ⟨j, -, rfl⟩ := List.mem_map.mp he
  have hzero : ∀ i, data.length ≤ i → (data ++ List.replicate m (0 : UInt8)).getD i 0 = 0 := by
    intro i hi
    rw [List.getD_append_right _ _ _ _ hi, List.getD_eq_getElem?_getD, List.getElem?_replicate]
    split_ifs <;> rfl
  have hoff : data.length ≤ DIRENTSIZE * (data.length / DIRENTSIZE + j) := by
    rw [hE] at hdata ⊢
    omega
  simp only [Function.comp_apply, getDirent, Bytes.leNat, hzero _ hoff,
    hzero _ (hoff.trans (Nat.le_succ _))]
  rfl

/-! ## Paths -/

/-- The byte `/`. -/
abbrev slash : UInt8 := 47

/-- The components of a path. -/
def tokens (path : List UInt8) : List (List UInt8) := (path.splitOn slash).filter (· ≠ [])

/-- The components of two paths that are joined. -/
lemma tokens_append (path path' : List UInt8) :
    tokens (path ++ slash :: path') = tokens path ++ tokens path' := by
  rw [tokens, List.splitOn, List.splitOnP_append_cons _ _ (by simp), List.filter_append]
  rfl

lemma tokens_slash (path : List UInt8) : tokens (slash :: path) = tokens path :=
  tokens_append [] path

/-- A component is a path. -/
lemma tokens_of_notMem {tok : List UInt8} (hslash : slash ∉ tok) :
    tokens tok = if tok = [] then [] else [tok] := by
  have hne : ∀ c ∈ tok, (c == slash) = false := by
    intro c hc
    rw [beq_eq_false_iff_ne]
    rintro rfl
    exact hslash hc
  rw [tokens, List.splitOn, List.splitOnP_eq_singleton hne]
  split_ifs with h <;> simp [h]

end Xv7
