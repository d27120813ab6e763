import Xv7.Fs.Dirent
import Xv7.Lib.Memory
import Xv7.Ulib.Basic

/-!
# Listing a directory

`opendir` and `readdir` of `dirent.c`.  The user library has a `struct dirent` and a `DIRSIZ` of its own:
`readdir` reads records of 258 bytes from a file of entries of 16 bytes, and puts a NUL 512 bytes behind
the start of a name that has 256.  It has no `return` at its end; what its caller finds in the register for
the result is then given from outside.
-/

namespace Xv7.Ulib

/-- `DIRSIZ` of `stdio.h`. -/
abbrev DIRSIZ : ℕ := 512

/-- The size of the name in the `struct dirent` of `dirent.h`. -/
abbrev NAMESIZE : ℕ := 256

/-- The size of that `struct dirent`. -/
abbrev RECORDSIZE : ℕ := 2 + NAMESIZE

/-- Where `de` is in a `DIR`, behind `fd`. -/
abbrev deOffset : ℕ := 4

/-- Where `offset` is in a `DIR`, behind `de` and two bytes of padding. -/
abbrev offsetOffset : ℕ := deOffset + RECORDSIZE + 2

/-- The size of a `DIR`. -/
abbrev SIZEOFDIR : ℕ := offsetOffset + 4

/-! ## The functions -/

/-- A process that reads a directory: its memory, the addresses it has stored to, and the offset of the
descriptor. -/
structure Reader where
  mem : ℕ → UInt8
  stores : List ℕ
  off : ℕ

/-- Store bytes from an address on. -/
def Reader.store (s : Reader) (a : ℕ) (bytes : List UInt8) : Reader :=
  { s with
    mem := fun x => if a ≤ x ∧ x < a + bytes.length then bytes.getD (x - a) 0 else s.mem x
    stores := s.stores ++ List.range' a bytes.length }

/-- `read` from the directory with the given contents: how many bytes there were. -/
def Reader.read (data : List UInt8) (buf n : ℕ) (s : Reader) : ℕ × Reader :=
  let bytes := (data.drop s.off).take n
  (bytes.length, { s.store buf bytes with off := s.off + bytes.length })

lemma Reader.read_eq_iff {data : List UInt8} {buf n : ℕ} {s : Reader} (hn : 0 < n) :
    (s.read data buf n).1 = n ↔ s.off + n ≤ data.length := by
  simp only [Reader.read, List.length_take, List.length_drop]
  omega

lemma Reader.off_read {data : List UInt8} {buf n : ℕ} {s : Reader} (h : s.off + n ≤ data.length) :
    (s.read data buf n).2.off = s.off + n := by
  simp only [Reader.read, List.length_take, List.length_drop]
  omega

/-- `opendir`, when `open` and `malloc` have returned `fd` and `d`. -/
def opendir (fd d : ℕ) (mem : ℕ → UInt8) : Reader :=
  let s := (⟨mem, [], 0⟩ : Reader).store d ((List.range 4).map (Bytes.leByte fd))
  s.store (d + offsetOffset) [0, 0, 0, 0]

/-- What a call of `readdir` returns. -/
inductive Returned where
  /-- A pointer to a record. -/
  | entry (de : ℕ)
  /-- It ends without a `return`, with the value in the register for the result. -/
  | ends (eax : ℕ)
  deriving DecidableEq

/-- `readdir`. -/
def readdir (data : List UInt8) (d eax : ℕ) (s : Reader) : Returned × Reader :=
  let de := d + deOffset
  let r := s.read data de RECORDSIZE
  if r.1 = RECORDSIZE then
    if Bytes.leNat r.2.mem de 2 = 0 then readdir data d eax r.2
    else (.entry de, r.2.store (de + 2 + DIRSIZ) [0])
  else (.ends eax, r.2)
  termination_by data.length - s.off
  decreasing_by
    have hR : RECORDSIZE = 258 := rfl
    have hle : s.off + RECORDSIZE ≤ data.length := (Reader.read_eq_iff (by decide)).mp ‹_›
    rw [Reader.off_read hle]
    omega

/-! ## What it is for -/

/-- The inode number and the name in a record in the memory. -/
def record (mem : ℕ → UInt8) (de : ℕ) : ℕ × List UInt8 :=
  (Bytes.leNat mem de 2, ((List.range NAMESIZE).map fun k => mem (de + 2 + k)).takeWhile (· ≠ 0))

/-- All that was stored to is in the `DIR`. -/
def Reader.Inside (d : ℕ) (s : Reader) : Prop := ∀ a ∈ s.stores, d ≤ a ∧ a < d + SIZEOFDIR

/-- The calls of `readdir` return records for the entries, one after the other, and then null; and all that
was stored to is in the `DIR`. -/
def Lists (data : List UInt8) (d : ℕ) : (ℕ → ℕ) → List Dirent → Reader → Prop
  | eax, [], s =>
    (readdir data d (eax 0) s).1 = .ends 0 ∧ (readdir data d (eax 0) s).2.Inside d
  | eax, e :: es, s =>
    (∃ de, (readdir data d (eax 0) s).1 = .entry de ∧
      record (readdir data d (eax 0) s).2.mem de = (e.inum, cut e.name)) ∧
    Lists data d (fun k => eax (k + 1)) es (readdir data d (eax 0) s).2

/-- The entries in use. -/
def live (data : List UInt8) : List Dirent := (dirents data).filter (·.inum ≠ 0)

/-! ## One call -/

variable {data : List UInt8} {d eax : ℕ} {s : Reader}

lemma Reader.Inside.store {a : ℕ} {bytes : List UInt8} (h : s.Inside d) (ha : d ≤ a)
    (hb : a + bytes.length ≤ d + SIZEOFDIR) : (s.store a bytes).Inside d := by
  intro x hx
  rcases List.mem_append.mp hx with hx | hx
  · exact h x hx
  · rw [List.mem_range'_1] at hx
    omega

lemma Reader.Inside.read (h : s.Inside d) : (s.read data (d + deOffset) RECORDSIZE).2.Inside d := by
  have hlen : ((data.drop s.off).take RECORDSIZE).length ≤ RECORDSIZE := by simp
  exact h.store (Nat.le_add_right _ _) (by simp only [deOffset, SIZEOFDIR, offsetOffset] at *; omega)

lemma Reader.Inside.of_store {a : ℕ} {bytes : List UInt8} (h : (s.store a bytes).Inside d) : s.Inside d :=
  fun x hx => h x (List.mem_append_left _ hx)

lemma Reader.Inside.of_readdir (h : (readdir data d eax s).2.Inside d) : s.Inside d := by
  fun_induction readdir data d eax s with
  | case1 s de r hfull hzero ih => exact (ih h).of_store
  | case2 s de r hfull hne => exact h.of_store.of_store
  | case3 s de r hshort => exact h.of_store

/-- What `readdir` takes for an inode number: two bytes of the file. -/
def inumAt (data : List UInt8) (off : ℕ) : ℕ := Bytes.leNat (fun k => data.getD k 0) off 2

lemma inum_read (h : s.off + RECORDSIZE ≤ data.length) :
    Bytes.leNat (s.read data (d + deOffset) RECORDSIZE).2.mem (d + deOffset) 2 = inumAt data s.off := by
  have hR : RECORDSIZE = 258 := rfl
  have hbyte : ∀ k < 2, (s.read data (d + deOffset) RECORDSIZE).2.mem (d + deOffset + k) =
      data.getD (s.off + k) 0 := by
    intro k hk
    have hlen : ((data.drop s.off).take RECORDSIZE).length = 258 := by simp; omega
    show (if _ ∧ _ then _ else _) = _
    rw [if_pos (by rw [hlen]; omega), Nat.add_sub_cancel_left]
    simp only [List.getD_eq_getElem?_getD, List.getElem?_take, List.getElem?_drop]
    rw [if_pos (by omega)]
  have h0 := hbyte 0 (by decide)
  rw [Nat.add_zero, Nat.add_zero] at h0
  simp only [inumAt, Bytes.leNat, h0, hbyte 1 (by decide)]

/-- Every record from the offset on that the file has the whole of begins with two zeroes. -/
def Blank (data : List UInt8) (off : ℕ) : Prop :=
  ∀ j, off + RECORDSIZE * (j + 1) ≤ data.length → inumAt data (off + RECORDSIZE * j) = 0

lemma blank_iff {off : ℕ} (h : off + RECORDSIZE ≤ data.length) :
    Blank data off ↔ inumAt data off = 0 ∧ Blank data (off + RECORDSIZE) := by
  have hnext : ∀ j, off + RECORDSIZE + RECORDSIZE * j = off + RECORDSIZE * (j + 1) := fun j => by
    rw [Nat.mul_succ, Nat.add_comm (RECORDSIZE * j), Nat.add_assoc]
  constructor
  · intro hb
    refine ⟨by simpa using hb 0 (by simpa using h), fun j hj => ?_⟩
    rw [hnext] at hj ⊢
    exact hb (j + 1) hj
  · rintro ⟨h0, hb⟩ j hj
    cases j with
    | zero => simpa using h0
    | succ j =>
      rw [← hnext] at hj ⊢
      exact hb j hj

/-- A call of `readdir` goes through the records that begin with zeroes. If there are others it returns
one of them, and has stored outside the `DIR`. -/
lemma readdir_cases (data : List UInt8) (d eax : ℕ) (s : Reader) :
    (Blank data s.off ∧ (readdir data d eax s).1 = .ends eax ∧
      (s.Inside d → (readdir data d eax s).2.Inside d)) ∨
    (¬ Blank data s.off ∧ (readdir data d eax s).1 = .entry (d + deOffset) ∧
      ¬ (readdir data d eax s).2.Inside d) := by
  fun_induction readdir data d eax s with
  | case1 s de r hfull hzero ih =>
    have hle := (Reader.read_eq_iff (by decide)).mp hfull
    rw [inum_read hle] at hzero
    have hoff : r.2.off = s.off + RECORDSIZE := Reader.off_read hle
    rw [blank_iff hle, and_iff_right hzero, ← hoff]
    exact ih.imp_left fun h => ⟨h.1, h.2.1, fun hin => h.2.2 hin.read⟩
  | case2 s de r hfull hne =>
    have hle := (Reader.read_eq_iff (by decide)).mp hfull
    rw [inum_read hle] at hne
    refine .inr ⟨fun hb => hne ((blank_iff hle).mp hb).1, rfl, fun hin => ?_⟩
    have hstore : _ ∧ d + 518 < d + 268 := hin (de + 2 + DIRSIZ) (by simp [Reader.store])
    omega
  | case3 s de r hshort =>
    have hlt := (Reader.read_eq_iff (by decide)).not.mp hshort
    refine .inl ⟨fun j hj => absurd ?_ hlt, rfl, fun hin => hin.read⟩
    exact (Nat.add_le_add_left (Nat.le_mul_of_pos_right _ (Nat.succ_pos j)) _).trans hj

/-! ## The list -/

lemma Lists.inside {eax : ℕ → ℕ} {es : List Dirent} (h : Lists data d eax es s) : s.Inside d := by
  induction es generalizing eax s with
  | nil => exact h.2.of_readdir
  | cons e es ih => exact (ih h.2).of_readdir

/-- No entry is ever listed without a store outside the `DIR`. -/
lemma not_lists_cons {eax : ℕ → ℕ} {e : Dirent} {es : List Dirent} : ¬ Lists data d eax (e :: es) s := by
  rintro ⟨⟨de, hret, -⟩, hrest⟩
  rcases readdir_cases data d (eax 0) s with ⟨-, hends, -⟩ | ⟨-, -, hout⟩
  · rw [hends] at hret
    cases hret
  · exact hout hrest.inside

lemma inside_opendir (fd d : ℕ) (mem : ℕ → UInt8) : (opendir fd d mem).Inside d := by
  have hstart : (⟨mem, [], 0⟩ : Reader).Inside d := fun a ha => by simp at ha
  refine (hstart.store le_rfl ?_).store (Nat.le_add_right _ _) (Nat.add_assoc d _ _).le
  simp

lemma live_eq_nil_iff : live data = [] ↔ ∀ e ∈ dirents data, e.inum = 0 := by
  simp [live, List.filter_eq_nil_iff]

/-- `readdir` lists a directory only if it has no entry in use, if no record of 258 bytes that is in the file
as a whole begins with anything but zeroes, and if the register for the result happens to hold null. -/
theorem lists_iff (data : List UInt8) (fd d : ℕ) (mem : ℕ → UInt8) (eax : ℕ → ℕ) :
    Lists data d eax (live data) (opendir fd d mem) ↔
      (∀ e ∈ dirents data, e.inum = 0) ∧
      (∀ j, RECORDSIZE * (j + 1) ≤ data.length → inumAt data (RECORDSIZE * j) = 0) ∧ eax 0 = 0 := by
  have hblank : Blank data (opendir fd d mem).off ↔
      ∀ j, RECORDSIZE * (j + 1) ≤ data.length → inumAt data (RECORDSIZE * j) = 0 :=
    forall_congr' fun j => by
      show 0 + _ ≤ _ → inumAt data (0 + _) = 0 ↔ _
      rw [Nat.zero_add, Nat.zero_add]
  rw [← live_eq_nil_iff, ← hblank]
  cases hlive : live data with
  | cons e es => exact iff_of_false not_lists_cons fun h => by cases h.1
  | nil =>
    rw [and_iff_right rfl]
    show _ ∧ _ ↔ _
    rcases readdir_cases data d (eax 0) (opendir fd d mem) with ⟨hb, hends, hin⟩ | ⟨hb, hentry, hout⟩
    · rw [hends, Returned.ends.injEq, and_iff_left (hin (inside_opendir fd d mem)), and_iff_right hb]
    · exact iff_of_false (fun h => hout h.2) fun h => hb h.1

/-- The entries `.` and `..` of a new directory. -/
def dots : List UInt8 :=
  (⟨7, 46 :: List.replicate 13 0⟩ : Dirent).bytes ++ (⟨1, 46 :: 46 :: List.replicate 12 0⟩ : Dirent).bytes

/-- A new directory is not listed, whatever is in the register. -/
theorem not_lists_dots : dots.length % DIRENTSIZE = 0 ∧ live dots ≠ [] ∧
    ¬ ∃ eax, Lists dots 0x4000 eax (live dots) (opendir 3 0x4000 fun _ => 0) := by
  have hlive : live dots = [⟨7, 46 :: List.replicate 13 0⟩, ⟨1, 46 :: 46 :: List.replicate 12 0⟩] := by
    decide
  rw [hlive]
  refine ⟨by decide, by simp, ?_⟩
  rintro ⟨eax, h⟩
  exact not_lists_cons h

end Xv7.Ulib
