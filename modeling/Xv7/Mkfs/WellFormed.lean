import Xv7.Mkfs.Plan

/-!
# The structure of a finished image

A finished image is well formed when its inodes lie in the table, their block maps agree with
their sizes, and the free map marks the blocks that were allocated.  It is so unless there are more
inodes than the table holds, or the root directory fills its last block: its size is then rounded
up to a block that it does not have.
-/

namespace Xv7.Mkfs

open Fallible

variable {im im' im1 : Image} {fs fs' : Files} {c : Checks} {args : List Arg} {junk : Junk}

/-- The structure of an image. -/
structure WellFormed (im : Image) : Prop where
  written : ∀ i ∈ im.written, i < sb.ninodes ∧ sb.inodestart ≤ sb.iblock i ∧
    sb.iblock i < sb.bmapstart
  mapped : ∀ i, i < sb.ninodes → ∀ bn,
    blockOf im.disk (im.inode i).addrs bn ≠ 0 ↔ bn < blocksFor (im.inode i).size
  nodup : im.inodeBlocks.Nodup
  data : ∀ b ∈ im.inodeBlocks, nmeta ≤ b
  bits : ∀ b, b < sb.size → (bit sb im.disk b = true ↔ b < im.freeblock)

/-! ## The end of `main` -/

/-- The image after the last part of `main`: the inode of the root directory has a new size, and
the free map is written. -/
structure Finishes (im im' : Image) : Prop where
  self : im'.inode ROOTINO = roundSize (im.inode ROOTINO)
  inode : ∀ i, i < NINODES → i ≠ ROOTINO → im'.inode i = im.inode i
  disk : ∀ b, nmeta ≤ b → im'.disk b = im.disk b
  bits : ∀ b, b < sb.size → (bit sb im'.disk b = true ↔ b < im.freeblock)
  freeblock : im'.freeblock = im.freeblock
  written : im'.written = ROOTINO :: im.written

lemma getBit_foldl_setBit {n b : ℕ} (hn : n ≤ BPB) :
    getBit ((List.range n).foldl setBit zeroes) b = decide (b < n) := by
  induction n with
  | zero => exact getBit_zero b
  | succ n ih =>
    rw [List.range_succ, List.foldl_append, List.foldl_cons, List.foldl_nil, getBit_setBit hn,
      ih (Nat.le_of_succ_le hn)]
    simp only [← Bool.decide_or]
    exact decide_eq_decide.mpr (by omega)

/-- A file of a sound image is not larger than the maximum. -/
lemma Sound.size_le (h : Sound im) {i : ℕ} (hi : i < NINODES) :
    (im.inode i).size ≤ MAXFILE * BSIZE := by
  refine blocksFor_le.mp (Nat.le_of_not_lt fun hlt => ?_)
  obtain ⟨s, j, hloc, -⟩ := exists_of_blockOf_ne_zero ((h.mapped i hi MAXFILE).mpr hlt)
  exact lt_irrefl _ (locate_lt hloc)

lemma roundSize_fits {din : Inode} (h : din.Fits) (hsize : din.size ≤ MAXFILE * BSIZE) :
    (roundSize din).Fits := by
  refine ⟨h.type, h.major, h.minor, h.nlink, ?_, h.addrs, h.atime, h.mtime⟩
  have hle : din.size / BSIZE ≤ MAXFILE := Nat.div_le_of_le_mul (hsize.trans_eq (Nat.mul_comm _ _))
  exact (Nat.mul_le_mul_right BSIZE (Nat.succ_le_succ hle)).trans_lt (by decide)

lemma fixRoot_stores (h : Sound im) (junk : Junk) :
    Stores im (im.fixRoot junk) ROOTINO (roundSize (im.inode ROOTINO)) := by
  have hroot : ROOTINO < NINODES := by decide
  rw [Image.fixRoot, rinode_eq h.counted.len hroot]
  exact winode_stores im h.counted.len hroot (roundSize_fits (dinode_fits _ _) (h.size_le hroot)) _

/-- What `fixRoot` and `balloc` do to a sound image. -/
lemma finishes_of_balloc (h : Sound im) (hcall : (im.fixRoot junk).balloc = .ok im') :
    Finishes im im' := by
  have hst := fixRoot_stores h junk
  generalize im.fixRoot junk = im1 at hst hcall
  have hlen : im1.len = FSSIZE := hst.len.trans h.counted.len
  unfold Image.balloc at hcall
  split_ifs at hcall with hlt
  rw [wsect_eq im1 (bmapstart_lt.trans nmeta_lt) hlen, Except.ok.injEq] at hcall
  have hself : im'.disk sb.bmapstart = (List.range im1.freeblock).foldl setBit zeroes := by
    rw [← hcall]
    exact Function.update_self sb.bmapstart _ im1.disk
  have hne : ∀ b, b ≠ sb.bmapstart → im'.disk b = im1.disk b := by
    intro b hb
    rw [← hcall]
    exact Function.update_of_ne hb _ _
  have hinode : ∀ i, i < NINODES → im'.inode i = im1.inode i :=
    fun i hi => congrArg (getDinode · _) (hne _ (iblock_lt hi).ne)
  refine ⟨(hinode _ (by decide)).trans hst.self, fun i hi hi' => (hinode i hi).trans
    (hst.inode i hi'), fun b hb => ?_, fun b hb => ?_, ?_, ?_⟩
  · exact (hne b (bmapstart_lt.trans_le hb).ne').trans (hst.disk b (bmapstart_lt.le.trans hb))
  · have hP : BPB = 4096 := rfl
    have hS : sb.size = 10000 := rfl
    have hb3 : b / BPB < 3 := by
      rw [hP]
      omega
    rw [← hst.freeblock, bit, Superblock.bblock]
    by_cases hb0 : b / BPB = 0
    · rw [hb0, Nat.zero_add, hself, getBit_foldl_setBit (hlt.le.trans (by decide)),
        decide_eq_true_iff, Nat.mod_eq_of_lt (Nat.div_eq_zero_iff_lt (by decide) |>.mp hb0)]
    · have hm : b / BPB + sb.bmapstart < nmeta :=
        (Nat.add_lt_add_right hb3 _).trans_le (by decide)
      have hlt' : im1.freeblock < BPB := hlt
      rw [hne _ (by omega), hst.disk _ (Nat.le_add_left _ _), h.freeMap _ (Nat.le_add_left _ _) hm,
        getBit_zero]
      simp only [Bool.false_eq_true, false_iff, Nat.not_lt]
      rw [hP] at hb0
      omega
  · rw [← hcall]
    exact hst.freeblock
  · rw [← hcall]
    exact hst.written

lemma Finishes.blocksOf_eq (hf : Finishes im im') (h : Sound im) {i : ℕ} (hi : i < NINODES) :
    im'.blocksOf i = im.blocksOf i := by
  have haddrs : (im'.inode i).addrs = (im.inode i).addrs := by
    by_cases hne : i = ROOTINO
    · rw [hne, hf.self, roundSize]
    · rw [hf.inode i hi hne]
  unfold Image.blocksOf
  rw [haddrs]
  exact blocks_congr fun b hb =>
    hf.disk b (h.le (blocksOf_subset hi (indirects_subset_blocks hb)))

lemma Finishes.blockOf_eq (hf : Finishes im im') (h : Sound im) {i : ℕ} (hi : i < NINODES)
    (bn : ℕ) : blockOf im'.disk (im'.inode i).addrs bn =
      blockOf im.disk (im.inode i).addrs bn := by
  have haddrs : (im'.inode i).addrs = (im.inode i).addrs := by
    by_cases hne : i = ROOTINO
    · rw [hne, hf.self, roundSize]
    · rw [hf.inode i hi hne]
  rw [haddrs]
  exact blockOf_congr (fun b hb =>
    hf.disk b (h.le (blocksOf_subset hi (indirects_subset_blocks hb)))) bn

lemma Finishes.inodeBlocks_eq (hf : Finishes im im') (h : Sound im) :
    im'.inodeBlocks = im.inodeBlocks :=
  List.flatMap_congr fun _ hi => hf.blocksOf_eq h (List.mem_range.mp hi)

/-- The rounding agrees with the block map iff the last block is not full. -/
lemma rounded_iff {size : ℕ} :
    (∀ bn, bn < blocksFor size ↔ bn < blocksFor ((size / BSIZE + 1) * BSIZE)) ↔
      size % BSIZE ≠ 0 := by
  have hB : BSIZE = 512 := rfl
  simp only [lt_blocksFor, hB]
  constructor
  · intro h h0
    have := h (size / 512)
    omega
  · intro h bn
    omega

/-- A finished image is well formed iff the last block of the root directory was not full. -/
lemma Finishes.wellFormed_iff (hf : Finishes im im') (h : Good im fs) :
    WellFormed im' ↔ (im.inode ROOTINO).size % BSIZE ≠ 0 := by
  have hs := h.image.sound
  have hroot : ROOTINO < NINODES := by decide
  rw [← rounded_iff]
  constructor
  · intro hw bn
    have := hw.mapped ROOTINO hroot bn
    rw [hf.blockOf_eq hs hroot, hf.self] at this
    exact (hs.mapped ROOTINO hroot bn).symm.trans this
  · intro hr
    refine ⟨fun i hi => ?_, fun i hi bn => ?_, ?_, fun b hb => ?_, fun b hb => ?_⟩
    · have hlt : i < NINODES := by
        rw [hf.written] at hi
        rcases List.mem_cons.mp hi with rfl | hi
        · exact hroot
        · exact h.inTable i hi
      exact ⟨hlt, Nat.le_add_left _ _, iblock_lt hlt⟩
    · rw [hf.blockOf_eq hs hi]
      by_cases hne : i = ROOTINO
      · rw [hne, hf.self]
        exact (hs.mapped ROOTINO hroot bn).trans (hr bn)
      · rw [hf.inode i hi hne]
        exact hs.mapped i hi bn
    · rw [hf.inodeBlocks_eq hs]
      exact hs.nodup
    · rw [hf.inodeBlocks_eq hs] at hb
      exact hs.le hb
    · rw [hf.freeblock]
      exact hf.bits b hb

/-! ## Every command line -/

/-- `mkfs` is its two parts. -/
lemma mkfs_eq_ok (h : mkfs args junk = .ok im') : ∃ im junk0 junk1, build args junk0 = .ok im ∧
    (im.fixRoot junk1).balloc = .ok im' ∧ im.freeblock ≤ FSSIZE := by
  obtain ⟨im, hbuild, hend⟩ := bind_eq_ok.mp h
  refine ⟨im, _, _, hbuild, hend, ?_⟩
  unfold Image.balloc at hend
  split_ifs at hend with hlt
  exact hlt.le.trans (by decide)

lemma balloc_written (h : (im.fixRoot junk).balloc = .ok im') : im.written ⊆ im'.written := by
  unfold Image.balloc at h
  split_ifs at h
  rw [← Except.ok.inj h]
  exact List.subset_cons_self _ _

lemma Overrun.not_wellFormed (h : Overrun im) : ¬ WellFormed im := by
  obtain ⟨i, hi, hle⟩ := h
  exact fun hw => absurd (hw.written i hi).1 (Nat.not_lt.mpr hle)

/-- Of the command lines that use no inode number outside the table for a directory, the image is
well formed for those whose inodes are in the table and whose root directory ends inside a
block. -/
theorem mkfs_wellFormed_iff (h : mkfs args junk = .ok im)
    (hread : plan .none args ≠ .error .read) :
    WellFormed im ↔ ∃ fs, plan .none args = .ok fs ∧ (fs.data ROOTINO).length % BSIZE ≠ 0 := by
  obtain ⟨im₀, junk₀, junk₁, hbuild, hend, hfit⟩ := mkfs_eq_ok h
  have hf := build_follows .none hbuild hfit
  rcases hplan : plan .none args with fault | fs
  · rw [hplan] at hf hread
    have hover : Overrun im₀ := by
      cases fault with
      | write => exact hf
      | read => exact absurd rfl hread
      | refused => exact absurd hplan (plan_none_ne_refused args)
    obtain ⟨i, hi, hle⟩ := hover
    have hover' : Overrun im := ⟨i, balloc_written hend hi, hle⟩
    simp only [reduceCtorEq, false_and, exists_false, iff_false]
    exact hover'.not_wellFormed
  · rw [hplan] at hf
    have hg : Good im₀ fs := hf
    have hsize : (im₀.inode ROOTINO).size = (fs.data ROOTINO).length := by
      rw [← hg.image.data ROOTINO (by decide), contents, List.length_map, List.length_range]
    rw [(finishes_of_balloc hg.image.sound hend).wellFormed_iff hg, hsize]
    simp

/-- One file of three bytes in the root directory. -/
def oneFile : List Arg := [⟨[97], .regular [[1, 2, 3]], by decide⟩]

lemma plan_oneFile : ∃ fs, plan .none oneFile = .ok fs ∧ (fs.data ROOTINO).length = 48 :=
  exists_of_map_toOption (f := fun fs : Files => (fs.data ROOTINO).length) (by decide +kernel)

theorem mkfs_wellFormed_oneFile : ∃ im, mkfs oneFile (fun _ => zeroes) = .ok im ∧
    plan .none oneFile ≠ .error .read ∧ WellFormed im := by
  obtain ⟨fs, hplan, hlen⟩ := plan_oneFile
  have hread : plan .none oneFile ≠ .error .read := by
    rw [hplan]
    exact nofun
  obtain ⟨im, hrun⟩ := mkfs_ok (fun _ => zeroes) hplan (by simp [oneFile, HostFile.Readable])
    (by decide +kernel)
  refine ⟨im, hrun, hread, (mkfs_wellFormed_iff hrun hread).mpr ⟨fs, hplan, ?_⟩⟩
  rw [hlen]
  decide

/-- Thirty empty files in the root directory, which then has 32 entries. -/
def thirtyFiles : List Arg := List.replicate 30 ⟨[97], .regular [], by decide⟩

lemma plan_thirtyFiles : ∃ fs, plan .none thirtyFiles = .ok fs ∧
    (fs.data ROOTINO).length = BSIZE :=
  exists_of_map_toOption (f := fun fs : Files => (fs.data ROOTINO).length) (by decide +kernel)

/-- The second block of the root directory is below its size and not mapped. -/
theorem not_wellFormed_thirtyFiles : ∃ im, mkfs thirtyFiles (fun _ => zeroes) = .ok im ∧
    1 < blocksFor (im.inode ROOTINO).size ∧
    blockOf im.disk (im.inode ROOTINO).addrs 1 = 0 ∧ ¬ WellFormed im := by
  obtain ⟨fs, hplan, hlen⟩ := plan_thirtyFiles
  obtain ⟨im, hrun⟩ := mkfs_ok (fun _ => zeroes) hplan
    (by simp [thirtyFiles, HostFile.Readable]) (by decide +kernel)
  obtain ⟨im₀, junk₀, junk₁, hbuild, hend, hfit⟩ := mkfs_eq_ok hrun
  have hg := build_follows .none hbuild hfit
  rw [hplan] at hg
  have hs := hg.image.sound
  have hroot : ROOTINO < NINODES := by decide
  have hsize : (im₀.inode ROOTINO).size = BSIZE := by
    rw [← hlen, ← hg.image.data ROOTINO hroot, contents, List.length_map, List.length_range]
  have hf := finishes_of_balloc hs hend
  have hbig : 1 < blocksFor (im.inode ROOTINO).size := by
    rw [hf.self, roundSize, hsize]
    exact (by decide : 1 < blocksFor ((BSIZE / BSIZE + 1) * BSIZE))
  have hhole : blockOf im.disk (im.inode ROOTINO).addrs 1 = 0 := by
    rw [hf.blockOf_eq hs hroot]
    by_contra hne
    have hlt := (hs.mapped ROOTINO hroot 1).mp hne
    rw [hsize] at hlt
    exact absurd hlt (by decide)
  refine ⟨im, hrun, hbig, hhole, fun hw => ?_⟩
  exact (hw.mapped ROOTINO hroot 1).mpr hbig hhole

end Xv7.Mkfs
