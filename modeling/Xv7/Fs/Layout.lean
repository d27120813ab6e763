import Xv7.Param
import Xv7.Lib.PtrTree
import Xv7.Lib.Fallible

/-!
# The layout of the file system

The constants of `fs.h`, the areas of the disk and the calls of `panic` in `fs.c` and `file.c`.
-/

namespace Xv7

/-- The number of direct pointers of an inode. -/
abbrev NDIRECT : ℕ := 10

lemma addrs_le : NDIRECT + 1 ≤ NDIRECT + 3 := by
  decide

lemma ind_lt : NDIRECT < NDIRECT + 3 := by
  decide

lemma dind_lt : NDIRECT + 1 < NDIRECT + 3 := by
  decide

lemma tind_lt : NDIRECT + 2 < NDIRECT + 3 := by
  decide

/-- The number of pointers in an indirect block. -/
abbrev NINDIRECT : ℕ := BSIZE / 4

/-- The number of blocks below a doubly indirect block. -/
abbrev NDINDIRECT : ℕ := NINDIRECT * NINDIRECT

/-- The number of blocks below a triply indirect block. -/
abbrev NTINDIRECT : ℕ := NDINDIRECT * NINDIRECT

/-- The maximum number of blocks of a file. -/
abbrev MAXFILE : ℕ := NDIRECT + NINDIRECT + NDINDIRECT + NTINDIRECT

/-- The number of blocks that hold `n` bytes. -/
def blocksFor (n : ℕ) : ℕ := (n + BSIZE - 1) / BSIZE

lemma blocksFor_le {n m : ℕ} : blocksFor n ≤ m ↔ n ≤ m * BSIZE := by
  have hB : BSIZE = 512 := rfl
  rw [blocksFor, hB]
  omega

lemma lt_blocksFor {n m : ℕ} : n < blocksFor m ↔ n * BSIZE < m := by
  rw [← Nat.not_le, blocksFor_le, Nat.not_le]

/-- The size of `struct dinode` in bytes. -/
abbrev DINODESIZE : ℕ := 72

/-- Inodes per block. -/
abbrev IPB : ℕ := BSIZE / DINODESIZE

/-- Bitmap bits per block. -/
abbrev BPB : ℕ := BSIZE * 8

/-- The calls of `panic` in the file system. -/
inductive FsPanic where
  /-- `balloc`: "balloc: out of blocks". -/
  | outOfBlocks
  /-- `bfree`: "freeing free block". -/
  | freeingFreeBlock
  /-- `ialloc`: "ialloc: no inodes". -/
  | noInodes
  /-- `ilock`: "ilock: no type". -/
  | noType
  /-- `bmap`: "bmap: out of range". -/
  | outOfRange
  /-- `filewrite`: "short filewrite". -/
  | shortWrite
  /-- `filewrite`: "filewrite". -/
  | filewrite
  /-- `dirlookup`: "dirlookup not DIR". -/
  | dirlookupNotDir
  /-- `dirlookup`: "dirlookup read". -/
  | dirlookupRead
  /-- `dirlink`: "dirlink read". -/
  | dirlinkRead
  /-- `dirlink`: "dirlink". -/
  | dirlink
  /-- `sys_unlink`: "unlink: writei". -/
  | unlinkWritei
  deriving DecidableEq, Repr

/-- The panics of a call that cannot map a block. -/
def FsPanic.IsUnmapped (e : FsPanic) : Prop := e = .outOfBlocks ∨ e = .outOfRange

namespace Superblock

/-- `IBLOCK`: the block that contains an inode. -/
def iblock (sb : Superblock) (inum : ℕ) : ℕ := inum / IPB + sb.inodestart

/-- `BBLOCK`: the block of the free map that contains the bit of a block. -/
def bblock (sb : Superblock) (b : ℕ) : ℕ := b / BPB + sb.bmapstart

/-- The first data block. -/
def dataStart (sb : Superblock) : ℕ := sb.bmapstart + sb.size / BPB + 1

/-- The layout that `mkfs` writes: the areas follow one another, and block numbers fit a word. -/
structure Layout (sb : Superblock) : Prop where
  /-- The boot block and the super block come first. -/
  log : sb.logstart = 2
  /-- The inode blocks follow the log. -/
  inodes : sb.inodestart = sb.logstart + sb.nlog
  /-- The free map follows the inode blocks. -/
  bitmap : sb.bmapstart = sb.inodestart + sb.ninodes / IPB + 1
  /-- The metadata fit in the file system. -/
  fits : sb.dataStart ≤ sb.size
  /-- Block numbers are 32-bit words. -/
  small : sb.size < 2 ^ 32

/-- The block is the boot, the super, a log, an inode or a free-map block. -/
def IsMeta (sb : Superblock) (b : ℕ) : Prop :=
  b = 0 ∨ b = 1 ∨ (sb.logstart ≤ b ∧ b < sb.logstart + sb.nlog) ∨
    (sb.inodestart ≤ b ∧ b < sb.inodestart + sb.ninodes / IPB + 1) ∨
    (sb.bmapstart ≤ b ∧ b < sb.bmapstart + sb.size / BPB + 1)

/-- The block belongs to the free map. -/
def InBitmap (sb : Superblock) (b : ℕ) : Prop := sb.bmapstart ≤ b ∧ b < sb.dataStart

/-- The block is a data block of the file system. -/
def IsData (sb : Superblock) (b : ℕ) : Prop := sb.dataStart ≤ b ∧ b < sb.size

variable {sb : Superblock}

/-- The metadata blocks are those below the first data block. -/
lemma Layout.isMeta_iff (hL : sb.Layout) (b : ℕ) : sb.IsMeta b ↔ b < sb.dataStart := by
  have h1 := hL.log
  have h2 := hL.inodes
  have h3 := hL.bitmap
  unfold IsMeta dataStart
  generalize sb.size / BPB = m at *
  generalize sb.ninodes / IPB = k at *
  omega

/-- The free-map block of a block of the file system. -/
lemma inBitmap_bblock {b : ℕ} (hb : b < sb.size) : sb.InBitmap (sb.bblock b) := by
  have := Nat.div_le_div_right (c := BPB) hb.le
  unfold InBitmap dataStart bblock
  generalize sb.size / BPB = m at *
  generalize b / BPB = k at *
  omega

lemma IsData.not_inBitmap {b : ℕ} (h : sb.IsData b) : ¬ sb.InBitmap b :=
  fun hb => absurd hb.2 (Nat.not_lt.mpr h.1)

/-- An inode block is not a data block and not a free-map block. -/
lemma Layout.iblock_lt (hL : sb.Layout) {inum : ℕ} (hi : inum < sb.ninodes) :
    sb.iblock inum < sb.bmapstart := by
  have h3 := hL.bitmap
  have := Nat.div_le_div_right (c := IPB) hi.le
  unfold iblock
  generalize sb.ninodes / IPB = m at *
  generalize inum / IPB = k at *
  omega

end Superblock

lemma layout_mkfsSuperblock : mkfsSuperblock.Layout :=
  ⟨rfl, rfl, by decide, by decide, by decide⟩

/-- How an indirect block holds its pointers. -/
def ptrs : PtrTree Block := ⟨NINDIRECT, Bytes.word⟩

end Xv7
