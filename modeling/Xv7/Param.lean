import Xv7.Lib.Bytes

/-!
# Parameters of the system and the superblock

The constants of `param.h` and `fs.h`, the contents of a disk block and the superblock that
describes the layout of the disk:
`[ boot block | super block | log | inode blocks | free bit map | data blocks ]`.
-/

namespace Xv7

/-- Block size in bytes. -/
abbrev BSIZE : ℕ := 512

/-- Maximum number of blocks that one file-system operation writes. -/
abbrev MAXOPBLOCKS : ℕ := 20

/-- Maximum number of data blocks in the on-disk log. -/
abbrev LOGSIZE : ℕ := MAXOPBLOCKS * 3

/-- Size of the file system in blocks. -/
abbrev FSSIZE : ℕ := 10000

/-- The number of the root inode. -/
abbrev ROOTINO : ℕ := 1

/-- The contents of a disk block. -/
abbrev Block : Type := Fin BSIZE → UInt8

/-- The contents of a whole disk, by block number. -/
abbrev Disk : Type := ℕ → Block

/-- The fields of `struct superblock` that the code reads after boot. -/
structure Superblock where
  /-- Size of the file-system image in blocks. -/
  size : ℕ
  /-- Number of inodes. -/
  ninodes : ℕ
  /-- Number of log blocks. -/
  nlog : ℕ
  /-- Block number of the first log block. -/
  logstart : ℕ
  /-- Block number of the first inode block. -/
  inodestart : ℕ
  /-- Block number of the first free-map block. -/
  bmapstart : ℕ
  deriving DecidableEq, Repr

/-- The block belongs to the log area: it is the header block or one of the log blocks. -/
def Superblock.InLog (sb : Superblock) (b : ℕ) : Prop :=
  b = sb.logstart ∨ sb.logstart < b ∧ b < sb.logstart + sb.nlog

instance (sb : Superblock) : DecidablePred sb.InLog := fun b =>
  inferInstanceAs (Decidable (b = sb.logstart ∨ sb.logstart < b ∧ b < sb.logstart + sb.nlog))

/-- The superblock that `mkfs` writes: two blocks for boot and super, `LOGSIZE` log blocks,
29 inode blocks for 200 inodes of 72 bytes, and three bitmap blocks. -/
def mkfsSuperblock : Superblock where
  size := FSSIZE
  ninodes := 200
  nlog := LOGSIZE
  logstart := 2
  inodestart := 2 + LOGSIZE
  bmapstart := 2 + LOGSIZE + 29

end Xv7
