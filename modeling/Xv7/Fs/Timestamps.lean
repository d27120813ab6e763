import Xv7.Fs.Inode
import Xv7.Lib.Machine

/-!
# The pointers and the timestamps of a cached inode

`struct inode` has room for eleven pointers only, and its timestamps follow them, while `bmap` and
`itrunc` index thirteen pointers as `struct dinode` has.  The last two pointers of a cached inode
are therefore its timestamps: `ilock` does not load them, and `readi` and `writei` overwrite them.
-/

namespace Xv7

/-! ## The code -/

/-- The fields of `struct inode` that are copied from the disk. -/
structure CachedInode where
  type : ℕ
  major : ℕ
  minor : ℕ
  nlink : ℕ
  size : ℕ
  addrs : Fin (NDIRECT + 1) → ℕ
  atime : ℕ
  mtime : ℕ

/-- `ip->addrs[i]` for the indices that `bmap` and `itrunc` use.  The two words behind the array
are `atime` and `mtime`. -/
def CachedInode.slots (ip : CachedInode) : Slots := fun i =>
  if h : i.val < NDIRECT + 1 then ip.addrs ⟨i, h⟩
  else if i.val = NDIRECT + 1 then ip.atime
  else ip.mtime

/-- The part of `ilock` that reads the inode: `sizeof(ip->addrs)` bytes of pointers. -/
def loadInode (sb : Superblock) (d : Disk) (inum : ℕ) : CachedInode :=
  let dip := dinode sb d inum
  { type := dip.type
    major := dip.major
    minor := dip.minor
    nlink := dip.nlink
    size := dip.size
    addrs := fun i => dip.addrs (i.castLE (by decide))
    atime := dip.atime
    mtime := dip.mtime }

/-- The inode with the fields that `iupdate` copies; the last two pointers are not among them. -/
def CachedInode.dinode (ip : CachedInode) : Inode where
  type := ip.type
  major := ip.major
  minor := ip.minor
  nlink := ip.nlink
  size := ip.size
  addrs := fun i => if h : i.val < NDIRECT + 1 then ip.addrs ⟨i, h⟩ else 0
  atime := ip.atime
  mtime := ip.mtime

/-- `iupdate`, which copies `sizeof(ip->addrs)` bytes of pointers. -/
def storeInode (sb : Superblock) (inum : ℕ) (ip : CachedInode) (d : Disk) : Disk :=
  setDinode sb (NDIRECT + 1) d inum ip.dinode

/-- The events in the life of a cached inode that do not change its contents. -/
inductive TimeOp where
  /-- `readi` sets `ip->atime` to the time. -/
  | readi (curtime : ℕ)
  /-- `writei` sets `ip->mtime` to the time. -/
  | writei (curtime : ℕ)
  /-- `iupdate`. -/
  | iupdate
  deriving DecidableEq, Repr

/-- The effect of an event on the cached inode and on the disk.  A time is a 32-bit word. -/
def TimeOp.run (sb : Superblock) (inum : ℕ) (c : CachedInode × Disk) :
    TimeOp → CachedInode × Disk
  | .readi t => ({ c.1 with atime := t % 2 ^ 32 }, c.2)
  | .writei t => ({ c.1 with mtime := t % 2 ^ 32 }, c.2)
  | .iupdate => (c.1, storeInode sb inum c.1 c.2)

/-- The events one after the other. -/
def runTimes (sb : Superblock) (inum : ℕ) (c : CachedInode × Disk) (ops : List TimeOp) :
    CachedInode × Disk :=
  ops.foldl (TimeOp.run sb inum) c

/-! ## Agreement on the block map -/

/-- The cached inode and the inode on the disk agree on the block map, along a list of events. -/
structure MapAgrees (sb : Superblock) (d : Disk) (inum : ℕ) (ops : List TimeOp) : Prop where
  /-- `bmap` finds the blocks that the thirteen pointers on the disk lead to. -/
  bmap : ∀ bn, bn < MAXFILE → blockOf d (dinode sb d inum).addrs bn ≠ 0 →
    ∃ slots d', Xv7.bmap sb (loadInode sb d inum).slots bn d =
      .ok (blockOf d (dinode sb d inum).addrs bn, slots, d')
  /-- No event changes a pointer that `bmap` and `itrunc` use. -/
  times : Machine.Meets (fun c op => some (TimeOp.run sb inum c op))
    (fun c op => (op.run sb inum c).1.slots = c.1.slots) (loadInode sb d inum, d) ops
  /-- Storing, evicting and loading the inode gives back the thirteen pointers. -/
  reload : (loadInode sb (storeInode sb inum (runTimes sb inum (loadInode sb d inum, d) ops).1
    (runTimes sb inum (loadInode sb d inum, d) ops).2) inum).slots = (dinode sb d inum).addrs

/-- The time that an event stores is the pointer that is kept in the same place. -/
def TimeOp.Keeps (slots : Slots) : TimeOp → Prop
  | .readi t => t % 2 ^ 32 = slots ⟨NDIRECT + 1, dind_lt⟩
  | .writei t => t % 2 ^ 32 = slots ⟨NDIRECT + 2, tind_lt⟩
  | .iupdate => True

variable {sb : Superblock} {inum : ℕ} {ops : List TimeOp}

lemma CachedInode.slots_castLE (ip : CachedInode) (i : Fin (NDIRECT + 1)) :
    ip.slots (i.castLE (by decide)) = ip.addrs i := by
  have hi := i.isLt
  simp only [CachedInode.slots, Fin.val_castLE, hi, dif_pos]

/-- The pointers of two cached inodes, one by one. -/
lemma CachedInode.slots_eq_iff {ip : CachedInode} {slots : Slots} :
    ip.slots = slots ↔ (∀ i : Fin (NDIRECT + 1), ip.addrs i = slots (i.castLE (by decide))) ∧
      ip.atime = slots ⟨NDIRECT + 1, by decide⟩ ∧ ip.mtime = slots ⟨NDIRECT + 2, by decide⟩ := by
  constructor
  · rintro rfl
    exact ⟨fun i => (ip.slots_castLE i).symm, rfl, rfl⟩
  · rintro ⟨haddrs, ha, hm⟩
    funext i
    unfold CachedInode.slots
    split_ifs with h h'
    · exact haddrs ⟨i, h⟩
    · rw [ha]
      exact congrArg slots (Fin.ext h'.symm)
    · rw [hm]
      refine congrArg slots (Fin.ext ?_)
      have hi : i.val < NDIRECT + 3 := i.isLt
      simp only
      omega

/-- An event changes no pointer iff the time it stores is the pointer in its place. -/
lemma run_slots_iff {c : CachedInode × Disk} {op : TimeOp} :
    (op.run sb inum c).1.slots = c.1.slots ↔ op.Keeps c.1.slots := by
  have hself := CachedInode.slots_eq_iff.mp (rfl : c.1.slots = c.1.slots)
  cases op with
  | readi t =>
    rw [CachedInode.slots_eq_iff]
    exact ⟨fun h => h.2.1, fun h => ⟨hself.1, h, hself.2.2⟩⟩
  | writei t =>
    rw [CachedInode.slots_eq_iff]
    exact ⟨fun h => h.2.2, fun h => ⟨hself.1, hself.2.1, h⟩⟩
  | iupdate => exact ⟨fun _ => trivial, fun _ => rfl⟩

/-- A list of events changes no pointer iff every time is the pointer in its place. -/
lemma meets_slots_iff {c : CachedInode × Disk} :
    Machine.Meets (fun c op => some (TimeOp.run sb inum c op))
      (fun c op => (op.run sb inum c).1.slots = c.1.slots) c ops ↔
      ∀ op ∈ ops, op.Keeps c.1.slots := by
  induction ops generalizing c with
  | nil => simp [Machine.Meets]
  | cons op ops ih =>
    simp only [Machine.Meets, Option.some.injEq, forall_eq', List.forall_mem_cons]
    rw [run_slots_iff]
    refine and_congr_right fun hop => ?_
    rw [ih, run_slots_iff.mpr hop]

/-- The fields of a cached inode fit their places on the disk. -/
lemma runTimes_fits (d : Disk) (inum : ℕ) (ops : List TimeOp) :
    (runTimes sb inum (loadInode sb d inum, d) ops).1.dinode.Fits := by
  have hload : (loadInode sb d inum).dinode.Fits := by
    have h : (Xv7.dinode sb d inum).Fits := dinode_fits d inum
    refine ⟨h.type, h.major, h.minor, h.nlink, h.size, fun i => ?_, h.atime, h.mtime⟩
    simp only [CachedInode.dinode]
    split_ifs
    · exact h.addrs _
    · decide
  have hrun : ∀ c : CachedInode × Disk, c.1.dinode.Fits →
      (runTimes sb inum c ops).1.dinode.Fits := by
    induction ops with
    | nil => exact fun _ h => h
    | cons op ops ih =>
      intro c h
      refine ih _ ?_
      cases op with
      | readi t => exact { h with atime := Nat.mod_lt _ (by decide) }
      | writei t => exact { h with mtime := Nat.mod_lt _ (by decide) }
      | iupdate => exact h
  exact hrun _ hload

/-- Storing and loading a cached inode gives back its pointers, with the timestamps among them. -/
lemma load_storeInode {ip : CachedInode} (h : ip.dinode.Fits) (d : Disk) :
    (loadInode sb (storeInode sb inum ip d) inum).slots = ip.slots := by
  rw [CachedInode.slots_eq_iff]
  simp only [loadInode, storeInode]
  rw [dinode_setDinode (by decide) h]
  refine ⟨fun i => ?_, rfl, rfl⟩
  have hi := i.isLt
  rw [CachedInode.slots_castLE]
  simp only [CachedInode.dinode, Fin.val_castLE, hi, dif_pos, if_true]

/-- The pointers along a list of events that changes none. -/
lemma runTimes_slots {c : CachedInode × Disk} (h : ∀ op ∈ ops, op.Keeps c.1.slots) :
    (runTimes sb inum c ops).1.slots = c.1.slots := by
  induction ops generalizing c with
  | nil => rfl
  | cons op ops ih =>
    rw [List.forall_mem_cons] at h
    have hop : (op.run sb inum c).1.slots = c.1.slots := run_slots_iff.mpr h.1
    exact (ih (hop.symm ▸ h.2)).trans hop

/-- The cached inode and the inode on the disk agree on the block map only if the timestamps on the
disk, and every timestamp that is stored, happen to be the last two pointers. -/
theorem mapAgrees_iff (sb : Superblock) (d : Disk) (inum : ℕ) (ops : List TimeOp) :
    MapAgrees sb d inum ops ↔
      (dinode sb d inum).atime = (dinode sb d inum).addrs ⟨NDIRECT + 1, by decide⟩ ∧
      (dinode sb d inum).mtime = (dinode sb d inum).addrs ⟨NDIRECT + 2, by decide⟩ ∧
      ∀ op ∈ ops, op.Keeps (dinode sb d inum).addrs := by
  have hload : (loadInode sb d inum).slots = (dinode sb d inum).addrs ↔
      (dinode sb d inum).atime = (dinode sb d inum).addrs ⟨NDIRECT + 1, by decide⟩ ∧
      (dinode sb d inum).mtime = (dinode sb d inum).addrs ⟨NDIRECT + 2, by decide⟩ := by
    rw [CachedInode.slots_eq_iff]
    exact ⟨fun h => h.2, fun h => ⟨fun _ => rfl, h⟩⟩
  constructor
  · intro h
    have hkeeps := meets_slots_iff.mp h.times
    have hslots : (loadInode sb d inum).slots = (dinode sb d inum).addrs := by
      rw [← h.reload, load_storeInode (runTimes_fits d inum ops), runTimes_slots hkeeps]
    obtain ⟨ha, hm⟩ := hload.mp hslots
    exact ⟨ha, hm, hslots ▸ hkeeps⟩
  · rintro ⟨ha, hm, hkeeps⟩
    have hslots := hload.mpr ⟨ha, hm⟩
    have hkeeps' : ∀ op ∈ ops, op.Keeps (loadInode sb d inum).slots := hslots.symm ▸ hkeeps
    refine ⟨fun bn _ hbn => ?_, meets_slots_iff.mpr hkeeps', ?_⟩
    · rw [hslots]
      exact ⟨_, _, bmap_of_blockOf hbn⟩
    · have hrun : (runTimes sb inum (loadInode sb d inum, d) ops).1.slots =
          (loadInode sb d inum).slots := runTimes_slots hkeeps'
      rw [load_storeInode (runTimes_fits d inum ops), hrun, hslots]

/-- A disk with one file: its doubly indirect block is 300, which leads to block 302, and it was
last read at time 200; from block 200 the way leads to block 202. -/
def aliasDisk : Disk :=
  setDinode mkfsSuperblock (NDIRECT + 3)
    (fun b =>
      if b = 300 then Bytes.setWord (fun _ => 0) 0 301
      else if b = 301 then Bytes.setWord (fun _ => 0) 0 302
      else if b = 200 then Bytes.setWord (fun _ => 0) 0 201
      else if b = 201 then Bytes.setWord (fun _ => 0) 0 202
      else fun _ => 0)
    1 ⟨T_FILE, 0, 0, 1, 139 * BSIZE, fun i => if i.val = NDIRECT + 1 then 300 else 0, 200, 0⟩

set_option maxRecDepth 20000 in
/-- The cached inode leads to block 202 where the inode on the disk leads to block 302; a read
changes the pointer again, and storing the inode does not help. -/
theorem not_mapAgrees_aliasDisk :
    (dinode mkfsSuperblock aliasDisk 1).type = T_FILE ∧
    blockOf aliasDisk (dinode mkfsSuperblock aliasDisk 1).addrs 138 = 302 ∧
    (bmap mkfsSuperblock (loadInode mkfsSuperblock aliasDisk 1).slots 138 aliasDisk).toOption.map
      Prod.fst = some 202 ∧
    ((TimeOp.readi 5).run mkfsSuperblock 1 (loadInode mkfsSuperblock aliasDisk 1, aliasDisk)).1.slots
      ≠ (loadInode mkfsSuperblock aliasDisk 1).slots ∧
    (loadInode mkfsSuperblock (storeInode mkfsSuperblock 1
      (loadInode mkfsSuperblock aliasDisk 1) aliasDisk) 1).slots ≠
      (dinode mkfsSuperblock aliasDisk 1).addrs ∧
    ¬ MapAgrees mkfsSuperblock aliasDisk 1 [.readi 5] := by
  have hblock : blockOf aliasDisk (dinode mkfsSuperblock aliasDisk 1).addrs 138 = 302 := by
    decide +kernel
  have hbmap : (bmap mkfsSuperblock (loadInode mkfsSuperblock aliasDisk 1).slots 138
      aliasDisk).toOption.map Prod.fst = some 202 := by decide +kernel
  refine ⟨by decide +kernel, hblock, hbmap, by decide +kernel, by decide +kernel, fun h => ?_⟩
  obtain ⟨slots, d', hb⟩ := h.bmap 138 (by decide) (by rw [hblock]; decide)
  rw [hb, hblock] at hbmap
  simp [Except.toOption] at hbmap

/-- A disk with one empty file, whose timestamps are zero. -/
def emptyFileDisk : Disk :=
  setDinode mkfsSuperblock (NDIRECT + 3) (fun _ _ => 0) 1
    ⟨T_FILE, 0, 0, 1, 0, fun _ => 0, 0, 0⟩

theorem mapAgrees_emptyFileDisk : (dinode mkfsSuperblock emptyFileDisk 1).type = T_FILE ∧
    MapAgrees mkfsSuperblock emptyFileDisk 1 [.readi 0, .iupdate] :=
  ⟨by decide +kernel, (mapAgrees_iff mkfsSuperblock emptyFileDisk 1 [.readi 0, .iupdate]).mpr
    ⟨by decide +kernel, by decide +kernel, by
      rw [List.forall_mem_cons, List.forall_mem_singleton]
      exact ⟨show 0 % 2 ^ 32 = _ by decide +kernel, trivial⟩⟩⟩

end Xv7
