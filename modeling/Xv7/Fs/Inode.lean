import Xv7.Fs.Bmap

/-!
# Inodes

The inodes on the disk and their copies in the inode cache: `ilock`, `iupdate`, `ialloc`, `itrunc`,
`readi` and `writei`.  A copy in the cache has room for all thirteen pointers here, apart from the
timestamps; what becomes of the copy that `struct inode` really has is another matter, taken up
with the timestamps.
-/

namespace Xv7

open Fallible

/-- The type of a directory. -/
abbrev T_DIR : ℕ := 1

/-- The type of a regular file. -/
abbrev T_FILE : ℕ := 2

/-- The type of a device. -/
abbrev T_DEV : ℕ := 3

/-- The type of a symbolic link. -/
abbrev T_SYMLINK : ℕ := 4

/-- The number of major device numbers. -/
abbrev NDEV : ℕ := 10

/-- The fields of an inode that live on the disk.  The type zero marks a free inode. -/
structure Inode where
  type : ℕ
  major : ℕ
  minor : ℕ
  nlink : ℕ
  size : ℕ
  addrs : Slots
  atime : ℕ
  mtime : ℕ

/-! ## Inodes in an inode block -/

/-- The fields of `struct dinode` other than the pointers, by offset and length. -/
def headFields : List (ℕ × ℕ) := [(0, 2), (2, 2), (4, 2), (6, 2), (8, 4), (64, 4), (68, 4)]

/-- The first `n` pointers of `struct dinode`. -/
def addrFields (n : ℕ) : List (ℕ × ℕ) := (List.range n).map fun i => (12 + 4 * i, 4)

/-- The value of the field at an offset of `struct dinode`. -/
def Inode.field (ip : Inode) (off : ℕ) : ℕ :=
  if off = 0 then ip.type
  else if off = 2 then ip.major
  else if off = 4 then ip.minor
  else if off = 6 then ip.nlink
  else if off = 8 then ip.size
  else if off = 64 then ip.atime
  else if off = 68 then ip.mtime
  else if h : (off - 12) / 4 < NDIRECT + 3 then ip.addrs ⟨(off - 12) / 4, h⟩ else 0

/-- The fields fit their places in `struct dinode`. -/
structure Inode.Fits (ip : Inode) : Prop where
  type : ip.type < 2 ^ 16
  major : ip.major < 2 ^ 16
  minor : ip.minor < 2 ^ 16
  nlink : ip.nlink < 2 ^ 16
  size : ip.size < 2 ^ 32
  addrs : ∀ i, ip.addrs i < 2 ^ 32
  atime : ip.atime < 2 ^ 32
  mtime : ip.mtime < 2 ^ 32

/-- Inode number `k` of an inode block. -/
def getDinode (blk : Block) (k : ℕ) : Inode where
  type := Bytes.getNum blk (DINODESIZE * k + 0) 2
  major := Bytes.getNum blk (DINODESIZE * k + 2) 2
  minor := Bytes.getNum blk (DINODESIZE * k + 4) 2
  nlink := Bytes.getNum blk (DINODESIZE * k + 6) 2
  size := Bytes.getNum blk (DINODESIZE * k + 8) 4
  addrs := fun i => Bytes.getNum blk (DINODESIZE * k + (12 + 4 * i)) 4
  atime := Bytes.getNum blk (DINODESIZE * k + 64) 4
  mtime := Bytes.getNum blk (DINODESIZE * k + 68) 4

/-- Store an inode, with its first `n` pointers, as inode number `k` of an inode block. -/
def putDinode (n : ℕ) (blk : Block) (k : ℕ) (ip : Inode) : Block :=
  Bytes.setFields blk (DINODESIZE * k) (headFields ++ addrFields n) ip.field

/-- The inode on the disk. -/
def dinode (sb : Superblock) (d : Disk) (inum : ℕ) : Inode :=
  getDinode (d (sb.iblock inum)) (inum % IPB)

/-- Change the inode on the disk. -/
def setDinode (sb : Superblock) (n : ℕ) (d : Disk) (inum : ℕ) (ip : Inode) : Disk :=
  Function.update d (sb.iblock inum) (putDinode n (d (sb.iblock inum)) (inum % IPB) ip)

lemma pairwise_apart : (headFields ++ addrFields (NDIRECT + 3)).Pairwise Bytes.Apart := by
  decide

/-- The fields of an inode lie within its 72 bytes. -/
lemma field_le {n : ℕ} (hn : n ≤ NDIRECT + 3) {f : ℕ × ℕ} (hf : f ∈ headFields ++ addrFields n) :
    f.1 + f.2 ≤ DINODESIZE := by
  have hall : ∀ f ∈ headFields ++ addrFields (NDIRECT + 3), f.1 + f.2 ≤ DINODESIZE := by decide
  refine hall f ?_
  rcases List.mem_append.mp hf with hf | hf
  · exact List.mem_append_left _ hf
  · obtain ⟨i, hi, rfl⟩ := List.mem_map.mp hf
    refine List.mem_append_right _ (List.mem_map.mpr ⟨i, ?_, rfl⟩)
    exact List.mem_range.mpr ((List.mem_range.mp hi).trans_le hn)

lemma addr_mem {i n : ℕ} (hi : i < n) : (12 + 4 * i, 4) ∈ headFields ++ addrFields n :=
  List.mem_append_right _ (List.mem_map.mpr ⟨i, List.mem_range.mpr hi, rfl⟩)

lemma field_addr (ip : Inode) (i : Fin (NDIRECT + 3)) : ip.field (12 + 4 * i) = ip.addrs i := by
  have hi : i.val < 13 := i.isLt
  have hidx : (12 + 4 * i.val - 12) / 4 = i.val := by omega
  unfold Inode.field
  simp only [hidx, i.isLt, dif_pos]
  rw [if_neg (by omega), if_neg (by omega), if_neg (by omega), if_neg (by omega),
    if_neg (by omega), if_neg (by omega), if_neg (by omega)]

lemma pairwise_apart_of_le {n : ℕ} (hn : n ≤ NDIRECT + 3) :
    (headFields ++ addrFields n).Pairwise Bytes.Apart := by
  refine pairwise_apart.sublist (List.Sublist.append_left ?_ _)
  exact (List.range_sublist.mpr hn).map _

/-- The inode of a block of zeroes. -/
lemma getDinode_zero (k : ℕ) : getDinode (fun _ => 0) k = ⟨0, 0, 0, 0, 0, fun _ => 0, 0, 0⟩ := by
  simp only [getDinode, Bytes.getNum_zero]

section Codec

variable {blk : Block} {ip : Inode} {k n : ℕ} (hn : n ≤ NDIRECT + 3)

include hn

/-- Storing an inode does not change a number in another inode of the block. -/
lemma getNum_putDinode_of_ne {j off len : ℕ} (hjk : j ≠ k) (hoff : off + len ≤ DINODESIZE) :
    Bytes.getNum (putDinode n blk k ip) (DINODESIZE * j + off) len =
      Bytes.getNum blk (DINODESIZE * j + off) len := by
  refine Bytes.getNum_setFields_of_disjoint fun f hf => ?_
  have := field_le hn hf
  have hD : DINODESIZE = 72 := rfl
  rw [hD] at hoff this ⊢
  omega

/-- Storing an inode does not change the others of the block. -/
lemma getDinode_putDinode_of_ne {j : ℕ} (hjk : j ≠ k) :
    getDinode (putDinode n blk k ip) j = getDinode blk j := by
  have haddr : ∀ i : Fin (NDIRECT + 3), 12 + 4 * i.val + 4 ≤ DINODESIZE := by decide
  unfold getDinode
  simp only [getNum_putDinode_of_ne hn hjk (show 0 + 2 ≤ DINODESIZE by decide),
    getNum_putDinode_of_ne hn hjk (show 2 + 2 ≤ DINODESIZE by decide),
    getNum_putDinode_of_ne hn hjk (show 4 + 2 ≤ DINODESIZE by decide),
    getNum_putDinode_of_ne hn hjk (show 6 + 2 ≤ DINODESIZE by decide),
    getNum_putDinode_of_ne hn hjk (show 8 + 4 ≤ DINODESIZE by decide),
    getNum_putDinode_of_ne hn hjk (show 64 + 4 ≤ DINODESIZE by decide),
    getNum_putDinode_of_ne hn hjk (show 68 + 4 ≤ DINODESIZE by decide),
    getNum_putDinode_of_ne hn hjk (haddr _)]

variable (hk : k < IPB)

include hk

/-- A stored field reads back. -/
lemma getNum_putDinode {off len : ℕ} (hf : (off, len) ∈ headFields ++ addrFields n)
    (hv : ip.field off < 256 ^ len) :
    Bytes.getNum (putDinode n blk k ip) (DINODESIZE * k + off) len = ip.field off := by
  refine Bytes.getNum_setFields (f := (off, len)) (pairwise_apart_of_le hn) hf ?_ hv
  have := field_le hn hf
  have hI : IPB = 7 := rfl
  have hD : DINODESIZE = 72 := rfl
  have hB : BSIZE = 512 := rfl
  simp only [hD] at this ⊢
  omega

/-- A stored inode reads back; its pointers from `n` on are those that were there before. -/
lemma getDinode_putDinode (hip : ip.Fits) :
    getDinode (putDinode n blk k ip) k =
      { ip with addrs := fun i => if i.val < n then ip.addrs i else (getDinode blk k).addrs i } := by
  have hhead : ∀ off len, (off, len) ∈ headFields → ip.field off < 256 ^ len →
      Bytes.getNum (putDinode n blk k ip) (DINODESIZE * k + off) len = ip.field off :=
    fun off len hf hv => getNum_putDinode hn hk (List.mem_append_left _ hf) hv
  have haddr : ∀ i : Fin (NDIRECT + 3),
      Bytes.getNum (putDinode n blk k ip) (DINODESIZE * k + (12 + 4 * i)) 4 =
        if i.val < n then ip.addrs i else (getDinode blk k).addrs i := by
    intro i
    split_ifs with hi
    · rw [getNum_putDinode hn hk (addr_mem hi) (by rw [field_addr]; exact hip.addrs i), field_addr]
    · refine Bytes.getNum_setFields_of_disjoint fun f hf => ?_
      have hlt : i.val < 13 := i.isLt
      rcases List.mem_append.mp hf with hf | hf
      · simp only [headFields, List.mem_cons, List.not_mem_nil, or_false] at hf
        rcases hf with rfl | rfl | rfl | rfl | rfl | rfl | rfl <;> simp only <;> omega
      · obtain ⟨j, hj, rfl⟩ := List.mem_map.mp hf
        have := List.mem_range.mp hj
        simp only
        omega
  unfold getDinode
  simp only [hhead 0 2 (by decide) hip.type, hhead 2 2 (by decide) hip.major,
    hhead 4 2 (by decide) hip.minor, hhead 6 2 (by decide) hip.nlink, hhead 8 4 (by decide) hip.size,
    hhead 64 4 (by decide) hip.atime, hhead 68 4 (by decide) hip.mtime, haddr]
  rfl

end Codec

section Disk

variable {sb : Superblock} {d : Disk} {inum n : ℕ} {ip : Inode} (hn : n ≤ NDIRECT + 3)

include hn

/-- Changing an inode on the disk leaves the other inodes alone. -/
lemma dinode_setDinode_of_ne {j : ℕ} (hj : j ≠ inum) :
    dinode sb (setDinode sb n d inum ip) j = dinode sb d j := by
  unfold dinode setDinode
  by_cases hblk : sb.iblock j = sb.iblock inum
  · have hmod : j % IPB ≠ inum % IPB := by
      unfold Superblock.iblock at hblk
      have h1 := Nat.div_add_mod j IPB
      have h2 := Nat.div_add_mod inum IPB
      intro heq
      rw [show j / IPB = inum / IPB by omega, heq] at h1
      exact hj (h1.symm.trans h2)
    rw [hblk, Function.update_self, getDinode_putDinode_of_ne hn hmod]
  · rw [Function.update_of_ne hblk]

/-- An inode that was changed on the disk; its pointers from `n` on are as before. -/
lemma dinode_setDinode (hip : ip.Fits) :
    dinode sb (setDinode sb n d inum ip) inum =
      { ip with addrs := fun i => if i.val < n then ip.addrs i else (dinode sb d inum).addrs i } := by
  unfold dinode setDinode
  rw [Function.update_self]
  exact getDinode_putDinode hn (Nat.mod_lt _ (by decide)) hip

/-- The type of an inode that was changed on the disk. -/
lemma dinode_setDinode_type (ht : ip.type < 2 ^ 16) :
    (dinode sb (setDinode sb n d inum ip) inum).type = ip.type := by
  unfold dinode setDinode
  rw [Function.update_self]
  have hf : ((0, 2) : ℕ × ℕ) ∈ headFields ++ addrFields n := List.mem_append_left _ (by decide)
  exact getNum_putDinode hn (Nat.mod_lt _ (by decide)) hf ht

/-- The pointers of an inode that was changed on the disk. -/
lemma dinode_setDinode_addrs (hip : ∀ i, ip.addrs i < 2 ^ 32) {i : Fin (NDIRECT + 3)}
    (hi : i.val < n) : (dinode sb (setDinode sb n d inum ip) inum).addrs i = ip.addrs i := by
  unfold dinode setDinode
  rw [Function.update_self]
  refine (getNum_putDinode hn (Nat.mod_lt _ (by decide)) (addr_mem hi) ?_).trans (field_addr ip i)
  rw [field_addr]
  exact hip i

omit hn in
lemma dinode_fits (d : Disk) (inum : ℕ) : (dinode sb d inum).Fits :=
  ⟨Bytes.getNum_lt _ _ _, Bytes.getNum_lt _ _ _, Bytes.getNum_lt _ _ _, Bytes.getNum_lt _ _ _,
    Bytes.getNum_lt _ _ _, fun _ => Bytes.getNum_lt _ _ _, Bytes.getNum_lt _ _ _,
    Bytes.getNum_lt _ _ _⟩

end Disk

/-! ## The code -/

/-- What the code takes from outside: the clock and the device switch table. -/
structure Env where
  /-- `curtime`, as `fsupdtime` leaves it. -/
  curtime : ℕ
  /-- `devsw[major].read`, where it is set: the result and the bytes for a number of bytes. -/
  devRead : ℕ → Option (ℕ → ℤ × List UInt8)
  /-- `devsw[major].write`, where it is set. -/
  devWrite : ℕ → Option (List UInt8 → ℤ)

/-- The disk, as `bread` returns it, and the valid entries of the inode cache. -/
structure Fs where
  disk : Disk
  icache : ℕ → Option Inode

/-- The inode, as the next `ilock` finds it. -/
def Fs.inode (sb : Superblock) (s : Fs) (inum : ℕ) : Inode :=
  (s.icache inum).getD (dinode sb s.disk inum)

/-- The state after a change to a cached inode and to the disk. -/
def Fs.put (s : Fs) (inum : ℕ) (ip : Inode) (d : Disk) : Fs :=
  ⟨d, Function.update s.icache inum (some ip)⟩

/-- The numbers of the inodes. -/
def inums (sb : Superblock) : List ℕ := List.range' 1 (sb.ninodes - 1)

/-- `ilock`: read the inode from the disk if necessary. -/
def ilock (sb : Superblock) (s : Fs) (inum : ℕ) : Except FsPanic (Inode × Fs) :=
  match s.icache inum with
  | some ip => .ok (ip, s)
  | none =>
    let ip := dinode sb s.disk inum
    if ip.type = 0 then .error .noType else .ok (ip, s.put inum ip s.disk)

/-- `iupdate`: copy a modified inode to the disk. -/
def iupdate (sb : Superblock) (inum : ℕ) (ip : Inode) (d : Disk) : Disk :=
  setDinode sb (NDIRECT + 3) d inum ip

/-- `ialloc`: the first inode of type zero is cleared and given a type. -/
def ialloc (sb : Superblock) (d : Disk) (type : ℕ) : Except FsPanic (ℕ × Disk) :=
  match (inums sb).find? fun inum => (dinode sb d inum).type = 0 with
  | some inum =>
    .ok (inum, setDinode sb (NDIRECT + 3) d inum
      { type := type % 2 ^ 16, major := 0, minor := 0, nlink := 0, size := 0, addrs := fun _ => 0,
        atime := 0, mtime := 0 })
  | none => .error .noInodes

/-- `itrunc`: discard the contents. -/
def itrunc (sb : Superblock) (inum : ℕ) (ip : Inode) (d : Disk) :
    Except FsPanic (Inode × Disk) := do
  let (slots, d) ← freeSlots sb ip.addrs d
  let ip := { ip with addrs := slots, size := 0 }
  .ok (ip, iupdate sb inum ip d)

/-- The loop of `readi`. -/
def readLoop (sb : Superblock) : ℕ → Slots → ℕ → ℕ → Disk →
    Except FsPanic (List UInt8 × Slots × Disk)
  | 0, slots, _, _, d => .ok ([], slots, d)
  | fuel + 1, slots, off, n, d =>
    if n = 0 then .ok ([], slots, d)
    else do
      let (addr, slots, d) ← bmap sb slots (off / BSIZE) d
      let m := min n (BSIZE - off % BSIZE)
      let bytes := (List.range m).map fun k => Bytes.rd (d addr) (off % BSIZE + k)
      let (rest, slots, d) ← readLoop sb fuel slots (off + m) (n - m) d
      .ok (bytes ++ rest, slots, d)

/-- `readi`: read `n` bytes at `off`.  Every round of the loop reads a byte, so `n` rounds are
enough. -/
def readi (env : Env) (sb : Superblock) (ip : Inode) (off n : ℕ) (d : Disk) :
    Except FsPanic (ℤ × List UInt8 × Inode × Disk) :=
  let ip := { ip with atime := env.curtime }
  if ip.type = T_DEV then
    match if ip.major < NDEV then env.devRead ip.major else none with
    | some read => .ok ((read n).1, (read n).2, ip, d)
    | none => .ok (-1, [], ip, d)
  else if ip.size < off ∨ (off + n) % 2 ^ 32 < off then .ok (-1, [], ip, d)
  else do
    let n := if ip.size < (off + n) % 2 ^ 32 then ip.size - off else n
    let (bytes, slots, d) ← readLoop sb n ip.addrs off n d
    .ok (n, bytes, { ip with addrs := slots }, d)

/-- One round of the loop of `writei`: bytes for one block. -/
def writeChunk (sb : Superblock) (slots : Slots) (off : ℕ) (chunk : List UInt8) (d : Disk) :
    Except FsPanic (Slots × Disk) := do
  let (addr, slots, d) ← bmap sb slots (off / BSIZE) d
  .ok (slots, Function.update d addr
    (Bytes.patch (d addr) (off % BSIZE) chunk.length fun k => chunk.getD k 0))

/-- The loop of `writei`. -/
def writeLoop (sb : Superblock) : ℕ → Slots → ℕ → List UInt8 → Disk →
    Except FsPanic (Slots × Disk)
  | 0, slots, _, _, d => .ok (slots, d)
  | fuel + 1, slots, off, src, d =>
    if src = [] then .ok (slots, d)
    else do
      let m := min src.length (BSIZE - off % BSIZE)
      let (slots, d) ← writeChunk sb slots off (src.take m) d
      writeLoop sb fuel slots (off + m) (src.drop m) d

/-- `writei`: write the bytes of `src` at `off`. -/
def writei (env : Env) (sb : Superblock) (inum : ℕ) (ip : Inode) (src : List UInt8) (off : ℕ)
    (d : Disk) : Except FsPanic (ℤ × Inode × Disk) :=
  let n := src.length
  let ip := { ip with mtime := env.curtime }
  if ip.type = T_DEV then
    match if ip.major < NDEV then env.devWrite ip.major else none with
    | some write => .ok (write src, ip, d)
    | none => .ok (-1, ip, d)
  else if ip.size < off ∨ (off + n) % 2 ^ 32 < off then .ok (-1, ip, d)
  else if MAXFILE * BSIZE < (off + n) % 2 ^ 32 then .ok (-1, ip, d)
  else do
    let (slots, d) ← writeLoop sb n ip.addrs off src d
    let ip := { ip with addrs := slots }
    if 0 < n ∧ ip.size < off + n then
      let ip := { ip with size := off + n }
      .ok (n, ip, iupdate sb inum ip d)
    else .ok (n, ip, d)

/-- What a call of `writei` can do to the inode and to the disk: nothing but set the time, or run
the loop and record a larger size. -/
lemma writei_cases {env : Env} {sb : Superblock} {inum off : ℕ} {ip ip' : Inode} {src : List UInt8}
    {r : ℤ} {d d' : Disk} (hw : writei env sb inum ip src off d = .ok (r, ip', d')) :
    (ip' = { ip with mtime := env.curtime } ∧ d' = d) ∨
    ∃ slots d1, writeLoop sb src.length ip.addrs off src d = .ok (slots, d1) ∧
      ((ip' = { ip with mtime := env.curtime, addrs := slots } ∧ d' = d1) ∨
        ip' = { ip with mtime := env.curtime, addrs := slots, size := off + src.length } ∧
          d' = iupdate sb inum ip' d1) := by
  have hinj : ∀ {r' : ℤ} {ip1 : Inode} {d1 : Disk},
      (Except.ok (r', ip1, d1) : Except FsPanic _) = .ok (r, ip', d') → ip' = ip1 ∧ d' = d1 := by
    intro r' ip1 d1 h
    simp only [Except.ok.injEq, Prod.mk.injEq] at h
    exact ⟨h.2.1.symm, h.2.2.symm⟩
  simp only [writei] at hw
  split at hw
  · split at hw <;> exact Or.inl (hinj hw)
  split at hw
  · exact Or.inl (hinj hw)
  split at hw
  · exact Or.inl (hinj hw)
  right
  cases hl : writeLoop sb src.length ip.addrs off src d with
  | error e => simp [hl, bind, Except.bind] at hw
  | ok q =>
    refine ⟨q.1, q.2, rfl, ?_⟩
    simp only [hl, bind, Except.bind] at hw
    split at hw
    · obtain ⟨rfl, rfl⟩ := hinj hw
      exact Or.inr ⟨rfl, rfl⟩
    · exact Or.inl (hinj hw)

/-- `writei` panics only where `bmap` does. -/
lemma writei_failsWithin {env : Env} {sb : Superblock} {inum off : ℕ} {ip : Inode}
    {src : List UInt8} {d : Disk} :
    FailsWithin FsPanic.IsUnmapped (writei env sb inum ip src off d) := by
  have hloop : ∀ fuel slots off src d,
      FailsWithin FsPanic.IsUnmapped (writeLoop sb fuel slots off src d) := by
    intro fuel
    induction fuel with
    | zero => exact fun _ _ _ _ => FailsWithin.ok _
    | succ fuel ih =>
      intro slots off src d
      rw [writeLoop]
      split_ifs
      · exact FailsWithin.ok _
      · exact (bmap_failsWithin.bind fun _ _ => FailsWithin.ok _).bind fun _ _ => ih _ _ _ _
  simp only [writei]
  split
  · split <;> exact FailsWithin.ok _
  split
  · exact FailsWithin.ok _
  split
  · exact FailsWithin.ok _
  refine (hloop _ _ _ _ _).bind fun _ _ => ?_
  split <;> exact FailsWithin.ok _

/-! ## States -/

variable {sb : Superblock} {s : Fs} {inum : ℕ}

@[simp] lemma Fs.put_disk (s : Fs) (inum : ℕ) (ip : Inode) (d : Disk) :
    (s.put inum ip d).disk = d := rfl

@[simp] lemma Fs.put_icache_self (s : Fs) (inum : ℕ) (ip : Inode) (d : Disk) :
    (s.put inum ip d).icache inum = some ip := Function.update_self _ _ _

lemma Fs.put_icache_of_ne {j : ℕ} (hj : j ≠ inum) (s : Fs) (ip : Inode) (d : Disk) :
    (s.put inum ip d).icache j = s.icache j := Function.update_of_ne hj _ _

@[simp] lemma Fs.put_put (s : Fs) (inum : ℕ) (ip ip' : Inode) (d d' : Disk) :
    (s.put inum ip d).put inum ip' d' = s.put inum ip' d' := by
  simp [Fs.put]

@[simp] lemma Fs.inode_put_self (s : Fs) (inum : ℕ) (ip : Inode) (d : Disk) :
    (s.put inum ip d).inode sb inum = ip := by
  simp [Fs.put, Fs.inode]

lemma Fs.inode_put_of_ne {j : ℕ} (hj : j ≠ inum) (s : Fs) (ip : Inode) {d : Disk}
    (hd : dinode sb d j = dinode sb s.disk j) :
    (s.put inum ip d).inode sb j = s.inode sb j := by
  simp [Fs.put, Fs.inode, Function.update_of_ne hj, hd]

/-- `ilock` of an allocated inode. -/
lemma ilock_eq (ht : (s.inode sb inum).type ≠ 0) :
    ilock sb s inum = .ok (s.inode sb inum, s.put inum (s.inode sb inum) s.disk) := by
  unfold ilock
  cases hip : s.icache inum with
  | some ip =>
    have heq : s.inode sb inum = ip := by simp [Fs.inode, hip]
    have hput : s.put inum ip s.disk = s := by rw [Fs.put, ← hip, Function.update_eq_self]
    rw [heq, hput]
  | none =>
    have heq : s.inode sb inum = dinode sb s.disk inum := by simp [Fs.inode, hip]
    rw [heq] at ht ⊢
    exact if_neg ht

end Xv7
