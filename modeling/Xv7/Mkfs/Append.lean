import Xv7.Mkfs.Image
import Xv7.Lib.Machine

/-!
# The files of an image

The abstract state `Files` of an image is the table of its inodes with their contents as bytes;
`ialloc` adds an empty file to it and `iappend` appends to one.  An image that is `Sound` shows
such a state: the blocks of its inodes are apart and lie between the metadata and the counter, and
the block maps have no holes and nothing beyond the end.  As long as a call stays inside the inode
area and inside the image, it does to the files shown what the abstract call does.
-/

namespace Xv7.Mkfs

open Fallible

/-! ## The abstract state -/

/-- The inodes of a file system, with their types, link counts and contents. -/
structure Files where
  next : ℕ
  type : ℕ → ℕ
  nlink : ℕ → ℕ
  data : ℕ → List UInt8

namespace Files

/-- The files of an empty image. -/
def empty : Files := ⟨1, fun _ => 0, fun _ => 0, fun _ => []⟩

/-- A new file with one link. -/
def ialloc (fs : Files) (type : ℕ) : Files where
  next := fs.next + 1
  type := Function.update fs.type fs.next type
  nlink := Function.update fs.nlink fs.next 1
  data := Function.update fs.data fs.next []

/-- Append bytes to a file. -/
def iappend (fs : Files) (inum : ℕ) (p : List UInt8) : Files :=
  { fs with data := Function.update fs.data inum (fs.data inum ++ p) }

@[simp] lemma iappend_data_self (fs : Files) (inum : ℕ) (p : List UInt8) :
    (fs.iappend inum p).data inum = fs.data inum ++ p := Function.update_self _ _ _

lemma iappend_data_of_ne (fs : Files) {inum i : ℕ} (p : List UInt8) (hne : i ≠ inum) :
    (fs.iappend inum p).data i = fs.data i := Function.update_of_ne hne _ _

end Files

/-! ## Sound images -/

namespace Image

/-- The inode on the image. -/
def inode (im : Image) (inum : ℕ) : Inode := dinode sb im.disk inum

/-- The blocks of an inode, data and indirect. -/
def blocksOf (im : Image) (inum : ℕ) : List ℕ := blocks im.disk (im.inode inum).addrs

/-- The blocks of all inodes. -/
def inodeBlocks (im : Image) : List ℕ := (List.range NINODES).flatMap im.blocksOf

/-- The blocks of the other inodes. -/
def others (im : Image) (inum : ℕ) : List ℕ := ((List.range NINODES).erase inum).flatMap im.blocksOf

/-- The blocks that have been allocated. -/
def region (im : Image) : List ℕ := List.range' nmeta (im.freeblock - nmeta)

end Image

/-- The blocks of the inodes are apart and allocated, and every file has exactly the blocks of its
size, with zeroes after its end. -/
structure Sound (im : Image) : Prop where
  counted : Counted im im.region
  nodup : im.inodeBlocks.Nodup
  sub : im.inodeBlocks ⊆ im.region
  mapped : ∀ i, i < NINODES → ∀ bn,
    blockOf im.disk (im.inode i).addrs bn ≠ 0 ↔ bn < blocksFor (im.inode i).size
  tail : ∀ i, i < NINODES → ∀ k, (im.inode i).size ≤ k →
    fileByte im.disk (im.inode i).addrs k = 0
  freeMap : ∀ b, sb.bmapstart ≤ b → b < nmeta → im.disk b = fun _ => 0

/-- The image shows the files. -/
structure Shows (im : Image) (fs : Files) : Prop where
  sound : Sound im
  next : im.freeinode = fs.next
  type : ∀ i, i < NINODES → (im.inode i).type = fs.type i
  nlink : ∀ i, i < NINODES → (im.inode i).nlink = fs.nlink i
  data : ∀ i, i < NINODES → contents im.disk (im.inode i) = fs.data i

lemma iblock_lt {inum : ℕ} (hi : inum < NINODES) : sb.iblock inum < sb.bmapstart :=
  layout_mkfsSuperblock.iblock_lt hi

lemma bmapstart_lt : sb.bmapstart < nmeta := by decide

lemma nmeta_lt : nmeta < FSSIZE := by decide

lemma iblock_lt_nmeta {inum : ℕ} (hi : inum < NINODES) : sb.iblock inum < nmeta :=
  (iblock_lt hi).trans bmapstart_lt

variable {im im' im₁ : Image} {inum : ℕ} {ip : Inode} {used : List ℕ}

lemma Counted.canonical (h : Counted im used) : Counted im im.region :=
  ⟨h.lo, h.hi, h.len, List.Perm.refl _, h.zero⟩

lemma Counted.le (h : Counted im used) {b : ℕ} (hb : b ∈ used) : nmeta ≤ b :=
  (h.mem_iff.mp hb).1

/-- The blocks of all inodes: those of one and those of the others. -/
lemma inodeBlocks_perm (hi : inum < NINODES) :
    im.inodeBlocks.Perm (im.blocksOf inum ++ im.others inum) :=
  PtrTree.flatMap_range_perm hi

lemma blocksOf_subset (hi : inum < NINODES) : im.blocksOf inum ⊆ im.inodeBlocks := fun _ hb =>
  List.mem_flatMap.mpr ⟨inum, List.mem_range.mpr hi, hb⟩

lemma mem_others {i b : ℕ} (hi : i < NINODES) (hne : i ≠ inum) (hb : b ∈ im.blocksOf i) :
    b ∈ im.others inum :=
  List.mem_flatMap.mpr ⟨i, PtrTree.mem_range_erase.mpr ⟨hne, hi⟩, hb⟩

/-- In a sound image the blocks of an inode are apart from those of the others. -/
lemma Sound.disjoint (h : Sound im) (hi : inum < NINODES) :
    (im.blocksOf inum).Nodup ∧ (im.others inum).Nodup ∧
      List.Disjoint (im.blocksOf inum) (im.others inum) := by
  have := h.nodup
  rwa [(inodeBlocks_perm hi).nodup_iff, List.nodup_append'] at this

lemma others_subset (im : Image) (inum : ℕ) : im.others inum ⊆ im.inodeBlocks := by
  intro b hb
  obtain ⟨i, hi, hb⟩ := List.mem_flatMap.mp hb
  exact List.mem_flatMap.mpr ⟨i, List.mem_of_mem_erase hi, hb⟩

lemma Sound.le (h : Sound im) {b : ℕ} (hb : b ∈ im.inodeBlocks) : nmeta ≤ b :=
  h.counted.le (h.sub hb)

/-- A change that spares the other inodes and their blocks. -/
structure Spares (im im' : Image) (inum : ℕ) : Prop where
  inode : ∀ i, i < NINODES → i ≠ inum → im'.inode i = im.inode i
  disk : ∀ b ∈ im.others inum, im'.disk b = im.disk b

lemma Spares.blocksOf_eq (h : Spares im im' inum) {i : ℕ} (hi : i < NINODES) (hne : i ≠ inum) :
    im'.blocksOf i = im.blocksOf i := by
  unfold Image.blocksOf
  rw [h.inode i hi hne]
  exact blocks_congr fun b hb => h.disk b (mem_others hi hne (indirects_subset_blocks hb))

lemma Spares.others_eq (h : Spares im im' inum) : im'.others inum = im.others inum := by
  refine List.flatMap_congr fun i hi => ?_
  obtain ⟨hne, hi⟩ := PtrTree.mem_range_erase.mp hi
  exact h.blocksOf_eq hi hne

lemma Spares.blockOf_eq (h : Spares im im' inum) {i : ℕ} (hi : i < NINODES) (hne : i ≠ inum)
    (bn : ℕ) : blockOf im'.disk (im'.inode i).addrs bn = blockOf im.disk (im.inode i).addrs bn := by
  rw [h.inode i hi hne]
  exact blockOf_congr (fun b hb => h.disk b (mem_others hi hne (indirects_subset_blocks hb))) bn

lemma Spares.fileByte_eq (h : Spares im im' inum) {i : ℕ} (hi : i < NINODES) (hne : i ≠ inum)
    (k : ℕ) : fileByte im'.disk (im'.inode i).addrs k = fileByte im.disk (im.inode i).addrs k := by
  rw [h.inode i hi hne]
  exact fileByte_congr (fun b hb => h.disk b (mem_others hi hne hb)) k

lemma Spares.contents_eq (h : Spares im im' inum) {i : ℕ} (hi : i < NINODES) (hne : i ≠ inum) :
    contents im'.disk (im'.inode i) = contents im.disk (im.inode i) := by
  unfold contents
  rw [congrArg Inode.size (h.inode i hi hne)]
  exact List.map_congr_left fun k _ => h.fileByte_eq hi hne k

/-- The image is sound after a change to one inode. -/
lemma Sound.of_spares (h : Sound im) (hi : inum < NINODES) (hs : Spares im im' inum)
    (hc : Counted im' im'.region) (hle : im.freeblock ≤ im'.freeblock)
    (hnd : (im'.blocksOf inum).Nodup) (hdisj : List.Disjoint (im'.blocksOf inum) (im.others inum))
    (hsub : im'.blocksOf inum ⊆ im'.region)
    (hmap : ∀ bn, blockOf im'.disk (im'.inode inum).addrs bn ≠ 0 ↔
      bn < blocksFor (im'.inode inum).size)
    (htail : ∀ k, (im'.inode inum).size ≤ k → fileByte im'.disk (im'.inode inum).addrs k = 0)
    (hfree : ∀ b, sb.bmapstart ≤ b → b < nmeta → im'.disk b = im.disk b) : Sound im' where
  counted := hc
  nodup := by
    rw [(inodeBlocks_perm hi).nodup_iff, List.nodup_append', hs.others_eq]
    exact ⟨hnd, (h.disjoint hi).2.1, hdisj⟩
  sub := by
    intro b hb
    rcases List.mem_append.mp ((inodeBlocks_perm hi).mem_iff.mp hb) with hb | hb
    · exact hsub hb
    · rw [hs.others_eq] at hb
      have := h.counted.mem_iff.mp (h.sub (others_subset im inum hb))
      exact hc.mem_iff.mpr ⟨this.1, this.2.trans_le hle⟩
  mapped := fun i hi' bn => by
    by_cases hne : i = inum
    · subst hne
      exact hmap bn
    · rw [hs.blockOf_eq hi' hne, hs.inode i hi' hne]
      exact h.mapped i hi' bn
  tail := fun i hi' k hk => by
    by_cases hne : i = inum
    · subst hne
      exact htail k hk
    · rw [hs.fileByte_eq hi' hne]
      exact h.tail i hi' k (hs.inode i hi' hne ▸ hk)
  freeMap := fun b hb hb' => (hfree b hb hb').trans (h.freeMap b hb hb')

/-! ## Reading and writing inodes -/

/-- An inode in the inode area is read from the image. -/
lemma rinode_eq (hlen : im.len = FSSIZE) (hi : inum < NINODES) (junk : Junk) :
    im.rinode inum junk = im.inode inum := by
  have hlt := (iblock_lt_nmeta hi).trans nmeta_lt
  rw [Image.rinode, Image.rsect, sector_of_lt hlt, if_pos (hlen.symm ▸ hlt)]
  rfl

/-- An inode in the inode area is written in place. -/
lemma winode_eq (im : Image) (hlen : im.len = FSSIZE) (hi : inum < NINODES) (ip : Inode)
    (junk : Junk) : im.winode inum ip junk =
      { im with disk := setDinode sb (NDIRECT + 3) im.disk inum ip, written := inum :: im.written } := by
  have hlt := (iblock_lt_nmeta hi).trans nmeta_lt
  have hread : im.rsect (sb.iblock inum) (junk []) = im.disk (sb.iblock inum) := by
    rw [Image.rsect, sector_of_lt hlt, if_pos (hlen.symm ▸ hlt)]
  simp only [Image.winode]
  rw [hread, wsect_eq im hlt hlen]
  rfl

/-- What `winode` does to the image. -/
structure Stores (im im' : Image) (inum : ℕ) (ip : Inode) : Prop where
  self : im'.inode inum = ip
  inode : ∀ i, i ≠ inum → im'.inode i = im.inode i
  disk : ∀ b, sb.bmapstart ≤ b → im'.disk b = im.disk b
  len : im'.len = im.len
  freeblock : im'.freeblock = im.freeblock
  freeinode : im'.freeinode = im.freeinode
  written : im'.written = inum :: im.written

lemma winode_stores (im : Image) (hlen : im.len = FSSIZE) (hi : inum < NINODES) {ip : Inode}
    (hip : ip.Fits) (junk : Junk) : Stores im (im.winode inum ip junk) inum ip := by
  rw [winode_eq im hlen hi]
  refine ⟨?_, fun i hne => dinode_setDinode_of_ne le_rfl hne, fun b hb => ?_, rfl, rfl, rfl, rfl⟩
  · refine (dinode_setDinode le_rfl hip).trans ?_
    simp only [Fin.is_lt, if_true]
  · exact Function.update_of_ne (Nat.ne_of_gt ((iblock_lt hi).trans_le hb)) _ _

lemma Stores.counted (h : Stores im im' inum ip) (hc : Counted im used) : Counted im' used where
  lo := h.freeblock ▸ hc.lo
  hi := h.freeblock ▸ hc.hi
  len := h.len.trans hc.len
  used := h.freeblock ▸ hc.used
  zero := fun b hb => by
    rw [h.freeblock] at hb
    rw [h.disk b (bmapstart_lt.le.trans (hc.lo.trans hb))]
    exact hc.zero b hb

/-! ## `ialloc` -/

lemma blankInode_fits {type : ℕ} (ht : type < 2 ^ 16) : (blankInode type).Fits :=
  ⟨ht, Nat.two_pow_pos _, Nat.two_pow_pos _, Nat.one_lt_two_pow (by decide), Nat.two_pow_pos _,
    fun _ => Nat.two_pow_pos _, Nat.two_pow_pos _, Nat.two_pow_pos _⟩

lemma ialloc_stores (hlen : im.len = FSSIZE) (hi : im.freeinode < NINODES) {type : ℕ}
    (ht : type < 2 ^ 16) (junk : Junk) :
    Stores { im with freeinode := im.freeinode + 1 } (im.ialloc type junk).2 im.freeinode
      (blankInode type) :=
  winode_stores { im with freeinode := im.freeinode + 1 } hlen hi (blankInode_fits ht) junk

/-- `ialloc` adds an empty file. -/
lemma ialloc_shows {fs : Files} (h : Shows im fs) (hi : im.freeinode < NINODES) {type : ℕ}
    (ht : type < 2 ^ 16) (junk : Junk) : Shows (im.ialloc type junk).2 (fs.ialloc type) := by
  have hst := ialloc_stores h.sound.counted.len hi ht junk
  generalize (im.ialloc type junk).2 = im' at hst
  have hspares : Spares im im' im.freeinode := by
    refine ⟨fun i _ hne => hst.inode i hne, fun b hb => hst.disk b ?_⟩
    exact bmapstart_lt.le.trans (h.sound.le (others_subset im _ hb))
  have hblank : im'.blocksOf im.freeinode = [] := by
    rw [Image.blocksOf, hst.self]
    exact blocks_zero
  have hnone : ∀ bn, blockOf im'.disk (blankInode type).addrs bn = 0 := by
    intro bn
    by_contra hne
    have := blockOf_mem_blocks hne
    rw [show blocks im'.disk (blankInode type).addrs = [] from blocks_zero] at this
    exact absurd this (List.not_mem_nil)
  have hc : Counted { im with freeinode := im.freeinode + 1 } im.region :=
    ⟨h.sound.counted.lo, h.sound.counted.hi, h.sound.counted.len, h.sound.counted.used,
      h.sound.counted.zero⟩
  have hsound : Sound im' := by
    refine h.sound.of_spares hi hspares (hst.counted hc).canonical
      (Nat.le_of_eq hst.freeblock.symm) ?_ ?_ ?_ (fun bn => ?_) (fun k _ => ?_)
      fun b hb _ => hst.disk b hb
    · rw [hblank]
      exact List.nodup_nil
    · rw [hblank]
      exact List.disjoint_nil_left _
    · rw [hblank]
      exact List.nil_subset _
    · rw [hst.self, hnone]
      simp [blankInode, lt_blocksFor]
    · rw [hst.self]
      exact if_pos (hnone _)
  have hupd : ∀ {α : Type} (f : ℕ → α) (v : α) (g : ℕ → α), g im.freeinode = v →
      (∀ i, i < NINODES → i ≠ im.freeinode → g i = f i) →
      ∀ i, i < NINODES → g i = Function.update f fs.next v i := by
    intro α f v g hself hother i hi'
    rw [← h.next]
    by_cases hne : i = im.freeinode
    · rw [hne, hself, Function.update_self]
    · rw [hother i hi' hne, Function.update_of_ne hne]
  refine ⟨hsound, ?_, hupd _ _ _ ?_ ?_, hupd _ _ _ ?_ ?_, hupd _ _ _ ?_ ?_⟩
  · rw [hst.freeinode]
    exact congrArg (· + 1) h.next
  · rw [hst.self]
    rfl
  · intro i hi' hne
    rw [hspares.inode i hi' hne, h.type i hi']
  · rw [hst.self]
    rfl
  · intro i hi' hne
    rw [hspares.inode i hi' hne, h.nlink i hi']
  · rw [hst.self]
    rfl
  · intro i hi' hne
    rw [hspares.contents_eq hi' hne, h.data i hi']

/-! ## `iappend` -/

section Append

variable {fs : Files} {p : List UInt8} {slots' : Slots} {new : List ℕ}

/-- The file `inum` was appended to in the store: the blocks `new` were added for the bytes `p`,
and then the inode was stored. -/
structure Appends (im im₁ im' : Image) (inum : ℕ) (p : List UInt8) (slots' : Slots)
    (new : List ℕ) : Prop where
  writes : Writes (fun _ => False) im.disk im₁.disk (im.inode inum).addrs slots'
    (im.inode inum).size ((im.inode inum).size + p.length)
    (fun k => p.getD (k - (im.inode inum).size) 0) new
  counted : Counted im₁ (new ++ im.region)
  grows : Grows im im₁
  stores : Stores im₁ im' inum
    { im.inode inum with addrs := slots', size := (im.inode inum).size + p.length }

/-- A file in a sound image has its own blocks, which are allocated. -/
lemma Sound.own (h : Sound im) (hi : inum < NINODES) :
    (im.blocksOf inum).Nodup ∧ im.blocksOf inum ⊆ im.region :=
  ⟨(h.disjoint hi).1, fun _ hb => h.sub (blocksOf_subset hi hb)⟩

section Effect

variable (ha : Appends im im₁ im' inum p slots' new)

include ha

lemma Appends.counted' : Counted im' (new ++ im.region) := ha.stores.counted ha.counted

lemma Appends.notMem_region {b : ℕ} (hb : b ∈ new) : b ∉ im.region := fun hin =>
  (List.nodup_append'.mp (countStore_lawful.nodup ha.counted)).2.2 hb hin

/-- The inode is written to the inode area. -/
lemma Appends.high {b : ℕ} (hb : nmeta ≤ b) : im'.disk b = im₁.disk b :=
  ha.stores.disk b (bmapstart_lt.le.trans hb)

/-- The new blocks are counted. -/
lemma Appends.length_new (h : Sound im) : new.length + im.freeblock = im'.freeblock := by
  have hlen := ha.counted'.used.length_eq
  have h1 := h.counted.lo
  have h2 := ha.counted'.lo
  rw [List.length_append, List.length_range', Image.region, List.length_range'] at hlen
  omega

variable (h : Sound im) (hi : inum < NINODES)

include h hi

/-- The loop changes only blocks of the file and new blocks. -/
lemma Appends.low {b : ℕ} (hb : b < nmeta) : im₁.disk b = im.disk b := by
  refine ha.writes.frame b (fun hM => hM) (fun hin => ?_) fun hin => ?_
  · exact absurd (h.counted.le ((h.own hi).2 hin)) (Nat.not_le.mpr hb)
  · exact absurd (ha.counted.le (List.mem_append_left _ hin)) (Nat.not_le.mpr hb)

/-- The other files stay as they are. -/
lemma Appends.spares : Spares im im' inum := by
  refine ⟨fun i hi' hne => ?_, fun b hb => ?_⟩
  · rw [ha.stores.inode i hne]
    exact congrArg (getDinode · _) (ha.low h hi (iblock_lt_nmeta hi'))
  · have hb' := h.sub (others_subset im inum hb)
    rw [ha.high (h.counted.le hb')]
    exact ha.writes.frame b (fun hM => hM) (fun hin => (h.disjoint hi).2.2 hin hb)
      fun hin => ha.notMem_region hin hb'

lemma Appends.within :
    (blocks im₁.disk slots').Nodup ∧ blocks im₁.disk slots' ⊆ new ++ im.region :=
  ha.writes.within (countStore_lawful.nodup ha.counted) (h.own hi).1 (h.own hi).2

/-- The file is the same after its inode is written. -/
lemma Appends.same : ∀ b ∈ blocks im₁.disk slots', im'.disk b = im₁.disk b := fun _ hb =>
  ha.high (ha.counted.le ((ha.within h hi).2 hb))

lemma Appends.same_indirects : ∀ b ∈ indirects im₁.disk slots', im'.disk b = im₁.disk b :=
  fun b hb => ha.same h hi b (indirects_subset_blocks hb)

/-- The blocks that are missing for a longer file. -/
lemma Appends.need {n : ℕ} (hn : (im.inode inum).size + p.length ≤ n * BSIZE) :
    missing im'.disk (im'.inode inum).addrs n + im'.freeblock =
      missing im.disk (im.inode inum).addrs n + im.freeblock := by
  have hneed := ha.writes.need n hn
  have hlen := ha.length_new h
  rw [ha.stores.self, missing_congr (ha.same_indirects h hi)]
  omega

/-- The image stays sound. -/
lemma Appends.sound : Sound im' := by
  have hblocks : im'.blocksOf inum = blocks im₁.disk slots' := by
    rw [Image.blocksOf, ha.stores.self]
    exact blocks_congr (ha.same_indirects h hi)
  obtain ⟨hnd, hsub⟩ := ha.within h hi
  refine h.of_spares hi (ha.spares h hi) ha.counted'.canonical ?_ ?_ ?_ ?_ (fun bn => ?_)
    (fun k hk => ?_) fun b hb hb' => ?_
  · exact ha.grows.freeblock.trans (Nat.le_of_eq ha.stores.freeblock.symm)
  · rw [hblocks]
    exact hnd
  · rw [hblocks]
    intro b hb hin
    rcases List.mem_append.mp (ha.writes.perm.mem_iff.mp hb) with hb | hb
    · exact ha.notMem_region hb (h.sub (others_subset im inum hin))
    · exact (h.disjoint hi).2.2 hb hin
  · rw [hblocks]
    exact fun b hb => ha.counted'.used.mem_iff.mp (hsub hb)
  · rw [ha.stores.self, blockOf_congr (ha.same_indirects h hi)]
    exact ha.writes.mapped (h.mapped inum hi) bn
  · rw [ha.stores.self] at hk ⊢
    rw [fileByte_congr (ha.same h hi), ha.writes.outside k (Or.inr hk)]
    exact h.tail inum hi k (le_trans (Nat.le_add_right _ _) hk)
  · rw [ha.stores.disk b hb, ha.low h hi hb']

/-- The bytes are appended to the contents. -/
lemma Appends.contents_eq :
    contents im'.disk (im'.inode inum) = contents im.disk (im.inode inum) ++ p := by
  rw [ha.stores.self, ← ha.writes.contents_append]
  exact List.map_congr_left fun k _ => fileByte_congr (ha.same h hi) k

end Effect

/-- An image whose file was appended to in the store shows the longer file. -/
lemma Appends.shows (ha : Appends im im₁ im' inum p slots' new) (h : Shows im fs)
    (hi : inum < NINODES) : Shows im' (fs.iappend inum p) := by
  have hspares := ha.spares h.sound hi
  refine ⟨ha.sound h.sound hi, ?_, fun i hi' => ?_, fun i hi' => ?_, fun i hi' => ?_⟩
  · rw [ha.stores.freeinode, ha.grows.freeinode, h.next]
    rfl
  · by_cases hne : i = inum
    · rw [hne, ha.stores.self]
      exact h.type inum hi
    · rw [hspares.inode i hi' hne]
      exact h.type i hi'
  · by_cases hne : i = inum
    · rw [hne, ha.stores.self]
      exact h.nlink inum hi
    · rw [hspares.inode i hi' hne]
      exact h.nlink i hi'
  · by_cases hne : i = inum
    · rw [hne, ha.contents_eq h.sound hi, h.data inum hi, Files.iappend_data_self]
    · rw [hspares.contents_eq hi' hne, h.data i hi', Files.iappend_data_of_ne fs p hne]

/-- The inode of a file that grows inside the image fits `struct dinode`. -/
lemma append_fits (hw : Writes (fun _ => False) im.disk im₁.disk (im.inode inum).addrs slots'
      (im.inode inum).size ((im.inode inum).size + p.length)
      (fun k => p.getD (k - (im.inode inum).size) 0) new)
    (hc : Counted im₁ used) (hsub : blocks im₁.disk slots' ⊆ used) :
    Inode.Fits { im.inode inum with addrs := slots', size := (im.inode inum).size + p.length } := by
  have hfits : (im.inode inum).Fits := dinode_fits _ _
  refine ⟨hfits.type, hfits.major, hfits.minor, hfits.nlink, ?_, fun s => ?_, hfits.atime,
    hfits.mtime⟩
  · by_cases hp : p.length = 0
    · simp only [hp, Nat.add_zero]
      exact hfits.size
    · have hB : BSIZE = 512 := rfl
      have hM : MAXFILE = 2113674 := rfl
      have hin := (hw.inside ((im.inode inum).size + p.length - 1) (by omega) (by omega)).1
      obtain ⟨s, i, hloc, -⟩ := exists_of_blockOf_ne_zero hin
      have hlt := locate_lt hloc
      rw [hM, hB] at hlt
      simp only
      omega
  · simp only
    by_cases hs : slots' s = 0
    · rw [hs]
      exact Nat.two_pow_pos _
    · exact (hc.lt (hsub (slot_mem_blocks hs))).trans (by decide)

/-- A file that is appended to in the store grows inside the image. -/
lemma Appends.of_putLoop (h : Sound im) (hi : inum < NINODES) {off : ℕ} {buf lbuf : Block}
    (hloop : Image.appendLoop p.length (im.inode inum).addrs (im.inode inum).size p buf lbuf im =
      .ok (slots', off, im₁)) (hfit : im₁.freeblock ≤ FSSIZE) (junk : Junk) :
    off = (im.inode inum).size + p.length ∧ ∃ new, Appends im im₁
      (im₁.winode inum { im.inode inum with addrs := slots', size := off } junk) inum p slots'
      new := by
  obtain ⟨hnd, hsub⟩ := h.own hi
  obtain ⟨hput, rfl⟩ := (appendLoop_eq_ok_iff le_rfl h.counted hnd hsub _ _).mp ⟨hloop, hfit⟩
  obtain ⟨new, hw, hc1⟩ := putLoop_spec countStore_lawful rfl h.counted hnd hsub le_rfl hput
  obtain ⟨-, hsub1⟩ := hw.within (countStore_lawful.nodup hc1) hnd hsub
  exact ⟨rfl, new, hw, hc1, appendLoop_grows hloop,
    winode_stores im₁ hc1.len hi (append_fits hw hc1 hsub1) junk⟩

/-- `iappend` appends to a file, if it stays inside the image. -/
lemma iappend_appends (h : Sound im) (hi : inum < NINODES) {junk : Junk}
    (hcall : im.iappend inum p junk = .ok im') (hfit : im'.freeblock ≤ FSSIZE) :
    ∃ im₁ slots' new, Appends im im₁ im' inum p slots' new := by
  unfold Image.iappend at hcall
  simp only [rinode_eq h.counted.len hi] at hcall
  obtain ⟨⟨slots', off, im₁⟩, hloop, hcall⟩ := bind_eq_ok.mp hcall
  simp only [Except.ok.injEq] at hcall
  subst hcall
  obtain ⟨-, new, ha⟩ := Appends.of_putLoop h hi hloop hfit (junk.call 3)
  exact ⟨im₁, slots', new, ha⟩

/-- `iappend` succeeds when the file stays below the maximum and the image has room for what is
missing. -/
lemma iappend_ok (h : Sound im) (hi : inum < NINODES) (junk : Junk)
    (hmax : (im.inode inum).size + p.length ≤ MAXFILE * BSIZE)
    (hroom : im.freeblock + missing im.disk (im.inode inum).addrs
      (blocksFor ((im.inode inum).size + p.length)) ≤ FSSIZE) :
    ∃ im' im₁ slots' new, im.iappend inum p junk = .ok im' ∧
      Appends im im₁ im' inum p slots' new := by
  obtain ⟨hnd, hsub⟩ := h.own hi
  have hlo := h.counted.lo
  obtain ⟨slots', im₁, hput⟩ := putLoop_ok (e := Exit.tooLarge) countStore_lawful rfl h.counted hnd hsub
    p.length (blocksFor_le.mp le_rfl) (blocksFor_le.mpr hmax) (by
      rw [Image.region, List.length_range']
      have : countStore.disk im = im.disk := rfl
      rw [this]
      omega)
  obtain ⟨hloop, hfit⟩ := (appendLoop_eq_ok_iff le_rfl h.counted hnd hsub (junk [1])
    (junk [2])).mpr ⟨hput, rfl⟩
  obtain ⟨-, new, ha⟩ := Appends.of_putLoop h hi hloop hfit (junk.call 3)
  refine ⟨_, im₁, slots', new, ?_, ha⟩
  unfold Image.iappend
  simp only [rinode_eq h.counted.len hi]
  exact bind_eq_ok.mpr ⟨_, hloop, rfl⟩

end Append

end Xv7.Mkfs
