import Xv7.Mkfs.Append

/-!
# `iappend` and the block map of the kernel

Sequences of `ialloc` and `iappend` calls on a freshly formatted image, with any chunks in any
order.  As long as the inodes and the blocks fit the image, `bmap` finds every block of every file,
and the files hold what was appended to them.  When the counter passes the end of the image, the
read of a new indirect block fails and leaves the pointers of the level above in the buffer.
-/

namespace Xv7.Mkfs

open Function (update update_eq_self update_of_ne update_self)
open Fallible

/-! ## The empty image -/

/-- A block of zero bytes. -/
def zeroes : Block := fun _ => 0

/-- The super block as it is on the disk. -/
def superblockBytes : Block :=
  Bytes.setFields zeroes 0 ((List.range 7).map fun i => (4 * i, 4)) fun off =>
    [FSSIZE, FSSIZE - nmeta, NINODES, LOGSIZE, 2, 2 + LOGSIZE, 2 + LOGSIZE + ninodeblocks].getD
      (off / 4) 0

/-- The image file after `open` with `O_TRUNC`. -/
def Image.empty : Image := ⟨fun _ => zeroes, 0, 1, nmeta, []⟩

/-- The image after the first part of `main`: zero blocks and the super block. -/
def format : Image :=
  ((List.range FSSIZE).foldl (fun im i => im.wsect i zeroes) Image.empty).wsect 1 superblockBytes

lemma foldl_wsect_zeroes {n : ℕ} (hn : n ≤ FSSIZE) :
    (List.range n).foldl (fun im i => im.wsect i zeroes) Image.empty =
      { Image.empty with len := n } := by
  induction n with
  | zero => rfl
  | succ n ih =>
    rw [List.range_succ, List.foldl_append, ih (Nat.le_of_succ_le hn)]
    have hmax : max n (n + 1) = n + 1 := by omega
    have hupd : update (fun _ : ℕ => zeroes) n zeroes = fun _ => zeroes :=
      update_eq_self n _
    simp only [List.foldl_cons, List.foldl_nil, Image.wsect, sector_of_lt hn, Image.empty, hupd,
      hmax]

lemma format_eq : format =
    { Image.empty with disk := update (fun _ => zeroes) 1 superblockBytes,
                       len := FSSIZE } := by
  have h1 : sector 1 = 1 := sector_of_lt (by decide)
  rw [format, foldl_wsect_zeroes le_rfl]
  simp only [Image.wsect, h1]
  rfl

lemma format_disk {b : ℕ} (hb : b ≠ 1) : format.disk b = zeroes := by
  rw [format_eq]
  show update (fun _ => zeroes) 1 superblockBytes b = zeroes
  exact update_of_ne hb _ _

lemma format_inode (i : ℕ) : format.inode i = ⟨0, 0, 0, 0, 0, fun _ => 0, 0, 0⟩ := by
  have hb : sb.iblock i ≠ 1 := by
    have h62 : sb.inodestart = 62 := rfl
    rw [Superblock.iblock, h62]
    generalize i / IPB = k
    omega
  rw [Image.inode, dinode, format_disk hb]
  exact getDinode_zero _

lemma format_blocksOf (i : ℕ) : format.blocksOf i = [] := by
  rw [Image.blocksOf, format_inode]
  exact blocks_zero

/-- The empty image shows no files. -/
lemma format_shows : Shows format Files.empty := by
  have hblocks : format.inodeBlocks = [] := by
    rw [Image.inodeBlocks, List.flatMap_eq_nil_iff]
    exact fun i _ => format_blocksOf i
  have hfree : format.freeblock = nmeta := by rw [format_eq]; rfl
  have hzero : ∀ b, 2 ≤ b → format.disk b = fun _ => 0 := fun b hb => format_disk (by omega)
  have h2 : 2 ≤ sb.bmapstart := by decide
  have hnone : ∀ i bn, blockOf format.disk (format.inode i).addrs bn = 0 := by
    intro i bn
    by_contra hne
    have hmem : _ ∈ format.blocksOf i := blockOf_mem_blocks hne
    rw [format_blocksOf] at hmem
    exact absurd hmem List.not_mem_nil
  refine ⟨⟨⟨hfree.ge, ?_, ?_, List.Perm.refl _, fun b hb => hzero b ?_⟩, ?_, ?_, fun i _ bn => ?_,
    fun i _ k _ => if_pos (hnone i _), fun b hb _ => hzero b (h2.trans hb)⟩, ?_, fun i _ => ?_,
    fun i _ => ?_, fun i _ => ?_⟩
  · rw [hfree]
    exact nmeta_lt.le
  · rw [format_eq]
  · rw [hfree] at hb
    exact (h2.trans bmapstart_lt.le).trans hb
  · rw [hblocks]
    exact List.nodup_nil
  · rw [hblocks]
    exact List.nil_subset _
  · rw [hnone, format_inode]
    simp [lt_blocksFor]
  · rw [format_eq]
    rfl
  all_goals
    rw [format_inode]
    rfl

/-! ## Sequences of calls -/

/-- The calls of `mkfs` that change inodes. -/
inductive Call where
  | ialloc (type : UInt16) (junk : Junk)
  | iappend (inum : ℕ) (p : List UInt8) (junk : Junk)

namespace Call

/-- The effect of a call. -/
def run (im : Image) : Call → Except Exit Image
  | ialloc type junk => .ok (im.ialloc type.toNat junk).2
  | iappend inum p junk => im.iappend inum p junk

/-- The bytes that a call appends to a file. -/
def bytesFor (inum : ℕ) : Call → List UInt8
  | ialloc _ _ => []
  | iappend i p _ => if i = inum then p else []

/-- The call is for an inode of the file system, the file stays below the maximum size and the
image has room for the blocks that are missing. -/
def Fits (im : Image) : Call → Prop
  | ialloc _ _ => im.freeinode < NINODES
  | iappend inum p _ => 0 < inum ∧ inum < im.freeinode ∧
      (im.inode inum).size + p.length ≤ MAXFILE * BSIZE ∧
      im.freeblock + missing im.disk (im.inode inum).addrs
        (blocksFor ((im.inode inum).size + p.length)) ≤ FSSIZE

end Call

/-- A step of a sequence of calls. -/
def callStep (im : Image) (c : Call) : Option Image := (c.run im).toOption

lemma callStep_ialloc {im im' : Image} (type : UInt16) {junk : Junk}
    (h : (im.ialloc type.toNat junk).2 = im') : callStep im (.ialloc type junk) = some im' :=
  congrArg some h

lemma callStep_iappend {im im' : Image} {inum : ℕ} {p : List UInt8} {junk : Junk}
    (h : im.iappend inum p junk = .ok im') : callStep im (.iappend inum p junk) = some im' :=
  congrArg Except.toOption h

/-- The kernel finds the bytes in the file: `bmap` finds each of its blocks, and they hold the
bytes. -/
def Agrees (im : Image) (inum : ℕ) (bytes : List UInt8) : Prop :=
  (∀ bn, bn < blocksFor (im.inode inum).size → ∃ b, b ≠ 0 ∧
    bmap sb (im.inode inum).addrs bn im.disk = .ok (b, (im.inode inum).addrs, im.disk)) ∧
  contents im.disk (im.inode inum) = bytes

variable {im im' : Image} {fs : Files}

lemma Sound.agrees (h : Sound im) {inum : ℕ} (hi : inum < NINODES) :
    Agrees im inum (contents im.disk (im.inode inum)) := by
  refine ⟨fun bn hbn => ?_, rfl⟩
  have hne := (h.mapped inum hi bn).mpr hbn
  exact ⟨_, hne, bmap_of_blockOf hne⟩

/-- The files after a sequence of calls. -/
structure Appended (calls : List Call) (im : Image) (fs : Files) : Prop where
  image : Shows im fs
  small : im.freeinode ≤ NINODES
  data : ∀ inum, fs.data inum = calls.flatMap (Call.bytesFor inum)
  fresh : ∀ inum, im.freeinode ≤ inum → fs.data inum = []

/-- A call that fits the image succeeds, and the files show it. -/
lemma Appended.step {calls : List Call} (h : Appended calls im fs) {c : Call} (hc : c.Fits im) :
    ∃ im' fs', callStep im c = some im' ∧ Appended (calls ++ [c]) im' fs' := by
  cases c with
  | ialloc type junk =>
    have hst := ialloc_stores h.image.sound.counted.len hc type.toNat_lt junk
    have hnext : (im.ialloc type.toNat junk).2.freeinode = im.freeinode + 1 := hst.freeinode
    have hdata : ∀ inum, (fs.ialloc type.toNat).data inum = fs.data inum := by
      intro inum
      by_cases hi : inum = fs.next
      · rw [hi]
        exact (update_self _ _ _).trans (h.fresh _ h.image.next.le).symm
      · exact update_of_ne hi _ _
    refine ⟨_, fs.ialloc type.toNat, rfl, ialloc_shows h.image hc type.toNat_lt junk,
      by rw [hnext]; exact hc, fun inum => ?_, fun inum hi => ?_⟩
    · rw [hdata, h.data, List.flatMap_append]
      simp [Call.bytesFor]
    · rw [hdata]
      exact h.fresh inum (by omega)
  | iappend inum p junk =>
    obtain ⟨-, hlt, hmax, hroom⟩ := hc
    have hi : inum < NINODES := hlt.trans_le h.small
    obtain ⟨im', im1, slots', new, hcall, ha⟩ := iappend_ok h.image.sound hi junk hmax hroom
    have hnext : im'.freeinode = im.freeinode := ha.stores.freeinode.trans ha.grows.freeinode
    refine ⟨im', fs.iappend inum p, callStep_iappend hcall,
      ha.shows h.image hi, hnext.le.trans h.small, fun i => ?_, fun i hi' => ?_⟩
    · rw [List.flatMap_append]
      by_cases hne : i = inum
      · subst hne
        simp [Call.bytesFor, h.data]
      · rw [Files.iappend_data_of_ne fs p hne, h.data]
        simp [Call.bytesFor, Ne.symm hne]
    · have hne : i ≠ inum := by omega
      rw [Files.iappend_data_of_ne fs p hne]
      exact h.fresh i (by omega)

/-- After any sequence of calls that fit the image, `bmap` finds the bytes that were appended to
each file, and no two files share a block. -/
theorem agrees_of_calls {calls : List Call} (hcalls : Machine.Meets callStep Call.Fits format calls) :
    ∃ im, Machine.exec callStep format calls = some im ∧
      ∀ inum, 0 < inum → inum < im.freeinode →
        Agrees im inum (calls.flatMap (Call.bytesFor inum)) ∧
        ∀ j, 0 < j → j < im.freeinode → j ≠ inum →
          List.Disjoint (im.blocksOf inum) (im.blocksOf j) := by
  have hinit : ∃ fs, Appended [] format fs := by
    refine ⟨Files.empty, format_shows, ?_, fun _ => rfl, fun _ _ => rfl⟩
    rw [format_shows.next]
    decide
  obtain ⟨im, hrun, fs, h⟩ := Machine.exec_total_of_meets
    (motive := fun calls im => ∃ fs, Appended calls im fs) hinit
    (fun calls im c ⟨fs, h⟩ hc => by
      obtain ⟨im', fs', hstep, h'⟩ := h.step hc
      exact ⟨im', hstep, fs', h'⟩) hcalls
  refine ⟨im, hrun, fun inum _ hi => ⟨?_, fun j _ hj hne b hb hb' => ?_⟩⟩
  · have hi' := hi.trans_le h.small
    rw [← h.data inum, ← h.image.data inum hi']
    exact h.image.sound.agrees hi'
  · have hi' := hi.trans_le h.small
    exact (h.image.sound.disjoint hi').2.2 hb (mem_others (hj.trans_le h.small) hne hb')

/-- A file of three bytes. -/
def threeBytes : List Call := [.ialloc 2 fun _ => zeroes, .iappend 1 [1, 2, 3] fun _ => zeroes]

lemma missing_of_blank {d : Disk} {ip : Inode} (hip : ip.addrs = fun _ => 0) (n : ℕ) :
    missing d ip.addrs n = missing (fun _ => zeroes) (fun _ => 0) n := by
  rw [hip]
  exact missing_null _ _ n

lemma threeBytes_fits : Machine.Meets callStep Call.Fits format threeBytes := by
  have h0 := format_shows
  have hfree0 : format.freeblock = nmeta := by rw [format_eq]; rfl
  generalize format = im0 at h0 hfree0
  have hnext0 : im0.freeinode = 1 := h0.next
  have hst := ialloc_stores h0.sound.counted.len (by rw [hnext0]; decide)
    (show 2 < 2 ^ 16 by decide) fun _ => zeroes
  refine ⟨by rw [Call.Fits, hnext0]; decide, fun im1 him1 => ⟨?_, fun _ _ => trivial⟩⟩
  obtain rfl : (im0.ialloc 2 fun _ => zeroes).2 = im1 := Option.some.inj him1
  generalize (im0.ialloc 2 fun _ => zeroes).2 = im1 at hst
  have hnext1 : im1.freeinode = 2 := by
    rw [hst.freeinode]
    exact congrArg (· + 1) hnext0
  have hfree1 : im1.freeblock = nmeta := hst.freeblock.trans hfree0
  rw [hnext0] at hst
  refine ⟨by decide, by rw [hnext1]; decide, ?_, ?_⟩
  · rw [hst.self]
    decide
  · rw [missing_of_blank (by rw [hst.self]; rfl), hst.self, hfree1]
    decide +kernel

theorem agrees_threeBytes : Machine.Meets callStep Call.Fits format threeBytes ∧
    ∃ im, Machine.exec callStep format threeBytes = some im ∧
      ∀ inum, 0 < inum → inum < im.freeinode →
        Agrees im inum (threeBytes.flatMap (Call.bytesFor inum)) ∧
        ∀ j, 0 < j → j < im.freeinode → j ≠ inum →
          List.Disjoint (im.blocksOf inum) (im.blocksOf j) :=
  ⟨threeBytes_fits, agrees_of_calls threeBytes_fits⟩

/-! ## Beyond the end of the image -/

/-- Bytes that are all one. -/
@[irreducible] def ones (n : ℕ) : List UInt8 := List.replicate n 1

/-- Two files: the first takes 90 blocks, the second fills the image to its last block, up to the
last entry of a singly indirect block; then one more block. -/
def overflowCalls : List Call :=
  [.ialloc 2 fun _ => zeroes, .ialloc 2 fun _ => zeroes,
    .iappend 1 (ones (90 * BSIZE)) fun _ => zeroes,
    .iappend 2 (ones (9738 * BSIZE)) fun _ => zeroes,
    .iappend 2 (ones BSIZE) fun _ => zeroes]

/-- The slot of the doubly indirect block. -/
def dindSlot : Fin (NDIRECT + 3) := ⟨NDIRECT + 1, dind_lt⟩

lemma locate_dind {i : ℕ} (hi : i < NDINDIRECT) :
    locate (NDIRECT + NINDIRECT + i) = some (dindSlot, i) :=
  locate_eq_some.mpr ⟨rfl, hi⟩

/-- The walk to a block of a file whose new indirect block lies beyond the end of the image ends
at the first indirect block of the file. -/
lemma walk_beyond {used : List ℕ} {a : ℕ} (h : Counted im used) (ha : a ∈ used)
    (hfull : im.freeblock = FSSIZE) {j : ℕ} (hj : 0 < j) (hnull : Bytes.word (im.disk a) j = 0)
    (hfirst : Bytes.word (im.disk a) 0 ≠ 0) (lbuf : Block) :
    Image.walk 2 a (j * NINDIRECT) lbuf im = (Bytes.word (im.disk a) 0,
      Bytes.setWord (im.disk a) j FSSIZE, countStore.set { im with freeblock := FSSIZE + 1 } a
        (Bytes.setWord (im.disk a) j FSSIZE)) := by
  have hdiv : j * NINDIRECT / NINDIRECT ^ 1 = j := by
    rw [pow_one]
    exact Nat.mul_div_cancel _ (by decide)
  have hmod : j * NINDIRECT % NINDIRECT ^ 1 = 0 := by
    rw [pow_one]
    exact Nat.mul_mod_left _ _
  have hsec : sector FSSIZE = FSSIZE := by decide
  have hentry : im.entry a j lbuf = (FSSIZE, Bytes.setWord (im.disk a) j FSSIZE,
      countStore.set { im with freeblock := FSSIZE + 1 } a
        (Bytes.setWord (im.disk a) j FSSIZE)) := by
    simp only [Image.entry, h.rsect_eq ha, if_pos hnull, hfull]
    rw [wsect_eq { im with freeblock := FSSIZE + 1 } (h.lt ha) h.len]
  have hword : Bytes.word (Bytes.setWord (im.disk a) j FSSIZE) 0 = Bytes.word (im.disk a) 0 :=
    Bytes.word_setWord_of_ne (by omega)
  -- the read of the new block leaves the pointers of the doubly indirect block in the buffer
  have hread : (countStore.set { im with freeblock := FSSIZE + 1 } a
      (Bytes.setWord (im.disk a) j FSSIZE)).rsect FSSIZE (Bytes.setWord (im.disk a) j FSSIZE) =
      Bytes.setWord (im.disk a) j FSSIZE := by
    have hlen : (countStore.set { im with freeblock := FSSIZE + 1 } a
      (Bytes.setWord (im.disk a) j FSSIZE)).len = FSSIZE := h.len
    rw [Image.rsect, hsec, hlen, if_neg (Nat.lt_irrefl _)]
  simp only [Image.walk, hdiv, hmod, hentry, pow_zero, Nat.zero_div]
  simp only [Image.entry, hread, hword, if_neg hfirst]

/-- One block of data at the beginning of a block of the file. -/
lemma appendLoop_block {slots slots' : Slots} {off x : ℕ} {p : List UInt8} {lbuf lbuf' : Block}
    {im1 : Image} (hp : p.length = BSIZE) (hoff : off % BSIZE = 0)
    (hmap : im.mapBlock slots (off / BSIZE) lbuf = .ok (x, slots', lbuf', im1)) (buf : Block) :
    ∃ buf', Image.appendLoop p.length slots off p buf lbuf im =
      .ok (slots', off + BSIZE, im1.wsect x buf') := by
  have hB : BSIZE = 512 := rfl
  have hpne : p ≠ [] := by
    rintro rfl
    exact absurd hp (by decide)
  have hmin : min p.length ((off / BSIZE + 1) * BSIZE - off) = BSIZE := by
    rw [hp]
    rw [hB] at hoff ⊢
    omega
  have hdrop : p.drop BSIZE = [] := List.drop_eq_nil_of_le hp.le
  refine ⟨Bytes.patch (im1.rsect x buf) (off - off / BSIZE * BSIZE) BSIZE fun k => p.getD k 0, ?_⟩
  rw [show p.length = 511 + 1 from hp, Image.appendLoop, if_neg hpne]
  simp only [hmap, ok_bind, hmin, hdrop]
  rw [Image.appendLoop, if_pos rfl]

/-- The call that takes the new indirect block: the data go to the first indirect block of the
file, and the new block of the file is not mapped. -/
lemma iappend_beyond (h : Sound im) {inum : ℕ} (hi : inum < NINODES) (hfull : im.freeblock = FSSIZE)
    (hsize : (im.inode inum).size = 9738 * BSIZE)
    (hnull : Bytes.word (im.disk ((im.inode inum).addrs dindSlot)) 75 = 0)
    {p : List UInt8} (hp : p.length = BSIZE) (junk : Junk) :
    ∃ im', im.iappend inum p junk = .ok im' ∧ (im'.inode inum).size = 9739 * BSIZE ∧
      blockOf im'.disk (im'.inode inum).addrs 9738 = 0 := by
  have hc := h.counted
  obtain ⟨hnd, hsub⟩ := h.own hi
  generalize hip : im.inode inum = ip at hsize hnull
  rw [Image.blocksOf, hip] at hnd hsub
  generalize haddr : ip.addrs dindSlot = a at hnull
  have hloc : locate 9738 = some (dindSlot, 75 * NINDIRECT) :=
    locate_dind (i := 75 * NINDIRECT) (by decide)
  -- the doubly indirect block and its first pointer are there
  have hleaf : ptrs.leaf im.disk 2 a 0 ≠ 0 := by
    have hne := (h.mapped inum hi 138).mpr (lt_blocksFor.mpr (by rw [hip, hsize]; decide))
    have hloc0 : locate 138 = some (dindSlot, 0) := locate_dind (i := 0) (by decide)
    rwa [blockOf_of_locate hloc0, hip, haddr] at hne
  have ha : a ≠ 0 := fun ha => hleaf (by rw [ha, PtrTree.leaf_null])
  have hfirst : Bytes.word (im.disk a) 0 ≠ 0 := fun h0 => hleaf (by
    rw [PtrTree.leaf_succ ha]
    exact (congrArg (ptrs.leaf im.disk 1 · _) h0).trans PtrTree.leaf_null)
  have htree : ptrs.tree im.disk 2 a ⊆ blocks im.disk ip.addrs := by
    have : ptrs.tree im.disk (slotLevel dindSlot) (ip.addrs dindSlot) ⊆ blocks im.disk ip.addrs :=
      tree_subset_blocks dindSlot
    rwa [haddr] at this
  have hmem : a ∈ im.region := hsub (htree (PtrTree.mem_tree_self ha))
  generalize hx : Bytes.word (im.disk a) 0 = x at hfirst
  have hxptr : ptrs.ptr (im.disk a) 0 = x := hx
  have hmemx : x ∈ im.region := by
    have hchild := PtrTree.tree_child_subset (σ := ptrs) (d := im.disk) (l := 1) ha
      (show 0 < ptrs.fan by decide)
    rw [hxptr] at hchild
    exact hsub (htree (hchild (PtrTree.mem_tree_self hfirst)))
  have hax : a ≠ x := by
    have hnd2 : (ptrs.tree im.disk 2 a).Nodup := by
      have := (disjoint_slot hnd dindSlot).1
      rwa [haddr] at this
    obtain ⟨-, hroot, -⟩ := PtrTree.disjoint_child ha (show 0 < ptrs.fan by decide) hnd2
    rw [hxptr] at hroot
    rintro rfl
    exact hroot (PtrTree.mem_tree_self ha)
  have hwalk := walk_beyond hc hmem hfull (show 0 < 75 by decide) hnull (hx.symm ▸ hfirst)
  rw [hx] at hwalk
  generalize hlbuf : Bytes.setWord (im.disk a) 75 FSSIZE = lbuf1 at hwalk
  generalize him1 : countStore.set { im with freeblock := FSSIZE + 1 } a lbuf1 = im1 at hwalk
  have hmap : ∀ lbuf, im.mapBlock ip.addrs 9738 lbuf = .ok (x, ip.addrs, lbuf1, im1) := by
    intro lbuf
    have hslot : im.slot ip.addrs dindSlot = (ip.addrs, im) := if_neg (haddr.symm ▸ ha)
    have hlevel : slotLevel dindSlot = 2 := rfl
    simp only [Image.mapBlock, place_eq_locate, hloc, hslot, hlevel, haddr, hwalk]
  obtain ⟨buf', hloop⟩ := appendLoop_block hp (show ip.size % BSIZE = 0 by rw [hsize]; decide)
    (by rw [hsize, Nat.mul_div_cancel _ (show 0 < BSIZE by decide)]; exact hmap (junk [2])) (junk [1])
  -- what is left of the image
  have hc1 : im1.wsect x buf' = countStore.set im1 x buf' := by
    refine wsect_eq im1 (hc.lt hmemx) ?_ buf'
    rw [← him1]
    exact hc.len
  rw [hc1, hsize] at hloop
  generalize him2 : countStore.set im1 x buf' = im2 at hloop
  have hdisk2 : ∀ b, im2.disk b =
      update (update im.disk a lbuf1) x buf' b := fun b => by
    rw [← him2, ← him1]
    rfl
  have hlen2 : im2.len = FSSIZE := by
    rw [← him2, ← him1]
    exact hc.len
  have hfits : ip.Fits := hip ▸ dinode_fits _ _
  have hfits' : Inode.Fits { ip with size := 9738 * BSIZE + BSIZE } :=
    { hfits with size := (by decide : 9738 * BSIZE + BSIZE < 2 ^ 32) }
  have hst := winode_stores im2 hlen2 hi hfits' (junk.call 3)
  generalize him' : im2.winode inum { ip with size := 9738 * BSIZE + BSIZE } (junk.call 3) = im'
    at hst
  refine ⟨im', ?_, ?_, ?_⟩
  · unfold Image.iappend
    simp only [rinode_eq hc.len hi, hip, hsize]
    exact bind_eq_ok.mpr ⟨_, hloop, congrArg Except.ok him'⟩
  · exact (congrArg Inode.size hst.self).trans (by decide : 9738 * BSIZE + BSIZE = 9739 * BSIZE)
  · -- the pointer to the new block is there, and the block is empty
    have hhigh : ∀ b, nmeta ≤ b → im'.disk b = im2.disk b := fun b hb =>
      hst.disk b (bmapstart_lt.le.trans hb)
    have hxF : x ≠ FSSIZE := Nat.ne_of_lt (hc.lt hmemx)
    have haF : a ≠ FSSIZE := Nat.ne_of_lt (hc.lt hmem)
    have hdisk_a : im2.disk a = lbuf1 := by
      rw [hdisk2, update_of_ne hax, update_self]
    have hdisk_F : im2.disk FSSIZE = fun _ => 0 := by
      rw [hdisk2, update_of_ne hxF.symm, update_of_ne haF.symm]
      exact hc.zero FSSIZE hfull.le
    rw [hst.self, blockOf_of_locate hloc]
    have hptr : ptrs.ptr (im'.disk a) 75 = FSSIZE := by
      rw [hhigh a (hc.le hmem), hdisk_a, ← hlbuf]
      exact Bytes.word_setWord_same (by decide) (by decide)
    have hempty : ptrs.ptr (im'.disk FSSIZE) (0 / ptrs.fan ^ 0) = 0 := by
      rw [hhigh FSSIZE nmeta_lt.le, hdisk_F]
      exact Bytes.word_zero _
    calc ptrs.leaf im'.disk 2 (ip.addrs dindSlot) (75 * NINDIRECT)
        = ptrs.leaf im'.disk 2 a (75 * ptrs.fan ^ 1 + 0) := by rw [haddr]; rfl
      _ = ptrs.leaf im'.disk 1 FSSIZE 0 := by rw [PtrTree.leaf_mul_add ha (by decide), hptr]
      _ = 0 := by rw [PtrTree.leaf_succ (by decide), hempty, PtrTree.leaf_null]

/-- In a file that ends below the doubly indirect block, what is missing for one more block is
missing there. -/
lemma missing_succ_eq_need {d : Disk} {slots : Slots} {m : ℕ} (hlo : NDIRECT + NINDIRECT ≤ m)
    (hhi : m < NDIRECT + NINDIRECT + NDINDIRECT) (h : ∀ bn, bn < m → blockOf d slots bn ≠ 0) :
    missing d slots (m + 1) =
      ptrs.need d 2 (slots dindSlot) (m + 1 - (NDIRECT + NINDIRECT)) := by
  unfold missing
  rw [Finset.sum_eq_single dindSlot]
  · have hmin : min (m + 1 - slotBase dindSlot) (NINDIRECT ^ slotLevel dindSlot) =
        m + 1 - (NDIRECT + NINDIRECT) := min_eq_left (by
      have h1 : slotBase dindSlot = NDIRECT + NINDIRECT := rfl
      have h2 : NINDIRECT ^ slotLevel dindSlot = NDINDIRECT := rfl
      omega)
    rw [hmin]
    rfl
  · intro s _ hs
    refine PtrTree.need_eq_zero (min_le_right _ _) fun i hi => ?_
    have hpow : i < NINDIRECT ^ slotLevel s := hi.trans_le (min_le_right _ _)
    have hloc : locate (slotBase s + i) = some (s, i) := locate_eq_some.mpr ⟨rfl, hpow⟩
    have hlt : slotBase s + i < m := by
      have hcases := slot_cases s
      have hs' : s.val ≠ NDIRECT + 1 := fun heq => hs (Fin.ext heq)
      omega
    have hne := h _ hlt
    rwa [blockOf_of_locate hloc] at hne
  · exact fun hnot => absurd (Finset.mem_univ _) hnot

/-- The blocks that an empty file needs. -/
lemma missing_blank :
    missing (fun _ => zeroes) (fun _ => 0) 90 = 91 ∧
      missing (fun _ => zeroes) (fun _ => 0) 9738 = 9815 ∧
      missing (fun _ => zeroes) (fun _ => 0) 9739 = 9817 := by
  decide +kernel

/-- A block of data appended to an empty file of a sound image, with the block count. -/
lemma iappend_blank (h : Sound im) {inum : ℕ} (hi : inum < NINODES)
    (hsize : (im.inode inum).size = 0) (haddrs : (im.inode inum).addrs = fun _ => 0) {n : ℕ}
    (hmax : n ≤ MAXFILE)
    (hroom : im.freeblock + missing (fun _ => zeroes) (fun _ => 0) n ≤ FSSIZE) (junk : Junk) :
    ∃ im', im.iappend inum (ones (n * BSIZE)) junk = .ok im' ∧ Sound im' ∧ Spares im im' inum ∧
      (im'.inode inum).size = n * BSIZE ∧
      im'.freeblock = im.freeblock + missing (fun _ => zeroes) (fun _ => 0) n ∧
      ∀ m, n ≤ m → missing im'.disk (im'.inode inum).addrs m + im'.freeblock =
        missing (fun _ => zeroes) (fun _ => 0) m + im.freeblock := by
  have hlen : (im.inode inum).size + (ones (n * BSIZE)).length = n * BSIZE := by
    rw [hsize, ones, List.length_replicate, Nat.zero_add]
  have hblocks : blocksFor (n * BSIZE) = n := by
    have hB : BSIZE = 512 := rfl
    rw [blocksFor, hB]
    omega
  obtain ⟨im', im1, slots', new, hcall, ha⟩ := iappend_ok h hi junk
    (by rw [hlen]; exact Nat.mul_le_mul_right _ hmax)
    (by rw [hlen, hblocks, missing_of_blank haddrs]; exact hroom)
  have hsound := ha.sound h hi
  have hsize' : (im'.inode inum).size = n * BSIZE := by
    rw [ha.stores.self]
    exact hlen
  have hneed : ∀ m, n ≤ m → missing im'.disk (im'.inode inum).addrs m + im'.freeblock =
      missing (fun _ => zeroes) (fun _ => 0) m + im.freeblock := fun m hm => by
    rw [ha.need h hi (by rw [hlen]; exact Nat.mul_le_mul_right _ hm), missing_of_blank haddrs]
  refine ⟨im', hcall, hsound, ha.spares h hi, hsize', ?_, hneed⟩
  have hzero : missing im'.disk (im'.inode inum).addrs n = 0 := missing_eq_zero fun bn hbn =>
    (hsound.mapped inum hi bn).mpr (by rw [hsize', hblocks]; exact hbn)
  have := hneed n le_rfl
  omega

/-- The bytes that were appended are not all found: the last block is not mapped. -/
theorem not_agrees_overflowCalls :
    ∃ im, Machine.exec callStep format overflowCalls = some im ∧
      ¬ Agrees im 2 (overflowCalls.flatMap (Call.bytesFor 2)) := by
  obtain ⟨hm90, hm9738, hm9739⟩ := missing_blank
  have h0 := format_shows
  have hfree0 : format.freeblock = nmeta := by rw [format_eq]; rfl
  generalize format = im0 at h0 hfree0
  have hnext0 : im0.freeinode = 1 := h0.next
  -- two empty files
  have h1 := ialloc_shows h0 (by rw [hnext0]; decide) (show 2 < 2 ^ 16 by decide) fun _ => zeroes
  have hst1 := ialloc_stores h0.sound.counted.len (by rw [hnext0]; decide)
    (show 2 < 2 ^ 16 by decide) fun _ => zeroes
  rw [hnext0] at hst1
  generalize him1 : (im0.ialloc 2 fun _ => zeroes).2 = im1 at h1 hst1
  have hnext1 : im1.freeinode = 2 := by rw [h1.next]; rfl
  have h2 := ialloc_shows h1 (by rw [hnext1]; decide) (show 2 < 2 ^ 16 by decide) fun _ => zeroes
  have hst2 := ialloc_stores h1.sound.counted.len (by rw [hnext1]; decide)
    (show 2 < 2 ^ 16 by decide) fun _ => zeroes
  rw [hnext1] at hst2
  generalize him2 : (im1.ialloc 2 fun _ => zeroes).2 = im2 at h2 hst2
  have hfree2 : im2.freeblock = nmeta := hst2.freeblock.trans (hst1.freeblock.trans hfree0)
  have hino1 : im2.inode 1 = blankInode 2 := (hst2.inode 1 (by decide)).trans hst1.self
  -- the first file
  obtain ⟨im3, hcall3, h3, hspares3, -, hfree3, -⟩ := iappend_blank h2.sound
    (show 1 < NINODES by decide) (by rw [hino1]; rfl) (by rw [hino1]; rfl)
    (show 90 ≤ MAXFILE by decide) (by rw [hm90, hfree2]; decide) fun _ => zeroes
  have hino2 : im3.inode 2 = blankInode 2 :=
    (hspares3.inode 2 (by decide) (by decide)).trans hst2.self
  rw [hm90, hfree2] at hfree3
  -- the second file fills the image
  obtain ⟨im4, hcall4, h4, -, hsize4, hfree4, hneed4⟩ := iappend_blank h3
    (show 2 < NINODES by decide) (by rw [hino2]; rfl) (by rw [hino2]; rfl)
    (show 9738 ≤ MAXFILE by decide) (by rw [hm9738, hfree3]; decide) fun _ => zeroes
  rw [hm9738, hfree3] at hfree4
  have hneed : missing im4.disk (im4.inode 2).addrs (9738 + 1) = 2 := by
    have hn : nmeta = 94 := rfl
    have := hneed4 9739 (by decide)
    rw [hm9739, hfree3, hfree4, hn] at this
    show missing im4.disk (im4.inode 2).addrs 9739 = 2
    omega
  have hmapped : ∀ bn, bn < 9738 → blockOf im4.disk (im4.inode 2).addrs bn ≠ 0 := fun bn hbn =>
    (h4.mapped 2 (by decide) bn).mpr (lt_blocksFor.mpr (by
      rw [hsize4]
      exact Nat.mul_lt_mul_of_pos_right hbn (by decide)))
  rw [missing_succ_eq_need (by decide) (by decide) hmapped] at hneed
  have hleaf : ∀ i, i < 75 * ptrs.fan ^ 1 →
      ptrs.leaf im4.disk 2 ((im4.inode 2).addrs dindSlot) i ≠ 0 := by
    intro i hi
    have hi' : i < 9600 := hi
    have h138 : NDIRECT + NINDIRECT = 138 := rfl
    have hne := hmapped (NDIRECT + NINDIRECT + i) (by rw [h138]; omega)
    rwa [blockOf_of_locate (locate_dind (hi'.trans (by decide)))] at hne
  have ha : (im4.inode 2).addrs dindSlot ≠ 0 := fun ha =>
    hleaf 0 (by decide) (by rw [ha, PtrTree.leaf_null])
  have hnull := PtrTree.ptr_eq_zero_of_need ha (by decide) hleaf hneed
  obtain ⟨im5, hcall5, hsize5, hhole⟩ := iappend_beyond h4 (by decide) hfree4 hsize4 hnull
    (p := ones BSIZE) (by simp [ones]) fun _ => zeroes
  refine ⟨im5, ?_, fun hagree => ?_⟩
  · rw [overflowCalls, Machine.exec_cons, callStep_ialloc 2 him1, Option.bind_some,
      Machine.exec_cons, callStep_ialloc 2 him2, Option.bind_some,
      Machine.exec_cons, callStep_iappend hcall3, Option.bind_some,
      Machine.exec_cons, callStep_iappend hcall4, Option.bind_some,
      Machine.exec_cons, callStep_iappend hcall5, Option.bind_some, Machine.exec_nil]
  · have hbytes : overflowCalls.flatMap (Call.bytesFor 2) = ones (9738 * BSIZE) ++ ones BSIZE := by
      simp [overflowCalls, Call.bytesFor]
    have hlen : ∀ n, (ones n).length = n := fun n => by rw [ones, List.length_replicate]
    have hone : ∀ b ∈ ones BSIZE, b = 1 := fun b hb => by
      rw [ones] at hb
      exact List.eq_of_mem_replicate hb
    have hlt : 9738 * BSIZE < (contents im5.disk (im5.inode 2)).length := by
      rw [length_contents, hsize5]
      decide
    have hzero : (contents im5.disk (im5.inode 2)).get ⟨9738 * BSIZE, hlt⟩ = 0 := by
      simp only [contents, List.get_eq_getElem, List.getElem_map, List.getElem_range]
      refine if_pos ?_
      rw [Nat.mul_div_cancel _ (by decide)]
      exact hhole
    have hmem : (contents im5.disk (im5.inode 2)).get ⟨9738 * BSIZE, hlt⟩ ∈ ones BSIZE := by
      simp only [hagree.2, hbytes, List.get_eq_getElem]
      rw [List.getElem_append_right (by rw [hlen])]
      exact List.getElem_mem _
    rw [hzero] at hmem
    exact absurd (hone 0 hmem) (by decide)

end Xv7.Mkfs
