import Xv7.Fs.Content

/-!
# The image that `mkfs` builds

`mkfs` works on an image file, sector by sector, with buffers on its stack that a short read leaves
as they were.  It allocates blocks by counting up `freeblock` and never looks at the size of the
image.  As long as the counter stays inside the image, `iappend` writes to a file like the kernel
does, in a store whose allocator counts.
-/

namespace Xv7.Mkfs

open Fallible

/-- The number of inodes. -/
abbrev NINODES : ℕ := 200

/-- The number of blocks of the free map. -/
abbrev nbitmap : ℕ := FSSIZE / (BSIZE * 8) + 1

/-- The number of inode blocks. -/
abbrev ninodeblocks : ℕ := NINODES / IPB + 1

/-- The number of metadata blocks: boot block, super block, log, inodes and free map. -/
abbrev nmeta : ℕ := 2 + LOGSIZE + ninodeblocks + nbitmap

/-- The super block that `mkfs` writes. -/
abbrev sb : Superblock := mkfsSuperblock

/-- The ways in which `mkfs` stops before the end. -/
inductive Exit where
  /-- "file is too large", with `exit(1)`. -/
  | tooLarge
  /-- `stat` or `open` of a file on the command line fails, with `exit(1)`. -/
  | hostFile
  /-- `assert(used < BSIZE * 8)` in `balloc` fails. -/
  | assertion
  deriving DecidableEq, Repr

/-! ## Sectors -/

/-- The image file with its length in sectors, the two counters, and a record of the numbers of
the inodes written so far. -/
structure Image where
  disk : Disk
  len : ℕ
  freeinode : ℕ
  freeblock : ℕ
  written : List ℕ

/-- What is in the buffers on the stack before they are first read into, by the place of the buffer
in the tree of calls. -/
abbrev Junk : Type := List ℕ → Block

/-- The buffers below call number `k` of a function. -/
def Junk.call (junk : Junk) (k : ℕ) : Junk := fun path => junk (k :: path)

/-- The sector at the 32-bit offset `sec * BSIZE`. -/
def sector (sec : ℕ) : ℕ := sec * BSIZE % 2 ^ 32 / BSIZE

/-- The inode that `ialloc` writes. -/
def blankInode (type : ℕ) : Inode where
  type := type
  major := 0
  minor := 0
  nlink := 1
  size := 0
  addrs := fun _ => 0
  atime := 0
  mtime := 0

namespace Image

/-- `rsect`: a read beyond the end of the file leaves the buffer as it is, with a warning. -/
def rsect (im : Image) (sec : ℕ) (buf : Block) : Block :=
  if sector sec < im.len then im.disk (sector sec) else buf

/-- `wsect`: a write beyond the end makes the file longer. -/
def wsect (im : Image) (sec : ℕ) (buf : Block) : Image :=
  { im with disk := Function.update im.disk (sector sec) buf, len := max im.len (sector sec + 1) }

/-! ## Inodes -/

/-- `rinode`. -/
def rinode (im : Image) (inum : ℕ) (junk : Junk) : Inode :=
  getDinode (im.rsect (sb.iblock inum) (junk [])) (inum % IPB)

/-- `winode`. -/
def winode (im : Image) (inum : ℕ) (ip : Inode) (junk : Junk) : Image :=
  let buf := putDinode (NDIRECT + 3) (im.rsect (sb.iblock inum) (junk [])) (inum % IPB) ip
  { im.wsect (sb.iblock inum) buf with written := inum :: im.written }

/-- `ialloc`: the next inode, with one link. -/
def ialloc (im : Image) (type : ℕ) (junk : Junk) : ℕ × Image :=
  (im.freeinode,
    winode { im with freeinode := im.freeinode + 1 } im.freeinode (blankInode type) junk)

/-! ## Appending to a file -/

/-- An entry of an indirect block, which is read into `lbuf` and written back if it changes. -/
def entry (im : Image) (addr idx : ℕ) (lbuf : Block) : ℕ × Block × Image :=
  let lbuf := im.rsect addr lbuf
  if Bytes.word lbuf idx = 0 then
    let lbuf := Bytes.setWord lbuf idx im.freeblock
    (im.freeblock, lbuf, wsect { im with freeblock := im.freeblock + 1 } addr lbuf)
  else (Bytes.word lbuf idx, lbuf, im)

/-- The indirect blocks on the way to a block of the file. -/
def walk : ℕ → ℕ → ℕ → Block → Image → ℕ × Block × Image
  | 0, addr, _, lbuf, im => (addr, lbuf, im)
  | l + 1, addr, bn, lbuf, im =>
    let (next, lbuf, im) := im.entry addr (bn / NINDIRECT ^ l) lbuf
    walk l next (bn % NINDIRECT ^ l) lbuf im

/-- The slot of block `fbn` of a file and the index below it, by the comparisons of `iappend`. -/
def place (fbn : ℕ) : Option (Fin (NDIRECT + 3) × ℕ) :=
  if MAXFILE ≤ fbn then none
  else if h : fbn < NDIRECT then some (Fin.castAdd 3 ⟨fbn, h⟩, 0)
  else if fbn < NDIRECT + NINDIRECT then some (⟨NDIRECT, ind_lt⟩, fbn - NDIRECT)
  else if fbn < NDIRECT + NINDIRECT + NDINDIRECT then
    some (⟨NDIRECT + 1, dind_lt⟩, fbn - (NDIRECT + NINDIRECT))
  else some (⟨NDIRECT + 2, tind_lt⟩, fbn - (NDIRECT + NINDIRECT + NDINDIRECT))

/-- `if (din.addrs[s] == 0) din.addrs[s] = freeblock++`. -/
def slot (im : Image) (slots : Slots) (s : Fin (NDIRECT + 3)) : Slots × Image :=
  if slots s = 0 then
    (Function.update slots s im.freeblock, { im with freeblock := im.freeblock + 1 })
  else (slots, im)

/-- The block of the disk for block `fbn` of the file, allocated if necessary. -/
def mapBlock (im : Image) (slots : Slots) (fbn : ℕ) (lbuf : Block) :
    Except Exit (ℕ × Slots × Block × Image) :=
  match place fbn with
  | none => .error .tooLarge
  | some (s, i) =>
    let (slots, im) := im.slot slots s
    let (x, lbuf, im) := im.walk (slotLevel s) (slots s) i lbuf
    .ok (x, slots, lbuf, im)

/-- The loop of `iappend`, with the buffers for data and for pointers. -/
def appendLoop : ℕ → Slots → ℕ → List UInt8 → Block → Block → Image →
    Except Exit (Slots × ℕ × Image)
  | 0, slots, off, _, _, _, im => .ok (slots, off, im)
  | fuel + 1, slots, off, p, buf, lbuf, im =>
    if p = [] then .ok (slots, off, im)
    else do
      let fbn := off / BSIZE
      let (x, slots, lbuf, im) ← im.mapBlock slots fbn lbuf
      let n1 := min p.length ((fbn + 1) * BSIZE - off)
      let buf := Bytes.patch (im.rsect x buf) (off - fbn * BSIZE) n1 fun k => p.getD k 0
      appendLoop fuel slots (off + n1) (p.drop n1) buf lbuf (im.wsect x buf)

/-- `iappend`: append bytes to a file. -/
def iappend (im : Image) (inum : ℕ) (p : List UInt8) (junk : Junk) : Except Exit Image := do
  let din := im.rinode inum (junk.call 0)
  let (slots, off, im) ← appendLoop p.length din.addrs din.size p (junk [1]) (junk [2]) im
  .ok (im.winode inum { din with addrs := slots, size := off } (junk.call 3))

end Image

/-! ## The block counter only goes up -/

variable {im im' im1 : Image}

/-- What every part of `iappend` before `winode` keeps. -/
structure Grows (im im' : Image) : Prop where
  freeblock : im.freeblock ≤ im'.freeblock
  freeinode : im'.freeinode = im.freeinode
  written : im'.written = im.written

lemma Grows.refl (im : Image) : Grows im im := ⟨le_rfl, rfl, rfl⟩

lemma Grows.trans (h : Grows im im1) (h' : Grows im1 im') : Grows im im' :=
  ⟨h.freeblock.trans h'.freeblock, h'.freeinode.trans h.freeinode, h'.written.trans h.written⟩

lemma wsect_grows (im : Image) (sec : ℕ) (buf : Block) : Grows im (im.wsect sec buf) :=
  ⟨le_rfl, rfl, rfl⟩

lemma entry_grows (im : Image) (addr idx : ℕ) (lbuf : Block) :
    Grows im (im.entry addr idx lbuf).2.2 := by
  unfold Image.entry
  simp only
  split_ifs
  · exact ⟨Nat.le_succ _, rfl, rfl⟩
  · exact Grows.refl im

lemma walk_grows (l addr bn : ℕ) (lbuf : Block) (im : Image) :
    Grows im (Image.walk l addr bn lbuf im).2.2 := by
  induction l generalizing addr bn lbuf im with
  | zero => exact Grows.refl im
  | succ l ih => exact (entry_grows im addr _ lbuf).trans (ih _ _ _ _)

lemma slot_grows (im : Image) (slots : Slots) (s : Fin (NDIRECT + 3)) :
    Grows im (im.slot slots s).2 := by
  unfold Image.slot
  split_ifs
  · exact ⟨Nat.le_succ _, rfl, rfl⟩
  · exact Grows.refl im

lemma mapBlock_grows {slots slots' : Slots} {fbn x : ℕ} {lbuf lbuf' : Block}
    (h : im.mapBlock slots fbn lbuf = .ok (x, slots', lbuf', im')) : Grows im im' := by
  unfold Image.mapBlock at h
  cases hp : Image.place fbn with
  | none => simp [hp] at h
  | some r =>
    simp only [hp, Except.ok.injEq, Prod.mk.injEq] at h
    obtain ⟨-, -, -, rfl⟩ := h
    exact (slot_grows im slots r.1).trans (walk_grows _ _ _ _ _)

lemma appendLoop_grows {fuel off off' : ℕ} {slots slots' : Slots} {p : List UInt8}
    {buf lbuf : Block}
    (h : Image.appendLoop fuel slots off p buf lbuf im = .ok (slots', off', im')) :
    Grows im im' := by
  induction fuel generalizing slots off p buf lbuf im with
  | zero =>
    simp only [Image.appendLoop, Except.ok.injEq, Prod.mk.injEq] at h
    exact h.2.2 ▸ Grows.refl im
  | succ fuel ih =>
    rw [Image.appendLoop] at h
    split_ifs at h
    · simp only [Except.ok.injEq, Prod.mk.injEq] at h
      exact h.2.2 ▸ Grows.refl im
    · obtain ⟨⟨x, slots1, lbuf1, im1⟩, hm, h⟩ := bind_eq_ok.mp h
      exact (mapBlock_grows hm).trans ((wsect_grows im1 x _).trans (ih h))

/-! ## The store with a counting allocator -/

/-- The image as a store: the next block, as long as it lies inside the image. -/
def countStore : PtrStore ptrs Image Exit where
  disk := Image.disk
  set := fun im b x => { im with disk := Function.update im.disk b x }
  setPtr := Bytes.setWord
  alloc := fun im =>
    if im.freeblock < FSSIZE then
      .ok (im.freeblock, { im with freeblock := im.freeblock + 1 })
    else .error .tooLarge
  blank := fun _ => 0

/-- The blocks in use are those between the metadata and the counter, and the others are empty. -/
structure Counted (im : Image) (used : List ℕ) : Prop where
  lo : nmeta ≤ im.freeblock
  hi : im.freeblock ≤ FSSIZE
  len : im.len = FSSIZE
  used : used.Perm (List.range' nmeta (im.freeblock - nmeta))
  zero : ∀ b, im.freeblock ≤ b → im.disk b = fun _ => 0

lemma Counted.mem_iff {used : List ℕ} (h : Counted im used) {b : ℕ} :
    b ∈ used ↔ nmeta ≤ b ∧ b < im.freeblock := by
  have := h.lo
  rw [h.used.mem_iff, List.mem_range'_1]
  omega

lemma countStore_lawful : countStore.Lawful (fun _ => False) Counted (FSSIZE - nmeta) where
  nodup := fun h => h.used.nodup_iff.mpr List.nodup_range'
  apart := fun _ _ h => h
  disk_set := fun _ _ _ => rfl
  inv_set := fun h ha => ⟨h.lo, h.hi, h.len, h.used, fun b hb => by
    have hlt := (h.mem_iff.mp ha).2
    have hne := Nat.ne_of_gt (hlt.trans_le hb)
    exact (Function.update_of_ne hne _ _).trans (h.zero b hb)⟩
  ptr_setPtr_of_ne := fun hne => Bytes.word_setWord_of_ne hne
  alloc_fresh := fun {im used c im'} h hb => by
    simp only [countStore] at hb
    split_ifs at hb
    simp only [Except.ok.injEq, Prod.mk.injEq] at hb
    obtain ⟨rfl, rfl⟩ := hb
    refine ⟨fun hin => absurd (h.mem_iff.mp hin).2 (Nat.lt_irrefl _), ?_⟩
    exact Nat.ne_of_gt (Nat.lt_of_lt_of_le (by decide : 0 < nmeta) h.lo)
  alloc_inv := fun {im used c im'} h hb => by
    simp only [countStore] at hb
    split_ifs at hb with hlt
    simp only [Except.ok.injEq, Prod.mk.injEq] at hb
    obtain ⟨rfl, rfl⟩ := hb
    refine ⟨h.lo.trans (Nat.le_succ _), hlt, h.len, ?_, fun b hb => h.zero b (Nat.le_of_succ_le hb)⟩
    have hsucc : im.freeblock + 1 - nmeta = im.freeblock - nmeta + 1 := Nat.succ_sub h.lo
    have hlast : nmeta + (im.freeblock - nmeta) = im.freeblock := Nat.add_sub_cancel' h.lo
    rw [hsucc, List.range'_1_concat, hlast]
    exact (h.used.cons _).trans (List.perm_append_singleton _ _).symm
  ptr_blank := Bytes.word_zero
  alloc_blank := fun {im used c im'} h hb => by
    simp only [countStore] at hb
    split_ifs at hb
    simp only [Except.ok.injEq, Prod.mk.injEq] at hb
    obtain ⟨rfl, rfl⟩ := hb
    exact h.zero _ le_rfl
  alloc_frame := fun {im used c im' b} h hb _ _ => by
    simp only [countStore] at hb
    split_ifs at hb
    simp only [Except.ok.injEq, Prod.mk.injEq] at hb
    obtain ⟨rfl, rfl⟩ := hb
    rfl
  alloc_ptr := fun {im used c im' x i} h hb hi => by
    simp only [countStore] at hb
    split_ifs at hb with hlt
    simp only [Except.ok.injEq, Prod.mk.injEq] at hb
    obtain ⟨rfl, rfl⟩ := hb
    refine Bytes.word_setWord_same ?_ (hlt.trans (by decide))
    have h1 : ptrs.fan = 128 := rfl
    have h2 : BSIZE = 512 := rfl
    omega
  alloc_ok := fun {im used} h hroom => by
    have hlen := h.used.length_eq
    rw [List.length_range'] at hlen
    have := h.lo
    exact ⟨_, _, if_pos (by omega)⟩

/-! ## `iappend` in the counting store -/

lemma sector_of_lt {b : ℕ} (h : b < FSSIZE) : sector b = b := by
  have hF : FSSIZE = 10000 := rfl
  have hB : BSIZE = 512 := rfl
  unfold sector
  rw [hB]
  omega

section Simulation

variable {used : List ℕ} {l a i : ℕ}

lemma Counted.lt {b : ℕ} (h : Counted im used) (hb : b ∈ used) : b < FSSIZE :=
  (h.mem_iff.mp hb).2.trans_le h.hi

/-- A block in use is read from the image. -/
lemma Counted.rsect_eq {b : ℕ} (h : Counted im used) (hb : b ∈ used) (buf : Block) :
    im.rsect b buf = im.disk b := by
  rw [Image.rsect, sector_of_lt (h.lt hb), if_pos (h.len.symm ▸ h.lt hb)]

/-- A block of the image is written in place. -/
lemma wsect_eq (im : Image) {b : ℕ} (hb : b < FSSIZE) (hlen : im.len = FSSIZE) (buf : Block) :
    im.wsect b buf = countStore.set im b buf := by
  rw [Image.wsect, sector_of_lt hb, max_eq_left (by omega)]
  rfl

/-- An entry that stays inside the image is that of the store. -/
lemma entry_eq_ok_iff {idx x : ℕ} (h : Counted im used) (ha : a ∈ used) (lbuf : Block) :
    countStore.entry a idx im = .ok (x, im') ↔
      ∃ lbuf', im.entry a idx lbuf = (x, lbuf', im') ∧ im'.freeblock ≤ FSSIZE := by
  have hdisk : countStore.disk im a = im.disk a := rfl
  have hptr : ∀ b, ptrs.ptr b idx = Bytes.word b idx := fun _ => rfl
  unfold PtrStore.entry Image.entry
  simp only [h.rsect_eq ha, hdisk, hptr]
  split_ifs with hnull
  · rw [wsect_eq { im with freeblock := im.freeblock + 1 } (h.lt ha) h.len, bind_eq_ok]
    simp only [countStore]
    constructor
    · rintro ⟨r, hr, heq⟩
      split_ifs at hr with hlt
      simp only [Except.ok.injEq] at hr
      subst hr
      simp only [Except.ok.injEq, Prod.mk.injEq] at heq
      obtain ⟨rfl, rfl⟩ := heq
      exact ⟨_, rfl, hlt⟩
    · rintro ⟨lbuf', heq, hle⟩
      simp only [Prod.mk.injEq] at heq
      obtain ⟨rfl, rfl, rfl⟩ := heq
      exact ⟨_, if_pos hle, rfl⟩
  · simp only [Except.ok.injEq, Prod.mk.injEq]
    constructor
    · rintro ⟨rfl, rfl⟩
      exact ⟨_, ⟨rfl, rfl, rfl⟩, h.hi⟩
    · rintro ⟨lbuf', ⟨rfl, -, rfl⟩, -⟩
      exact ⟨rfl, rfl⟩

/-- A walk that stays inside the image is that of the store. -/
lemma walk_eq_ok_iff {x : ℕ} (ha : a ≠ 0) (h : Counted im used) (hi : i < NINDIRECT ^ l)
    (hnd : (ptrs.tree im.disk l a).Nodup) (hsub : ptrs.tree im.disk l a ⊆ used) (lbuf : Block) :
    countStore.walk l a i im = .ok (x, im') ↔
      ∃ lbuf', Image.walk l a i lbuf im = (x, lbuf', im') ∧ im'.freeblock ≤ FSSIZE := by
  induction l generalizing a i im used lbuf with
  | zero =>
    simp only [PtrStore.walk, Image.walk, Except.ok.injEq, Prod.mk.injEq]
    constructor
    · rintro ⟨rfl, rfl⟩
      exact ⟨_, ⟨rfl, rfl, rfl⟩, h.hi⟩
    · rintro ⟨lbuf', ⟨rfl, -, rfl⟩, -⟩
      exact ⟨rfl, rfl⟩
  | succ l ih =>
    have hself : a ∈ used := hsub (PtrTree.mem_tree_self ha)
    have hdiv : i / ptrs.fan ^ l = i / NINDIRECT ^ l := rfl
    rw [PtrStore.walk, bind_eq_ok, hdiv]
    -- the walk goes on from the state after the entry, on both sides
    have hrest : ∀ {next : ℕ} {im1 : Image} (lbuf1 : Block),
        countStore.entry a (i / NINDIRECT ^ l) im = .ok (next, im1) →
        (countStore.walk l next (i % NINDIRECT ^ l) im1 = .ok (x, im') ↔
          ∃ lbuf', Image.walk l next (i % NINDIRECT ^ l) lbuf1 im1 = (x, lbuf', im') ∧
            im'.freeblock ≤ FSSIZE) := by
      intro next im1 lbuf1 he
      obtain ⟨new, hext, h1, hptr, hne, -⟩ := countStore_lawful.entry_spec ha h hi hnd hsub he
      obtain ⟨hnd1, hsub1⟩ := countStore_lawful.child_within ha hi hnd hsub hext h1 hptr
      exact ih hne h1 (PtrTree.mod_lt_pow (σ := ptrs) hi) hnd1 hsub1 lbuf1
    constructor
    · rintro ⟨⟨next, im1⟩, he, hw⟩
      obtain ⟨lbuf1, he', -⟩ := (entry_eq_ok_iff h hself lbuf).mp he
      rw [Image.walk, he']
      exact (hrest lbuf1 he).mp hw
    · rintro ⟨lbuf', hw, hle⟩
      rw [Image.walk] at hw
      rcases hr : im.entry a (i / NINDIRECT ^ l) lbuf with ⟨next, lbuf1, im1⟩
      rw [hr] at hw
      have hle1 : im1.freeblock ≤ FSSIZE := by
        have hgrow := walk_grows l next (i % NINDIRECT ^ l) lbuf1 im1
        simp only at hw
        rw [hw] at hgrow
        exact hgrow.freeblock.trans hle
      have he := (entry_eq_ok_iff h hself lbuf).mpr ⟨lbuf1, hr, hle1⟩
      exact ⟨_, he, (hrest lbuf1 he).mpr ⟨lbuf', hw, hle⟩⟩

/-- The comparisons of `iappend` and those of `bmap` find the same place. -/
lemma place_eq_locate (fbn : ℕ) : Image.place fbn = locate fbn := by
  refine Option.ext fun r => ?_
  obtain ⟨s, i⟩ := r
  rw [locate_eq_some]
  have hs := slot_cases s
  have h0 : MAXFILE = NDIRECT + NINDIRECT + NDINDIRECT + NTINDIRECT := rfl
  generalize NINDIRECT ^ slotLevel s = m at hs ⊢
  unfold Image.place
  split_ifs
  case pos => simp only [false_iff]; omega
  all_goals simp only [Option.some.injEq, Prod.mk.injEq, Fin.ext_iff, Fin.val_castAdd]; omega

/-- A slot that is filled inside the image is the root of a tree in the store. -/
lemma root_eq_ok_iff {slots : Slots} {s : Fin (NDIRECT + 3)} (h : Counted im used) :
    countStore.root (slots s) im = .ok (a, im') ↔
      im.slot slots s = (Function.update slots s a, im') ∧ im'.freeblock ≤ FSSIZE := by
  unfold PtrStore.root Image.slot
  split_ifs with hs
  · simp only [countStore]
    constructor
    · intro hr
      split_ifs at hr with hlt
      simp only [Except.ok.injEq, Prod.mk.injEq] at hr
      obtain ⟨rfl, rfl⟩ := hr
      exact ⟨rfl, hlt⟩
    · rintro ⟨heq, hle⟩
      simp only [Prod.mk.injEq] at heq
      obtain ⟨heq, rfl⟩ := heq
      obtain rfl : im.freeblock = a := by simpa using congrFun heq s
      exact if_pos hle
  · simp only [Except.ok.injEq, Prod.mk.injEq]
    constructor
    · rintro ⟨rfl, rfl⟩
      exact ⟨⟨(Function.update_eq_self _ _).symm, rfl⟩, h.hi⟩
    · rintro ⟨⟨heq, rfl⟩, -⟩
      exact ⟨by simpa using congrFun heq s, rfl⟩

/-- A block of a file is mapped as in the store, inside the image. -/
lemma mapBlock_eq_ok_iff {slots slots' : Slots} {fbn x : ℕ} (h : Counted im used)
    (hnd : (blocks im.disk slots).Nodup) (hsub : blocks im.disk slots ⊆ used) (lbuf : Block) :
    mapBlock countStore .tooLarge slots fbn im = .ok (x, slots', im') ↔
      ∃ lbuf', im.mapBlock slots fbn lbuf = .ok (x, slots', lbuf', im') ∧
        im'.freeblock ≤ FSSIZE := by
  unfold mapBlock Image.mapBlock
  rw [place_eq_locate]
  cases hloc : locate fbn with
  | none => simp
  | some r =>
    obtain ⟨s, i⟩ := r
    have hi := (locate_eq_some.mp hloc).2
    -- the walk starts from the root of the slot, on both sides
    have hwalk : ∀ {a1 : ℕ} {im1 : Image}, countStore.root (slots s) im = .ok (a1, im1) →
        (countStore.walk (slotLevel s) a1 i im1 = .ok (x, im') ↔
          ∃ lbuf', Image.walk (slotLevel s) a1 i lbuf im1 = (x, lbuf', im') ∧
            im'.freeblock ≤ FSSIZE) := by
      intro a1 im1 hr
      obtain ⟨new, hext, h1, ha1, -⟩ := countStore_lawful.root_spec (σ := ptrs) h hi hr
      obtain ⟨hnd1, hsub1⟩ := hext.within (countStore_lawful.nodup h1) (disjoint_slot hnd s).1
        fun b hb => hsub (tree_subset_blocks s hb)
      exact walk_eq_ok_iff ha1 h1 hi hnd1 hsub1 lbuf
    simp only [PtrStore.reach]
    constructor
    · intro hm
      obtain ⟨⟨leaf, a1, im2⟩, hr, hm⟩ := bind_eq_ok.mp hm
      obtain ⟨⟨a2, im1⟩, hroot, hr⟩ := bind_eq_ok.mp hr
      obtain ⟨⟨leaf', im3⟩, hw, hr⟩ := bind_eq_ok.mp hr
      simp only [Except.ok.injEq, Prod.mk.injEq] at hr hm
      obtain ⟨rfl, rfl, rfl⟩ := hr
      obtain ⟨rfl, rfl, rfl⟩ := hm
      obtain ⟨lbuf', hw', hle⟩ := (hwalk hroot).mp hw
      obtain ⟨hslot, -⟩ := (root_eq_ok_iff h).mp hroot
      refine ⟨lbuf', ?_, hle⟩
      simp only [hslot, Function.update_self, hw']
    · rintro ⟨lbuf', hm, hle⟩
      rcases hslot : im.slot slots s with ⟨slots1, im1⟩
      rcases hw : Image.walk (slotLevel s) (slots1 s) i lbuf im1 with ⟨x', lbuf1, im2⟩
      simp only [hslot, hw, Except.ok.injEq, Prod.mk.injEq] at hm
      obtain ⟨rfl, rfl, rfl, rfl⟩ := hm
      have hle1 : im1.freeblock ≤ FSSIZE := by
        have hgrow := walk_grows (slotLevel s) (slots1 s) i lbuf im1
        rw [hw] at hgrow
        exact hgrow.freeblock.trans hle
      have hupd : slots1 = Function.update slots s (slots1 s) := by
        have : slots1 = (im.slot slots s).1 := by rw [hslot]
        rw [this, Image.slot]
        split_ifs <;> simp
      have hroot : countStore.root (slots s) im = .ok (slots1 s, im1) :=
        (root_eq_ok_iff h).mpr ⟨by rw [hslot, ← hupd], hle1⟩
      refine bind_eq_ok.mpr ⟨(x', slots1 s, im2), bind_eq_ok.mpr ⟨_, hroot, bind_eq_ok.mpr
        ⟨_, (hwalk hroot).mpr ⟨_, hw, hle⟩, rfl⟩⟩, by rw [← hupd]⟩

/-- The data of one round of the loop, as the store writes it. -/
lemma wsect_patch_eq {slots slots' : Slots} {off x : ℕ} {p chunk : List UInt8} (h : Counted im used)
    (hnd : (blocks im.disk slots).Nodup) (hsub : blocks im.disk slots ⊆ used)
    (hm : mapBlock countStore .tooLarge slots (off / BSIZE) im = .ok (x, slots', im'))
    (hchunk : chunk = p.take (min p.length ((off / BSIZE + 1) * BSIZE - off))) (buf : Block) :
    putChunk countStore .tooLarge slots off chunk im = .ok (slots', im'.wsect x
      (Bytes.patch (im'.rsect x buf) (off - off / BSIZE * BSIZE)
        (min p.length ((off / BSIZE + 1) * BSIZE - off)) fun k => p.getD k 0)) := by
  have hB : BSIZE = 512 := rfl
  obtain ⟨new, hext, h', hblk, hne, -⟩ := mapBlock_spec countStore_lawful h hnd hsub hm
  obtain ⟨-, hsub'⟩ := hext.within (countStore_lawful.nodup h') hnd hsub
  have hx : x ∈ new ++ used := hsub' (hblk ▸ blockOf_mem_blocks (hblk.symm ▸ hne))
  have hlen : chunk.length = min p.length ((off / BSIZE + 1) * BSIZE - off) := by
    rw [hchunk, List.length_take]
    omega
  have hoff : off - off / BSIZE * BSIZE = off % BSIZE := by
    rw [hB]
    omega
  rw [wsect_eq im' (h'.lt hx) h'.len, h'.rsect_eq hx, ← hlen, hoff]
  refine bind_eq_ok.mpr ⟨_, hm, ?_⟩
  have hpatch : ∀ b : Block, Bytes.patch b (off % BSIZE) chunk.length (fun k => chunk.getD k 0) =
      Bytes.patch b (off % BSIZE) chunk.length fun k => p.getD k 0 := by
    intro b
    funext k
    unfold Bytes.patch
    split_ifs with hk
    · simp only [List.getD_eq_getElem?_getD]
      rw [hchunk, List.getElem?_take_of_lt (by omega)]
    · rfl
  simp only [hpatch]
  rfl

/-- The loop of `iappend` writes as in the store, inside the image. -/
lemma appendLoop_eq_ok_iff {slots slots' : Slots} {fuel off off' : ℕ} {p : List UInt8}
    (hfuel : p.length ≤ fuel) (h : Counted im used) (hnd : (blocks im.disk slots).Nodup)
    (hsub : blocks im.disk slots ⊆ used) (buf lbuf : Block) :
    Image.appendLoop fuel slots off p buf lbuf im = .ok (slots', off', im') ∧
        im'.freeblock ≤ FSSIZE ↔
      putLoop countStore .tooLarge fuel slots off p im = .ok (slots', im') ∧
        off' = off + p.length := by
  induction fuel generalizing slots off p buf lbuf im used with
  | zero =>
    have hp : p = [] := List.length_eq_zero_iff.mp (Nat.le_zero.mp hfuel)
    subst hp
    simp only [Image.appendLoop, putLoop, Except.ok.injEq, Prod.mk.injEq]
    constructor
    · rintro ⟨⟨rfl, rfl, rfl⟩, -⟩
      exact ⟨⟨rfl, rfl⟩, rfl⟩
    · rintro ⟨⟨rfl, rfl⟩, rfl⟩
      exact ⟨⟨rfl, rfl, rfl⟩, h.hi⟩
  | succ fuel ih =>
    by_cases hp : p = []
    · subst hp
      simp only [Image.appendLoop, putLoop, if_true, Except.ok.injEq, Prod.mk.injEq]
      constructor
      · rintro ⟨⟨rfl, rfl, rfl⟩, -⟩
        exact ⟨⟨rfl, rfl⟩, rfl⟩
      · rintro ⟨⟨rfl, rfl⟩, rfl⟩
        exact ⟨⟨rfl, rfl, rfl⟩, h.hi⟩
    have hB : BSIZE = 512 := rfl
    have hpos : 0 < p.length := List.length_pos_iff.mpr hp
    have hmin : min p.length ((off / BSIZE + 1) * BSIZE - off) =
        min p.length (BSIZE - off % BSIZE) := by
      rw [hB]
      omega
    have hmod : off % BSIZE < BSIZE := Nat.mod_lt _ (by decide)
    rw [Image.appendLoop, putLoop, if_neg hp, if_neg hp]
    -- one round, and the rest from the state after it
    have hround : ∀ {x : ℕ} {slots1 : Slots} {im1 : Image} (lbuf1 : Block),
        mapBlock countStore .tooLarge slots (off / BSIZE) im = .ok (x, slots1, im1) →
        (Image.appendLoop fuel slots1 (off + min p.length ((off / BSIZE + 1) * BSIZE - off))
            (p.drop (min p.length ((off / BSIZE + 1) * BSIZE - off)))
            (Bytes.patch (im1.rsect x buf) (off - off / BSIZE * BSIZE)
              (min p.length ((off / BSIZE + 1) * BSIZE - off)) fun k => p.getD k 0) lbuf1
            (im1.wsect x (Bytes.patch (im1.rsect x buf) (off - off / BSIZE * BSIZE)
              (min p.length ((off / BSIZE + 1) * BSIZE - off)) fun k => p.getD k 0)) =
              .ok (slots', off', im') ∧ im'.freeblock ≤ FSSIZE ↔
          (putChunk countStore .tooLarge slots off
            (p.take (min p.length (BSIZE - off % BSIZE))) im >>= fun r =>
            putLoop countStore .tooLarge fuel r.1 (off + min p.length (BSIZE - off % BSIZE))
              (p.drop (min p.length (BSIZE - off % BSIZE))) r.2) = .ok (slots', im') ∧
            off' = off + p.length) := by
      intro x slots1 im1 lbuf1 hm
      have hchunk := wsect_patch_eq (p := p) h hnd hsub hm rfl buf
      rw [hmin] at hchunk ⊢
      have htake : (p.take (min p.length (BSIZE - off % BSIZE))).length =
          min p.length (BSIZE - off % BSIZE) := by
        rw [List.length_take]
        omega
      obtain ⟨new, hw, h1⟩ := putChunk_spec countStore_lawful rfl h hnd hsub (fun hnil => by
        rw [hnil, List.length_nil] at htake
        omega) (by omega) hchunk
      obtain ⟨hnd1, hsub1⟩ := hw.within (countStore_lawful.nodup h1) hnd hsub
      rw [hchunk, ok_bind]
      refine (ih (by rw [List.length_drop]; omega) h1 hnd1 hsub1 _ lbuf1).trans ?_
      rw [List.length_drop]
      exact and_congr_right fun _ => by omega
    constructor
    · rintro ⟨happ, hle⟩
      obtain ⟨⟨x, slots1, lbuf1, im1⟩, hm, happ⟩ := bind_eq_ok.mp happ
      have hle1 : im1.freeblock ≤ FSSIZE :=
        (appendLoop_grows happ).freeblock.trans hle
      have hm' := (mapBlock_eq_ok_iff h hnd hsub lbuf).mpr ⟨lbuf1, hm, hle1⟩
      exact (hround lbuf1 hm').mp ⟨happ, hle⟩
    · rintro ⟨hput, hoff⟩
      obtain ⟨⟨slots1, im1⟩, hchunk, -⟩ := bind_eq_ok.mp hput
      obtain ⟨⟨x, slots2, im2⟩, hm', -⟩ := bind_eq_ok.mp hchunk
      obtain ⟨lbuf1, hm, -⟩ := (mapBlock_eq_ok_iff h hnd hsub lbuf).mp hm'
      obtain ⟨happ, hle⟩ := (hround lbuf1 hm').mpr ⟨hput, hoff⟩
      exact ⟨bind_eq_ok.mpr ⟨_, hm, happ⟩, hle⟩

end Simulation

end Xv7.Mkfs
