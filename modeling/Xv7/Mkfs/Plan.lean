import Xv7.Mkfs.Main

/-!
# The plan of an image

`plan` does to the abstract table of files what `main` does to the image.  It stops where an inode
number outside the table of inodes would be used, and where a check on an entry refuses it.  An
image shows what is planned.
-/

namespace Xv7.Mkfs

open Fallible

/-! ## The plan of an image -/

/-- Why a list of files cannot be planned. -/
inductive Fault where
  /-- An inode outside the table of inodes would be written. -/
  | write
  /-- An inode outside the table of inodes would be read as a directory. -/
  | read
  /-- The check of an entry refuses it. -/
  | refused
  deriving DecidableEq, Repr

/-- Checks on the entries of directories: before one is looked up, and before one is added. -/
structure Checks where
  look : Files → ℕ → List UInt8 → Bool
  link : Files → ℕ → List UInt8 → Bool

/-- No checks. -/
def Checks.none : Checks := ⟨fun _ _ _ => true, fun _ _ _ => true⟩

namespace Files

/-- The entry that `dirlookup` finds in the bytes of a directory, or zero. -/
def lookup (fs : Files) (dir : ℕ) (name : List UInt8) : ℕ :=
  ((List.range (NDIRECT * (BSIZE / DIRENTSIZE))).findSome? fun j =>
    matchEntry name (getDirent (fun k => (fs.data dir).getD k 0) (DIRENTSIZE * j))).getD 0

/-- `dirlookup`, in a table of `NINODES` inodes. -/
def tryLookup (c : Checks) (fs : Files) (dir : ℕ) (name : List UInt8) : Except Fault ℕ :=
  if NINODES ≤ dir then .error .read
  else if c.look fs dir name then .ok (fs.lookup dir name)
  else .error .refused

/-- `ialloc`, in a table of `NINODES` inodes. -/
def tryAlloc (fs : Files) (type : ℕ) : Except Fault (ℕ × Files) :=
  if fs.next < NINODES then .ok (fs.next, fs.ialloc type) else .error .write

/-- `iappend`, in a table of `NINODES` inodes. -/
def tryAppend (fs : Files) (inum : ℕ) (p : List UInt8) : Except Fault Files :=
  if inum < NINODES then .ok (fs.iappend inum p) else .error .write

/-- Add an entry to a directory. -/
def tryLink (c : Checks) (fs : Files) (dir inum : ℕ) (name : List UInt8) : Except Fault Files :=
  if c.link fs dir name then fs.tryAppend dir (entryBytes inum name) else .error .refused

/-- Make a directory. -/
def mkdir (c : Checks) (fs : Files) (parent : ℕ) (name : List UInt8) :
    Except Fault (ℕ × Files) := do
  let (inum, fs) ← fs.tryAlloc T_DIR
  let fs ← fs.tryLink c parent inum name
  let fs ← fs.tryAppend inum (entryBytes inum dot)
  let fs ← fs.tryAppend inum (entryBytes parent dotdot)
  .ok (inum, fs)

/-- `ensure_path`. -/
def ensurePath (c : Checks) (fs : Files) (parent : ℕ) :
    List (List UInt8) → Except Fault (ℕ × Files)
  | [] => .ok (parent, fs)
  | tok :: toks => do
    let found ← fs.tryLookup c parent tok
    if found = 0 then do
      let (inum, fs) ← fs.mkdir c parent tok
      fs.ensurePath c inum toks
    else fs.ensurePath c found toks

/-- The loop that copies a file. -/
def copyReads (fs : Files) (inum : ℕ) : List (List UInt8) → Except Fault Files
  | [] => .ok fs
  | p :: reads => do
    let fs ← fs.tryAppend inum p
    fs.copyReads inum reads

/-- Make a file. -/
def mkfile (c : Checks) (fs : Files) (parent : ℕ) (name : List UInt8)
    (reads : List (List UInt8)) : Except Fault Files := do
  let (inum, fs) ← fs.tryAlloc T_FILE
  let fs ← fs.tryLink c parent inum name
  fs.copyReads inum reads

/-- One argument. -/
def addArg (c : Checks) (fs : Files) (arg : Arg) : Except Fault Files := do
  let path := imgpath arg.hostpath
  let (parent, fs) ← fs.ensurePath c ROOTINO (parents path)
  match arg.file with
  | .regular reads => fs.mkfile c parent (basename path) reads
  | _ => .ok fs

/-- The arguments in order. -/
def addArgs (c : Checks) (fs : Files) : List Arg → Except Fault Files
  | [] => .ok fs
  | arg :: args => do
    let fs ← fs.addArg c arg
    fs.addArgs c args

/-- The files with the root directory only. -/
def root : Files :=
  ((empty.ialloc T_DIR).iappend ROOTINO (entryBytes ROOTINO dot)).iappend ROOTINO
    (entryBytes ROOTINO dotdot)

end Files

/-- The files that a command line asks for. -/
def plan (c : Checks) (args : List Arg) : Except Fault Files := Files.root.addArgs c args

/-! ## A plan without checks -/

section NoChecks

lemma tryAlloc_failsWithin (fs : Files) (type : ℕ) :
    FailsWithin (· ≠ .refused) (fs.tryAlloc type) := by
  unfold Files.tryAlloc
  split_ifs
  exacts [.ok _, .error (by decide)]

lemma tryAppend_failsWithin (fs : Files) (inum : ℕ) (p : List UInt8) :
    FailsWithin (· ≠ .refused) (fs.tryAppend inum p) := by
  unfold Files.tryAppend
  split_ifs
  exacts [.ok _, .error (by decide)]

lemma ensurePath_none (fs : Files) (parent : ℕ) (toks : List (List UInt8)) :
    FailsWithin (· ≠ .refused) (fs.ensurePath .none parent toks) := by
  induction toks generalizing fs parent with
  | nil => exact .ok _
  | cons tok toks ih =>
    have hlook : FailsWithin (· ≠ .refused) (fs.tryLookup .none parent tok) := by
      simp only [Files.tryLookup, Checks.none, if_true]
      split_ifs
      exacts [.error (by decide), .ok _]
    rw [Files.ensurePath]
    refine hlook.bind fun found _ => ?_
    split_ifs
    · refine FailsWithin.bind ?_ fun r _ => ih r.2 r.1
      refine (tryAlloc_failsWithin _ _).bind fun r _ => ?_
      refine (tryAppend_failsWithin _ _ _).bind fun fs1 _ => ?_
      refine (tryAppend_failsWithin _ _ _).bind fun fs2 _ => ?_
      exact (tryAppend_failsWithin _ _ _).bind fun fs3 _ => .ok _
    · exact ih fs found

lemma copyReads_failsWithin (fs : Files) (inum : ℕ) (reads : List (List UInt8)) :
    FailsWithin (· ≠ .refused) (fs.copyReads inum reads) := by
  induction reads generalizing fs with
  | nil => exact .ok _
  | cons p reads ih => exact (tryAppend_failsWithin _ _ _).bind fun fs1 _ => ih fs1

/-- Without checks no command line is refused. -/
lemma plan_none_ne_refused (args : List Arg) : plan .none args ≠ .error .refused := by
  have hargs : ∀ fs : Files, FailsWithin (· ≠ .refused) (fs.addArgs .none args) := by
    induction args with
    | nil => exact fun fs => .ok _
    | cons arg args ih =>
      refine fun fs => FailsWithin.bind ?_ fun fs1 _ => ih fs1
      refine (ensurePath_none _ _ _).bind fun r _ => ?_
      obtain ⟨hostpath, file⟩ := arg
      cases file with
      | regular reads =>
        refine (tryAlloc_failsWithin _ _).bind fun r _ => ?_
        refine (tryAppend_failsWithin _ _ _).bind fun fs2 _ => ?_
        exact copyReads_failsWithin _ _ _
      | _ => exact .ok _
  exact fun h => hargs _ _ h rfl

end NoChecks

/-! ## Looking up an entry -/

variable {im im' im1 : Image} {fs fs' : Files} {c : Checks}

lemma findSome?_range_mul {α : Type} (f : ℕ → Option α) (n m : ℕ) :
    (List.range (n * m)).findSome? f =
      (List.range n).findSome? fun i => (List.range m).findSome? fun j => f (i * m + j) := by
  induction n with
  | zero => simp
  | succ n ih =>
    rw [Nat.succ_mul, List.range_add, List.findSome?_append, ih, List.range_succ,
      List.findSome?_append, List.findSome?_map]
    simp [Function.comp_def]

lemma findSome?_congr {α β : Type} {f g : α → Option β} {l : List α} (h : ∀ a ∈ l, f a = g a) :
    l.findSome? f = l.findSome? g := by
  induction l with
  | nil => rfl
  | cons a l ih =>
    rw [List.findSome?_cons, List.findSome?_cons, h a List.mem_cons_self,
      ih fun b hb => h b (List.mem_cons_of_mem _ hb)]

/-- The loop of `dirlookup`, when its blocks lie inside the image. -/
lemma lookupLoop_eq (hlen : im.len = FSSIZE) (name : List UInt8) {addrs : List ℕ}
    (haddrs : ∀ a ∈ addrs, a < FSSIZE) (buf : Block) : im.lookupLoop name addrs buf =
      (addrs.findSome? fun a =>
        if a = 0 then none else Image.findEntry (im.disk a) name).getD 0 := by
  induction addrs generalizing buf with
  | nil => rfl
  | cons a addrs ih =>
    have ha := haddrs a List.mem_cons_self
    have hread : ∀ buf, im.rsect a buf = im.disk a := fun buf => by
      rw [Image.rsect, sector_of_lt ha, if_pos (hlen.symm ▸ ha)]
    have ih := ih fun b hb => haddrs b (List.mem_cons_of_mem _ hb)
    rw [Image.lookupLoop, List.findSome?_cons]
    split_ifs
    · exact ih buf
    · simp only [hread]
      cases Image.findEntry (im.disk a) name with
      | none => exact ih _
      | some inum => rfl

lemma matchEntry_zero (name : List UInt8) {f : ℕ → UInt8} {off : ℕ}
    (hf : ∀ k, k < DIRENTSIZE → f (off + k) = 0) : matchEntry name (getDirent f off) = none := by
  have hde : getDirent f off = getDirent (fun _ => 0) off := getDirent_congr hf
  rw [hde, matchEntry, if_neg]
  rintro ⟨h, -⟩
  exact h (by simp [getDirent, Bytes.leNat])

/-- In a sound image the contents of a file are its bytes, with zeroes after its end. -/
lemma Shows.getD_data (h : Shows im fs) {i : ℕ} (hi : i < NINODES) (k : ℕ) :
    (fs.data i).getD k 0 = fileByte im.disk (im.inode i).addrs k := by
  rw [← h.data i hi, contents]
  by_cases hk : k < (im.inode i).size
  · simp [hk]
  · rw [h.sound.tail i hi k (Nat.le_of_not_lt hk)]
    simp [hk]

/-- One block of a directory, as `dirlookup` reads it. -/
lemma Shows.findEntry_eq (h : Shows im fs) {dir : ℕ} (hd : dir < NINODES) (name : List UInt8)
    (i : Fin NDIRECT) :
    (if (im.inode dir).addrs (i.castAdd 3) = 0 then none
      else Image.findEntry (im.disk ((im.inode dir).addrs (i.castAdd 3))) name) =
    (List.range (BSIZE / DIRENTSIZE)).findSome? fun j => matchEntry name
      (getDirent (fun k => (fs.data dir).getD k 0) (DIRENTSIZE * (i * (BSIZE / DIRENTSIZE) + j))) := by
  have hB : BSIZE = 512 := rfl
  have hE : DIRENTSIZE = 16 := rfl
  have hQ : BSIZE / DIRENTSIZE = 32 := rfl
  have hbyte : ∀ j, j < BSIZE / DIRENTSIZE → ∀ k, k < DIRENTSIZE →
      (fs.data dir).getD (DIRENTSIZE * (i * (BSIZE / DIRENTSIZE) + j) + k) 0 =
        if (im.inode dir).addrs (i.castAdd 3) = 0 then 0
        else Bytes.rd (im.disk ((im.inode dir).addrs (i.castAdd 3))) (DIRENTSIZE * j + k) := by
    intro j hj k hk
    have hdiv : (DIRENTSIZE * (i * (BSIZE / DIRENTSIZE) + j) + k) / BSIZE = i := by
      rw [hQ, hE, hB]
      omega
    have hmod : (DIRENTSIZE * (i * (BSIZE / DIRENTSIZE) + j) + k) % BSIZE = DIRENTSIZE * j + k := by
      rw [hQ, hE, hB]
      omega
    rw [h.getD_data hd, fileByte, hdiv, hmod, blockOf_direct]
  split_ifs with h0
  · simp only [h0, if_true] at hbyte
    refine (List.findSome?_eq_none_iff.mpr fun j hj => ?_).symm
    exact matchEntry_zero name (hbyte j (List.mem_range.mp hj))
  · simp only [h0, if_false] at hbyte
    refine findSome?_congr fun j hj => ?_
    exact congrArg (matchEntry name)
      (getDirent_congr fun k hk => (hbyte j (List.mem_range.mp hj) k hk).symm)

/-- `dirlookup` finds what the files hold. -/
lemma Shows.dirlookup_eq (h : Shows im fs) {dir : ℕ} (hd : dir < NINODES) (name : List UInt8)
    (junk : Junk) : im.dirlookup dir name junk = fs.lookup dir name := by
  have hlt : ∀ s, (im.inode dir).addrs s < FSSIZE := by
    intro s
    by_cases hs : (im.inode dir).addrs s = 0
    · rw [hs]
      decide
    · exact h.sound.counted.lt ((h.sound.own hd).2 (slot_mem_blocks hs))
  have hrange : List.range NDIRECT = (List.finRange NDIRECT).map Fin.val := by decide
  simp only [Image.dirlookup]
  rw [rinode_eq h.sound.counted.len hd, lookupLoop_eq h.sound.counted.len name
    (List.forall_mem_map.mpr fun i _ => hlt _), Files.lookup, findSome?_range_mul, hrange,
    List.findSome?_map, List.findSome?_map]
  exact congrArg (Option.getD · 0) (findSome?_congr fun i _ => h.findEntry_eq hd name i)

/-! ## The image shows the plan -/

/-- The image shows the files, and only inodes of the table were written. -/
structure Good (im : Image) (fs : Files) : Prop where
  image : Shows im fs
  inTable : ∀ i ∈ im.written, i < NINODES

/-- An inode outside the table was written. -/
def Overrun (im : Image) : Prop := ∃ i ∈ im.written, NINODES ≤ i

lemma Overrun.later (h : Overrun im) (hl : Later im im') : Overrun im' := by
  obtain ⟨i, hi, hlt⟩ := h
  exact ⟨i, hl.written hi, hlt⟩

/-- How the image at the end of a part of `main` is related to the plan of that part. -/
def Follows {α : Type} (im : Image) (P : α → Prop) : Except Fault α → Prop
  | .ok a => P a
  | .error .write => Overrun im
  | .error .read => True
  | .error .refused => True

lemma Follows.bind {α β : Type} {P : α → Prop} {Q : β → Prop} {r : Except Fault α}
    {f : α → Except Fault β} (h : Follows im1 P r) (hl : Later im1 im')
    (hf : ∀ a, P a → Follows im' Q (f a)) : Follows im' Q (r >>= f) := by
  match r, h with
  | .ok a, h => exact hf a h
  | .error .write, h => exact Overrun.later h hl
  | .error .read, _ => trivial
  | .error .refused, _ => trivial

lemma ialloc_follows (h : Good im fs) {type : ℕ} (ht : type < 2 ^ 16) (junk : Junk) :
    Follows (im.ialloc type junk).2
      (fun r => r.1 = (im.ialloc type junk).1 ∧ Good (im.ialloc type junk).2 r.2)
      (fs.tryAlloc type) := by
  unfold Files.tryAlloc
  have hnext := h.image.next
  split_ifs with hlt
  · have hi : im.freeinode < NINODES := hnext ▸ hlt
    refine ⟨hnext.symm, ialloc_shows h.image hi ht junk, fun i hmem => ?_⟩
    rcases List.mem_cons.mp hmem with rfl | hmem
    · exact hi
    · exact h.inTable i hmem
  · exact ⟨im.freeinode, List.mem_cons_self, by omega⟩

lemma iappend_follows (h : Good im fs) {inum : ℕ} {p : List UInt8} {junk : Junk}
    (hcall : im.iappend inum p junk = .ok im') (hfit : im'.freeblock ≤ FSSIZE) :
    Follows im' (Good im') (fs.tryAppend inum p) := by
  unfold Files.tryAppend
  split_ifs with hi
  · obtain ⟨im1, slots', new, ha⟩ := iappend_appends h.image.sound hi hcall hfit
    refine ⟨ha.shows h.image hi, fun i hmem => ?_⟩
    rw [ha.stores.written, ha.grows.written] at hmem
    rcases List.mem_cons.mp hmem with rfl | hmem
    · exact hi
    · exact h.inTable i hmem
  · exact ⟨inum, (iappend_later hcall).2, by omega⟩

lemma link_follows (h : Good im fs) {dir inum : ℕ} {name : List UInt8} {junk : Junk}
    (hcall : im.iappend dir (entryBytes inum name) junk = .ok im') (hfit : im'.freeblock ≤ FSSIZE) :
    Follows im' (Good im') (fs.tryLink c dir inum name) := by
  unfold Files.tryLink
  split_ifs
  · exact iappend_follows h hcall hfit
  · trivial

lemma lookup_follows (h : Good im fs) (dir : ℕ) (name : List UInt8) (junk : Junk) :
    Follows im (fun r => r = im.dirlookup dir name junk) (fs.tryLookup c dir name) := by
  unfold Files.tryLookup
  split_ifs with hd
  · trivial
  · exact (h.image.dirlookup_eq (Nat.lt_of_not_le hd) name junk).symm
  · trivial

/-- The directories of a path are made as planned. -/
lemma ensurePath_follows (h : Good im fs) {parent p' : ℕ} {toks : List (List UInt8)} {junk : Junk}
    (hcall : im.ensurePath parent toks junk = .ok (p', im')) (hfit : im'.freeblock ≤ FSSIZE) :
    Follows im' (fun r => r.1 = p' ∧ Good im' r.2) (fs.ensurePath c parent toks) := by
  induction toks generalizing im fs parent junk with
  | nil =>
    rw [Image.ensurePath, Except.ok.injEq, Prod.mk.injEq] at hcall
    exact ⟨hcall.1, hcall.2 ▸ h⟩
  | cons tok toks ih =>
    have hlater := ensurePath_later hcall
    rw [Image.ensurePath] at hcall
    rw [Files.ensurePath]
    refine (lookup_follows h parent tok (junk.call 0)).bind hlater ?_
    rintro _ rfl
    simp only at hcall
    split_ifs at hcall ⊢
    · obtain ⟨im1, h1, hcall⟩ := bind_eq_ok.mp hcall
      obtain ⟨im2, h2, hcall⟩ := bind_eq_ok.mp hcall
      obtain ⟨im3, h3, hcall⟩ := bind_eq_ok.mp hcall
      have l3 := ensurePath_later hcall
      have l2 := (iappend_later h3).1.trans l3
      have l1 := (iappend_later h2).1.trans l2
      have hmake : Follows im3 (fun r => r.1 = (im.ialloc T_DIR (junk.call 1)).1 ∧ Good im3 r.2)
          (fs.mkdir c parent tok) := by
        have k2 := (iappend_later h3).1
        have k1 := (iappend_later h2).1.trans k2
        refine (ialloc_follows h (by decide) (junk.call 1)).bind ((iappend_later h1).1.trans k1) ?_
        rintro ⟨_, fs0⟩ ⟨rfl, hg0⟩
        refine (link_follows hg0 h1 (l1.freeblock.trans hfit)).bind k1 fun fs1 hg1 => ?_
        refine (iappend_follows hg1 h2 (l2.freeblock.trans hfit)).bind k2 fun fs2 hg2 => ?_
        exact (iappend_follows hg2 h3 (l3.freeblock.trans hfit)).bind (Later.refl _)
          fun fs3 hg3 => ⟨rfl, hg3⟩
      refine hmake.bind l3 ?_
      rintro ⟨_, fs3⟩ ⟨rfl, hg3⟩
      exact ih hg3 hcall
    · exact ih h hcall

lemma copyReads_follows (h : Good im fs) {inum : ℕ} {reads : List (List UInt8)} {junk : Junk}
    (hcall : im.copyReads inum reads junk = .ok im') (hfit : im'.freeblock ≤ FSSIZE) :
    Follows im' (Good im') (fs.copyReads inum reads) := by
  induction reads generalizing im fs junk with
  | nil =>
    rw [Image.copyReads, Except.ok.injEq] at hcall
    exact hcall ▸ h
  | cons p reads ih =>
    obtain ⟨im1, h1, hcall⟩ := bind_eq_ok.mp hcall
    have hl := copyReads_later hcall
    exact (iappend_follows h h1 (hl.freeblock.trans hfit)).bind hl fun fs1 hg1 => ih hg1 hcall

lemma addArg_follows (h : Good im fs) {arg : Arg} {junk : Junk}
    (hcall : im.addArg arg junk = .ok im') (hfit : im'.freeblock ≤ FSSIZE) :
    Follows im' (Good im') (fs.addArg c arg) := by
  obtain ⟨hostpath, file⟩ := arg
  unfold Files.addArg
  unfold Image.addArg at hcall
  cases file with
  | missing => simp at hcall
  | unreadable =>
    obtain ⟨_, -, hcall⟩ := bind_eq_ok.mp hcall
    simp at hcall
  | other =>
    obtain ⟨⟨p, im1⟩, h1, hcall⟩ := bind_eq_ok.mp hcall
    obtain rfl : im1 = im' := Except.ok.inj hcall
    exact (ensurePath_follows h h1 hfit).bind (Later.refl _) fun r hr => hr.2
  | regular reads =>
    obtain ⟨⟨p, im1⟩, h1, h2⟩ := bind_eq_ok.mp hcall
    obtain ⟨im2, h2, h3⟩ := bind_eq_ok.mp h2
    have l2 := copyReads_later h3
    have l1 := (iappend_later h2).1.trans l2
    have l0 := (ialloc_later im1 T_FILE (junk.call 1)).trans l1
    refine (ensurePath_follows h h1 (l0.freeblock.trans hfit)).bind l0 ?_
    rintro ⟨_, fs1⟩ ⟨rfl, hg1⟩
    refine (ialloc_follows hg1 (by decide) (junk.call 1)).bind l1 ?_
    rintro ⟨_, fs2⟩ ⟨rfl, hg2⟩
    refine (link_follows hg2 h2 (l2.freeblock.trans hfit)).bind l2 fun fs3 hg3 => ?_
    exact copyReads_follows hg3 h3 hfit

lemma addArgs_follows (h : Good im fs) {args : List Arg} {junk : Junk}
    (hcall : im.addArgs args junk = .ok im') (hfit : im'.freeblock ≤ FSSIZE) :
    Follows im' (Good im') (fs.addArgs c args) := by
  induction args generalizing im fs junk with
  | nil =>
    rw [Image.addArgs, Except.ok.injEq] at hcall
    exact hcall ▸ h
  | cons arg args ih =>
    obtain ⟨im1, h1, hcall⟩ := bind_eq_ok.mp hcall
    have hl := addArgs_later hcall
    exact (addArg_follows h h1 (hl.freeblock.trans hfit)).bind hl fun fs1 hg1 => ih hg1 hcall

lemma format_good : Good format Files.empty :=
  ⟨format_shows, fun i hi => by rw [format_eq] at hi; exact absurd hi List.not_mem_nil⟩

/-- The image shows the files of the command line, if their inodes are in the table. -/
lemma build_follows (c : Checks) {args : List Arg} {junk : Junk}
    (hcall : build args junk = .ok im) (hfit : im.freeblock ≤ FSSIZE) :
    Follows im (Good im) (plan c args) := by
  unfold build at hcall
  have h0 := ialloc_follows format_good (show T_DIR < 2 ^ 16 by decide) (junk.call 0)
  generalize format.ialloc T_DIR (junk.call 0) = r at h0 hcall
  obtain ⟨rootino, im0⟩ := r
  obtain ⟨rfl, hg0⟩ : ROOTINO = rootino ∧ Good im0 (Files.empty.ialloc T_DIR) := h0
  obtain ⟨im1, h1, hcall⟩ := bind_eq_ok.mp hcall
  obtain ⟨im2, h2, hcall⟩ := bind_eq_ok.mp hcall
  have l2 := addArgs_later hcall
  have l1 := (iappend_later h2).1.trans l2
  have hg1 : Good im1 _ := iappend_follows hg0 h1 (l1.freeblock.trans hfit)
  have hg2 : Good im2 _ := iappend_follows hg1 h2 (l2.freeblock.trans hfit)
  exact addArgs_follows hg2 hcall hfit

/-! ## Small command lines succeed -/

/-- A bound on the bytes that an argument adds to the image, and on the blocks that it takes: each
call of `iappend` takes less than 16 blocks. -/
def Arg.cost (arg : Arg) : ℕ :=
  96 * (parents (imgpath arg.hostpath)).length + match arg.file with
    | .regular reads => 32 + (reads.map fun p => p.length + 16).sum
    | _ => 0

/-- The file is there and can be read, or it is not a regular file. -/
def HostFile.Readable : HostFile → Prop
  | .missing => False
  | .unreadable => False
  | .other => True
  | .regular _ => True

/-- The files are no longer than `n`, and no more than `n` blocks are taken. -/
structure Small (im : Image) (fs : Files) (n : ℕ) : Prop where
  good : Good im fs
  data : ∀ i, (fs.data i).length ≤ n
  freeblock : im.freeblock ≤ nmeta + n

lemma Small.mono {n m : ℕ} (h : Small im fs n) (hnm : n ≤ m) : Small im fs m :=
  ⟨h.good, fun i => (h.data i).trans hnm, h.freeblock.trans (Nat.add_le_add_left hnm _)⟩

/-- A file without indirect blocks misses no more blocks than it has slots. -/
lemma missing_le {d : Disk} {slots : Slots} {n : ℕ} (hn : n ≤ NDIRECT) :
    missing d slots n ≤ NDIRECT + 3 := by
  have hone : ∀ s, ptrs.need d (slotLevel s) (slots s)
      (min (n - slotBase s) (NINDIRECT ^ slotLevel s)) ≤ 1 := by
    intro s
    by_cases hs : s.val < NDIRECT
    · have hlevel : slotLevel s = 0 := by
        unfold slotLevel
        omega
      rw [hlevel, PtrTree.need]
      split_ifs <;> omega
    · have hbase : n - slotBase s = 0 := by
        rcases slot_cases s with h | h | h | h <;> omega
      rw [hbase, Nat.zero_min, PtrTree.need_zero]
      exact Nat.zero_le 1
  calc missing d slots n ≤ ∑ _ : Fin (NDIRECT + 3), 1 := Finset.sum_le_sum fun s _ => hone s
    _ = NDIRECT + 3 := by simp

lemma Small.ialloc {n : ℕ} (h : Small im fs n) {type : ℕ} (ht : type < 2 ^ 16) (junk : Junk)
    {r : ℕ × Files} (hplan : fs.tryAlloc type = .ok r) :
    r.1 = (im.ialloc type junk).1 ∧ Small (im.ialloc type junk).2 r.2 n := by
  have hf := ialloc_follows h.good ht junk
  rw [hplan] at hf
  refine ⟨hf.1, hf.2, fun i => ?_, h.freeblock⟩
  unfold Files.tryAlloc at hplan
  split_ifs at hplan
  obtain rfl := Except.ok.inj hplan
  by_cases hi : i = fs.next
  · rw [hi, Files.ialloc]
    simp
  · rw [Files.ialloc]
    simpa [hi] using h.data i

/-- A small append succeeds. -/
lemma Small.iappend {n : ℕ} (h : Small im fs n) (inum : ℕ) {p : List UInt8} (junk : Junk)
    (hn : n + (p.length + 16) ≤ 4000) (hplan : fs.tryAppend inum p = .ok fs') :
    ∃ im', im.iappend inum p junk = .ok im' ∧ Small im' fs' (n + (p.length + 16)) := by
  unfold Files.tryAppend at hplan
  split_ifs at hplan with hi
  obtain rfl := Except.ok.inj hplan
  have hs := h.good.image.sound
  have hN : NDIRECT = 10 := rfl
  have hB : BSIZE = 512 := rfl
  have hF : FSSIZE = 10000 := rfl
  have hM : nmeta = 94 := rfl
  have hsize : (im.inode inum).size = (fs.data inum).length := by
    rw [← h.good.image.data inum hi, contents, List.length_map, List.length_range]
  have hdata := h.data inum
  have hfree := h.freeblock
  have hdirect : (im.inode inum).size + p.length ≤ NDIRECT * BSIZE := by
    rw [hN, hB]
    omega
  have hmiss : missing im.disk (im.inode inum).addrs _ ≤ NDIRECT + 3 :=
    missing_le (blocksFor_le.mpr hdirect)
  obtain ⟨im', im1, slots', new, hcall, ha⟩ := iappend_ok hs hi junk
    (hdirect.trans (by decide)) (by omega)
  have hneed := ha.need hs hi (blocksFor_le.mp le_rfl)
  have hlater : im'.freeblock ≤ FSSIZE := by omega
  have hf := iappend_follows h.good hcall hlater
  rw [Files.tryAppend, if_pos hi] at hf
  refine ⟨im', hcall, hf, fun i => ?_, by omega⟩
  by_cases hne : i = inum
  · rw [hne, Files.iappend_data_self, List.length_append]
    omega
  · rw [Files.iappend_data_of_ne fs p hne]
    have := h.data i
    omega

@[simp] lemma length_entryBytes (inum : ℕ) (name : List UInt8) :
    (entryBytes inum name).length = 16 := by
  simp [entryBytes, Dirent.bytes]

lemma Small.link {n : ℕ} (h : Small im fs n) {dir inum : ℕ} {name : List UInt8} (junk : Junk)
    (hn : n + 32 ≤ 4000) (hplan : fs.tryLink c dir inum name = .ok fs') :
    ∃ im', im.iappend dir (entryBytes inum name) junk = .ok im' ∧ Small im' fs' (n + 32) := by
  unfold Files.tryLink at hplan
  split_ifs at hplan
  have := h.iappend _ junk (by simpa using hn) hplan
  simpa using this

lemma Small.ensurePath {n parent p' : ℕ} {toks : List (List UInt8)} (h : Small im fs n)
    (junk : Junk) (hn : n + 96 * toks.length ≤ 4000)
    (hplan : fs.ensurePath c parent toks = .ok (p', fs')) :
    ∃ im', im.ensurePath parent toks junk = .ok (p', im') ∧
      Small im' fs' (n + 96 * toks.length) := by
  induction toks generalizing im fs parent junk n with
  | nil =>
    rw [Files.ensurePath, Except.ok.injEq, Prod.mk.injEq] at hplan
    obtain ⟨rfl, rfl⟩ := hplan
    exact ⟨im, rfl, h⟩
  | cons tok toks ih =>
    rw [List.length_cons] at hn ⊢
    rw [Files.ensurePath] at hplan
    obtain ⟨found, hlook, hplan⟩ := bind_eq_ok.mp hplan
    have hf := lookup_follows (c := c) h.good parent tok (junk.call 0)
    rw [hlook] at hf
    obtain rfl : found = im.dirlookup parent tok (junk.call 0) := hf
    rw [Image.ensurePath]
    split_ifs at hplan ⊢
    · obtain ⟨_, hmake, hplan⟩ := bind_eq_ok.mp hplan
      obtain ⟨r, hr, hmake⟩ := bind_eq_ok.mp hmake
      obtain ⟨hr1, h0⟩ := h.ialloc (by decide) (junk.call 1) hr
      obtain ⟨fs1, hp1, hmake⟩ := bind_eq_ok.mp hmake
      obtain ⟨fs2, hp2, hmake⟩ := bind_eq_ok.mp hmake
      obtain ⟨fs3, hp3, hmake⟩ := bind_eq_ok.mp hmake
      obtain rfl := Except.ok.inj hmake
      obtain ⟨im1, hc1, h1⟩ := h0.link (junk.call 2) (by omega) hp1
      obtain ⟨im2, hc2, h2⟩ := h1.iappend _ (junk.call 3) (by rw [length_entryBytes]; omega) hp2
      obtain ⟨im3, hc3, h3⟩ := h2.iappend _ (junk.call 4)
        (by rw [length_entryBytes, length_entryBytes]; omega) hp3
      rw [length_entryBytes, length_entryBytes] at h3
      obtain ⟨im', hc', h'⟩ := ih h3 (junk.call 5) (by omega) hplan
      rw [hr1] at hc1 hc2 hc3 hc'
      refine ⟨im', ?_, h'.mono (by omega)⟩
      exact bind_eq_ok.mpr ⟨im1, hc1, bind_eq_ok.mpr ⟨im2, hc2, bind_eq_ok.mpr ⟨im3, hc3, hc'⟩⟩⟩
    · obtain ⟨im', hc', h'⟩ := ih h (junk.call 5) (by omega) hplan
      exact ⟨im', hc', h'.mono (by omega)⟩

lemma Small.copyReads {n inum : ℕ} {reads : List (List UInt8)} (h : Small im fs n) (junk : Junk)
    (hn : n + (reads.map fun p => p.length + 16).sum ≤ 4000)
    (hplan : fs.copyReads inum reads = .ok fs') : ∃ im', im.copyReads inum reads junk = .ok im' ∧
      Small im' fs' (n + (reads.map fun p => p.length + 16).sum) := by
  induction reads generalizing im fs junk n with
  | nil =>
    rw [Files.copyReads, Except.ok.injEq] at hplan
    exact ⟨im, rfl, hplan ▸ h⟩
  | cons p reads ih =>
    rw [List.map_cons, List.sum_cons, ← Nat.add_assoc] at hn ⊢
    obtain ⟨fs1, hp1, hplan⟩ := bind_eq_ok.mp hplan
    obtain ⟨im1, hc1, h1⟩ := h.iappend _ (junk.call 0) (by omega) hp1
    obtain ⟨im', hc', h'⟩ := ih h1 (junk.call 1) hn hplan
    exact ⟨im', bind_eq_ok.mpr ⟨im1, hc1, hc'⟩, h'⟩

lemma Small.addArg {n : ℕ} {arg : Arg} (h : Small im fs n) (junk : Junk)
    (hread : arg.file.Readable) (hn : n + arg.cost ≤ 4000) (hplan : fs.addArg c arg = .ok fs') :
    ∃ im', im.addArg arg junk = .ok im' ∧ Small im' fs' (n + arg.cost) := by
  obtain ⟨hostpath, file⟩ := arg
  unfold Files.addArg at hplan
  obtain ⟨⟨parent, fs1⟩, hp1, hplan⟩ := bind_eq_ok.mp hplan
  unfold Arg.cost at hn ⊢
  obtain ⟨im1, hc1, h1⟩ := h.ensurePath (junk.call 0) (by omega) hp1
  cases file with
  | missing => exact hread.elim
  | unreadable => exact hread.elim
  | other =>
    obtain rfl := Except.ok.inj hplan
    exact ⟨im1, bind_eq_ok.mpr ⟨_, hc1, rfl⟩, h1⟩
  | regular reads =>
    simp only at hn h1 ⊢
    obtain ⟨r, hr, hplan⟩ := bind_eq_ok.mp hplan
    obtain ⟨fs2, hp2, hplan⟩ := bind_eq_ok.mp hplan
    obtain ⟨hr1, h2⟩ := h1.ialloc (by decide) (junk.call 1) hr
    obtain ⟨im2, hc2, h3⟩ := h2.link (junk.call 2) (by omega) hp2
    obtain ⟨im', hc', h'⟩ := h3.copyReads (junk.call 3) (by omega) hplan
    rw [hr1] at hc2 hc'
    exact ⟨im', bind_eq_ok.mpr ⟨_, hc1, bind_eq_ok.mpr ⟨im2, hc2, hc'⟩⟩, h'.mono (by omega)⟩

lemma Small.addArgs {n : ℕ} {args : List Arg} (h : Small im fs n) (junk : Junk)
    (hread : ∀ a ∈ args, a.file.Readable) (hn : n + (args.map Arg.cost).sum ≤ 4000)
    (hplan : fs.addArgs c args = .ok fs') : ∃ im', im.addArgs args junk = .ok im' ∧
      Small im' fs' (n + (args.map Arg.cost).sum) := by
  induction args generalizing im fs junk n with
  | nil =>
    rw [Files.addArgs, Except.ok.injEq] at hplan
    exact ⟨im, rfl, hplan ▸ h⟩
  | cons arg args ih =>
    rw [List.map_cons, List.sum_cons, ← Nat.add_assoc] at hn ⊢
    obtain ⟨fs1, hp1, hplan⟩ := bind_eq_ok.mp hplan
    obtain ⟨im1, hc1, h1⟩ := h.addArg (junk.call 0) (hread arg List.mem_cons_self) (by omega) hp1
    obtain ⟨im', hc', h'⟩ := ih h1 (junk.call 1)
      (fun a ha => hread a (List.mem_cons_of_mem _ ha)) hn hplan
    exact ⟨im', bind_eq_ok.mpr ⟨im1, hc1, hc'⟩, h'⟩

/-- `mkfs` runs to its end on a small command line. -/
lemma mkfs_ok {args : List Arg} (junk : Junk) (hplan : plan c args = .ok fs)
    (hread : ∀ a ∈ args, a.file.Readable) (hsmall : 64 + (args.map Arg.cost).sum ≤ 4000) :
    ∃ im, mkfs args junk = .ok im := by
  have hempty : Small format Files.empty 0 := by
    refine ⟨format_good, fun i => le_rfl, ?_⟩
    rw [format_eq]
    rfl
  have hbuild : ∃ im, build args (junk.call 0) = .ok im ∧ im.freeblock ≤ nmeta + 4000 := by
    unfold build
    have h0 := hempty.ialloc (r := (ROOTINO, Files.empty.ialloc T_DIR))
      (show T_DIR < 2 ^ 16 by decide) ((junk.call 0).call 0) rfl
    generalize format.ialloc T_DIR ((junk.call 0).call 0) = r at h0 ⊢
    obtain ⟨rootino, im0⟩ := r
    obtain ⟨rfl, h0⟩ : ROOTINO = rootino ∧ Small im0 (Files.empty.ialloc T_DIR) 0 := h0
    obtain ⟨im1, hc1, h1⟩ := h0.iappend ROOTINO (p := entryBytes ROOTINO dot)
      ((junk.call 0).call 1) (by simp) rfl
    obtain ⟨im2, hc2, h2⟩ := h1.iappend ROOTINO (p := entryBytes ROOTINO dotdot)
      ((junk.call 0).call 2) (by simp) rfl
    obtain ⟨im, hc, h⟩ := h2.addArgs ((junk.call 0).call 3) hread (by simpa using hsmall) hplan
    refine ⟨im, bind_eq_ok.mpr ⟨im1, hc1, bind_eq_ok.mpr ⟨im2, hc2, hc⟩⟩, h.freeblock.trans ?_⟩
    simp only [length_entryBytes]
    omega
  obtain ⟨im, hbuild, hfree⟩ := hbuild
  refine ⟨_, bind_eq_ok.mpr ⟨im, hbuild, if_pos ?_⟩⟩
  exact hfree.trans_lt (by decide)

end Xv7.Mkfs
