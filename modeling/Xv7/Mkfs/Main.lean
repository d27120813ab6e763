import Xv7.Mkfs.Calls
import Xv7.Fs.Dirent

/-!
# `main` of `mkfs`

The whole program: it formats the image, makes the root directory, adds the files of the command
line one by one with the directories above them, rounds up the size of the root directory and
writes the free map.  The counters never go down, and what was written stays in the record.
-/

namespace Xv7.Mkfs

open Fallible

/-! ## Paths -/

/-- The name `.`. -/
def dot : List UInt8 := [46]

/-- The name `..`. -/
def dotdot : List UInt8 := [46, 46]

/-- The bytes of `userspace/`. -/
def userspace : List UInt8 := [117, 115, 101, 114, 115, 112, 97, 99, 101, 47]

/-- `imgpath`: the path of a file on the image. -/
def imgpath (hostpath : List UInt8) : List UInt8 :=
  let path := hostpath.take 511
  let path := if path.take 10 = userspace then path.drop 10 else path
  path.rdropWhile (· = slash)

/-- `parentcopy`: what stands before the last slash. -/
def parentcopy (path : List UInt8) : List UInt8 := (path.rdropWhile (· ≠ slash)).dropLast

/-- `basename`: what stands after the last slash, without a leading underscore. -/
def basename (path : List UInt8) : List UInt8 :=
  let base := path.rtakeWhile (· ≠ slash)
  if base.head? = some 95 then base.tail else base

/-- The tokens of `strtok` for the directories above a file. -/
def parents (path : List UInt8) : List (List UInt8) :=
  if slash ∈ path then tokens (parentcopy path) else []

/-- The bytes of an entry, made by `bzero`, `xshort` and `strncpy`. -/
def entryBytes (inum : ℕ) (name : List UInt8) : List UInt8 :=
  (Dirent.mk inum (strncpy DIRSIZ name)).bytes

/-- The name in an entry as `dirlookup` compares it: without NUL bytes and blanks at the end. -/
def entryName (name : List UInt8) : List UInt8 :=
  (name.rdropWhile fun c => c = 0 ∨ c = 32).takeWhile (· ≠ 0)

/-- The test of `dirlookup` for one entry. -/
def matchEntry (name : List UInt8) (de : Dirent) : Option ℕ :=
  if de.inum ≠ 0 ∧ entryName de.name = name then some de.inum else none

/-- `off = ((off / BSIZE) + 1) * BSIZE`. -/
def roundSize (din : Inode) : Inode := { din with size := (din.size / BSIZE + 1) * BSIZE }

/-! ## The files of the command line -/

/-- What the host knows about a path. -/
inductive HostFile where
  /-- `stat` fails. -/
  | missing
  /-- It is not a regular file. -/
  | other
  /-- A regular file that cannot be opened. -/
  | unreadable
  /-- A regular file, with what `read` returns until its end. -/
  | regular (reads : List (List UInt8))

/-- An argument of the command line: a string, and what the host knows about it. -/
structure Arg where
  hostpath : List UInt8
  file : HostFile
  string : 0 ∉ hostpath

namespace Image

/-- The entries of one block that `dirlookup` reads. -/
def findEntry (blk : Block) (name : List UInt8) : Option ℕ :=
  (List.range (BSIZE / DIRENTSIZE)).findSome? fun j =>
    matchEntry name (getDirent (Bytes.rd blk) (DIRENTSIZE * j))

/-- The loop of `dirlookup` over the direct blocks, with its buffer. -/
def lookupLoop (im : Image) (name : List UInt8) : List ℕ → Block → ℕ
  | [], _ => 0
  | addr :: addrs, buf =>
    if addr = 0 then im.lookupLoop name addrs buf
    else
      let buf := im.rsect addr buf
      match findEntry buf name with
      | some inum => inum
      | none => im.lookupLoop name addrs buf

/-- `dirlookup`. -/
def dirlookup (im : Image) (dirinum : ℕ) (name : List UInt8) (junk : Junk) : ℕ :=
  let din := im.rinode dirinum (junk.call 0)
  im.lookupLoop name ((List.finRange NDIRECT).map fun i => din.addrs (i.castAdd 3)) (junk [1])

/-- `ensure_path`: find or make the directories of a path. -/
def ensurePath (im : Image) (parent : ℕ) : List (List UInt8) → Junk → Except Exit (ℕ × Image)
  | [], _ => .ok (parent, im)
  | tok :: toks, junk => do
    let found := im.dirlookup parent tok (junk.call 0)
    if found = 0 then do
      let (inum, im) := im.ialloc T_DIR (junk.call 1)
      let im ← im.iappend parent (entryBytes inum tok) (junk.call 2)
      let im ← im.iappend inum (entryBytes inum dot) (junk.call 3)
      let im ← im.iappend inum (entryBytes parent dotdot) (junk.call 4)
      im.ensurePath inum toks (junk.call 5)
    else im.ensurePath found toks (junk.call 5)

/-- The loop that copies a file. -/
def copyReads (im : Image) (inum : ℕ) : List (List UInt8) → Junk → Except Exit Image
  | [], _ => .ok im
  | p :: reads, junk => do
    let im ← im.iappend inum p (junk.call 0)
    im.copyReads inum reads (junk.call 1)

/-- The body of the loop of `main`: one argument. -/
def addArg (im : Image) (arg : Arg) (junk : Junk) : Except Exit Image :=
  let path := imgpath arg.hostpath
  match arg.file with
  | .missing => .error .hostFile
  | .other => do
    let (_, im) ← im.ensurePath ROOTINO (parents path) (junk.call 0)
    .ok im
  | .unreadable => do
    let _ ← im.ensurePath ROOTINO (parents path) (junk.call 0)
    .error .hostFile
  | .regular reads => do
    let (parent, im) ← im.ensurePath ROOTINO (parents path) (junk.call 0)
    let (inum, im) := im.ialloc T_FILE (junk.call 1)
    let im ← im.iappend parent (entryBytes inum (basename path)) (junk.call 2)
    im.copyReads inum reads (junk.call 3)

/-- The loop of `main` over the arguments. -/
def addArgs (im : Image) : List Arg → Junk → Except Exit Image
  | [], _ => .ok im
  | arg :: args, junk => do
    let im ← im.addArg arg (junk.call 0)
    im.addArgs args (junk.call 1)

/-- The size of the root directory is rounded up. -/
def fixRoot (im : Image) (junk : Junk) : Image :=
  im.winode ROOTINO (roundSize (im.rinode ROOTINO (junk.call 0))) (junk.call 1)

/-- `balloc`: write the free map. -/
def balloc (im : Image) : Except Exit Image :=
  if im.freeblock < BSIZE * 8 then
    .ok (im.wsect sb.bmapstart ((List.range im.freeblock).foldl setBit zeroes))
  else .error .assertion

end Image

/-- The image before the last part of `main`. -/
def build (args : List Arg) (junk : Junk) : Except Exit Image := do
  let (rootino, im) := format.ialloc T_DIR (junk.call 0)
  let im ← im.iappend rootino (entryBytes rootino dot) (junk.call 1)
  let im ← im.iappend rootino (entryBytes rootino dotdot) (junk.call 2)
  im.addArgs args (junk.call 3)

/-- `main`; a result is the image at `exit(0)`. -/
def mkfs (args : List Arg) (junk : Junk) : Except Exit Image := do
  let im ← build args (junk.call 0)
  (im.fixRoot (junk.call 1)).balloc

/-! ## The counters only go up -/

variable {im im' im1 : Image}

/-- Blocks are never freed, and what was written stays written. -/
structure Later (im im' : Image) : Prop where
  freeblock : im.freeblock ≤ im'.freeblock
  written : im.written ⊆ im'.written

lemma Later.refl (im : Image) : Later im im := ⟨le_rfl, List.Subset.refl _⟩

lemma Later.trans (h : Later im im1) (h' : Later im1 im') : Later im im' :=
  ⟨h.freeblock.trans h'.freeblock, List.Subset.trans h.written h'.written⟩

lemma ialloc_later (im : Image) (type : ℕ) (junk : Junk) : Later im (im.ialloc type junk).2 :=
  ⟨le_rfl, List.subset_cons_self _ _⟩

/-- `iappend` writes the inode it appends to. -/
lemma iappend_later {inum : ℕ} {p : List UInt8} {junk : Junk}
    (h : im.iappend inum p junk = .ok im') : Later im im' ∧ inum ∈ im'.written := by
  obtain ⟨⟨slots, off, im1⟩, hloop, h⟩ := bind_eq_ok.mp h
  have hg := appendLoop_grows hloop
  rw [← Except.ok.inj h]
  refine ⟨⟨hg.freeblock, fun i hi => List.mem_cons_of_mem _ ?_⟩, List.mem_cons_self⟩
  rw [hg.written]
  exact hi

lemma ensurePath_later {parent p' : ℕ} {toks : List (List UInt8)} {junk : Junk}
    (h : im.ensurePath parent toks junk = .ok (p', im')) : Later im im' := by
  induction toks generalizing im parent junk with
  | nil =>
    rw [Image.ensurePath, Except.ok.injEq, Prod.mk.injEq] at h
    exact h.2 ▸ Later.refl im
  | cons tok toks ih =>
    rw [Image.ensurePath] at h
    simp only at h
    split_ifs at h
    · obtain ⟨im1, h1, h⟩ := bind_eq_ok.mp h
      obtain ⟨im2, h2, h⟩ := bind_eq_ok.mp h
      obtain ⟨im3, h3, h⟩ := bind_eq_ok.mp h
      exact (ialloc_later im _ _).trans <| (iappend_later h1).1.trans <|
        (iappend_later h2).1.trans <| (iappend_later h3).1.trans (ih h)
    · exact ih h

lemma copyReads_later {inum : ℕ} {reads : List (List UInt8)} {junk : Junk}
    (h : im.copyReads inum reads junk = .ok im') : Later im im' := by
  induction reads generalizing im junk with
  | nil => exact Except.ok.inj h ▸ Later.refl im
  | cons p reads ih =>
    obtain ⟨im1, h1, h⟩ := bind_eq_ok.mp h
    exact (iappend_later h1).1.trans (ih h)

lemma addArg_later {arg : Arg} {junk : Junk} (h : im.addArg arg junk = .ok im') :
    Later im im' := by
  unfold Image.addArg at h
  simp only at h
  split at h
  · simp at h
  · obtain ⟨⟨p, im1⟩, h1, h⟩ := bind_eq_ok.mp h
    exact Except.ok.inj h ▸ ensurePath_later h1
  · obtain ⟨_, -, h⟩ := bind_eq_ok.mp h
    simp at h
  · obtain ⟨⟨p, im1⟩, h1, h⟩ := bind_eq_ok.mp h
    obtain ⟨im2, h2, h⟩ := bind_eq_ok.mp h
    exact (ensurePath_later h1).trans <| (ialloc_later im1 _ _).trans <|
      (iappend_later h2).1.trans (copyReads_later h)

lemma addArgs_later {args : List Arg} {junk : Junk} (h : im.addArgs args junk = .ok im') :
    Later im im' := by
  induction args generalizing im junk with
  | nil => exact Except.ok.inj h ▸ Later.refl im
  | cons arg args ih =>
    obtain ⟨im1, h1, h⟩ := bind_eq_ok.mp h
    exact (addArg_later h1).trans (ih h)

end Xv7.Mkfs
