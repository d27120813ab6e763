import Xv7.Sys.Walk

/-!
# Path walks on the disk

The system calls work on the slots of directories, the code below them on blocks.  Where the blocks of
the disk hold the files, `namex` on the disk walks where the slots lead.
-/

namespace Xv7

open Fallible (ok_bind)
open Sys (Files Name)

variable {sb : Superblock} {d : Disk} {fs : Files} {A : ℕ → Prop}

/-- The disk holds the inodes in `A`, and what their directories name is among them. -/
structure OnDisk (sb : Superblock) (d : Disk) (fs : Files) (A : ℕ → Prop) : Prop where
  alloc : ∀ n, A n → (fs.node n).type ≠ 0
  type : ∀ n, A n → (loadInode sb d n).type = (fs.node n).type
  dir : ∀ n, A n → fs.IsDir n → ∃ others, IsDir sb others (loadInode sb d n) d
  slots : ∀ n, A n → fs.IsDir n → entries d (loadInode sb d n) =
    (fs.dir n).map (Option.map fun e => (e.1, e.2.inum))
  closed : ∀ n, A n → fs.IsDir n → ∀ name m, fs.look n name = some m → A m

/-- `dirlookup` on the disk finds what is in the slots. -/
lemma OnDisk.dirlookup_eq (h : OnDisk sb d fs A) {n : ℕ} (hn : A n) (hdir : fs.IsDir n) {name : Name}
    (hname : cut name = name) (env : ℕ → Env) : ∃ found dp,
      dirlookup env sb (loadInode sb d n) name d = .ok (found, dp, d) ∧
        found.map Prod.fst = fs.look n name := by
  obtain ⟨others, hdisk⟩ := h.dir n hn hdir
  obtain ⟨t, ht⟩ := hdisk.finds name env
  refine ⟨_, _, ht, ?_⟩
  rw [hname, h.slots n hn hdir, Sys.Files.look, SlotMap.find_map]
  cases SlotMap.find name (fs.dir n) <;> rfl

lemma OnDisk.namexLoop_eq (h : OnDisk sb d fs A) {nameiparent : Bool} {fuel : ℕ} {env : ℕ → ℕ → Env}
    {n : ℕ} {path name : List UInt8} (hn : A n) (hfuel : path.length < fuel)
    (hnames : ∀ c ∈ components path, cut c = c) :
    namexLoop sb nameiparent fuel env n path name d =
      .ok (fs.target nameiparent n (components path) name, d) := by
  induction fuel generalizing n path name env with
  | zero => omega
  | succ fuel ih =>
    have hskip := Sys.skipelem_components path
    rw [namexLoop]
    rcases hs : skipelem path with _ | ⟨name', rest⟩
    · rw [hs] at hskip
      rw [show components path = [] from hskip, Files.target]
    · rw [hs] at hskip
      obtain ⟨hcomp, hlen, hrest⟩ := hskip
      rw [hcomp, List.forall_mem_cons] at hnames
      have htype := h.type n hn
      rw [hcomp, Files.target]
      simp only [htype, if_neg (h.alloc n hn), hrest]
      by_cases hdir : fs.IsDir n
      · rw [if_neg (not_not.mpr hdir), if_neg (not_not.mpr hdir)]
        split_ifs with hlast
        · rfl
        · obtain ⟨found, dp, hlook, hfound⟩ := h.dirlookup_eq hn hdir hnames.1 (env 0)
          rw [hlook, ok_bind, ← hfound]
          rcases found with _ | ⟨m, off⟩
          · rfl
          · exact ih (h.closed n hn hdir name' m hfound.symm) (by omega) hnames.2
      · rw [if_pos hdir, if_pos hdir]

/-- A root directory without entries. -/
def rootFiles : Files := ⟨fun _ => ⟨T_DIR, 0, 0, 1, []⟩, fun _ => [], fun _ => 1⟩

/-- The same on a disk. -/
def rootDisk : Disk := storeInode mkfsSuperblock ROOTINO emptyDir (freshFs mkfsSuperblock).disk

set_option maxRecDepth 20000 in
lemma onDisk_root : OnDisk mkfsSuperblock rootDisk rootFiles (· = ROOTINO) := by
  have htype : (loadInode mkfsSuperblock rootDisk ROOTINO).type = T_DIR := by decide +kernel
  have hsize : (loadInode mkfsSuperblock rootDisk ROOTINO).size = 0 := by decide +kernel
  have haddrs : (loadInode mkfsSuperblock rootDisk ROOTINO).dinode.addrs = fun _ => 0 := by
    decide +kernel
  have hentries : entries rootDisk (loadInode mkfsSuperblock rootDisk ROOTINO) = [] :=
    List.eq_nil_of_length_eq_zero (by rw [length_entries, hsize, Nat.zero_div])
  have halloc : Alloc mkfsSuperblock rootDisk [] := alloc_markUsed.congr fun b hb =>
    Function.update_of_ne (by
      rintro rfl
      exact absurd hb.1 (by decide)) _ _
  refine ⟨fun _ _ => (by decide : T_DIR ≠ 0), ?_, ?_, ?_, fun _ _ _ _ _ hm => nomatch hm⟩
  · rintro n rfl
    exact htype
  · rintro n rfl -
    refine ⟨[], htype, ?_, fun k hk => ?_, by rw [hsize, Nat.zero_mod], by rw [hsize]; decide, ?_⟩
    · rw [haddrs, blocks_zero]
      exact halloc
    · exact absurd hk (by simp [CachedInode.dinode, hsize])
    · rw [hentries]
      intro i j k v w hi
      simp at hi
  · rintro n rfl -
    exact hentries

end Xv7
