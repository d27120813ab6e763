import Xv7.Sys.Names

/-!
# Calls that take and give up handles

`sys_open`, `sys_mkdir`, `sys_mknod`, `sys_chdir`, `sys_close`, `sys_symlink` and `sys_getcwd`.  A
handle is a reference that stays after the call, because a process has the inode as its current
directory or an open file has it.
-/

namespace Xv7.Sys

open Finset (erase_singleton mem_singleton_self notMem_empty)
open Multiset (cons_ne_zero cons_swap mem_cons_self)
open Icache (Slot)
open Ptable (NPROC)
open Prog

section

variable {s₀ s : State} {B : Slot → ℕ} {R : Multiset Ref} {L : Finset Slot} {i : Slot} {n : ℕ}
  {c : Caller}

/-! ## The tables of files and processes -/

/-- The files and descriptors may change, as long as nobody looks at them. -/
lemma Busy.setFile (h : Busy s₀ B R L s) (f : Fin NFILE) (file : File) :
    Busy (s₀.setFile f file) B R L (s.setFile f file) :=
  h.congr rfl rfl rfl rfl ⟨h.same.ninodes, h.same.ops, by simp only [State.setFile, h.same.ftable],
    h.same.cwd, h.same.ofile⟩

lemma Busy.setFd (h : Busy s₀ B R L s) (p : Fin NPROC) (fd : Fin NOFILE) (f : Option (Fin NFILE)) :
    Busy (s₀.setFd p fd f) B R L (s.setFd p fd f) :=
  h.congr rfl rfl rfl rfl ⟨h.same.ninodes, h.same.ops, h.same.ftable, h.same.cwd,
    by simp only [State.setFd, h.same.ofile]⟩

lemma Busy.setCwd (h : Busy s₀ B R L s) (p : Fin NPROC) (i : Slot) :
    Busy { s₀ with cwd := Function.update s₀.cwd p i } B R L
      { s with cwd := Function.update s.cwd p i } :=
  h.congr rfl rfl rfl rfl ⟨h.same.ninodes, h.same.ops, h.same.ftable, by simp only [h.same.cwd],
    h.same.ofile⟩

lemma Busy.begun (h : Busy s₀ B R L s) : Busy s₀.begun B R L s.begun :=
  h.congr rfl rfl rfl rfl ⟨h.same.ninodes, by simp only [h.same.ops], h.same.ftable, h.same.cwd,
    h.same.ofile⟩

/-- The references of the others without one. -/
def drop (B : Slot → ℕ) (i : Slot) : Slot → ℕ := Function.update B i (B i - 1)

/-- A reference of the others becomes one of the call. -/
lemma Busy.take (h : Busy s₀ B R L s) (hi : 0 < B i) :
    Busy s₀ (drop B i) ((i, (s₀.inode i).inum) ::ₘ R) L s where
  cache := h.cache
  ref j := by
    rw [h.ref, held_cons, drop, Function.update_apply]
    split_ifs with hj
    · subst hj
      omega
    · omega
  inum x hx := by
    rcases Multiset.mem_cons.mp hx with rfl | hx
    · exact (h.keep i hi).1
    · exact h.inum x hx
  keep j hj := by
    refine h.keep j ?_
    rw [drop, Function.update_apply] at hj
    split_ifs at hj with hji
    · rwa [hji]
    · exact hj
  locked := h.locked
  valid := h.valid
  owned j hj := by
    rw [held_cons]
    exact Nat.add_pos_left (h.owned j hj) _
  same := h.same

lemma State.freeFile_eq_some {f : Fin NFILE} (h : s.freeFile = some f) : (s.ftable f).ref = 0 := by
  simpa using List.find?_some h

lemma State.freeFd_eq_some {p : Fin NPROC} {fd : Fin NOFILE} (h : s.freeFd p = some fd) :
    s.ofile p fd = none := by
  simpa using List.find?_some h

lemma State.setFile_setFd_setFile (f : Fin NFILE) (file file' : File) (p : Fin NPROC)
    (fd : Fin NOFILE) (x : Option (Fin NFILE)) :
    ((s.setFile f file).setFd p fd x).setFile f file' = (s.setFile f file').setFd p fd x := by
  simp [State.setFile, State.setFd]

/-- What nobody has a reference to, seen from the end of a call. -/
lemma Busy.spare_iff (h : Busy s₀ B R L s) : Spare s₀ B R n ↔ s.Unheld n := by
  constructor
  · refine fun hn => ⟨fun j hj heq => ?_, fun x hx => absurd hx (Multiset.notMem_zero x)⟩
    change 0 < (s.inode j).ref at hj
    rw [h.ref] at hj
    rcases Nat.eq_zero_or_pos (B j) with hB | hB
    · obtain ⟨m, hm⟩ := exists_of_held_pos (show 0 < held R j by omega)
      exact hn.2 _ hm ((h.inum _ hm).symm.trans heq)
    · exact hn.1 j hB ((h.keep j hB).1.symm.trans heq)
  · refine fun hn => ⟨fun j hj heq => ?_, fun x hx heq => ?_⟩
    · refine hn.1 j ?_ ((h.keep j hj).1.trans heq)
      show 0 < (s.inode j).ref
      rw [h.ref]
      omega
    · exact hn.1 x.1 (h.ref_pos (n := x.2) hx) ((h.inum x hx).trans heq)

/-- A handle is given up: if it was the last reference to an inode without links, the inode is
freed. -/
structure Dropped (s : State) (i : Slot) (fs : Files) (s' : State) : Prop where
  swept : Files.Swept s'.Unheld fs s'.fs
  dead : (s.inode i).valid = true → (s'.fs.node (s.inode i).inum).nlink = 0 →
    (s'.fs.node (s.inode i).inum).type ≠ 0 → ¬ s'.Unheld (s.inode i).inum

/-- `iput` of a reference that the others had. -/
lemma Busy.iput_base {E : Stop → Prop} (h : Busy s₀ B R L s) (hi : 0 < B i) (hL : i ∉ L) :
    Ends (Sys.iput i) s (fun _ s' => Busy s₀ (drop B i) R L s' ∧ Dropped s₀ i s.fs s' ∧
      Stays s s') E := by
  have ht := h.take hi
  refine ((ht.iput hL).and (ht.iput_swept hL)).mono ?_
  rintro _ s' ⟨⟨hs', hfs, hstay⟩, _, hsw⟩
  refine ⟨hs', ⟨hsw.mono fun _ hn => hs'.spare_iff.mp hn, fun hv hlink htype hspare => ?_⟩, hstay⟩
  have hspare' := hs'.spare_iff.mpr hspare
  rw [hfs] at hlink htype
  split_ifs at hlink htype with hfree
  · simp [Files.node_free] at htype
  · refine hfree ⟨(h.keep i hi).2 hv, hlink, ?_⟩
    by_contra hne
    rcases Nat.eq_zero_or_pos (drop B i i) with hB | hB
    · obtain ⟨m, hm⟩ := exists_of_held_pos (show 0 < held R i by omega)
      refine hspare'.2 _ hm ?_
      exact (h.inum _ hm).symm.trans (h.keep i hi).1
    · exact hspare'.1 i hB rfl

/-! ## `sys_open` -/

/-- The state with a new handle: descriptor `fd` is the open file `f` of the inode. -/
def State.withFile (s : State) (p : Fin NPROC) (fd : Fin NOFILE) (f : Fin NFILE) (i : Slot) : State :=
  (s.setFile f ⟨1, .inode, i⟩).setFd p fd (some f)

/-- The end of `sys_open`: it fails, or the reference has become a handle. -/
inductive Opened (s₀ : State) (B : Slot → ℕ) (c : Caller) (i : Slot) (n : ℕ) (fs : Files)
    (s : State) : Prop
  | failed : Busy s₀ B 0 ∅ s → Files.Swept (Spare s₀ B 0) fs s.fs → Opened s₀ B c i n fs s
  | handle (f : Fin NFILE) (fd : Fin NOFILE) : (s₀.ftable f).ref = 0 → s₀.ofile c.pid fd = none →
      Busy (s₀.withFile c.pid fd f i) B {(i, n)} ∅ s → s.fs = fs → (s.inode i).valid = true →
      Opened s₀ B c i n fs s

/-- An inode is unlocked, given up, and the call ends. -/
lemma Busy.giveUp {E : Stop → Prop} {r : ℤ} (h : Busy s₀.begun B {(i, n)} {i} s) :
    Ends (do Sys.iunlockput i; endOp; return r : Kernel ℤ) s (fun r' s' => r' = r ∧ Busy s₀ B 0 ∅ s' ∧
      Files.Swept (Spare s₀ B 0) s.fs s'.fs) E := by
  refine (h.iunlockput_swept (R := 0) (mem_singleton_self i)).bind ?_
  rintro _ s1 ⟨h1, hsw⟩
  rw [erase_singleton] at h1
  exact ⟨rfl, h1.ended, hsw⟩

lemma Busy.openInode {E : Stop → Prop} (h : Busy s₀.begun B {(i, n)} {i} s)
    (hclosed : ∀ f, (s₀.ftable f).ref = 0 → (s₀.ftable f).type = .none) :
    Ends (openInode c i) s (fun _ s' => Opened s₀ B c i n s.fs s') E := by
  have hft : s.ftable = s₀.ftable := h.same.ftable
  have hof : s.ofile = s₀.ofile := h.same.ofile
  unfold Sys.openInode filealloc
  simp only [ends_bind, ends_get]
  split
  case h_2 =>
    simp only [ends_pure]
    refine h.giveUp.mono ?_
    rintro _ s' ⟨_, hs', hsw⟩
    exact .failed hs' hsw
  case h_1 f hf =>
    have hfree : (s₀.ftable f).ref = 0 := by
      rw [← hft]
      exact State.freeFile_eq_some hf
    have h1 := h.setFile f { s₀.ftable f with ref := 1 }
    simp only [ends_bind, ends_modify, ends_pure, fdalloc, ends_get, hft]
    split
    case h_1 fd hfd =>
      have hnone : s₀.ofile c.pid fd = none := by
        rw [← hof]
        exact State.freeFd_eq_some hfd
      have h2 := h1.setFd c.pid fd (some f)
      simp only [ends_bind, ends_modify, ends_pure, endOp]
      refine (h2.iunlock (mem_singleton_self i)).mono ?_
      rintro _ s3 ⟨h3, hfs3, hin3⟩
      rw [erase_singleton] at h3
      have h4 : Busy ((s₀.setFile f { s₀.ftable f with ref := 1 }).setFd c.pid fd (some f)) B
          {(i, n)} ∅ s3.ended := Busy.ended h3
      have href : (s3.ftable f).ref = 1 := by
        rw [h3.same.ftable]
        simp [State.setFd, State.setFile]
      have h5 := h4.setFile f ⟨1, .inode, i⟩
      rw [State.setFile_setFd_setFile] at h5
      refine .handle f fd hfree hnone (by rwa [href]) hfs3 ?_
      show (s3.inode i).valid = true
      rw [hin3]
      exact h.valid i (mem_singleton_self i)
    case h_2 =>
      simp only [ends_pure]
      have htype := hclosed f hfree
      have hback : (s.setFile f { s₀.ftable f with ref := 1 }).setFile f
          { s₀.ftable f with ref := 0, type := .none } = s := by
        have hrec : ({ s₀.ftable f with ref := 0, type := .none } : File) = s.ftable f := by
          rw [hft, ← hfree, ← htype]
        rw [hrec]
        simp [State.setFile]
      have hfile : (s.setFile f { s₀.ftable f with ref := 1 }).ftable f =
          { s₀.ftable f with ref := 1 } := by simp [State.setFile]
      have hclose : Ends (fileclose f) (s.setFile f { s₀.ftable f with ref := 1 })
          (fun _ s' => s' = s) E := by
        unfold fileclose
        simp only [ends_bind, ends_get, hfile]
        rw [if_neg (lt_irrefl 1), if_neg (lt_irrefl 1)]
        simp only [ends_bind, ends_modify]
        rw [if_neg (by rw [htype]; exact FdType.noConfusion)]
        exact hback
      refine hclose.bind fun _ s' hs' => ?_
      subst hs'
      refine h.giveUp.mono ?_
      rintro _ s' ⟨_, hs', hsw⟩
      exact .failed hs' hsw

/-- What a call of `sys_open` has done. -/
inductive OpenDone (s : State) (c : Caller) (path : List UInt8) (omode : BitVec 32) (s' : State) :
    Prop
  /-- It has found no inode, or one that it does not open. -/
  | failed : (omode &&& O_CREATE ≠ 0 ∨ ¬ s.begun.Deep c path) → Busy s s.refs 0 ∅ s' →
      Files.Swept s.Unheld s.fs s'.fs → OpenDone s c path omode s'
  /-- It has followed too many links. -/
  | deep (i : Slot) (n : ℕ) : omode &&& O_CREATE = 0 → s.begun.Deep c path →
      Busy s s.refs {(i, n)} ∅ s' → Files.Swept s.Unheld s.fs s'.fs → OpenDone s c path omode s'
  | opened (i : Slot) (n : ℕ) (fs₁ : Files) : omode &&& O_CREATE = 0 → ¬ s.begun.Deep c path →
      Files.Swept s.Unheld s.fs fs₁ → (fs₁.node n).type ≠ 0 →
      Opened s s.refs c i n fs₁ s' → OpenDone s c path omode s'
  | created (i : Slot) (n : ℕ) (s₁ : State) : omode &&& O_CREATE ≠ 0 →
      Busy s.begun s.refs {(i, n)} {i} s₁ →
      Created s.begun s.refs c path T_FILE 0 0 s.fs i n s₁ →
      Opened s s.refs c i n s₁.fs s' → OpenDone s c path omode s'

/-- A call of `sys_open`. -/
lemma Good.sysOpen (h : Good s) (path : List UInt8) (omode : BitVec 32) :
    Ends (sysOpen c (some path) omode) s (fun _ s' => OpenDone s c path omode s') Proceeds := by
  unfold Sys.sysOpen beginOp
  simp only [ends_bind, ends_modify]
  by_cases hcreate : omode &&& O_CREATE ≠ 0
  · rw [if_pos hcreate]
    refine (h.begun.busy.create (c := c) (h.begun.cwd_pos _) path (by decide) 0 0).bind
      fun r s1 hr => ?_
    rcases r with _ | i
    · obtain ⟨h1, hsw1⟩ := hr
      exact .failed (Or.inl hcreate) h1.ended hsw1
    · obtain ⟨n, h1, hmade⟩ := hr
      exact (h1.openInode h.closed).mono fun _ s' hs' => .created i n s1 hcreate h1 hmade hs'
  · rw [if_neg hcreate]
    rw [not_not] at hcreate
    refine (h.begun.busy.namei (c := c) (h.begun.cwd_pos _) path).bind ?_
    rintro r s1 ⟨hsw1, hr⟩
    rcases r with _ | i
    · rcases hr with ⟨hdeep, h1⟩ | ⟨hdeep, i, n, h1⟩
      · exact .failed (Or.inr hdeep) h1.ended hsw1
      · exact .deep i n hcreate hdeep h1.ended hsw1
    · obtain ⟨hdeep, n, h1⟩ := hr
      have himem : (i, n) ∈ (i, n) ::ₘ (0 : Multiset Ref) := mem_cons_self _ _
      simp only
      refine (h1.ilock himem (notMem_empty _)).bind ?_
      rintro _ s2 ⟨h2, hfs2⟩
      rw [insert_empty_eq] at h2
      rw [← hfs2] at hsw1
      have htype := h2.type_ne_zero himem (mem_singleton_self i)
      simp only [Sys.inode, ends_bind, ends_get, ends_pure]
      split_ifs
      · refine h2.giveUp.mono ?_
        rintro _ s' ⟨_, hs', hsw⟩
        exact .failed (Or.inr hdeep) hs' (hsw1.trans hsw)
      · exact (h2.openInode h.closed).mono fun _ s' hs' =>
          .opened i n s2.fs hcreate hdeep hsw1 htype hs'

/-! ## `sys_mkdir` and `sys_mknod` -/

/-- What a call of `sys_mkdir` or `sys_mknod` has done. -/
inductive MakeDone (s : State) (c : Caller) (path : List UInt8) (type : ℕ) (major minor : BitVec 16)
    (s' : State) : Prop
  | failed : Busy s s.refs 0 ∅ s' → Files.Swept s.Unheld s.fs s'.fs →
      MakeDone s c path type major minor s'
  | created (i : Slot) (n : ℕ) (s₁ : State) : Busy s s.refs 0 ∅ s' →
      Created s.begun s.refs c path type major minor s.fs i n s₁ →
      Files.Swept s.Unheld s₁.fs s'.fs → MakeDone s c path type major minor s'

/-- A call of `sys_mkdir` or `sys_mknod`. -/
lemma Good.sysMake (h : Good s) (path : List UInt8) {type : ℕ} (htype : type ≠ 0)
    (major minor : BitVec 16) : Ends (sysMake c (some path) type major minor) s
      (fun r s' => MakeDone s c path type major minor s' ∧
        (r = -1 → Files.Swept s.Unheld s.fs s'.fs)) Proceeds := by
  unfold Sys.sysMake beginOp
  simp only [ends_bind, ends_modify]
  refine (h.begun.busy.create (c := c) (h.begun.cwd_pos _) path htype major minor).mono
    fun r s1 hr => ?_
  rcases r with _ | i
  · obtain ⟨h1, hsw1⟩ := hr
    exact ⟨.failed h1.ended hsw1, fun _ => hsw1⟩
  · obtain ⟨n, h1, hmade⟩ := hr
    refine h1.giveUp.mono ?_
    rintro r s' ⟨rfl, hs', hsw⟩
    exact ⟨.created i n s1 hs' hmade hsw, fun hr => absurd hr (by decide)⟩

/-! ## `sys_chdir` -/

/-- What a call of `sys_chdir` has done. -/
inductive ChdirDone (s : State) (c : Caller) (path : List UInt8) (s' : State) : Prop
  | failed : ¬ s.begun.Deep c path → Busy s s.refs 0 ∅ s' → Files.Swept s.Unheld s.fs s'.fs →
      ChdirDone s c path s'
  | deep (i : Slot) (n : ℕ) : s.begun.Deep c path → Busy s s.refs {(i, n)} ∅ s' →
      Files.Swept s.Unheld s.fs s'.fs → ChdirDone s c path s'
  | changed (i : Slot) (n : ℕ) (fs₁ : Files) : ¬ s.begun.Deep c path →
      Files.Swept s.Unheld s.fs fs₁ → fs₁.IsDir n → (s'.inode i).valid = true →
      Busy { s with cwd := Function.update s.cwd c.pid i } (drop s.refs (s.cwd c.pid)) {(i, n)} ∅ s' →
      Dropped s (s.cwd c.pid) fs₁ s' → ChdirDone s c path s'

/-- A call of `sys_chdir`. -/
lemma Good.sysChdir (h : Good s) (path : List UInt8) :
    Ends (sysChdir c (some path)) s (fun _ s' => ChdirDone s c path s') Proceeds := by
  unfold Sys.sysChdir beginOp endOp
  simp only [ends_bind, ends_modify]
  refine (h.begun.busy.namei (c := c) (h.begun.cwd_pos _) path).mono ?_
  rintro r s1 ⟨hsw1, hr⟩
  rcases r with _ | i
  · rcases hr with ⟨hdeep, h1⟩ | ⟨hdeep, i, n, h1⟩
    · exact .failed hdeep h1.ended hsw1
    · exact .deep i n hdeep h1.ended hsw1
  · obtain ⟨hdeep, n, h1⟩ := hr
    have himem : (i, n) ∈ (i, n) ::ₘ (0 : Multiset Ref) := mem_cons_self _ _
    have hiL : i ∈ ({i} : Finset Slot) := mem_singleton_self i
    simp only
    refine (h1.ilock himem (notMem_empty _)).bind ?_
    rintro _ s2 ⟨h2, hfs2⟩
    rw [insert_empty_eq] at h2
    rw [← hfs2] at hsw1
    simp only [Sys.inode, ends_bind, ends_get, ends_pure]
    split_ifs with hdir
    · refine h2.giveUp.mono ?_
      rintro _ s' ⟨_, hs', hsw⟩
      exact .failed hdeep hs' (hsw1.trans hsw)
    · rw [not_not, h2.node_eq himem hiL] at hdir
      refine (h2.iunlock hiL).bind ?_
      rintro _ s3 ⟨h3, hfs3, hin3⟩
      rw [erase_singleton] at h3
      have hcwd : s3.cwd c.pid = s.cwd c.pid := by rw [h3.same.cwd]
      simp only [ends_bind, ends_get, ends_modify, ends_pure, hcwd]
      refine (h3.iput_base (h.begun.cwd_pos _) (notMem_empty _)).mono ?_
      rintro _ s4 ⟨h4, hdrop, hstay⟩
      have h5 : Busy s (drop s.refs (s.cwd c.pid)) {(i, n)} ∅ s4.ended := h4.ended
      have hfs : s3.fs = s2.fs := hfs3
      refine .changed i n s2.fs hdeep hsw1 hdir ?_ (h5.setCwd c.pid i)
        ⟨hfs ▸ hdrop.swept, hdrop.dead⟩
      show (s4.inode i).valid = true
      rw [(hstay i (h4.ref_pos himem)).2.2, hin3]
      exact h2.valid i hiL

/-! ## `sys_close` -/

/-- What a call of `sys_close` has done. -/
inductive CloseDone (s : State) (c : Caller) (fd : Fin NOFILE) (s' : State) : Prop
  | failed : s.ofile c.pid fd = none → s' = s → CloseDone s c fd s'
  /-- Others have the file open, or it is not that of an inode. -/
  | other (f : Fin NFILE) (file : File) : s.ofile c.pid fd = some f →
      (1 < (s.ftable f).ref ∧ file = { s.ftable f with ref := (s.ftable f).ref - 1 } ∨
        (s.ftable f).ref = 1 ∧ (s.ftable f).type ≠ .inode ∧
          file = { s.ftable f with ref := 0, type := .none }) →
      s' = (s.setFd c.pid fd none).setFile f file → CloseDone s c fd s'
  | closed (f : Fin NFILE) : s.ofile c.pid fd = some f → (s.ftable f).ref = 1 →
      (s.ftable f).type = .inode →
      Busy ((s.setFd c.pid fd none).setFile f { s.ftable f with ref := 0, type := .none })
        (drop s.refs (s.ftable f).ip) 0 ∅ s' → Dropped s (s.ftable f).ip s.fs s' → CloseDone s c fd s'

lemma Good.file_pos (h : Good s) {f : Fin NFILE} (href : 0 < (s.ftable f).ref)
    (htype : (s.ftable f).type = .inode) : 0 < s.refs (s.ftable f).ip := by
  have hle := h.handles (s.ftable f).ip
  have hone := Finset.single_le_sum (f := fun g => if (s.ftable g).Holds (s.ftable f).ip then 1 else 0)
    (fun _ _ => Nat.zero_le _) (Finset.mem_univ f)
  have hholds : (s.ftable f).Holds (s.ftable f).ip := ⟨href, htype, rfl⟩
  simp only [if_pos hholds] at hone
  unfold State.holders at hle
  unfold State.refs
  omega

/-- A call of `sys_close`. -/
lemma Good.sysClose (h : Good s) (fd : Fin NOFILE) :
    Ends (sysClose c fd) s (fun _ s' => CloseDone s c fd s') Proceeds := by
  unfold Sys.sysClose
  simp only [ends_bind, ends_get]
  split
  case h_1 hnone => exact .failed hnone rfl
  case h_2 f hf =>
    unfold fileclose
    have hft : (s.setFd c.pid fd none).ftable = s.ftable := rfl
    simp only [ends_bind, ends_get, ends_modify, ends_pure, hft]
    by_cases href : (s.ftable f).ref < 1
    · rw [if_pos href]
      exact Stop.noConfusion
    rw [if_neg href]
    by_cases hshared : 1 < (s.ftable f).ref
    · rw [if_pos hshared]
      exact .other f _ hf (Or.inl ⟨hshared, rfl⟩) rfl
    rw [if_neg hshared]
    simp only [ends_bind, ends_modify]
    by_cases htype : (s.ftable f).type = .inode
    · rw [if_pos htype]
      have hb := (h.busy.setFd c.pid fd none).setFile f { s.ftable f with ref := 0, type := .none }
      simp only [beginOp, endOp, ends_bind, ends_modify]
      refine (hb.begun.iput_base (h.file_pos (by omega) htype) (notMem_empty _)).mono ?_
      rintro _ s1 ⟨h1, hdrop, _⟩
      exact .closed f hf (by omega) htype h1.ended ⟨hdrop.swept, hdrop.dead⟩
    · rw [if_neg htype]
      exact .other f _ hf (Or.inr ⟨by omega, htype, rfl⟩) rfl

/-! ## `sys_symlink` -/

/-- A call of `sys_symlink` that finds the directory of the link keeps a reference, and the link that
it makes has no link count. -/
lemma Good.sysSymlink (h : Good s) (target linkpath : List UInt8) :
    Ends (sysSymlink c (some target) (some linkpath)) s (fun r s' =>
      (s.parentOf c linkpath = none ∧ Busy s s.refs 0 ∅ s' ∨
        s.parentOf c linkpath ≠ none ∧ ∃ R, R ≠ 0 ∧ Busy s s.refs R ∅ s') ∧
      (r = 0 → ∃ d name n, s.parentOf c linkpath = some (d, name) ∧
        s'.fs.node n = ⟨T_SYMLINK, 0, 0, 0, target.take ADDRSIZE⟩ ∧
        (s'.fs.IsDir d → s'.fs.look d name = some n))) Proceeds := by
  unfold Sys.sysSymlink beginOp endOp
  simp only [ends_bind, ends_modify]
  refine (h.begun.busy.namex (c := c) (h.begun.cwd_pos _) linkpath true).mono ?_
  rintro r s1 ⟨hsw1, hr⟩
  rcases r with _ | ⟨d, name⟩
  · obtain ⟨ht, h1⟩ := hr
    exact ⟨Or.inl ⟨ht, h1.ended⟩, fun hr => absurd hr (by decide)⟩
  obtain ⟨m, ht, h1, hd1⟩ := hr
  have ht : s.parentOf c linkpath = some (m, name) := ht
  have hkept : ∀ {R : Multiset Ref} {s' : State}, R ≠ 0 → Busy s s.refs R ∅ s' →
      s.parentOf c linkpath = none ∧ Busy s s.refs 0 ∅ s' ∨
        s.parentOf c linkpath ≠ none ∧ ∃ R, R ≠ 0 ∧ Busy s s.refs R ∅ s' :=
    fun hR hs' => Or.inr ⟨by simp [ht], _, hR, hs'⟩
  simp only [ends_bind]
  refine (h1.namei (c := c) (h.begun.cwd_pos _) target).mono ?_
  rintro r s2 ⟨hsw2, hr⟩
  rcases r with _ | j
  · -- the reference to the directory is not given up
    rcases hr with ⟨-, h2⟩ | ⟨-, i, n, h2⟩
    · exact ⟨hkept (cons_ne_zero) h2.ended, fun hr => absurd hr (by decide)⟩
    · exact ⟨hkept (cons_ne_zero) h2.ended, fun hr => absurd hr (by decide)⟩
  obtain ⟨-, k, h2⟩ := hr
  simp only [ends_bind]
  refine (h2.iput_swept (notMem_empty _)).mono ?_
  rintro _ s3 ⟨h3, hsw3⟩
  have hdmem : (d, m) ∈ (d, m) ::ₘ (0 : Multiset Ref) := mem_cons_self _ _
  have hdL : d ∈ ({d} : Finset Slot) := mem_singleton_self d
  refine (h3.ilock hdmem (notMem_empty _)).mono ?_
  rintro _ s4 ⟨h4, hfs4⟩
  rw [insert_empty_eq] at h4
  have hU : ¬ Spare s.begun s.begun.refs ((d, m) ::ₘ 0) m := fun hU => hU.2 _ hdmem rfl
  have hdir4 : s4.fs.IsDir m := by
    rw [Files.IsDir, hfs4, (hsw3.keeps hU).1, (hsw2.keeps hU).1]
    exact (hd1 rfl).1
  refine (h4.dirlookup hdmem hdL hdir4 name).mono ?_
  rintro r s5 ⟨hfs5, hr⟩
  rcases r with _ | ⟨j, off⟩
  · obtain ⟨hnone, h5⟩ := hr
    simp only [Option.isSome_none, Bool.false_eq_true, if_false]
    have htype : T_SYMLINK ≠ 0 := by decide
    refine h5.newInode (by rwa [hfs5]) htype fun i n s8 _ _ hnm hid h8 hfs8 => ?_
    have himem : (i, n) ∈ (i, n) ::ₘ (d, m) ::ₘ (0 : Multiset Ref) := mem_cons_self _ _
    have hdmem' : (d, m) ∈ (i, n) ::ₘ (d, m) ::ₘ (0 : Multiset Ref) :=
      Multiset.mem_cons_of_mem hdmem
    refine (h8.iunlock (Finset.mem_insert_self _ _)).bind ?_
    rintro _ s9 ⟨h9, hfs9, _⟩
    rw [Finset.erase_insert (by simpa using hid)] at h9
    have hin : (s9.inode i).inum = n := h9.inum _ himem
    have hsame : s9.fs.node m = s4.fs.node m ∧ s9.fs.dir m = s4.fs.dir m := by
      rw [hfs9, hfs8, hfs5, Files.node_setNode, if_neg hnm.symm]
      exact ⟨Function.update_of_ne hnm.symm _ _, Function.update_of_ne hnm.symm _ _⟩
    have hnode : s9.fs.node n = ⟨T_SYMLINK, 0, 0, 0, target.take ADDRSIZE⟩ := by
      rw [hfs9, hfs8, Files.node_setNode, if_pos rfl]
      simp [Files.alloc]
    simp only [Sys.inode, ends_bind, ends_get, ends_pure, hin]
    refine (h9.dirlink_new hdmem' hdL (by rw [Files.IsDir, hsame.1]; exact hdir4)
      (by rwa [hsame.2]) n).mono ?_
    rintro r s10 ⟨hr, h10, hfs10⟩
    subst hr
    simp only [lt_irrefl, if_false]
    rw [cons_swap] at h10
    -- the reference to the new inode is not given up
    refine (h10.iunlockput_swept hdL).bind ?_
    rintro _ s11 ⟨h11, hsw11⟩
    rw [erase_singleton] at h11
    refine ⟨hkept (cons_ne_zero) h11.ended, fun _ => ⟨m, name, n, ht, ?_, fun hdir => ?_⟩⟩
    · have hkeep := hsw11.keeps (n := n) fun hU => hU.2 _ (mem_cons_self _ _) rfl
      exact hkeep.1.trans (hfs10 ▸ hnode)
    · have hsame11 := (hsw11.same (n := m) (ne_of_eq_of_ne hdir (by decide))).2
      have hfind := SlotMap.find_put_self (v := s9.fs.entry n) (hsame.2 ▸ hnone)
      show (SlotMap.find name (s11.fs.dir m)).map _ = _
      rw [hsame11, hfs10, Files.dir_setDir, if_pos rfl, hfind]
      rfl
  · -- the reference to the inode with this name is not given up
    obtain ⟨e, hf, h5⟩ := hr
    rw [cons_swap] at h5
    simp only [Option.isSome_some, if_true]
    refine (h5.iunlockput_swept hdL).bind ?_
    rintro _ s6 ⟨h6, _⟩
    rw [erase_singleton] at h6
    exact ⟨hkept (cons_ne_zero) h6.ended, fun hr => absurd hr (by decide)⟩

/-! ## `sys_getcwd` -/

/-- The loop of `sys_getcwd` ends because `temp` is filled. -/
lemma Busy.getcwdLoop {fs : Files} {beyond : ℕ → List UInt8} {fuel : ℕ} {temp : List UInt8}
    (h : Busy s₀ B {(i, n)} ∅ s) (hsw : Files.Swept (Spare s₀ B 0) fs s.fs)
    (hfuel : n = ROOTINO ∧ 0 < fuel ∨
      temp.length ≤ TEMPSIZE - 1 ∧ TEMPSIZE + 1 ≤ temp.length + fuel) :
    Ends (getcwdLoop beyond fuel i temp) s (fun r s' => Files.Swept (Spare s₀ B 0) fs s'.fs ∧
      match r with
      | none => Busy s₀ B 0 ∅ s'
      | some (j, _) => ∃ m, Busy s₀ B {(j, m)} ∅ s') Proceeds := by
  have hT : TEMPSIZE = 512 := rfl
  induction fuel generalizing i n s temp with
  | zero => omega
  | succ fuel ih =>
    have himem : (i, n) ∈ (i, n) ::ₘ (0 : Multiset Ref) := mem_cons_self _ _
    have hiL : i ∈ ({i} : Finset Slot) := mem_singleton_self i
    rw [Sys.getcwdLoop]
    have hin : (s.inode i).inum = n := h.inum _ himem
    simp only [Sys.inode, ends_bind, ends_get, ends_pure, hin]
    split_ifs with hroot
    · exact ⟨hsw, n, h⟩
    refine (h.ilock himem (notMem_empty _)).bind ?_
    rintro _ s1 ⟨h1, hfs1⟩
    rw [insert_empty_eq] at h1
    by_cases hdir : s1.fs.IsDir n
    swap
    · rw [ends_bind]
      exact h1.dirlookup_of_not himem hiL hdir dotdot
    refine (h1.dirlookup himem hiL hdir dotdot).bind ?_
    rintro r s2 ⟨hfs2, hr⟩
    rw [← hfs1, ← hfs2] at hsw
    rcases r with _ | ⟨j, off⟩
    · refine (hr.2.iunlockput_swept hiL).bind ?_
      rintro _ s3 ⟨h3, hsw3⟩
      refine ⟨hsw.trans hsw3, ?_⟩
      rwa [erase_singleton] at h3
    obtain ⟨e, -, h2⟩ := hr
    have hjmem : (j, e.inum) ∈ (j, e.inum) ::ₘ (0 : Multiset Ref) := mem_cons_self _ _
    have hjL : j ∈ ({j} : Finset Slot) := mem_singleton_self j
    rw [← Multiset.cons_zero, cons_swap] at h2
    simp only
    refine (h2.iunlockput_swept hiL).bind ?_
    rintro _ s3 ⟨h3, hsw3⟩
    rw [erase_singleton] at h3
    refine (h3.ilock hjmem (notMem_empty _)).bind ?_
    rintro _ s4 ⟨h4, hfs4⟩
    rw [insert_empty_eq] at h4
    have hsw4 : Files.Swept (Spare s₀ B 0) fs s4.fs :=
      hfs4 ▸ hsw.trans (hsw3.mono fun _ => Spare.of_cons)
    have hjn : (s4.inode j).inum = e.inum := h4.inum _ hjmem
    -- the parent is given up
    have hgive : Ends (do Sys.iunlockput j; return none : Kernel (Option (Slot × List UInt8))) s4
        (fun r s' => Files.Swept (Spare s₀ B 0) fs s'.fs ∧ match r with
          | none => Busy s₀ B 0 ∅ s'
          | some (j, _) => ∃ m, Busy s₀ B {(j, m)} ∅ s') Proceeds := by
      refine (h4.iunlockput_swept hjL).bind ?_
      rintro _ s5 ⟨h5, hsw5⟩
      refine ⟨hsw4.trans hsw5, ?_⟩
      rwa [erase_singleton] at h5
    -- the loop goes on with the parent
    have hnext : ∀ temp', (e.inum = ROOTINO ∧ 0 < fuel ∨
        temp'.length ≤ TEMPSIZE - 1 ∧ TEMPSIZE + 1 ≤ temp'.length + fuel) →
        Ends (do Sys.iunlock j; Sys.getcwdLoop beyond fuel j temp') s4
          (fun r s' => Files.Swept (Spare s₀ B 0) fs s'.fs ∧ match r with
            | none => Busy s₀ B 0 ∅ s'
            | some (j, _) => ∃ m, Busy s₀ B {(j, m)} ∅ s') Proceeds := by
      intro temp' hfuel'
      refine (h4.iunlock hjL).bind ?_
      rintro _ s5 ⟨h5, hfs5, _⟩
      rw [erase_singleton] at h5
      exact ih h5 (hfs5 ▸ hsw4) hfuel'
    simp only [ends_bind, ends_get, ends_pure, hjn]
    split
    case h_1 =>
      refine (h4.iunlock hjL).bind ?_
      rintro _ s5 ⟨h5, hfs5, _⟩
      rw [erase_singleton] at h5
      refine (h5.iput_swept (notMem_empty _)).bind ?_
      rintro _ s6 ⟨h6, hsw6⟩
      exact ⟨(hfs5 ▸ hsw4 : Files.Swept _ fs s5.fs).trans hsw6, h6⟩
    case h_2 name _ =>
      generalize htemp : (if name.length < DIRSIZ then name else name ++ beyond fuel) ++ temp = temp'
      have hlen : temp.length ≤ temp'.length := by
        rw [← htemp, List.length_append]
        omega
      split_ifs with hlong hparent hfull
      · exact hgive
      · exact hnext temp' (Or.inl ⟨hparent, by omega⟩)
      · exact hgive
      · refine hnext (slash :: temp') (Or.inr ?_)
        rw [List.length_cons]
        omega

/-- `sys_getcwd` gives up what it takes. -/
lemma Good.sysGetcwd (h : Good s) (beyond : ℕ → List UInt8) (buf : Bool) (size : ℤ) :
    Ends (sysGetcwd c beyond buf size) s (fun _ s' => Busy s s.refs 0 ∅ s' ∧
      Files.Swept s.Unheld s.fs s'.fs) Proceeds := by
  unfold Sys.sysGetcwd
  by_cases hbad : buf = false ∨ size ≤ 0
  · rw [if_pos hbad]
    exact ⟨h.busy, .refl⟩
  rw [if_neg hbad]
  simp only [ends_bind, ends_get]
  refine (h.busy.idup (h.cwd_pos c.pid)).mono ?_
  rintro i s1 ⟨hi, h1, hfs1⟩
  subst hi
  simp only [Sys.inode, ends_bind, ends_get, ends_pure]
  by_cases hroot : (s1.inode (s.cwd c.pid)).inum = ROOTINO
  · rw [if_pos hroot]
    refine (h1.iput_swept (notMem_empty _)).bind ?_
    rintro _ s2 ⟨h2, hsw2⟩
    exact ⟨h2, hfs1 ▸ hsw2⟩
  rw [if_neg hroot]
  have hsw1 : Files.Swept s.Unheld s.fs s1.fs := hfs1 ▸ Relation.ReflTransGen.refl
  refine (h1.getcwdLoop hsw1 (Or.inr ⟨Nat.zero_le _, by simp⟩)).bind ?_
  rintro r s2 ⟨hsw2, hr⟩
  rcases r with _ | ⟨j, temp⟩
  · exact ⟨hr, hsw2⟩
  · obtain ⟨m, h2⟩ := hr
    refine (h2.iput_swept (R := 0) (notMem_empty _)).bind ?_
    rintro _ s3 ⟨h3, hsw3⟩
    split_ifs <;> exact ⟨h3, hsw2.trans hsw3⟩

end

end Xv7.Sys
