import Xv7.Sys.Walk

/-!
# What the calls do to the files

`create`, `sys_link` and `sys_unlink` add and remove names.  For each of them there is one lemma
about a whole call: which references it leaves behind, when it waits for a lock that it holds
itself, and what has happened to the files, apart from inodes without links that were freed on the
way.
-/

namespace Xv7.Sys

open Finset (erase_insert erase_singleton mem_insert_self mem_singleton_self notMem_empty pair_comm)
open Multiset (cons_swap mem_cons_of_mem mem_cons_self)
open Icache (Slot)
open Prog

/-! ## Names that are added and removed -/

namespace Files

/-- `create` makes an inode and gives it a name. -/
def create (fs : Files) (d : ℕ) (name : Name) (n type : ℕ) (major minor : BitVec 16) : Files :=
  let fs := (fs.alloc n type).setNode n fun nd =>
    { nd with major := major, minor := minor, nlink := 1 }
  let fs := if type = T_DIR then
      ((fs.setNode d fun nd => { nd with nlink := nd.nlink + 1 }).setDir n fun m =>
        SlotMap.put m dot (fs.entry n)).setDir n fun m => SlotMap.put m dotdot (fs.entry d)
    else fs
  fs.setDir d fun m => SlotMap.put m name (fs.entry n)

/-- `sys_link` gives an inode one more name. -/
def link (fs : Files) (d : ℕ) (name : Name) (n : ℕ) : Files :=
  (fs.setNode n fun nd => { nd with nlink := nd.nlink + 1 }).setDir d fun m =>
    SlotMap.put m name (fs.entry n)

/-- `sys_unlink` takes away a name. -/
def unlink (fs : Files) (d off n : ℕ) : Files :=
  let fs' := fs.setDir d fun m => SlotMap.clear m off
  let fs' := if fs.IsDir n then fs'.setNode d fun nd => { nd with nlink := nd.nlink - 1 } else fs'
  fs'.setNode n fun nd => { nd with nlink := nd.nlink - 1 }

end Files

section

variable {s₀ s : State} {B : Slot → ℕ} {R : Multiset Ref} {i : Slot} {n : ℕ}

/-! ## `create` -/

/-- What `create` has done when it returns a locked inode. -/
inductive Created (s₀ : State) (B : Slot → ℕ) (c : Caller) (path : List UInt8) (type : ℕ)
    (major minor : BitVec 16) (fs : Files) (i : Slot) (n : ℕ) (s : State) : Prop
  /-- It has found a file. -/
  | found : type = T_FILE → (s.fs.node n).type = T_FILE → Files.Swept (Spare s₀ B 0) fs s.fs →
      Created s₀ B c path type major minor fs i n s
  /-- It has made an inode. -/
  | made (d : ℕ) (name : Name) (fs₁ : Files) :
      fs.target true (s₀.start c path) (components path) [] = some (d, name) →
      Files.Swept (Spare s₀ B 0) fs fs₁ → fs₁.IsDir d → SlotMap.find name (fs₁.dir d) = none →
      1 ≤ n → (fs₁.node n).type = 0 →
      Files.Swept (Spare s₀ B {(i, n)}) (fs₁.create d name n type major minor) s.fs →
      Created s₀ B c path type major minor fs i n s

/-- `dirlink` of a name that the directory does not have. -/
lemma Busy.dirlink_new {L : Finset Slot} {d : Slot} {name : Name} (h : Busy s₀ B R L s)
    (hd : (d, n) ∈ R) (hL : d ∈ L) (hdir : s.fs.IsDir n)
    (hnone : SlotMap.find name (s.fs.dir n) = none) (inum : ℕ) :
    Ends (Sys.dirlink d name inum) s (fun r s' => r = 0 ∧ Busy s₀ B R L s' ∧
      s'.fs = s.fs.setDir n fun m => SlotMap.put m name (s.fs.entry inum)) Proceeds := by
  refine (h.dirlink hd hL hdir name inum).imp ?_ fun e he hdead => ?_
  · rintro r s' ⟨hs', hr⟩
    rcases hr with ⟨hr, -, hfs⟩ | ⟨-, ⟨e, off, hf, -⟩, -⟩
    · exact ⟨hr, hs', hfs⟩
    · rw [hnone] at hf
      cases hf
  · obtain ⟨e, off, hf, -⟩ := he hdead
    rw [hnone] at hf
    cases hf

/-- A new inode is locked beside a directory, and gets its fields. -/
lemma Busy.newInode {α : Type} {k : Slot → Kernel α} {Q : α → State → Prop} {d : Slot} {m type : ℕ}
    {f : Node → Node} (h : Busy s₀ B {(d, m)} {d} s) (hdir : s.fs.IsDir m)
    (hf : (f ⟨type, 0, 0, 0, []⟩).type ≠ 0)
    (hk : ∀ i n s', 1 ≤ n → (s.fs.node n).type = 0 → n ≠ m → i ≠ d →
      Busy s₀ B ((i, n) ::ₘ (d, m) ::ₘ 0) {i, d} s' →
      s'.fs = (s.fs.alloc n type).setNode n f → Ends (k i) s' Q Proceeds) :
    Ends (do let i ← Sys.ialloc type; Sys.ilock i; Sys.assign i f; iupdate i; k i) s Q Proceeds := by
  refine (h.ialloc type).bind ?_
  rintro i s1 ⟨n, hone, hfree, h1, hfs1⟩
  have himem : (i, n) ∈ (i, n) ::ₘ (d, m) ::ₘ (0 : Multiset Ref) := mem_cons_self _ _
  have hdmem : (d, m) ∈ (i, n) ::ₘ (d, m) ::ₘ (0 : Multiset Ref) := by simp
  have hnm : n ≠ m := by
    rintro rfl
    rw [hdir] at hfree
    exact absurd hfree (by decide)
  have hid : i ≠ d := by
    rintro rfl
    exact hnm ((h1.inum _ himem).symm.trans (h1.inum _ hdmem))
  refine (h1.ilock himem (by simpa using hid)).bind ?_
  rintro _ s2 ⟨h2, hfs2⟩
  refine h2.assign himem (mem_insert_self _ _) (by simpa [hfs2, hfs1, Files.alloc] using hf)
    fun s3 h3 hfs3 => hk i n s3 hone hfree hnm hid h3 ?_
  rw [hfs3, hfs2, hfs1]

/-- `create`. -/
lemma Busy.create {c : Caller} (h : Busy s₀ B 0 ∅ s) (hcwd : 0 < B (s₀.cwd c.pid))
    (path : List UInt8) {type : ℕ} (htype : type ≠ 0) (major minor : BitVec 16) :
    Ends (create c path type major minor) s (fun r s' => match r with
      | none => Busy s₀ B 0 ∅ s' ∧ Files.Swept (Spare s₀ B 0) s.fs s'.fs
      | some i => ∃ n, Busy s₀ B {(i, n)} {i} s' ∧
          Created s₀ B c path type major minor s.fs i n s') Proceeds := by
  unfold Sys.create
  refine (h.namex hcwd path true).bind ?_
  rintro r s1 ⟨hsw1, hr⟩
  rcases r with _ | ⟨d, name⟩
  · exact ⟨hr.2, hsw1⟩
  obtain ⟨m, htarget, h1, hd1⟩ := hr
  obtain ⟨hdir1, -⟩ := hd1 rfl
  have hdmem : (d, m) ∈ (d, m) ::ₘ (0 : Multiset Ref) := mem_cons_self _ _
  simp only
  refine (h1.ilock hdmem (notMem_empty _)).bind ?_
  rintro _ s2 ⟨h2, hfs2⟩
  rw [insert_empty_eq] at h2
  have hdL : d ∈ ({d} : Finset Slot) := mem_singleton_self d
  have hdir2 : s2.fs.IsDir m := by rwa [hfs2]
  refine (h2.dirlookup hdmem hdL hdir2 name).bind ?_
  rintro r s3 ⟨hfs3, hr⟩
  rw [← hfs2, ← hfs3] at hsw1
  have herase : ({d} : Finset Slot).erase d = ∅ := by simp
  rcases r with _ | ⟨i, off⟩
  · -- there is no such name yet
    obtain ⟨hnone, h3⟩ := hr
    have hdir3 : s3.fs.IsDir m := by rwa [hfs3]
    simp only
    refine h3.newInode hdir3 htype fun i n s6 hone hfree hnm hid h6 hfs6' => ?_
    have himem : (i, n) ∈ (i, n) ::ₘ (d, m) ::ₘ (0 : Multiset Ref) := mem_cons_self _ _
    have hdmem' : (d, m) ∈ (i, n) ::ₘ (d, m) ::ₘ (0 : Multiset Ref) :=
      mem_cons_of_mem hdmem
    have hiL : i ∈ ({i, d} : Finset Slot) := mem_insert_self _ _
    have hdL' : d ∈ ({i, d} : Finset Slot) := by simp
    have hin : (s6.inode i).inum = n := h6.inum _ himem
    have hdir6 : s6.fs.node m = s3.fs.node m ∧ s6.fs.dir m = s3.fs.dir m := by
      rw [hfs6', Files.node_setNode, if_neg hnm.symm]
      exact ⟨Function.update_of_ne hnm.symm _ _, Function.update_of_ne hnm.symm _ _⟩
    -- the name in the directory
    have hlast : ∀ s7, Busy s₀ B ((i, n) ::ₘ (d, m) ::ₘ 0) {i, d} s7 → s7.fs.IsDir m →
        s7.fs.dir m = s3.fs.dir m →
        s7.fs.setDir m (fun l => SlotMap.put l name (s7.fs.entry n)) =
          s3.fs.create m name n type major minor →
        Ends (do
          if (← Sys.dirlink d name n) < 0 then throw (.panic .createDirlink)
          Sys.iunlockput d
          return some i) s7 (fun r s' => match r with
            | none => Busy s₀ B 0 ∅ s' ∧ Files.Swept (Spare s₀ B 0) s.fs s'.fs
            | some i => ∃ n, Busy s₀ B {(i, n)} {i} s' ∧
                Created s₀ B c path type major minor s.fs i n s') Proceeds := by
      intro s7 h7 hdir7 hsame7 hfs7
      have hnone7 : SlotMap.find name (s7.fs.dir m) = none := by rwa [hsame7, hfs3]
      refine (h7.dirlink_new hdmem' hdL' hdir7 hnone7 n).bind ?_
      rintro r s8 ⟨hr, h8, hfs8⟩
      subst hr
      simp only [lt_irrefl, if_false]
      rw [cons_swap] at h8
      refine (h8.iunlockput_swept hdL').bind ?_
      rintro _ s9 ⟨h9, hsw9⟩
      refine ⟨n, ?_, ?_⟩
      · have : ({i, d} : Finset Slot).erase d = {i} := by
          rw [pair_comm, erase_insert (by simpa using hid.symm)]
        rwa [this] at h9
      · rw [hfs8, hfs7] at hsw9
        exact .made m name s3.fs htarget hsw1 hdir3 (by rwa [hfs3]) hone hfree hsw9
    simp only [Sys.inode, ends_bind, ends_get, ends_pure, hin]
    by_cases hkind : type = T_DIR
    · rw [if_pos hkind]
      have htype6 : (s6.fs.node m).type ≠ 0 := by
        rw [hdir6.1, hdir3]
        decide
      refine h6.assign hdmem' hdL' htype6 fun s7 h7 hfs7 => ?_
      have hdir7 : s7.fs.IsDir n ∧ s7.fs.dir n = [] := by
        rw [hfs7, hfs6', Files.IsDir, Files.node_setNode, if_neg hnm, Files.node_setNode, if_pos rfl]
        exact ⟨by simpa [Files.alloc] using hkind, by simp [Files.setNode, Files.alloc]⟩
      -- `.` and `..`
      refine (h7.dirlink_new himem hiL hdir7.1 (by rw [hdir7.2]; rfl) n).bind ?_
      rintro r s8 ⟨hr, h8, hfs8⟩
      subst hr
      have hdn : (s8.inode d).inum = m := h8.inum _ hdmem'
      simp only [lt_irrefl, if_false, ends_bind, ends_get, ends_pure, hdn]
      have hdots : s8.fs.IsDir n ∧ SlotMap.find dotdot (s8.fs.dir n) = none := by
        rw [hfs8, Files.dir_setDir, if_pos rfl, hdir7.2]
        exact ⟨hdir7.1, rfl⟩
      refine (h8.dirlink_new himem hiL hdots.1 hdots.2 m).mono ?_
      rintro r s9 ⟨hr, h9, hfs9⟩
      subst hr
      simp only [lt_irrefl, if_false]
      refine hlast s9 h9 ?_ ?_ ?_
      · rw [hfs9, hfs8, hfs7, Files.IsDir, Files.node_setDir, Files.node_setDir, Files.node_setNode,
          if_pos rfl, hdir6.1]
        exact hdir3
      · rw [hfs9, Files.dir_setDir, if_neg hnm.symm, hfs8, Files.dir_setDir, if_neg hnm.symm, hfs7]
        exact hdir6.2
      · rw [Files.create, if_pos hkind, ← hfs6', hfs9, hfs8, hfs7]
        rfl
    · rw [if_neg hkind]
      refine hlast s6 h6 (by rwa [Files.IsDir, hdir6.1]) hdir6.2 ?_
      rw [Files.create, if_neg hkind, hfs6']
  · obtain ⟨e, hf, h3⟩ := hr
    rw [cons_swap] at h3
    simp only
    refine (h3.iunlockput_swept hdL).bind ?_
    rintro _ s4 ⟨h4, hsw4⟩
    rw [herase] at h4
    have himem : (i, e.inum) ∈ (i, e.inum) ::ₘ (0 : Multiset Ref) := mem_cons_self _ _
    refine (h4.ilock himem (notMem_empty _)).bind ?_
    rintro _ s5 ⟨h5, hfs5⟩
    rw [insert_empty_eq] at h5
    have hiL : i ∈ ({i} : Finset Slot) := mem_singleton_self i
    have hsw5 : Files.Swept (Spare s₀ B 0) s.fs s5.fs :=
      hfs5 ▸ hsw1.trans (hsw4.mono fun _ => Spare.of_cons)
    simp only [Sys.inode, ends_bind, ends_get, ends_pure]
    split_ifs with hfile
    · refine ⟨e.inum, h5, .found hfile.1 ?_ hsw5⟩
      rw [← h5.node_eq himem hiL]
      exact hfile.2
    · refine (h5.iunlockput_swept hiL).bind ?_
      rintro _ s6 ⟨h6, hsw6⟩
      refine ⟨?_, hsw5.trans hsw6⟩
      simpa using h6

/-! ## `sys_unlink` -/

/-- The last name of the path is not a dot and names its own directory. -/
def State.SelfUnlink (s : State) (c : Caller) (path : List UInt8) : Prop :=
  ∃ d name, s.parentOf c path = some (d, name) ∧ name ≠ dot ∧ name ≠ dotdot ∧
    s.fs.look d name = some d

lemma State.not_selfUnlink {c : Caller} {path : List UInt8} (h : s.parentOf c path = none) :
    ¬ s.SelfUnlink c path := by
  simp [State.SelfUnlink, h]

lemma State.selfUnlink_iff {c : Caller} {path : List UInt8} {name : Name}
    (h : s.parentOf c path = some (n, name)) :
    s.SelfUnlink c path ↔ name ≠ dot ∧ name ≠ dotdot ∧ s.fs.look n name = some n := by
  simp [State.SelfUnlink, h]

/-- What `sys_unlink` has done. -/
inductive Unlinked (s : State) (c : Caller) (path : List UInt8) (s' : State) : Prop
  | failed : Files.Swept s.Unheld s.fs s'.fs → Unlinked s c path s'
  | removed (d : ℕ) (name : Name) (e : Entry) (off : ℕ) (fs₁ : Files) :
      s.parentOf c path = some (d, name) → Files.Swept s.Unheld s.fs fs₁ → fs₁.IsDir d →
      name ≠ dot → name ≠ dotdot → SlotMap.find name (fs₁.dir d) = some (e, off) → e.inum ≠ d →
      (fs₁.node e.inum).type ≠ 0 → 1 ≤ (fs₁.node e.inum).nlink.toInt →
      (fs₁.IsDir e.inum → isdirempty (fs₁.dir e.inum) = true) →
      Files.Swept s.Unheld (fs₁.unlink d off e.inum) s'.fs →
      -- without links and references, the inode is freed
      ((s'.fs.node e.inum).nlink = 0 → (s'.fs.node e.inum).type ≠ 0 → ¬ s.Unheld e.inum) →
      (∀ j, 0 < (s'.inode j).ref → (s'.inode j).inum = e.inum → (s'.inode j).valid = true) →
      Unlinked s c path s'

/-- The exit `bad` of `sys_unlink`. -/
lemma Busy.unlinkBad {d : Slot} {m : ℕ} {E : Stop → Prop} (h : Busy s₀.begun B {(d, m)} {d} s) :
    Ends (unlinkBad d) s (fun _ s' => Busy s₀ B 0 ∅ s' ∧ Files.Swept (Spare s₀ B 0) s.fs s'.fs) E := by
  unfold Sys.unlinkBad
  refine (h.iunlockput_swept (R := 0) (mem_singleton_self d)).bind ?_
  rintro _ s1 ⟨h1, hsw⟩
  rw [erase_singleton] at h1
  exact ⟨h1.ended, hsw⟩

/-- One link less. -/
def Node.dropLink (nd : Node) : Node := { nd with nlink := nd.nlink - 1 }

/-- The end of `sys_unlink`. -/
lemma Busy.unlinkEnd {d : Slot} {m : ℕ} {E : Stop → Prop}
    (h : Busy s₀.begun B ((i, n) ::ₘ (d, m) ::ₘ 0) {i, d} s) (hid : i ≠ d) :
    Ends (do
      Sys.iunlockput d
      Sys.assign i Node.dropLink
      iupdate i
      Sys.iunlockput i
      modify State.ended
      return (0 : ℤ) : Kernel ℤ) s (fun r s' => r = 0 ∧ Busy s₀ B 0 ∅ s' ∧
        Files.Swept (Spare s₀ B 0) (s.fs.setNode n Node.dropLink) s'.fs ∧
        ((s'.fs.node n).nlink = 0 → (s'.fs.node n).type ≠ 0 → ¬ Spare s₀ B 0 n) ∧
        ∀ j, 0 < (s'.inode j).ref → (s'.inode j).inum = n → (s'.inode j).valid = true) E := by
  have himem : (i, n) ∈ (i, n) ::ₘ (0 : Multiset Ref) := mem_cons_self _ _
  have hiL : i ∈ ({i} : Finset Slot) := mem_singleton_self i
  rw [cons_swap] at h
  refine (h.iunlockput_swept (by simp)).bind ?_
  rintro _ s1 ⟨h1, hsw1⟩
  have herase : ({i, d} : Finset Slot).erase d = {i} := by
    rw [pair_comm, erase_insert (by simpa using hid.symm)]
  rw [herase] at h1
  refine h1.assign himem hiL (h1.type_ne_zero himem hiL) fun s2 h2 hfs2 => ?_
  refine ((h2.iunlockput hiL).and (h2.iunlockput_swept hiL)).bind ?_
  rintro _ s3 ⟨⟨h3, hfs3, hstay⟩, _, hsw3⟩
  rw [erase_singleton] at h3
  refine ⟨rfl, h3.ended, ?_, fun hlink htype hspare => ?_, fun j hj hjn => ?_⟩
  · rw [hfs2] at hsw3
    have hsw := hsw1.setNode Node.dropLink fun hU : Spare s₀.begun B ((i, n) ::ₘ 0) n =>
      hU.2 _ himem rfl
    exact (hsw.mono fun _ => Spare.of_cons).trans hsw3
  · -- otherwise `iput` would have freed it
    change (s3.fs.node n).nlink = 0 at hlink
    change (s3.fs.node n).type ≠ 0 at htype
    rw [hfs3] at hlink htype
    split_ifs at hlink htype with hfree
    · simp [Files.node_free] at htype
    · have hB : 0 < B i := by
        by_contra hB
        exact hfree ⟨hlink, by rw [held_zero]; omega⟩
      exact hspare.1 i hB ((h2.keep i hB).1.symm.trans (h2.inum _ himem))
  · obtain ⟨hpos, hnum, hval⟩ := hstay j hj
    have hji : j = i := h2.cache.distinct j i hpos (h2.ref_pos himem)
      (hnum.symm.trans (hjn.trans (h2.inum _ himem).symm))
    exact hval.trans (hji ▸ h2.valid i hiL)

/-- A call of `sys_unlink`. -/
lemma Good.sysUnlink (h : Good s) (c : Caller) (path : List UInt8) :
    Ends (sysUnlink c (some path)) s (fun r s' => Busy s s.refs 0 ∅ s' ∧
      ¬ s.SelfUnlink c path ∧ Unlinked s c path s' ∧ (r = -1 → Files.Swept s.Unheld s.fs s'.fs))
      fun e => e = .deadlock → s.SelfUnlink c path := by
  have hE : ∀ e, Proceeds e → e = .deadlock → s.SelfUnlink c path := fun e he hd => absurd hd he
  unfold Sys.sysUnlink beginOp endOp
  simp only [ends_bind, ends_modify]
  refine (h.begun.busy.namex (c := c) (h.begun.cwd_pos _) path true).imp ?_ hE
  rintro r s1 ⟨hsw1, hr⟩
  rcases r with _ | ⟨d, name⟩
  · obtain ⟨ht, h1⟩ := hr
    exact ⟨h1.ended, State.not_selfUnlink ht, .failed hsw1, fun _ => hsw1⟩
  obtain ⟨m, ht, h1, hd1⟩ := hr
  obtain ⟨hdir1, -⟩ := hd1 rfl
  have ht : s.parentOf c path = some (m, name) := ht
  have hself := State.selfUnlink_iff ht
  have hdmem : (d, m) ∈ (d, m) ::ₘ (0 : Multiset Ref) := mem_cons_self _ _
  have hdL : d ∈ ({d} : Finset Slot) := mem_singleton_self d
  simp only [ends_bind]
  refine (h1.ilock hdmem (notMem_empty _)).imp ?_ hE
  rintro _ s2 ⟨h2, hfs2⟩
  rw [insert_empty_eq] at h2
  have hdir2 : s2.fs.IsDir m := by rwa [hfs2]
  rw [← hfs2] at hsw1
  obtain ⟨-, hsame⟩ := hsw1.same (n := m) (by rw [hdir2]; decide)
  by_cases hdots : name = dot ∨ name = dotdot
  · rw [if_pos hdots]
    refine h2.unlinkBad.mono ?_
    rintro _ s3 ⟨h3, hsw3⟩
    have hsw := hsw1.trans hsw3
    refine ⟨h3, fun hs => ?_, .failed hsw, fun _ => hsw⟩
    obtain ⟨hdot, hdotdot, -⟩ := hself.mp hs
    exact hdots.elim hdot hdotdot
  rw [if_neg hdots]
  simp only [ends_bind]
  refine (h2.dirlookup hdmem hdL hdir2 name).imp ?_ hE
  rintro r s3 ⟨hfs3, hr⟩
  rw [← hfs3] at hsw1
  rcases r with _ | ⟨i, off⟩
  · obtain ⟨hnone, h3⟩ := hr
    refine h3.unlinkBad.mono ?_
    rintro _ s4 ⟨h4, hsw4⟩
    have hsw := hsw1.trans hsw4
    refine ⟨h4, fun hs => ?_, .failed hsw, fun _ => hsw⟩
    obtain ⟨-, -, hlook⟩ := hself.mp hs
    rw [Files.look, ← hsame, hnone] at hlook
    simp at hlook
  obtain ⟨e, hf, h3⟩ := hr
  have hlook : s.fs.look m name = some e.inum := by
    rw [Files.look, ← hsame, hf]
    rfl
  have himem : (i, e.inum) ∈ (i, e.inum) ::ₘ (d, m) ::ₘ (0 : Multiset Ref) :=
    mem_cons_self _ _
  have hdmem' : (d, m) ∈ (i, e.inum) ::ₘ (d, m) ::ₘ (0 : Multiset Ref) :=
    mem_cons_of_mem hdmem
  simp only [ends_bind]
  by_cases hid : i = d
  · -- the entry names the directory, which is locked
    have hnm : e.inum = m := by
      subst hid
      exact (h3.inum _ himem).symm.trans (h3.inum _ hdmem')
    refine .of_stop (h3.ilock_deadlock himem (by simpa using hid)) fun _ => hself.mpr ?_
    exact ⟨fun h => hdots (Or.inl h), fun h => hdots (Or.inr h), hnm ▸ hlook⟩
  have hnm : e.inum ≠ m := fun heq => hid (h3.slot_eq himem hdmem' heq)
  have hno : ¬ s.SelfUnlink c path := fun hs => by
    obtain ⟨-, -, hself⟩ := hself.mp hs
    exact hnm (Option.some.inj (hlook.symm.trans hself))
  refine (h3.ilock himem (by simpa using hid)).imp ?_ hE
  rintro _ s4 ⟨h4, hfs4⟩
  rw [← hfs4] at hsw1
  have hiL : i ∈ ({i, d} : Finset Slot) := mem_insert_self _ _
  have hdL' : d ∈ ({i, d} : Finset Slot) := by simp
  have hin : (s4.inode i).inum = e.inum := h4.inum _ himem
  have hdn : (s4.inode d).inum = m := h4.inum _ hdmem'
  have hdir4 : s4.fs.IsDir m := by rwa [hfs4, hfs3]
  have hf4 : SlotMap.find name (s4.fs.dir m) = some (e, off) := by rwa [hfs4, hfs3]
  simp only [Sys.inode, ends_bind, ends_get, ends_pure, h4.node_eq himem hiL, hin]
  by_cases hlink : (s4.fs.node e.inum).nlink.toInt < 1
  · rw [if_pos hlink]
    exact hE _ Stop.noConfusion
  rw [if_neg hlink]
  simp only [ends_bind, ends_get]
  by_cases hfull : (s4.fs.node e.inum).type = T_DIR ∧ isdirempty (s4.fs.dir e.inum) = false
  · rw [if_pos hfull]
    refine (h4.iunlockput_swept hiL).bind ?_
    rintro _ s5 ⟨h5, hsw5⟩
    rw [erase_insert (by simpa using hid)] at h5
    refine h5.unlinkBad.mono ?_
    rintro _ s6 ⟨h6, hsw6⟩
    have hsw := (hsw1.trans (hsw5.mono fun _ => Spare.of_cons)).trans hsw6
    exact ⟨h6, hno, .failed hsw, fun _ => hsw⟩
  rw [if_neg hfull]
  have hempty : s4.fs.IsDir e.inum → isdirempty (s4.fs.dir e.inum) = true := fun hd => by
    simpa [hd] using hfull
  -- the rest removes the name
  have hend : ∀ s5, Busy s.begun s.refs ((i, e.inum) ::ₘ (d, m) ::ₘ 0) {i, d} s5 →
      s5.fs.setNode e.inum Node.dropLink = s4.fs.unlink m off e.inum →
      Ends (do
        iunlockput d
        assign i Node.dropLink
        iupdate i
        iunlockput i
        modify State.ended
        return (0 : ℤ) : Kernel ℤ) s5 (fun r s' => Busy s s.refs 0 ∅ s' ∧
          ¬ s.SelfUnlink c path ∧ Unlinked s c path s' ∧ (r = -1 → Files.Swept s.Unheld s.fs s'.fs))
        fun e => e = .deadlock → s.SelfUnlink c path := by
    intro s5 h5 hfs5
    refine (h5.unlinkEnd hid).mono ?_
    rintro r s' ⟨rfl, hs', hsw', hdead, hval⟩
    refine ⟨hs', hno, ?_, fun hr => absurd hr (by decide)⟩
    rw [hfs5] at hsw'
    exact .removed m name e off s4.fs ht hsw1 hdir4 (fun h => hdots (Or.inl h))
      (fun h => hdots (Or.inr h)) hf4 hnm (h4.type_ne_zero himem hiL) (by omega) hempty hsw' hdead
      hval
  have h5 := h4.setDir (n := m) fun l => SlotMap.clear l off
  simp only [ends_bind, ends_get, ends_pure, ends_modify, hdn]
  by_cases hkind : (s4.fs.node e.inum).type = T_DIR
  · rw [if_pos hkind]
    have hne : (s4.fs.node m).type ≠ 0 := by
      rw [hdir4]
      decide
    refine h5.assign hdmem' hdL' hne fun s6 h6 hfs6 => hend s6 h6 ?_
    rw [hfs6, Files.unlink, if_pos hkind]
    rfl
  · rw [if_neg hkind]
    refine hend _ h5 ?_
    rw [Files.unlink, if_neg hkind]
    rfl

/-! ## `sys_link` -/

/-- `namei` finds an inode, in a state where a call has begun. -/
def State.Finds (s : State) (c : Caller) (path : List UInt8) (n : ℕ) : Prop :=
  ∃ i s', namei c path s.begun = .ok (some i, s') ∧ (s'.inode i).inum = n

/-- The old path is that of something else than a directory, and the last name of the new path
names its own directory. -/
def State.SelfLink (s : State) (c : Caller) (old new : List UInt8) : Prop :=
  (∃ n, s.Finds c old n ∧ ¬ s.fs.IsDir n) ∧
    ∃ d name, s.parentOf c new = some (d, name) ∧ s.fs.look d name = some d

lemma State.not_selfLink {c : Caller} {old new : List UInt8} (h : s.parentOf c new = none) :
    ¬ s.SelfLink c old new := by
  simp [State.SelfLink, h]

lemma State.look_of_selfLink {c : Caller} {old new : List UInt8} {name : Name}
    (h : s.SelfLink c old new) (hparent : s.parentOf c new = some (n, name)) :
    s.fs.look n name = some n := by
  obtain ⟨-, d, name', hparent', hlook⟩ := h
  rw [hparent] at hparent'
  cases hparent'
  exact hlook

/-- What `sys_link` has done. -/
inductive Linked (s : State) (c : Caller) (old new : List UInt8) (s' : State) : Prop
  | failed : Files.Swept s.Unheld s.fs s'.fs → Linked s c old new s'
  | made (n d : ℕ) (name : Name) (fs₁ : Files) : s.Finds c old n →
      s.parentOf c new = some (d, name) → Files.Swept s.Unheld s.fs fs₁ → fs₁.IsDir d →
      SlotMap.find name (fs₁.dir d) = none → (fs₁.node n).type ≠ 0 → ¬ fs₁.IsDir n →
      Files.Swept s.Unheld (fs₁.link d name n) s'.fs → Linked s c old new s'

/-- One link more. -/
def Node.addLink (nd : Node) : Node := { nd with nlink := nd.nlink + 1 }

lemma Files.dropLink_addLink (fs : Files) (n : ℕ) :
    (fs.setNode n Node.addLink).setNode n Node.dropLink = fs := by
  refine Files.ext (funext fun k => ?_) rfl rfl
  by_cases hk : k = n
  · simp [Files.node_setNode, hk, Node.addLink, Node.dropLink]
  · simp [Files.node_setNode, hk]

/-- The exit `bad` of `sys_link` takes back the link. -/
lemma Busy.linkBad {fs : Files} (h : Busy s₀.begun B {(i, n)} ∅ s)
    (hfs : s.fs = fs.setNode n Node.addLink) : Ends (linkBad i) s (fun _ s' => Busy s₀ B 0 ∅ s' ∧
      Files.Swept (Spare s₀ B 0) fs s'.fs) Proceeds := by
  have himem : (i, n) ∈ (i, n) ::ₘ (0 : Multiset Ref) := mem_cons_self _ _
  have hiL : i ∈ ({i} : Finset Slot) := mem_singleton_self i
  unfold Sys.linkBad
  refine (h.ilock himem (notMem_empty _)).bind ?_
  rintro _ s1 ⟨h1, hfs1⟩
  rw [insert_empty_eq] at h1
  refine h1.assign (f := Node.dropLink) himem hiL (h1.type_ne_zero himem hiL) fun s2 h2 hfs2 => ?_
  refine (h2.iunlockput_swept hiL).bind ?_
  rintro _ s3 ⟨h3, hsw3⟩
  rw [erase_singleton] at h3
  rw [hfs2, hfs1, hfs, Files.dropLink_addLink] at hsw3
  exact ⟨h3.ended, hsw3⟩

/-- A call of `sys_link`. -/
lemma Good.sysLink (h : Good s) (c : Caller) (old new : List UInt8) :
    Ends (sysLink c (some old) (some new)) s (fun r s' =>
      (¬ s.begun.Deep c old ∧ Busy s s.refs 0 ∅ s' ∨
        s.begun.Deep c old ∧ ∃ i n, Busy s s.refs {(i, n)} ∅ s') ∧
      ¬ s.SelfLink c old new ∧ Linked s c old new s' ∧ (r = -1 → Files.Swept s.Unheld s.fs s'.fs))
      fun e => e = .deadlock → s.SelfLink c old new := by
  have hE : ∀ e, Proceeds e → e = .deadlock → s.SelfLink c old new := fun e he hd => absurd hd he
  unfold Sys.sysLink beginOp endOp
  simp only [ends_bind, ends_modify]
  have hends := h.begun.busy.namei (c := c) (h.begun.cwd_pos _) old
  refine ends_iff.mpr ⟨fun r s1 hrun => ?_, fun e he => hE e (hends.of_error he)⟩
  obtain ⟨hsw1, hr⟩ := hends.of_ok hrun
  rcases r with _ | i
  · have hself : ¬ s.SelfLink c old new := by
      rintro ⟨⟨n, ⟨i, s', hs', -⟩, -⟩, -⟩
      rw [hrun] at hs'
      simp at hs'
    rcases hr with ⟨hdeep, h1⟩ | ⟨hdeep, i, n, h1⟩
    · exact ⟨Or.inl ⟨hdeep, h1.ended⟩, hself, .failed hsw1, fun _ => hsw1⟩
    · exact ⟨Or.inr ⟨hdeep, i, n, h1.ended⟩, hself, .failed hsw1, fun _ => hsw1⟩
  obtain ⟨hdeep, n, h1⟩ := hr
  have himem : (i, n) ∈ (i, n) ::ₘ (0 : Multiset Ref) := mem_cons_self _ _
  have hiL : i ∈ ({i} : Finset Slot) := mem_singleton_self i
  have hfinds : s.Finds c old n := ⟨i, s1, hrun, h1.inum _ himem⟩
  have honly : ∀ n', s.Finds c old n' → n' = n := by
    rintro n' ⟨i', s', hs', rfl⟩
    rw [hrun] at hs'
    simp only [Except.ok.injEq, Prod.mk.injEq, Option.some.injEq] at hs'
    rw [← hs'.1, ← hs'.2]
    exact h1.inum _ himem
  simp only [ends_bind]
  refine (h1.ilock himem (notMem_empty _)).imp ?_ hE
  rintro _ s2 ⟨h2, hfs2⟩
  rw [insert_empty_eq] at h2
  rw [← hfs2] at hsw1
  have htype2 := h2.type_ne_zero himem hiL
  obtain ⟨hnode2, -⟩ := hsw1.same htype2
  simp only [Sys.inode, ends_bind, ends_get, ends_pure, h2.node_eq himem hiL]
  by_cases hdir : (s2.fs.node n).type = T_DIR
  · rw [if_pos hdir]
    refine (h2.iunlockput_swept hiL).bind ?_
    rintro _ s3 ⟨h3, hsw3⟩
    rw [erase_singleton] at h3
    have hsw := hsw1.trans hsw3
    refine ⟨Or.inl ⟨hdeep, h3.ended⟩, ?_, .failed hsw, fun _ => hsw⟩
    rintro ⟨⟨n', hn', hnot⟩, -⟩
    rw [honly n' hn', Files.IsDir, ← hnode2] at hnot
    exact hnot hdir
  rw [if_neg hdir]
  refine h2.assign (f := Node.addLink) himem hiL htype2 fun s3 h3 hfs3 => ?_
  refine (h3.iunlock hiL).bind ?_
  rintro _ s4 ⟨h4, hfs4, _⟩
  rw [erase_singleton] at h4
  -- the walk to the new name starts from the files with one link more
  have hU : ¬ Spare s s.refs {(i, n)} n := fun hU => hU.2 _ himem rfl
  have hsw4 : Files.Swept (Spare s s.refs {(i, n)}) (s.fs.setNode n Node.addLink) s4.fs := by
    rw [hfs4, hfs3]
    refine ((hsw1.avoid htype2).mono fun k hk => ⟨hk.1.1, fun x hx => ?_⟩).setNode _ hU
    rw [Multiset.mem_singleton.mp hx]
    exact hk.2.symm
  have htarget : ∀ path, (s.fs.setNode n Node.addLink).target true (s.begun.start c path)
      (components path) [] = s.parentOf c path := fun path => by
    rw [State.parentOf]
    apply Files.target_congr
    · intro k
      rw [Files.node_setNode]
      split_ifs with hk
      · rw [hk]
        rfl
      · rfl
    · rfl
  simp only [ends_bind]
  refine (h4.namex_of_swept (c := c) hsw4 (h.begun.cwd_pos _) new true).imp ?_ hE
  rintro r s5 ⟨hsw5, hr⟩
  rw [htarget] at hr
  obtain ⟨fs1, hfs5, hsw⟩ := hsw5.of_setNode hU
  have hsw' : Files.Swept s.Unheld s.fs fs1 := hsw.mono fun _ => Spare.of_cons
  have hnode1 : fs1.node n = s2.fs.node n := (hsw.keeps hU).1.trans hnode2.symm
  rcases r with _ | ⟨d, name⟩
  · obtain ⟨ht, h5⟩ := hr
    refine (h5.linkBad hfs5).imp ?_ hE
    rintro _ s' ⟨hs', hsw6⟩
    have hsw := hsw'.trans hsw6
    exact ⟨Or.inl ⟨hdeep, hs'⟩, State.not_selfLink ht, .failed hsw, fun _ => hsw⟩
  obtain ⟨m, ht, h5, hd5⟩ := hr
  obtain ⟨hdir5, -⟩ := hd5 rfl
  have hdmem : (d, m) ∈ (d, m) ::ₘ {(i, n)} := mem_cons_self _ _
  have hdL : d ∈ ({d} : Finset Slot) := mem_singleton_self d
  simp only [ends_bind]
  refine (h5.ilock hdmem (notMem_empty _)).imp ?_ hE
  rintro _ s6 ⟨h6, hfs6⟩
  rw [insert_empty_eq] at h6
  have hdir6 : s6.fs.IsDir m := by rwa [hfs6]
  have himem' : (i, n) ∈ (d, m) ::ₘ {(i, n)} := mem_cons_of_mem (by simp)
  have hin : (s6.inode i).inum = n := h6.inum _ himem'
  simp only [ends_get, ends_pure, hin]
  -- the directory is as it was at the beginning
  have hfs6' : s6.fs = fs1.setNode n Node.addLink := hfs6.trans hfs5
  have hdir' : fs1.IsDir m ∧ fs1.dir m = s.fs.dir m := by
    have hne : (fs1.node m).type = (s6.fs.node m).type := by
      rw [hfs6', Files.node_setNode]
      split_ifs with hk
      · rw [hk]
        rfl
      · rfl
    have hd : fs1.IsDir m := hne.trans hdir6
    exact ⟨hd, (hsw'.same (by rw [hd]; decide)).2⟩
  have hlook : s.fs.look m name = (SlotMap.find name (s6.fs.dir m)).map fun r => r.1.inum := by
    rw [Files.look, ← hdir'.2, hfs6']
    rfl
  have hself : s.fs.look m name ≠ some m → ¬ s.SelfLink c old new := fun hno hs =>
    hno (State.look_of_selfLink hs ht)
  refine (h6.dirlink hdmem hdL hdir6 name n).imp ?_ fun e he hdead => ?_
  · rintro r s7 ⟨h7, hr⟩
    rcases hr with ⟨rfl, hnone, hfs7⟩ | ⟨rfl, ⟨e, off, hf, hne⟩, hsw7⟩
    · simp only [lt_irrefl, if_false]
      refine (h7.iunlockput_swept hdL).bind ?_
      rintro _ s8 ⟨h8, hsw8⟩
      rw [erase_singleton] at h8
      refine (h8.iput_swept (notMem_empty _)).bind ?_
      rintro _ s9 ⟨h9, hsw9⟩
      have hnone' : SlotMap.find name (fs1.dir m) = none := by rwa [hfs6'] at hnone
      refine ⟨Or.inl ⟨hdeep, h9.ended⟩, hself (by rw [hlook, hnone]; simp), ?_,
        fun hr => absurd hr (by decide)⟩
      refine .made n m name fs1 hfinds ht hsw' hdir'.1 hnone' ?_ ?_ ?_
      · rwa [hnode1]
      · rwa [Files.IsDir, hnode1]
      · rw [hfs7, hfs6'] at hsw8
        exact (hsw8.mono fun _ => Spare.of_cons).trans hsw9
    · simp only [show (-1 : ℤ) < 0 by decide, if_true]
      refine (h7.iunlockput_swept hdL).bind ?_
      rintro _ s8 ⟨h8, hsw8⟩
      rw [erase_singleton] at h8
      rw [hfs6'] at hsw7
      have hsw8 : Files.Swept (Spare s s.refs {(i, n)}) (fs1.setNode n Node.addLink) s8.fs :=
        (hsw7.mono fun _ => Spare.of_cons).trans hsw8
      obtain ⟨fs2, hfs8, hsw2⟩ := hsw8.of_setNode hU
      refine (h8.linkBad hfs8).imp ?_ hE
      rintro _ s' ⟨hs', hsw9⟩
      have hsw := (hsw'.trans (hsw2.mono fun _ => Spare.of_cons)).trans hsw9
      refine ⟨Or.inl ⟨hdeep, hs'⟩, hself ?_, .failed hsw, fun _ => hsw⟩
      rw [hlook, hf]
      simpa using (hne _ hdmem hdL).symm
  · -- the only lock is that of the directory
    obtain ⟨e, off, hf, x, hx, hxL, hxe⟩ := he hdead
    have hxd : x.1 = d := Finset.mem_singleton.mp hxL
    have hxm : x.2 = m := by
      rw [← h6.inum x hx, hxd]
      exact h6.inum _ hdmem
    refine ⟨⟨n, hfinds, by rwa [Files.IsDir, ← hnode2]⟩, m, name, ht, ?_⟩
    rw [hlook, hf, ← hxm, hxe]
    rfl

end

end Xv7.Sys
