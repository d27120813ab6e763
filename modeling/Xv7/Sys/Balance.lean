import Xv7.Lib.Sums
import Xv7.Sys.Deadlock

/-!
# Every call gives back what it takes

The state between two calls stays good, whatever a call does.  A call is balanced if it has ended
every operation that it has begun, holds no lock, and has changed the sum of the references by the
handles of its process.  All calls are balanced but two kinds: those that follow more than ten
links, and every `sys_symlink` that finds the directory of the link.
-/

namespace Xv7.Sys

open Function (update update_apply update_self)
open Icache (Slot)
open Ptable (NPROC)
open Prog
open Table (sum_update_add)

section

variable {s s1 s' : State} {B : Slot → ℕ} {R : Multiset Ref} {i j : Slot} {n : ℕ} {c : Caller}
  {p : Fin NPROC} {f g : Fin NFILE} {fd : Fin NOFILE} {file : File}

/-! ## Handles -/

lemma holders_setFile (s : State) (f : Fin NFILE) (file : File) (j : Slot) : (s.setFile f file).holders j + (if (s.ftable f).Holds j then 1 else 0) =
    s.holders j + if file.Holds j then 1 else 0 := by
  have hsum := sum_update_add (fun x : File => if x.Holds j then 1 else 0) s.ftable f file
  have hset : (s.setFile f file).holders j = (∑ p, if s.cwd p = j then 1 else 0) +
      ∑ g, if (update s.ftable f file g).Holds j then 1 else 0 := rfl
  rw [hset, State.holders]
  omega

lemma holders_setCwd : ({ s with cwd := update s.cwd p i } : State).holders j +
    (if s.cwd p = j then 1 else 0) = s.holders j + if i = j then 1 else 0 := by
  have hsum := sum_update_add (fun x : Slot => if x = j then 1 else 0) s.cwd p i
  simp only [State.holders] at hsum ⊢
  omega

@[simp] lemma holders_setFd {x : Option (Fin NFILE)} :
    (s.setFd p fd x).holders j = s.holders j := rfl

lemma fds_setFd (s : State) (p : Fin NPROC) (fd : Fin NOFILE) (x : Option (Fin NFILE))
    (g : Fin NFILE) : (s.setFd p fd x).fds g +
    (if s.ofile p fd = some g then 1 else 0) = s.fds g + if x = some g then 1 else 0 := by
  have houter := sum_update_add (fun y : Fin NOFILE → Option (Fin NFILE) =>
    ∑ fd, if y fd = some g then 1 else 0) s.ofile p (update (s.ofile p) fd x)
  have hinner := sum_update_add (fun y : Option (Fin NFILE) => if y = some g then 1 else 0)
    (s.ofile p) fd x
  have hset : (s.setFd p fd x).fds g = ∑ q, ∑ fd', if update s.ofile p
      (update (s.ofile p) fd x) q fd' = some g then 1 else 0 := rfl
  rw [hset, State.fds]
  omega

@[simp] lemma fds_setFile : (s.setFile f file).fds g = s.fds g := rfl

lemma ftable_setFile : (s.setFile f file).ftable g = if g = f then file else s.ftable g :=
  update_apply ..

/-! ## The state stays good -/

/-- A call has ended, and its references are handles. -/
lemma Busy.good (h : Busy s1 B R ∅ s) (hhold : ∀ i, s1.holders i ≤ B i + held R i)
    (hfds : ∀ f, s1.fds f ≤ (s1.ftable f).ref)
    (hclosed : ∀ f, (s1.ftable f).ref = 0 → (s1.ftable f).type = .none) : Good s where
  cache := h.cache
  idle := h.locked
  handles i := by
    rw [h.ref, State.holders, h.same.cwd, h.same.ftable]
    exact hhold i
  fds f := by
    rw [State.fds, h.same.ofile, h.same.ftable]
    exact hfds f
  closed f := by
    rw [h.same.ftable]
    exact hclosed f

/-- A call that has installed no handle. -/
lemma Good.of_busy (h : Good s) (hb : Busy s s.refs R ∅ s') : Good s' :=
  hb.good (fun i => (h.handles i).trans (Nat.le_add_right _ _)) h.fds h.closed

/-- A call that has opened a file. -/
lemma Good.of_withFile (h : Good s) (hf : (s.ftable f).ref = 0) (hfd : s.ofile p fd = none)
    (hb : Busy (s.withFile p fd f i) s.refs {(i, n)} ∅ s') : Good s' := by
  have hnew : ∀ j, (⟨1, .inode, i⟩ : File).Holds j ↔ i = j := fun j => by simp [File.Holds]
  refine hb.good (fun j => ?_) (fun g => ?_) fun g => ?_
  · have hset := holders_setFile s f ⟨1, .inode, i⟩ j
    have hle := h.handles j
    rw [if_neg (by simp [File.Holds, hf])] at hset
    rw [← Multiset.cons_zero, held_cons, held_zero]
    simp only [State.withFile, holders_setFd, hnew, eq_comm (a := j), State.refs] at hset ⊢
    omega
  · have hset := fds_setFd (s.setFile f ⟨1, .inode, i⟩) p fd (some f) g
    have hle := h.fds g
    have hold : (s.setFile f ⟨1, .inode, i⟩).ofile p fd = none := hfd
    rw [fds_setFile, hold] at hset
    show (State.setFd _ p fd (some f)).fds g ≤ ((s.setFile f _).ftable g).ref
    rw [ftable_setFile]
    by_cases hgf : g = f
    · subst hgf
      simp only [reduceCtorEq, if_false, if_true] at hset ⊢
      omega
    · simp only [reduceCtorEq, if_false, Option.some.injEq, if_neg (Ne.symm hgf), if_neg hgf] at hset ⊢
      omega
  · show ((s.setFile f _).ftable g).ref = 0 → ((s.setFile f _).ftable g).type = _
    rw [ftable_setFile]
    split_ifs
    · exact fun h => absurd h (by decide)
    · exact h.closed g

/-- A call that has changed the current directory. -/
lemma Good.of_setCwd (h : Good s)
    (hb : Busy { s with cwd := update s.cwd p i } (drop s.refs (s.cwd p)) {(i, n)} ∅ s') :
    Good s' := by
  refine hb.good (fun j => ?_) h.fds h.closed
  have hset := holders_setCwd (s := s) (p := p) (i := i) (j := j)
  have hle := h.handles j
  have hpos := h.cwd_pos p
  rw [← Multiset.cons_zero, held_cons, held_zero, drop, update_apply]
  simp only [eq_comm (a := j), State.refs] at hpos ⊢
  by_cases hj : s.cwd p = j
  · subst hj
    simp only [if_true] at hset ⊢
    omega
  · simp only [if_neg hj] at hset ⊢
    omega

/-- A call that has closed a descriptor. -/
lemma Good.of_close (h : Good s) {B : Slot → ℕ} (hof : s.ofile p fd = some f)
    (hhold : ∀ j, s.holders j + (if file.Holds j then 1 else 0) ≤
      B j + if (s.ftable f).Holds j then 1 else 0)
    (href : file.ref + 1 = (s.ftable f).ref) (hclosed : file.ref = 0 → file.type = .none)
    (hb : Busy ((s.setFd p fd none).setFile f file) B 0 ∅ s') : Good s' := by
  refine hb.good (fun j => ?_) (fun g => ?_) fun g => ?_
  · have hset := holders_setFile (s.setFd p fd none) f file j
    have hle := hhold j
    have hft : (s.setFd p fd none).ftable f = s.ftable f := rfl
    rw [hft, holders_setFd] at hset
    rw [held_zero]
    omega
  · have hset := fds_setFd s p fd none g
    have hle := h.fds g
    rw [hof] at hset
    rw [fds_setFile, ftable_setFile]
    have hft : (s.setFd p fd none).ftable g = s.ftable g := rfl
    by_cases hgf : g = f
    · subst hgf
      simp only [reduceCtorEq, if_false, if_true] at hset ⊢
      omega
    · simp only [reduceCtorEq, if_false, Option.some.injEq, if_neg (Ne.symm hgf), if_neg hgf, hft]
        at hset ⊢
      omega
  · rw [ftable_setFile]
    split_ifs
    · exact hclosed
    · exact h.closed g

lemma Good.of_opened {fs : Files} (h : Good s) (hs' : Opened s s.refs c i n fs s') : Good s' := by
  cases hs' with
  | failed hb _ => exact h.of_busy hb
  | handle f fd hf hfd hb _ _ => exact h.of_withFile hf hfd hb

lemma Good.of_openDone {path : List UInt8} {omode : BitVec 32} (h : Good s)
    (hs' : OpenDone s c path omode s') : Good s' := by
  cases hs' with
  | failed _ hb _ => exact h.of_busy hb
  | deep i n _ _ hb _ => exact h.of_busy hb
  | opened i n fs1 _ _ _ _ hopened => exact h.of_opened hopened
  | created i n s1 _ _ _ hopened => exact h.of_opened hopened

lemma Good.of_chdirDone {path : List UInt8} (h : Good s) (hs' : ChdirDone s c path s') : Good s' := by
  cases hs' with
  | failed _ hb _ => exact h.of_busy hb
  | deep i n _ hb _ => exact h.of_busy hb
  | changed i n fs1 _ _ _ _ hb _ => exact h.of_setCwd hb

lemma Good.of_closeDone (h : Good s) (hs' : CloseDone s c fd s') : Good s' := by
  cases hs' with
  | failed _ heq => exact heq ▸ h
  | other f file hof hfile heq =>
    have hb := (h.busy.setFd c.pid fd none).setFile f file
    subst heq
    rcases hfile with ⟨hshared, rfl⟩ | ⟨hone, htype, rfl⟩
    · refine h.of_close hof (fun j => ?_) ?_ (fun h0 => ?_) hb
      · have hiff : ({ s.ftable f with ref := (s.ftable f).ref - 1 } : File).Holds j ↔
            (s.ftable f).Holds j := and_congr_left fun _ => by
          show 0 < (s.ftable f).ref - 1 ↔ 0 < (s.ftable f).ref
          omega
        simp only [hiff]
        exact Nat.add_le_add_right (h.handles j) _
      · show (s.ftable f).ref - 1 + 1 = _
        omega
      · change (s.ftable f).ref - 1 = 0 at h0
        omega
    · refine h.of_close hof (fun j => ?_) ?_ (fun _ => rfl) hb
      · rw [if_neg (by simp [File.Holds]), if_neg (by simp [File.Holds, htype]), Nat.add_zero,
          Nat.add_zero]
        exact h.handles j
      · rw [hone]
  | closed f hof hone htype hb _ =>
    refine h.of_close hof (fun j => ?_) (by rw [hone]) (fun _ => rfl) hb
    have hpos := h.file_pos (by omega) htype
    have hle := h.handles j
    rw [if_neg (by simp [File.Holds])]
    simp only [File.Holds, hone, htype, Nat.zero_lt_one, true_and, drop, update_apply,
      eq_comm (a := j), State.refs] at hpos ⊢
    by_cases hj : (s.ftable f).ip = j
    · subst hj
      simp only [if_true]
      omega
    · simp only [if_neg hj]
      omega

lemma Good.of_makeDone {path : List UInt8} {type : ℕ} {major minor : BitVec 16} (h : Good s)
    (hs' : MakeDone s c path type major minor s') : Good s' := by
  cases hs' with
  | failed hb _ => exact h.of_busy hb
  | created i n s1 hb _ _ => exact h.of_busy hb

/-- The state is good again after every call that returns. -/
lemma Good.syscall (h : Good s) (call : Syscall) {r : ℤ}
    (hrun : syscall c call s = .ok (r, s')) : Good s' := by
  cases call with
  | «open» path omode =>
    rcases path with _ | path
    · cases hrun
      exact h
    · exact h.of_openDone ((h.sysOpen path omode).of_ok hrun)
  | link old new =>
    rcases old with _ | old
    · cases hrun
      exact h
    rcases new with _ | new
    · cases hrun
      exact h
    · obtain ⟨⟨-, hb⟩ | ⟨-, i, n, hb⟩, -⟩ := (h.sysLink c old new).of_ok hrun
      · exact h.of_busy hb
      · exact h.of_busy hb
  | unlink path =>
    rcases path with _ | path
    · cases hrun
      exact h
    · exact h.of_busy ((h.sysUnlink c path).of_ok hrun).1
  | mkdir path =>
    rcases path with _ | path
    · cases hrun
      exact h.of_busy h.begun.busy.ended
    · exact h.of_makeDone ((h.sysMake path (by decide) 0 0).of_ok hrun).1
  | mknod path major minor =>
    rcases path with _ | path
    · cases hrun
      exact h.of_busy h.begun.busy.ended
    · exact h.of_makeDone ((h.sysMake path (by decide) major minor).of_ok hrun).1
  | chdir path =>
    rcases path with _ | path
    · cases hrun
      exact h.of_busy h.begun.busy.ended
    · exact h.of_chdirDone ((h.sysChdir path).of_ok hrun)
  | symlink target linkpath =>
    rcases target with _ | target
    · cases hrun
      exact h
    rcases linkpath with _ | linkpath
    · cases hrun
      exact h
    · obtain ⟨⟨-, hb⟩ | ⟨-, R, -, hb⟩, -⟩ := (h.sysSymlink target linkpath).of_ok hrun
      · exact h.of_busy hb
      · exact h.of_busy hb
  | getcwd beyond buf size =>
    have hends : Ends (Sys.syscall c (.getcwd beyond buf size)) s
        (fun _ s' => Busy s s.refs 0 ∅ s') Proceeds :=
      ends_map.mpr ((h.sysGetcwd beyond buf size).mono fun _ _ hs' => hs'.1)
    exact h.of_busy (hends.of_ok hrun)
  | close fd => exact h.of_closeDone ((h.sysClose fd).of_ok hrun)

/-! ## Balance -/

/-- The handles of a process: its current directory, and its descriptors of files with an inode. -/
def State.handles (s : State) (p : Fin NPROC) : ℕ :=
  1 + ∑ fd, if (s.ofile p fd).any (fun f => (s.ftable f).type = .inode) then 1 else 0

/-- From `s` to `s'` every operation was ended, every lock was released, and the sum of the
references has changed as the handles of the process have. -/
def Balanced (s : State) (p : Fin NPROC) (s' : State) : Prop :=
  s'.ops = s.ops ∧ s'.locked = s.locked ∧
    (∑ i, (s'.inode i).ref) + s.handles p = (∑ i, (s.inode i).ref) + s'.handles p

lemma sum_held : ∑ i, held R i = Multiset.card R := by
  have := Multiset.sum_count_eq_card (s := Finset.univ) (m := R.map Prod.fst)
    fun a _ => Finset.mem_univ a
  rwa [Multiset.card_map] at this

lemma Busy.sum_ref (h : Busy s1 B R ∅ s) : ∑ i, (s.inode i).ref = (∑ i, B i) + Multiset.card R := by
  simp only [h.ref, Finset.sum_add_distrib, sum_held]

lemma handles_congr (hofile : s'.ofile = s.ofile) (hftable : s'.ftable = s.ftable) :
    s'.handles p = s.handles p := by
  unfold State.handles
  rw [hofile, hftable]

/-- Without a new handle, a call is balanced iff it has kept no reference. -/
lemma Good.balanced_iff (h : Good s) (hb : Busy s s.refs R ∅ s') : Balanced s p s' ↔ R = 0 := by
  have hsum : ∑ i, (s'.inode i).ref = (∑ i, (s.inode i).ref) + Multiset.card R := hb.sum_ref
  rw [Balanced, handles_congr hb.same.ofile hb.same.ftable, hsum, ← Multiset.card_eq_zero]
  constructor
  · rintro ⟨-, -, heq⟩
    omega
  · intro hR
    exact ⟨hb.same.ops, hb.locked.trans h.idle.symm, by rw [hR, Nat.add_zero]⟩

/-- A new descriptor is one handle more. -/
lemma Good.handles_withFile (h : Good s) (hf : (s.ftable f).ref = 0) (hfd : s.ofile p fd = none) :
    (s.withFile p fd f i).handles p = s.handles p + 1 := by
  -- no descriptor refers to a file that is not open
  have hnone : ∀ fd', s.ofile p fd' ≠ some f := by
    intro fd' heq
    have hle := h.fds f
    have h1 : s.fds f ≥ ∑ fd, if s.ofile p fd = some f then 1 else 0 :=
      Finset.single_le_sum (f := fun q => ∑ fd, if s.ofile q fd = some f then 1 else 0)
        (fun _ _ => Nat.zero_le _) (Finset.mem_univ p)
    have h2 := Finset.single_le_sum (f := fun fd => if s.ofile p fd = some f then 1 else 0)
      (fun _ _ => Nat.zero_le _) (Finset.mem_univ fd')
    simp only [heq, if_true] at h2
    omega
  have hsum := sum_update_add (fun o : Option (Fin NFILE) =>
    if o.any (fun g => ((s.setFile f ⟨1, .inode, i⟩).ftable g).type = .inode) then 1 else 0)
    (s.ofile p) fd (some f)
  have hof : (s.withFile p fd f i).ofile p = update (s.ofile p) fd (some f) :=
    update_self _ _ _
  have hft : (s.withFile p fd f i).ftable = (s.setFile f ⟨1, .inode, i⟩).ftable := rfl
  have hsame : ∀ fd', ((s.ofile p fd').any fun g =>
      ((s.setFile f ⟨1, .inode, i⟩).ftable g).type = .inode) =
      (s.ofile p fd').any fun g => (s.ftable g).type = .inode := by
    intro fd'
    rcases hfd' : s.ofile p fd' with _ | g
    · rfl
    · have hgf : g ≠ f := fun heq => hnone fd' (heq ▸ hfd')
      simp only [Option.any_some, ftable_setFile, if_neg hgf]
  have hold : ∑ fd', (if (s.ofile p fd').any (fun g =>
      ((s.setFile f ⟨1, .inode, i⟩).ftable g).type = .inode) then 1 else 0) =
      ∑ fd', if (s.ofile p fd').any (fun g => (s.ftable g).type = .inode) then 1 else 0 :=
    Finset.sum_congr rfl fun fd' _ => by rw [hsame]
  have hnew : (some f).any (fun g => ((s.setFile f ⟨1, .inode, i⟩).ftable g).type = .inode) = true := by
    simp only [Option.any_some, ftable_setFile, if_true, decide_true]
  rw [hold, hfd, if_pos hnew, if_neg (by simp)] at hsum
  unfold State.handles
  rw [hof, hft]
  omega

/-- A call that has opened a file is balanced. -/
lemma Good.balanced_withFile (h : Good s) (hf : (s.ftable f).ref = 0) (hfd : s.ofile p fd = none)
    (hb : Busy (s.withFile p fd f i) s.refs {(i, n)} ∅ s') : Balanced s p s' := by
  have hsum : ∑ i, (s'.inode i).ref = (∑ i, (s.inode i).ref) + 1 := hb.sum_ref
  have hhandles : s'.handles p = s.handles p + 1 := by
    rw [handles_congr hb.same.ofile hb.same.ftable, h.handles_withFile hf hfd]
  exact ⟨hb.same.ops, hb.locked.trans h.idle.symm, by omega⟩

lemma sum_drop (hi : 0 < B i) : (∑ j, drop B i j) + 1 = ∑ j, B j := by
  have hsum := sum_update_add (fun x : ℕ => x) B i (B i - 1)
  have hdrop : ∑ j, drop B i j = ∑ j, update B i (B i - 1) j := rfl
  omega

/-- A call that has changed the current directory is balanced. -/
lemma Good.balanced_setCwd (h : Good s)
    (hb : Busy { s with cwd := update s.cwd p i } (drop s.refs (s.cwd p)) {(i, n)} ∅ s') :
    Balanced s p s' := by
  have hsum : ∑ i, (s'.inode i).ref = (∑ j, drop s.refs (s.cwd p) j) + 1 := hb.sum_ref
  have hdrop : (∑ j, drop s.refs (s.cwd p) j) + 1 = ∑ i, (s.inode i).ref := sum_drop (h.cwd_pos p)
  have hhandles : s'.handles p = s.handles p := handles_congr hb.same.ofile hb.same.ftable
  exact ⟨hb.same.ops, hb.locked.trans h.idle.symm, by omega⟩

lemma Good.balanced_opened {fs : Files} (h : Good s) (hs' : Opened s s.refs c i n fs s') :
    Balanced s c.pid s' := by
  cases hs' with
  | failed hb _ => exact (h.balanced_iff hb).mpr rfl
  | handle f fd hf hfd hb _ _ => exact h.balanced_withFile hf hfd hb

/-! ## The calls that are balanced -/

/-- The call follows at most ten links to the inode it opens, enters or links to, and it is not a
`sys_symlink` that finds the directory of the link. -/
def State.Settles (s : State) (c : Caller) : Syscall → Prop
  | .open (some path) omode => omode &&& O_CREATE ≠ 0 ∨ ¬ s.begun.Deep c path
  | .link (some old) (some _) => ¬ s.begun.Deep c old
  | .chdir (some path) => ¬ s.begun.Deep c path
  | .symlink (some _) (some linkpath) => s.parentOf c linkpath = none
  | _ => True

lemma Good.balanced_openDone {path : List UInt8} {omode : BitVec 32} (h : Good s)
    (hs' : OpenDone s c path omode s') :
    Balanced s c.pid s' ↔ omode &&& O_CREATE ≠ 0 ∨ ¬ s.begun.Deep c path := by
  cases hs' with
  | failed hsettles hb _ => exact iff_of_true ((h.balanced_iff hb).mpr rfl) hsettles
  | deep i n hmode hdeep hb _ =>
    refine iff_of_false (fun hbal => ?_) fun hor => hor.elim (fun hne => hne hmode) fun hnot => hnot hdeep
    exact Multiset.singleton_ne_zero _ ((h.balanced_iff hb).mp hbal)
  | opened i n fs1 hmode hdeep _ _ hopened =>
    exact iff_of_true (h.balanced_opened hopened) (Or.inr hdeep)
  | created i n s1 hmode _ _ hopened =>
    exact iff_of_true (h.balanced_opened hopened) (Or.inl hmode)

lemma Good.balanced_chdirDone {path : List UInt8} (h : Good s) (hs' : ChdirDone s c path s') :
    Balanced s c.pid s' ↔ ¬ s.begun.Deep c path := by
  cases hs' with
  | failed hdeep hb _ => exact iff_of_true ((h.balanced_iff hb).mpr rfl) hdeep
  | deep i n hdeep hb _ =>
    refine iff_of_false (fun hbal => ?_) (not_not_intro hdeep)
    exact Multiset.singleton_ne_zero _ ((h.balanced_iff hb).mp hbal)
  | changed i n fs1 hdeep _ _ _ hb _ => exact iff_of_true (h.balanced_setCwd hb) hdeep

lemma Good.balanced_makeDone {path : List UInt8} {type : ℕ} {major minor : BitVec 16} (h : Good s)
    (hs' : MakeDone s c path type major minor s') : Balanced s c.pid s' := by
  cases hs' with
  | failed hb _ => exact (h.balanced_iff hb).mpr rfl
  | created i n s1 hb _ _ => exact (h.balanced_iff hb).mpr rfl

end

/-- A call that returns, as a step of the system. -/
def callStep (s : State) (e : Caller × Syscall) : Option State :=
  (syscall e.1 e.2 s).toOption.map Prod.snd

end Xv7.Sys
