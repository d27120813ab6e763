import Xv7.File.Table

/-!
# What a new descriptor remembers

`filealloc` does not clear the file that it takes, and neither `sys_open` nor `pipealloc` sets the
flags.  So a new descriptor has the flag `F_APPEND` of the last user of its `struct file`.  Two
histories that have led to the same files can be told apart by a new descriptor exactly if this flag
is not the same in both, or if there is no file left in one of them; and writing to a new pipe with
the flag reads the size of an inode that the pipe does not have.
-/

namespace Xv7.Ftable

open Function (update update_self)
open Machine Prog
open Ptable (NPROC)
open Sys (NFILE NOFILE)

variable {v : FileSystem} {s s' s₁ s₂ : State v} {f f₁ f₂ : Fin NFILE} {p : Fin NPROC}
  {fd : Fin NOFILE} {h h₁ h₂ k q : ℕ}

/-! ## Observations -/

/-- A way to make new descriptors. -/
inductive Make where
  | open (path : List UInt8) (omode : BitVec 32)
  | pipe (page : Bool)
  deriving DecidableEq, Repr

/-- The number of descriptors and of files that are needed. -/
def Make.need : Make → ℕ
  | .open _ _ => 1
  | .pipe _ => 2

def Make.call : Make → Call
  | .open path omode => .open path omode
  | .pipe page => .pipe page

/-- What is done with a new descriptor. -/
inductive Use where
  | read (n : ℕ)
  | write (src : List UInt8)
  | getfl
  deriving DecidableEq, Repr

def Use.call (fd : Fin NOFILE) : Use → Call
  | .read n => .read fd.val n
  | .write src => .write fd.val src
  | .getfl => .getfl fd

/-- Calls one after the other, up to one that sleeps. -/
def uses (p : Fin NPROC) : List (Fin NOFILE × Use) → Kernel v (List Result)
  | [] => return []
  | (fd, u) :: us => do
    let r ← syscall p (u.call fd)
    if r = .blocked then return [r]
    else do
      let rs ← uses p us
      return r :: rs

/-- New descriptors are made and used. -/
def observe (p : Fin NPROC) (m : Make) (us : List (Fin NOFILE × Use)) : Kernel v (List Result) := do
  let r ← syscall p m.call
  let rs ← uses p us
  return r :: rs

namespace State

/-- The files that are free. -/
def free (s : State v) : List (Fin NFILE) := (List.finRange NFILE).filter fun f => (s.ftable f).ref = 0

/-- The descriptors of a process that are free. -/
def freeFds (s : State v) (p : Fin NPROC) : List (Fin NOFILE) :=
  (List.finRange NOFILE).filter fun fd => s.ofile p fd = none

/-- The descriptors that are made. -/
def news (s : State v) (p : Fin NPROC) (m : Make) : List (Fin NOFILE) := (s.freeFds p).take m.need

end State

/-- The results, and what is on the disk in the end; nothing if the kernel stops. -/
def outcome (p : Fin NPROC) (m : Make) (us : List (Fin NOFILE × Use)) (s : State v) :
    Option (List Result × v.Names × v.Devices × (ℕ → List UInt8)) :=
  (observe p m us s).toOption.map fun x => (x.1, x.2.disk)

/-- The size of an inode is read on the way, for `F_APPEND`. -/
def Consults (p : Fin NPROC) (m : Make) (us : List (Fin NOFILE × Use)) (s : State v) : Prop :=
  ∃ x, observe p m us s = .ok x ∧ ∃ ip, .consult ip ∈ x.2.log.drop s.log.length

/-- Two states cannot be told apart by new descriptors, and no pipe reads the size of an inode. -/
def Independent (p : Fin NPROC) (m : Make) (s₁ s₂ : State v) : Prop :=
  ∀ us, (∀ x ∈ us, x.1 ∈ s₁.news p m) →
    outcome p m us s₁ = outcome p m us s₂ ∧
    ((∃ page, m = .pipe page) → ¬ Consults p m us s₁ ∧ ¬ Consults p m us s₂)

/-! ## When they are independent -/

/-- The inode that `sys_open` goes on with, and the names and the contents after `create`. -/
def FileSystem.found (v : FileSystem) (names : v.Names) (contents : ℕ → List UInt8)
    (path : List UInt8) (omode : BitVec 32) : Option (ℕ × v.Names × (ℕ → List UInt8)) :=
  if omode &&& O_CREATE ≠ 0 then
    (v.create names path).map fun x =>
      (x.1, x.2.2, if x.2.1 then Function.update contents x.1 [] else contents)
  else
    (v.namei names path).bind fun inum =>
      if v.isDir names inum ∧ omode ≠ O_RDONLY then none else some (inum, names, contents)

/-- The condition on what is there before: the table is full in both histories or in neither, and the
files that are taken have the flag in both or in neither, or not at all for a pipe.  The flag does not
matter for a device and for an empty file. -/
def Clean (p : Fin NPROC) (m : Make) (s₁ s₂ : State v) : Prop :=
  (s₁.news p m).length = m.need →
  match m with
  | .open path omode => ∀ x ∈ v.found s₁.names s₁.contents path omode,
      (s₁.free = [] ↔ s₂.free = []) ∧
      ∀ f₁ ∈ s₁.free.head?, ∀ f₂ ∈ s₂.free.head?,
        ((s₁.ftable f₁).Appends ↔ (s₂.ftable f₂).Appends) ∨ v.isDev x.2.1 x.1 ∨ x.2.2 x.1 = []
  | .pipe page => page = true →
      (s₁.free.length < 2 ↔ s₂.free.length < 2) ∧
      (2 ≤ s₁.free.length → ∀ f ∈ s₁.free.take 2, ¬ (s₁.ftable f).Appends) ∧
      (2 ≤ s₂.free.length → ∀ f ∈ s₂.free.take 2, ¬ (s₂.ftable f).Appends)

/-! ## Calls on a descriptor -/

/-- What a call does with the file. -/
def useFile (f : Fin NFILE) : Use → Kernel v Result
  | .read n => fileread f n
  | .write src => filewrite f src
  | .getfl => getfl f

lemma syscall_use (fd : Fin NOFILE) (u : Use) :
    syscall p (u.call fd) = (withFd p fd.val fun _ f => useFile f u : Kernel v Result) := by
  cases u <;> rfl

lemma withFd_eq {call : Fin NOFILE → Fin NFILE → Kernel v Result} (hfd : s.ofile p fd = some f) :
    withFd p fd.val call s = call fd f s := by
  have hrange : (0 : ℤ) ≤ fd.val ∧ (fd.val : ℤ) < NOFILE := by omega
  have hval : (⟨(fd.val : ℤ).toNat, by omega⟩ : Fin NOFILE) = fd := rfl
  show (dite _ _ _ : Kernel v Result) s = _
  rw [dif_pos hrange, hval, hfd]

lemma withFd_none {call : Fin NOFILE → Fin NFILE → Kernel v Result} (hfd : s.ofile p fd = none) :
    withFd p fd.val call s = .ok (.ret (-1), s) := by
  have hrange : (0 : ℤ) ≤ fd.val ∧ (fd.val : ℤ) < NOFILE := by omega
  have hval : (⟨(fd.val : ℤ).toNat, by omega⟩ : Fin NOFILE) = fd := rfl
  show (dite _ _ _ : Kernel v Result) s = _
  rw [dif_pos hrange, hval, hfd]
  rfl

/-- A relation between two states that every use of some descriptors keeps, with the same result. -/
def Bisimilar (p : Fin NPROC) (fds : List (Fin NOFILE)) (R : State v → State v → Prop) : Prop :=
  ∀ s₁ s₂, R s₁ s₂ → ∀ fd ∈ fds, ∀ u : Use, ∃ r s₁' s₂', syscall p (u.call fd) s₁ = .ok (r, s₁') ∧
    syscall p (u.call fd) s₂ = .ok (r, s₂') ∧ R s₁' s₂'

/-- Two runs of the same uses. -/
lemma Bisimilar.uses {fds : List (Fin NOFILE)} {R : State v → State v → Prop}
    (hR : Bisimilar p fds R) {us : List (Fin NOFILE × Use)} (hus : ∀ x ∈ us, x.1 ∈ fds) (h : R s₁ s₂) :
    ∃ rs s1' s2', uses p us s₁ = .ok (rs, s1') ∧ uses p us s₂ = .ok (rs, s2') ∧ R s1' s2' := by
  induction us generalizing s₁ s₂ with
  | nil => exact ⟨[], s₁, s₂, rfl, rfl, h⟩
  | cons x us ih =>
    obtain ⟨fd, u⟩ := x
    obtain ⟨r, s1', s2', h₁, h₂, h'⟩ := hR s₁ s₂ h fd (hus _ List.mem_cons_self) u
    rw [Ftable.uses, bind_of_ok h₁, bind_of_ok h₂]
    split_ifs
    · exact ⟨[r], s1', s2', rfl, rfl, h'⟩
    · obtain ⟨rs, t1, t2, ht1, ht2, ht⟩ := ih (fun x hx => hus x (List.mem_cons_of_mem _ hx)) h'
      exact ⟨r :: rs, t1, t2, bind_of_ok ht1, bind_of_ok ht2, ht⟩

/-! ## Two open files -/

/-- A descriptor of an open file, with its handle and its inode. -/
structure Opened (p : Fin NPROC) (fd : Fin NOFILE) (k : ℕ) (f : Fin NFILE) (h : ℕ) (s : State v) : Prop where
  slot : s.ofile p fd = some f
  type : (s.ftable f).type = .inode
  ip : (s.ftable f).ip = some h
  inum : s.inum h = k

/-- Two states in which a descriptor is for the same inode.  It is a device, or the offset is the
same, and then so is the flag, or the offset is at the end of the file. -/
structure Twins (p : Fin NPROC) (fd : Fin NOFILE) (k : ℕ) (f₁ : Fin NFILE) (h₁ : ℕ) (f₂ : Fin NFILE)
    (h₂ : ℕ) (s₁ s₂ : State v) : Prop where
  left : Opened p fd k f₁ h₁ s₁
  right : Opened p fd k f₂ h₂ s₂
  disk : s₁.disk = s₂.disk
  readable : (s₁.ftable f₁).readable = (s₂.ftable f₂).readable
  writable : (s₁.ftable f₁).writable = (s₂.ftable f₂).writable
  off : v.isDev s₁.names k ∨ ((s₁.ftable f₁).off = (s₂.ftable f₂).off ∧
    (((s₁.ftable f₁).Appends ↔ (s₂.ftable f₂).Appends) ∨
      (s₁.ftable f₁).off = (s₁.contents k).length))

/-- The offset of the file moves. -/
lemma Opened.setOff (ho : Opened p fd k f h s) (off : ℕ) :
    Opened p fd k f h (s.setFile f { s.ftable f with off }) := by
  refine ⟨ho.slot, ?_, ?_, ho.inum⟩
  all_goals simp only [State.setFile, update_self]
  · exact ho.type
  · exact ho.ip

lemma names_eq (hd : s₁.disk = s₂.disk) : s₁.names = s₂.names := congrArg Prod.fst hd

lemma devices_eq (hd : s₁.disk = s₂.disk) : s₁.devices = s₂.devices := congrArg (fun d => d.2.1) hd

lemma contents_eq (hd : s₁.disk = s₂.disk) : s₁.contents = s₂.contents := congrArg (fun d => d.2.2) hd

/-- What `readi` and `writei` leave as it was. -/
structure Aside (s s' : State v) : Prop where
  ftable : s'.ftable = s.ftable
  ofile : s'.ofile = s.ofile
  inum : s'.inum = s.inum
  names : s'.names = s.names

lemma aside_readi {off n : ℕ} : Aside s (readi s h off n).2 := by
  unfold readi
  split_ifs <;> exact ⟨rfl, rfl, rfl, rfl⟩

lemma Opened.aside (ho : Opened p fd k f h s) (ha : Aside s s') : Opened p fd k f h s' := by
  refine ⟨?_, ?_, ?_, ?_⟩
  · rw [ha.ofile, ho.slot]
  · rw [ha.ftable, ho.type]
  · rw [ha.ftable, ho.ip]
  · rw [ha.inum, ho.inum]

lemma Opened.fileread_eq (ho : Opened p fd k f h s) (n : ℕ) : fileread f n s =
    if (s.ftable f).readable = false then .ok (.ret (-1), s)
    else .ok ((readi s h (s.ftable f).off n).1, (readi s h (s.ftable f).off n).2.setFile f
      { s.ftable f with off := (s.ftable f).off + (readi s h (s.ftable f).off n).1.count }) := by
  have htype := ho.type
  have hip := ho.ip
  show (ite _ _ _ : Kernel v Result) s = _
  generalize s.ftable f = file at htype hip ⊢
  obtain ⟨type, ref, readable, writable, pipe, ip, off, flags⟩ := file
  subst htype hip
  cases pipe <;> cases readable <;> rfl

/-- Only the offset has changed. -/
lemma sought_ftable (s : State v) (f g : Fin NFILE) :
    ∃ off, (s.sought f).ftable g = { s.ftable g with off } := by
  unfold State.sought
  split_ifs
  · rcases eq_or_ne g f with rfl | hne
    · exact ⟨s.sizeOf (s.ftable g).ip, by simp [State.seekEnd, State.setFile]⟩
    · exact ⟨(s.ftable g).off, by simp [State.seekEnd, State.setFile, State.record, hne]⟩
  · exact ⟨(s.ftable g).off, rfl⟩

lemma sought_ofile : (s.sought f).ofile = s.ofile := by
  unfold State.sought
  split_ifs <;> rfl

lemma sought_disk : (s.sought f).disk = s.disk := by
  unfold State.sought
  split_ifs <;> rfl

lemma sought_inum : (s.sought f).inum = s.inum := by
  unfold State.sought
  split_ifs <;> rfl

lemma Opened.sought (ho : Opened p fd k f h s) : Opened p fd k f h (s.sought f) := by
  obtain ⟨off, hoff⟩ := sought_ftable s f f
  refine ⟨?_, ?_, ?_, ?_⟩
  · rw [sought_ofile, ho.slot]
  · rw [hoff, ho.type]
  · rw [hoff, ho.ip]
  · rw [sought_inum, ho.inum]

lemma Opened.filewrite_eq (ho : Opened p fd k f h s) (src : List UInt8) : filewrite f src s =
    if ((s.sought f).ftable f).writable = false then .ok (.ret (-1), s.sought f)
    else .ok (.ret (if (writeLoop f h src.length (s.sought f) src).2 then src.length else -1),
      (writeLoop f h src.length (s.sought f) src).1) := by
  have htype := ho.sought.type
  have hip := ho.sought.ip
  show (ite _ _ _ : Kernel v Result) (s.sought f) = _
  generalize (s.sought f).ftable f = file at htype hip ⊢
  obtain ⟨type, ref, readable, writable, pipe, ip, off, flags⟩ := file
  subst htype hip
  cases pipe <;> cases writable <;> rfl

lemma Opened.sought_eq (ho : Opened p fd k f h s) : ∃ t, Aside s t ∧ t.disk = s.disk ∧
    s.sought f = t.setFile f { s.ftable f with
      off := if (s.ftable f).Appends then (s.contents k).length else (s.ftable f).off } := by
  unfold State.sought
  split_ifs
  · refine ⟨s.record (.consult (s.ftable f).ip), ⟨rfl, rfl, rfl, rfl⟩, rfl, ?_⟩
    rw [State.seekEnd, State.sizeOf, ho.ip, ← ho.inum]
    rfl
  · exact ⟨s, ⟨rfl, rfl, rfl, rfl⟩, rfl, by simp [State.setFile]⟩

namespace Twins

/-- Both offsets move, to the same place unless it is a device. -/
lemma move {t1 t2 : State v} {o1 o2 : ℕ} (ht : Twins p fd k f₁ h₁ f₂ h₂ s₁ s₂) (ha1 : Aside s₁ t1)
    (ha2 : Aside s₂ t2) (hd : t1.disk = t2.disk)
    (hoff : ¬ v.isDev s₁.names k → o1 = o2 ∧
      (((s₁.ftable f₁).Appends ↔ (s₂.ftable f₂).Appends) ∨ o1 = (t1.contents k).length)) :
    Twins p fd k f₁ h₁ f₂ h₂ (t1.setFile f₁ { s₁.ftable f₁ with off := o1 })
      (t2.setFile f₂ { s₂.ftable f₂ with off := o2 }) := by
  have ho1 := (ht.left.aside ha1).setOff o1
  have ho2 := (ht.right.aside ha2).setOff o2
  rw [ha1.ftable] at ho1
  rw [ha2.ftable] at ho2
  refine ⟨ho1, ho2, hd, ?_, ?_, ?_⟩
  all_goals simp only [State.setFile, update_self]
  · exact ht.readable
  · exact ht.writable
  · rw [ha1.names]
    by_cases hdev : v.isDev s₁.names k
    · exact .inl hdev
    · exact .inr (hoff hdev)

lemma readi {n : ℕ} (ht : Twins p fd k f₁ h₁ f₂ h₂ s₁ s₂) :
    (readi s₁ h₁ (s₁.ftable f₁).off n).1 = (readi s₂ h₂ (s₂.ftable f₂).off n).1 ∧
    (Ftable.readi s₁ h₁ (s₁.ftable f₁).off n).2.disk = (Ftable.readi s₂ h₂ (s₂.ftable f₂).off n).2.disk := by
  have hd := ht.disk
  have hoff := ht.off
  unfold Ftable.readi
  rw [ht.left.inum, ht.right.inum]
  rw [names_eq hd] at hoff ⊢
  by_cases hdev : v.isDev s₂.names k
  · simp [hdev, State.disk, devices_eq hd, contents_eq hd]
  · rw [(hoff.resolve_left hdev).1, contents_eq hd, if_neg hdev, if_neg hdev]
    split_ifs
    · exact ⟨rfl, hd⟩
    · exact ⟨rfl, hd⟩

/-- A read in both states. -/
lemma fileread {n : ℕ} (ht : Twins p fd k f₁ h₁ f₂ h₂ s₁ s₂) :
    ∃ r s1' s2', fileread f₁ n s₁ = .ok (r, s1') ∧ Ftable.fileread f₂ n s₂ = .ok (r, s2') ∧
      Twins p fd k f₁ h₁ f₂ h₂ s1' s2' := by
  rw [ht.left.fileread_eq, ht.right.fileread_eq, ht.readable]
  split_ifs with hreadable
  · exact ⟨_, _, _, rfl, rfl, ht⟩
  obtain ⟨hres, hdisk⟩ := ht.readi (n := n)
  refine ⟨_, _, _, rfl, by rw [hres], ht.move aside_readi aside_readi hdisk fun hdev => ?_⟩
  obtain ⟨hoff, hflag⟩ := ht.off.resolve_left hdev
  rw [hres]
  refine ⟨by rw [hoff], hflag.imp_right fun hend => ?_⟩
  rw [hoff] at hend
  have hnone : Ftable.readi s₂ h₂ (s₂.ftable f₂).off n = (.bytes [], s₂) := by
    rw [Ftable.readi, ht.right.inum, ← names_eq ht.disk, if_neg hdev, ← contents_eq ht.disk, hend,
      if_neg (lt_irrefl _), List.drop_length, List.take_nil]
  rw [contents_eq hdisk, hoff, hnone]
  rw [contents_eq ht.disk] at hend
  exact hend

/-- A write at the offset in both states. -/
lemma writei {src : List UInt8} (ht : Twins p fd k f₁ h₁ f₂ h₂ s₁ s₂) :
    (writei s₁ h₁ (s₁.ftable f₁).off src = none ∧ Ftable.writei s₂ h₂ (s₂.ftable f₂).off src = none) ∨
    ∃ t1 t2, Ftable.writei s₁ h₁ (s₁.ftable f₁).off src = some t1 ∧
      Ftable.writei s₂ h₂ (s₂.ftable f₂).off src = some t2 ∧
      Twins p fd k f₁ h₁ f₂ h₂
        (t1.setFile f₁ { s₁.ftable f₁ with off := (s₁.ftable f₁).off + src.length })
        (t2.setFile f₂ { s₂.ftable f₂ with off := (s₂.ftable f₂).off + src.length }) := by
  have hd := ht.disk
  by_cases hdev : v.isDev s₁.names k
  · have hdev2 := hdev
    rw [names_eq hd] at hdev2
    cases hw : v.devwrite s₁.devices k src with
    | none =>
      have hw2 := hw
      rw [devices_eq hd] at hw2
      exact .inl ⟨by simp [Ftable.writei, ht.left.inum, hdev, hw],
        by simp [Ftable.writei, ht.right.inum, hdev2, hw2]⟩
    | some devices =>
      have hw2 := hw
      rw [devices_eq hd] at hw2
      refine .inr ⟨{ s₁ with devices }, { s₂ with devices }, by simp [Ftable.writei, ht.left.inum, hdev, hw],
        by simp [Ftable.writei, ht.right.inum, hdev2, hw2], ?_⟩
      refine ht.move ⟨rfl, rfl, rfl, rfl⟩ ⟨rfl, rfl, rfl, rfl⟩ ?_ fun hno => absurd hdev hno
      simp [State.disk, names_eq hd, contents_eq hd]
  · have hdev2 := hdev
    rw [names_eq hd] at hdev2
    obtain ⟨hoff, hflag⟩ := ht.off.resolve_left hdev
    cases hw : Append.writei (s₁.contents k) (s₁.ftable f₁).off src with
    | none =>
      have hw2 := hw
      rw [contents_eq hd, hoff] at hw2
      exact .inl ⟨by simp [Ftable.writei, ht.left.inum, hdev, hw],
        by simp [Ftable.writei, ht.right.inum, hdev2, hw2]⟩
    | some c =>
      have hw2 := hw
      rw [contents_eq hd, hoff] at hw2
      refine .inr ⟨{ s₁ with contents := update s₁.contents k c },
        { s₂ with contents := update s₂.contents k c },
        by simp [Ftable.writei, ht.left.inum, hdev, hw],
        by simp [Ftable.writei, ht.right.inum, hdev2, hw2], ?_⟩
      refine ht.move ⟨rfl, rfl, rfl, rfl⟩ ⟨rfl, rfl, rfl, rfl⟩ ?_ fun _ => ⟨by rw [hoff], hflag.imp_right fun hend => ?_⟩
      · simp [State.disk, names_eq hd, contents_eq hd, devices_eq hd]
      · unfold Append.writei at hw
        split_ifs at hw
        rw [Option.some.injEq, hend, Append.splice_end] at hw
        simp [← hw, hend]

/-- `F_APPEND` in both states. -/
lemma sought (ht : Twins p fd k f₁ h₁ f₂ h₂ s₁ s₂) :
    Twins p fd k f₁ h₁ f₂ h₂ (s₁.sought f₁) (s₂.sought f₂) := by
  obtain ⟨t1, ha1, hd1, heq1⟩ := ht.left.sought_eq
  obtain ⟨t2, ha2, hd2, heq2⟩ := ht.right.sought_eq
  rw [heq1, heq2]
  refine ht.move ha1 ha2 (by rw [hd1, hd2, ht.disk]) fun hdev => ?_
  obtain ⟨hoff, hflag⟩ := ht.off.resolve_left hdev
  rw [contents_eq hd1]
  rcases hflag with hsame | hend
  · refine ⟨?_, .inl hsame⟩
    rw [contents_eq ht.disk, hoff]
    simp only [hsame]
  · have hend2 : (s₂.ftable f₂).off = (s₂.contents k).length := by
      rw [← hoff, hend, contents_eq ht.disk]
    have hsize : (s₁.contents k).length = (s₂.contents k).length := by rw [contents_eq ht.disk]
    refine ⟨?_, .inr ?_⟩ <;> simp only [hend, hend2, ite_self, hsize]

/-- The loop of `filewrite` in both states. -/
lemma writeLoop {src : List UInt8} {fuel : ℕ} (ht : Twins p fd k f₁ h₁ f₂ h₂ s₁ s₂) :
    (writeLoop f₁ h₁ fuel s₁ src).2 = (writeLoop f₂ h₂ fuel s₂ src).2 ∧
    Twins p fd k f₁ h₁ f₂ h₂ (Ftable.writeLoop f₁ h₁ fuel s₁ src).1 (Ftable.writeLoop f₂ h₂ fuel s₂ src).1 := by
  induction fuel generalizing s₁ s₂ src with
  | zero => exact ⟨rfl, ht⟩
  | succ fuel ih =>
    simp only [Ftable.writeLoop]
    split_ifs
    · exact ⟨rfl, ht⟩
    rcases ht.writei with ⟨hw1, hw2⟩ | ⟨t1, t2, hw1, hw2, ht'⟩
    · rw [hw1, hw2]
      exact ⟨rfl, ht⟩
    · rw [hw1, hw2]
      exact ih ht'

/-- A write in both states. -/
lemma filewrite {src : List UInt8} (ht : Twins p fd k f₁ h₁ f₂ h₂ s₁ s₂) :
    ∃ r s1' s2', filewrite f₁ src s₁ = .ok (r, s1') ∧ Ftable.filewrite f₂ src s₂ = .ok (r, s2') ∧
      Twins p fd k f₁ h₁ f₂ h₂ s1' s2' := by
  have ht' := ht.sought
  obtain ⟨hres, ht''⟩ := ht'.writeLoop
  rw [ht.left.filewrite_eq, ht.right.filewrite_eq, ht'.writable, hres]
  by_cases hwritable : ((s₂.sought f₂).ftable f₂).writable = false
  · simp only [if_pos hwritable]
    exact ⟨_, _, _, rfl, rfl, ht'⟩
  · simp only [if_neg hwritable]
    exact ⟨_, _, _, rfl, rfl, ht''⟩

lemma bisimilar : Bisimilar p [fd] (Twins (v := v) p fd k f₁ h₁ f₂ h₂) := by
  intro s₁ s₂ ht fd' hfd' u
  obtain rfl := List.mem_singleton.mp hfd'
  rw [syscall_use, withFd_eq ht.left.slot, withFd_eq ht.right.slot]
  cases u with
  | read n => exact ht.fileread
  | write src => exact ht.filewrite
  | getfl =>
    refine ⟨_, s₁, s₂, rfl, ?_, ht⟩
    show _ = Except.ok (_, s₂)
    rw [ht.readable, ht.writable]
    rfl

end Twins

/-! ## Two pipes -/

/-- A descriptor of an end of a pipe, without `F_APPEND`. -/
structure PipeEnd (p : Fin NPROC) (fd : Fin NOFILE) (f : Fin NFILE) (q : ℕ) (w : Bool) (s : State v) :
    Prop where
  slot : s.ofile p fd = some f
  type : (s.ftable f).type = .pipe
  pipe : (s.ftable f).pipe = some q
  readable : (s.ftable f).readable = !w
  writable : (s.ftable f).writable = w
  plain : ¬ (s.ftable f).Appends

/-- No size of an inode was read for `F_APPEND`. -/
def Quiet (s s' : State v) : Prop := ∃ l, s'.log = s.log ++ l ∧ ∀ ip, .consult ip ∉ l

lemma Quiet.of_eq (h : s'.log = s.log) : Quiet s s' := ⟨[], by simp [h], by simp⟩

lemma Quiet.trans {s'' : State v} (h₁ : Quiet s s') (h₂ : Quiet s' s'') : Quiet s s'' := by
  obtain ⟨l, hl, hno⟩ := h₁
  obtain ⟨l', hl', hno'⟩ := h₂
  refine ⟨l ++ l', by rw [hl', hl, List.append_assoc], fun ip hmem => ?_⟩
  rcases List.mem_append.mp hmem with hmem | hmem
  · exact hno ip hmem
  · exact hno' ip hmem

lemma Quiet.record {e : Effect} (h : Quiet s s') (he : ∀ ip, e ≠ .consult ip) : Quiet s (s'.record e) :=
  h.trans ⟨[e], rfl, fun ip hmem => he ip (List.mem_singleton.mp hmem).symm⟩

/-- Nothing but the pipes and the log has changed, and no size was read. -/
structure Piping (s s' : State v) : Prop where
  ftable : s'.ftable = s.ftable
  ofile : s'.ofile = s.ofile
  disk : s'.disk = s.disk
  quiet : Quiet s s'

lemma Piping.refl (s : State v) : Piping s s := ⟨rfl, rfl, rfl, Quiet.of_eq rfl⟩

lemma PipeEnd.piping {w : Bool} (he : PipeEnd p fd f q w s) (hp : Piping s s') : PipeEnd p fd f q w s' := by
  refine ⟨?_, ?_, ?_, ?_, ?_, ?_⟩
  · rw [hp.ofile, he.slot]
  all_goals rw [hp.ftable]
  exacts [he.type, he.pipe, he.readable, he.writable, he.plain]

/-- What a use of an end does to the pipe, and what it returns. -/
def PipeBuf.use (pipe : PipeBuf) (w : Bool) : Use → Result × PipeBuf
  | .read n =>
    if w then (.ret (-1), pipe)
    else if pipe.data = [] ∧ pipe.writeopen = true then (.blocked, pipe)
    else (.bytes (pipe.data.take n), { pipe with data := pipe.data.drop n })
  | .write src =>
    if w = false then (.ret (-1), pipe)
    else
      let room := PIPESIZE - pipe.data.length
      (if src.length ≤ room then .ret src.length
        else if pipe.readopen = false then .ret (-1) else .blocked,
        { pipe with data := pipe.data ++ src.take room })
  | .getfl => (.ret (if w then 1 else 0), pipe)

lemma piping_access {pipe : PipeBuf} : Piping s ((s.record (.access q)).setPipe q pipe) :=
  ⟨rfl, rfl, rfl, (Quiet.of_eq rfl : Quiet s s).record (e := .access q) (by simp)⟩

lemma PipeEnd.fileread_eq {w : Bool} (he : PipeEnd p fd f q w s) (n : ℕ) :
    fileread f n s = if w then .ok (.ret (-1), s) else piperead q n s := by
  show (ite _ _ _ : Kernel v Result) s = _
  rw [he.readable, he.type, he.pipe]
  cases w <;> rfl

lemma PipeEnd.filewrite_eq {w : Bool} (he : PipeEnd p fd f q w s) (src : List UInt8) :
    filewrite f src s = if w then pipewrite q src s else .ok (.ret (-1), s) := by
  have hsought : s.sought f = s := if_neg he.plain
  show (ite _ _ _ : Kernel v Result) (s.sought f) = _
  simp only [hsought, he.writable, he.type, he.pipe]
  cases w <;> rfl

/-- The code does this. -/
lemma PipeEnd.useFile {w : Bool} (he : PipeEnd p fd f q w s) (u : Use) :
    ∃ s', useFile f u s = .ok (((s.pipes q).use w u).1, s') ∧ Piping s s' ∧
      s'.pipes q = ((s.pipes q).use w u).2 := by
  cases u with
  | read n =>
    rw [Ftable.useFile, he.fileread_eq]
    cases w with
    | true => exact ⟨s, rfl, Piping.refl s, rfl⟩
    | false =>
      by_cases hempty : (s.pipes q).data = [] ∧ (s.pipes q).writeopen = true
      · refine ⟨s.record (.access q), ?_, ⟨rfl, rfl, rfl, (Quiet.of_eq rfl).record (by simp)⟩, ?_⟩
        · show (ite _ _ _ : Kernel v Result) _ = _
          rw [if_pos hempty, PipeBuf.use, if_neg (by decide), if_pos hempty]
          rfl
        · rw [PipeBuf.use, if_neg (by decide), if_pos hempty]
          rfl
      · refine ⟨_, ?_, piping_access, update_self _ _ _⟩
        show (ite _ _ _ : Kernel v Result) _ = _
        rw [if_neg hempty, PipeBuf.use, if_neg (by decide), if_neg hempty]
        rfl
  | write src =>
    rw [Ftable.useFile, he.filewrite_eq]
    cases w with
    | false => exact ⟨s, rfl, Piping.refl s, rfl⟩
    | true =>
      refine ⟨_, ?_, piping_access, update_self _ _ _⟩
      show (ite _ _ _ : Kernel v Result) _ = _
      simp only [PipeBuf.use, Bool.true_eq_false, if_false]
      split_ifs <;> rfl
  | getfl =>
    refine ⟨s, ?_, Piping.refl s, rfl⟩
    show Except.ok (Result.ret (ite _ _ _), s) = _
    rw [he.readable, he.writable]
    cases w <;> rfl

/-- Two states in which two descriptors are the ends of a pipe with the same bytes; no size was read
since `b₁` and `b₂`. -/
structure PipeTwins (p : Fin NPROC) (fd0 fd1 : Fin NOFILE) (r₁ w₁ r₂ w₂ : Fin NFILE) (q₁ q₂ : ℕ)
    (b₁ b₂ s₁ s₂ : State v) : Prop where
  read₁ : PipeEnd p fd0 r₁ q₁ false s₁
  write₁ : PipeEnd p fd1 w₁ q₁ true s₁
  read₂ : PipeEnd p fd0 r₂ q₂ false s₂
  write₂ : PipeEnd p fd1 w₂ q₂ true s₂
  disk : s₁.disk = s₂.disk
  pipe : s₁.pipes q₁ = s₂.pipes q₂
  quiet₁ : Quiet b₁ s₁
  quiet₂ : Quiet b₂ s₂

lemma PipeTwins.bisimilar {fd0 fd1 : Fin NOFILE} {r₁ w1 r₂ w2 : Fin NFILE} {q1 q2 : ℕ} {b1 b2 : State v} :
    Bisimilar p [fd0, fd1] (PipeTwins p fd0 fd1 r₁ w1 r₂ w2 q1 q2 b1 b2) := by
  intro s₁ s₂ ht fd hfd u
  -- Both ends do the same, so the argument is for any one of them.
  have hend : ∀ {w : Bool} {f₁ f₂}, PipeEnd p fd f₁ q1 w s₁ → PipeEnd p fd f₂ q2 w s₂ →
      ∃ r s1' s2', syscall p (u.call fd) s₁ = .ok (r, s1') ∧ syscall p (u.call fd) s₂ = .ok (r, s2') ∧
        PipeTwins p fd0 fd1 r₁ w1 r₂ w2 q1 q2 b1 b2 s1' s2' := by
    intro w f₁ f₂ he1 he2
    obtain ⟨t1, hu1, hp1, hq1⟩ := he1.useFile u
    obtain ⟨t2, hu2, hp2, hq2⟩ := he2.useFile u
    refine ⟨((s₁.pipes q1).use w u).1, t1, t2, ?_, ?_, ?_⟩
    · rw [syscall_use, withFd_eq he1.slot, hu1]
    · rw [syscall_use, withFd_eq he2.slot, hu2, ht.pipe]
    · exact ⟨ht.read₁.piping hp1, ht.write₁.piping hp1, ht.read₂.piping hp2, ht.write₂.piping hp2,
        by rw [hp1.disk, hp2.disk, ht.disk], by rw [hq1, hq2, ht.pipe], ht.quiet₁.trans hp1.quiet,
        ht.quiet₂.trans hp2.quiet⟩
  rcases List.mem_cons.mp hfd with rfl | hfd
  · exact hend ht.read₁ ht.read₂
  · obtain rfl := List.mem_singleton.mp hfd
    exact hend ht.write₁ ht.write₂

/-! ## No new descriptor -/

/-- Two states in which some descriptors are not in use. -/
structure Without (p : Fin NPROC) (fds : List (Fin NOFILE)) (b₁ b₂ s₁ s₂ : State v) : Prop where
  none₁ : ∀ fd ∈ fds, s₁.ofile p fd = none
  none₂ : ∀ fd ∈ fds, s₂.ofile p fd = none
  disk : s₁.disk = s₂.disk
  quiet₁ : Quiet b₁ s₁
  quiet₂ : Quiet b₂ s₂

lemma Without.bisimilar {fds : List (Fin NOFILE)} {b1 b2 : State v} :
    Bisimilar p fds (Without p fds b1 b2) := by
  intro s₁ s₂ ht fd hfd u
  refine ⟨.ret (-1), s₁, s₂, ?_, ?_, ht⟩
  · rw [syscall_use, withFd_none (ht.none₁ fd hfd)]
  · rw [syscall_use, withFd_none (ht.none₂ fd hfd)]

/-! ## The calls that make descriptors -/

lemma freeFile_eq_head : s.freeFile = s.free.head? := List.head?_filter.symm

lemma freeFd_eq_head : s.freeFd p = (s.freeFds p).head? := List.head?_filter.symm

lemma filealloc_some {fs : List (Fin NFILE)} (hf : s.free = f :: fs) :
    filealloc s = .ok (some f, s.setFile f { s.ftable f with ref := 1 }) := by
  have hfree : s.freeFile = some f := by rw [freeFile_eq_head, hf, List.head?_cons]
  rw [filealloc, bind_of_ok (a := s) rfl, hfree]
  rfl

lemma filealloc_none (hf : s.free = []) : filealloc s = .ok (none, s) := by
  have hfree : s.freeFile = none := by rw [freeFile_eq_head, hf, List.head?_nil]
  rw [filealloc, bind_of_ok (a := s) rfl, hfree]
  rfl

lemma fdalloc_some {fds : List (Fin NOFILE)} (hf : s.freeFds p = fd :: fds) :
    fdalloc p f s = .ok (some fd, s.setFd p fd (some f)) := by
  have hfree : s.freeFd p = some fd := by rw [freeFd_eq_head, hf, List.head?_cons]
  rw [fdalloc, bind_of_ok (a := s) rfl, hfree]
  rfl

lemma fdalloc_none (hf : s.freeFds p = []) : fdalloc p f s = .ok (none, s) := by
  have hfree : s.freeFd p = none := by rw [freeFd_eq_head, hf, List.head?_nil]
  rw [fdalloc, bind_of_ok (a := s) rfl, hfree]
  rfl

/-- A file that was just taken is given back. -/
lemma fileclose_fresh (href : (s.ftable f).ref = 1) (htype : (s.ftable f).type = .none) :
    fileclose f s = .ok ((), s.setFile f { s.ftable f with ref := 0, type := .none }) := by
  show (ite _ _ _ : Kernel v Unit) s = _
  rw [if_neg (by omega), if_neg (by omega), htype]
  rfl

/-- The disk after the first part of `sys_open`. -/
def FileSystem.opened (v : FileSystem) (names : v.Names) (devices : v.Devices)
    (contents : ℕ → List UInt8) (path : List UInt8) (omode : BitVec 32) :
    v.Names × v.Devices × (ℕ → List UInt8) :=
  match v.found names contents path omode with
  | none => (names, devices, contents)
  | some x => (x.2.1, devices, x.2.2)

/-- The new file of `sys_open`. -/
def newFile (file : File) (h : ℕ) (omode : BitVec 32) : File :=
  { file with
    type := .inode, ref := 1, ip := some h, off := 0
    readable := omode &&& O_WRONLY = 0
    writable := omode &&& O_WRONLY ≠ 0 ∨ omode &&& O_RDWR ≠ 0 }

lemma free_type (hg : Good s) (hf : f ∈ s.free) : (s.ftable f).type = .none := by
  refine hg.kept.closed f ?_
  rw [← hg.kept.ref]
  simpa [State.free] using hf

/-- The second part of `sys_open`, when there are a file and a descriptor. -/
lemma openInode_some {omode : BitVec 32} {fs : List (Fin NFILE)} {fds : List (Fin NOFILE)}
    (hf : s.free = f :: fs) (hfd : s.freeFds p = fd :: fds) :
    ∃ s', openInode p h omode s = .ok (.ret fd.val, s') ∧ s'.disk = s.disk ∧
      Opened p fd (s.inum h) f h s' ∧ s'.ftable f = newFile (s.ftable f) h omode := by
  rw [openInode, bind_of_ok (filealloc_some hf)]
  dsimp only
  rw [bind_of_ok (fdalloc_some (s := s.setFile f _) hfd)]
  refine ⟨_, rfl, rfl, ⟨?_, ?_, ?_, rfl⟩, ?_⟩
  all_goals simp [State.setFile, State.setFd, newFile]

/-- The second part of `sys_open`, when there is no file or no descriptor. -/
lemma openInode_none {omode : BitVec 32} (hg : ∀ f ∈ s.free, (s.ftable f).type = .none)
    (hno : s.free = [] ∨ s.freeFds p = []) :
    ∃ s', openInode p h omode s = .ok (.ret (-1), s') ∧ s'.disk = s.disk ∧ s'.ofile = s.ofile := by
  cases hf : s.free with
  | nil =>
    refine ⟨s.record (.release (.iput h)), ?_, rfl, rfl⟩
    rw [openInode, bind_of_ok (filealloc_none hf)]
    rfl
  | cons f fs =>
    have hfd := hno.resolve_left (by simp [hf])
    have htype := hg f (by simp [hf])
    rw [openInode, bind_of_ok (filealloc_some hf)]
    dsimp only
    rw [bind_of_ok (fdalloc_none (s := s.setFile f _) hfd)]
    dsimp only
    rw [bind_of_ok (fileclose_fresh (by simp [State.setFile]) (by simpa [State.setFile] using htype))]
    exact ⟨_, rfl, rfl, rfl⟩

/-- The first part of `sys_open`, when it finds an inode. -/
lemma sysOpen_found {path : List UInt8} {omode : BitVec 32} {x : ℕ × v.Names × (ℕ → List UInt8)}
    (hx : v.found s.names s.contents path omode = some x) :
    sysOpen p path omode s = openInode p s.nextIp omode { s with
      names := x.2.1, contents := x.2.2, nextIp := s.nextIp + 1
      inum := update s.inum s.nextIp x.1 } := by
  unfold FileSystem.found at hx
  show (ite _ _ _ : Kernel v Result) s = _
  split_ifs at hx ⊢
  · obtain ⟨y, hy, rfl⟩ := Option.map_eq_some_iff.mp hx
    rw [hy]
    rfl
  · obtain ⟨inum, hy, hdir⟩ := Option.bind_eq_some_iff.mp hx
    split_ifs at hdir with hrefuse
    obtain rfl := Option.some.inj hdir
    rw [hy]
    show (ite _ _ _ : Kernel v Result) _ = _
    rw [if_neg hrefuse]

/-- The first part of `sys_open`, when it does not. -/
lemma sysOpen_lost {path : List UInt8} {omode : BitVec 32}
    (hx : v.found s.names s.contents path omode = none) :
    ∃ s', sysOpen p path omode s = .ok (.ret (-1), s') ∧ s'.ofile = s.ofile ∧ s'.disk = s.disk := by
  unfold FileSystem.found at hx
  show ∃ s', (ite _ _ _ : Kernel v Result) s = _ ∧ _
  split_ifs at hx ⊢
  · rw [Option.map_eq_none_iff.mp hx]
    exact ⟨s, rfl, rfl, rfl⟩
  · cases hy : v.namei s.names path with
    | none => exact ⟨s, rfl, rfl, rfl⟩
    | some inum =>
      rw [hy, Option.bind_some] at hx
      split_ifs at hx with hrefuse
      show ∃ s', (ite _ _ _ : Kernel v Result) _ = _ ∧ _
      rw [if_pos hrefuse]
      exact ⟨_, rfl, rfl, rfl⟩

/-- `sys_open` has made a descriptor, or has not. -/
lemma sysOpen_cases {path : List UInt8} {omode : BitVec 32} (hg : Good s) :
    (∃ x f fs fd fds, v.found s.names s.contents path omode = some x ∧ s.free = f :: fs ∧
      s.freeFds p = fd :: fds ∧ ∃ s', sysOpen p path omode s = .ok (.ret fd.val, s') ∧
      s'.disk = (x.2.1, s.devices, x.2.2) ∧ Opened p fd x.1 f s.nextIp s' ∧
      s'.ftable f = newFile (s.ftable f) s.nextIp omode) ∨
    (v.found s.names s.contents path omode = none ∨ s.free = [] ∨ s.freeFds p = []) ∧
      ∃ s', sysOpen p path omode s = .ok (.ret (-1), s') ∧ s'.ofile = s.ofile ∧
        s'.disk = v.opened s.names s.devices s.contents path omode := by
  cases hx : v.found s.names s.contents path omode with
  | none =>
    obtain ⟨s', hs', hofile, hdisk⟩ := sysOpen_lost (p := p) hx
    exact .inr ⟨.inl rfl, s', hs', hofile, by rw [hdisk, FileSystem.opened, hx]; rfl⟩
  | some x =>
    rw [sysOpen_found hx]
    by_cases hno : s.free = [] ∨ s.freeFds p = []
    · obtain ⟨s', hs', hdisk, hofile⟩ := openInode_none (s := { s with
        names := x.2.1, contents := x.2.2, nextIp := s.nextIp + 1
        inum := update s.inum s.nextIp x.1 }) (h := s.nextIp)
        (fun f hf => free_type (s := s) hg hf) hno
      exact .inr ⟨.inr hno, s', hs', hofile, by rw [hdisk, FileSystem.opened, hx]; rfl⟩
    · rw [not_or] at hno
      obtain ⟨f, fs, hf⟩ := List.exists_cons_of_ne_nil hno.1
      obtain ⟨fd, fds, hfd⟩ := List.exists_cons_of_ne_nil hno.2
      obtain ⟨s', hs', hdisk, hopen, hfile⟩ := openInode_some (s := { s with
        names := x.2.1, contents := x.2.2, nextIp := s.nextIp + 1
        inum := update s.inum s.nextIp x.1 }) (h := s.nextIp) hf hfd
      refine .inl ⟨x, f, fs, fd, fds, rfl, hf, hfd, s', hs', hdisk, ?_, hfile⟩
      have hinum : update s.inum s.nextIp x.1 s.nextIp = x.1 := update_self _ _ _
      exact ⟨hopen.slot, hopen.type, hopen.ip, hopen.inum.trans hinum⟩

/-- The first of the free entries is taken. -/
lemma filter_taken {n : ℕ} {P P' : Fin n → Bool} {a : Fin n} {l : List (Fin n)}
    (h : (List.finRange n).filter P = a :: l) (hP : ∀ b, P' b = (P b && decide (b ≠ a))) :
    (List.finRange n).filter P' = l := by
  have hnodup : (a :: l).Nodup := h ▸ (List.nodup_finRange n).filter _
  have hsplit : (List.finRange n).filter P' = ((List.finRange n).filter P).filter fun b => b ≠ a := by
    rw [List.filter_filter]
    exact List.filter_congr fun b _ => by rw [hP, Bool.and_comm]
  rw [hsplit, h, List.filter_cons_of_neg (by simp), List.filter_eq_self]
  intro b hb
  have hne : b ≠ a := by
    rintro rfl
    exact (List.nodup_cons.mp hnodup).1 hb
  simpa using hne

lemma free_taken {fs : List (Fin NFILE)} (hf : s.free = f :: fs) :
    (s.setFile f { s.ftable f with ref := 1 }).free = fs := by
  refine filter_taken hf fun g => ?_
  rcases eq_or_ne g f with rfl | hne
  · simp [State.setFile]
  · simp [State.setFile, hne]

lemma freeFds_taken {fds : List (Fin NOFILE)} (hfd : s.freeFds p = fd :: fds) :
    (s.setFd p fd (some f)).freeFds p = fds := by
  refine filter_taken hfd fun g => ?_
  rcases eq_or_ne g fd with rfl | hne
  · simp [State.setFd]
  · simp [State.setFd, hne]

/-- The new file of an end of a pipe. -/
def newEnd (file : File) (q : ℕ) (w : Bool) : File :=
  { file with type := .pipe, ref := 1, readable := !w, writable := w, pipe := some q }

lemma pipealloc_some {r w : Fin NFILE} {fs : List (Fin NFILE)} (hf : s.free = r :: w :: fs) :
    ∃ s', pipealloc true s = .ok (some (r, w), s') ∧ s'.disk = s.disk ∧ s'.ofile = s.ofile ∧
      s'.log = s.log ++ [.access s.nextPipe] ∧ s'.pipes s.nextPipe = ⟨[], true, true⟩ ∧
      s'.ftable r = newEnd (s.ftable r) s.nextPipe false ∧
      s'.ftable w = newEnd (s.ftable w) s.nextPipe true := by
  have hne : w ≠ r := by
    have hnodup : (r :: w :: fs).Nodup := hf ▸ (List.nodup_finRange _).filter _
    rintro rfl
    simp at hnodup
  rw [pipealloc, bind_of_ok (filealloc_some hf)]
  dsimp only
  rw [bind_of_ok (filealloc_some (free_taken hf))]
  refine ⟨_, rfl, rfl, rfl, rfl, update_self _ _ _, ?_, ?_⟩
  all_goals simp [State.setFile, State.setPipe, State.record, newEnd, hne, hne.symm]

lemma pipealloc_none {page : Bool} (hg : Good s) (hno : page = false ∨ s.free.length < 2) :
    ∃ s', pipealloc page s = .ok (none, s') ∧ s'.disk = s.disk ∧ s'.ofile = s.ofile ∧ s'.log = s.log := by
  unfold pipealloc
  match hf : s.free with
  | [] =>
    rw [bind_of_ok (filealloc_none hf)]
    exact ⟨s, rfl, rfl, rfl, rfl⟩
  | [r] =>
    have htype := free_type hg (f := r) (by simp [hf])
    rw [bind_of_ok (filealloc_some hf)]
    dsimp only
    rw [bind_of_ok (filealloc_none (free_taken hf))]
    dsimp only
    rw [bind_of_ok (fileclose_fresh (by simp [State.setFile]) (by simpa [State.setFile] using htype))]
    exact ⟨_, rfl, rfl, rfl, rfl⟩
  | r :: w :: fs =>
    have hpage : page = false := hno.resolve_right (by simp [hf])
    have hne : w ≠ r := by
      have hnodup : (r :: w :: fs).Nodup := hf ▸ (List.nodup_finRange _).filter _
      rintro rfl
      simp at hnodup
    have htype := free_type hg (f := r) (by simp [hf])
    have htype' := free_type hg (f := w) (by simp [hf])
    rw [bind_of_ok (filealloc_some hf)]
    dsimp only
    rw [bind_of_ok (filealloc_some (free_taken hf))]
    dsimp only
    rw [if_pos hpage, bind_of_ok (fileclose_fresh (by simp [State.setFile, hne, hne.symm])
      (by simpa [State.setFile, hne, hne.symm] using htype))]
    rw [bind_of_ok (fileclose_fresh (by simp [State.setFile, hne, hne.symm])
      (by simpa [State.setFile, hne, hne.symm] using htype'))]
    exact ⟨_, rfl, rfl, rfl, rfl⟩

lemma quiet_pipeclose {w : Bool} : Ends (pipeclose q w) s (fun _ s' => Quiet s s') (fun _ => False) := by
  simp only [pipeclose, ends_bind, ends_get, ends_modify]
  have hq : Quiet s ((s.record (.access q)).record (.release (.pipeclose q w))) :=
    ((Quiet.of_eq rfl).record (by simp)).record (by simp)
  split_ifs
  all_goals first
    | exact hq
    | exact hq.record (e := .kfree q) (by simp)

/-- `fileclose` does not read the size of an inode. -/
lemma quiet_fileclose : Ends (fileclose f) s (fun _ s' => Quiet s s') (fun _ => True) := by
  simp only [fileclose, ends_bind, ends_get]
  split_ifs
  · trivial
  · exact Quiet.of_eq rfl
  simp only [ends_bind, ends_modify]
  split
  · exact quiet_pipeclose.imp (fun _ _ h => h) fun _ => False.elim
  · exact (Quiet.of_eq rfl : Quiet s s).record (by simp)
  · exact Quiet.of_eq rfl

/-- `sys_pipe` makes two descriptors. -/
lemma sysPipe_some {r w : Fin NFILE} {fs : List (Fin NFILE)} {fd0 fd1 : Fin NOFILE} {fds : List (Fin NOFILE)}
    (hf : s.free = r :: w :: fs) (hfd : s.freeFds p = fd0 :: fd1 :: fds) :
    ∃ s', sysPipe p true s = .ok (.ret 0, s') ∧ s'.disk = s.disk ∧ Quiet s s' ∧
      s'.ofile p fd0 = some r ∧ s'.ofile p fd1 = some w ∧ s'.pipes s.nextPipe = ⟨[], true, true⟩ ∧
      s'.ftable r = newEnd (s.ftable r) s.nextPipe false ∧
      s'.ftable w = newEnd (s.ftable w) s.nextPipe true := by
  have hne : fd0 ≠ fd1 := by
    have hnodup : (fd0 :: fd1 :: fds).Nodup := hfd ▸ (List.nodup_finRange _).filter _
    rintro rfl
    simp at hnodup
  obtain ⟨t, ht, hdisk, hofile, hlog, hpipe, hr, hw⟩ := pipealloc_some hf
  have hfd' : t.freeFds p = fd0 :: fd1 :: fds := by
    rw [← hfd, State.freeFds, hofile]
    rfl
  rw [sysPipe, bind_of_ok ht]
  dsimp only
  rw [bind_of_ok (fdalloc_some hfd')]
  dsimp only
  rw [bind_of_ok (fdalloc_some (freeFds_taken hfd'))]
  refine ⟨_, rfl, hdisk, ⟨_, hlog, by simp⟩, ?_, ?_, hpipe, hr, hw⟩
  all_goals simp [State.setFd, hne]

/-- `sys_pipe` makes no descriptor. -/
lemma sysPipe_none {page : Bool} (hg : Good s)
    (hno : page = false ∨ s.free.length < 2 ∨ (s.freeFds p).length < 2) :
    ∃ s', sysPipe p page s = .ok (.ret (-1), s') ∧ s'.ofile = s.ofile ∧ s'.disk = s.disk ∧ Quiet s s' := by
  by_cases hno' : page = false ∨ s.free.length < 2
  · obtain ⟨t, ht, hdisk, hofile, hlog⟩ := pipealloc_none hg hno'
    rw [sysPipe, bind_of_ok ht]
    exact ⟨t, rfl, hofile, hdisk, Quiet.of_eq hlog⟩
  obtain ⟨hpage, hlen⟩ := not_or.mp hno'
  have hfew : (s.freeFds p).length < 2 := (hno.resolve_left hpage).resolve_left hlen
  rw [Bool.not_eq_false] at hpage
  subst hpage
  obtain ⟨r, w, fs, hf⟩ : ∃ r w fs, s.free = r :: w :: fs := by
    match hs : s.free with
    | [] => simp [hs] at hlen
    | [_] => simp [hs] at hlen
    | r :: w :: fs => exact ⟨r, w, fs, rfl⟩
  obtain ⟨t, ht, hdisk, hofile, hlog, -⟩ := pipealloc_some hf
  have hquiet : Quiet s t := ⟨_, hlog, by simp⟩
  have hkept := (hg.kept.pipealloc.of_ok ht).2.1
  -- The files are closed again, whether a descriptor was taken or not.
  have hundo : ∃ s', (do fileclose r; fileclose w; return Result.ret (-1) : Kernel v Result) t =
      .ok (.ret (-1), s') ∧ s'.ofile = s.ofile ∧ s'.disk = s.disk ∧ Quiet s s' := by
    obtain ⟨a, s', hs', rfl, hframe, -⟩ := hkept.undo.exists_ok
    have hq : Ends (do fileclose r; fileclose w; return Result.ret (-1) : Kernel v Result) t
        (fun _ s' => Quiet t s') (fun _ => True) := by
      refine quiet_fileclose.bind fun _ t1 ht1 => ?_
      refine quiet_fileclose.bind fun _ t2 ht2 => ?_
      exact ht1.trans ht2
    exact ⟨s', hs', hframe.ofile.trans hofile, hframe.disk.trans hdisk, hquiet.trans (hq.of_ok hs')⟩
  rw [sysPipe, bind_of_ok ht]
  dsimp only
  have hfds : t.freeFds p = s.freeFds p := by
    rw [State.freeFds, hofile]
    rfl
  match hfd : s.freeFds p with
  | [] =>
    rw [bind_of_ok (fdalloc_none (hfds.trans hfd))]
    exact hundo
  | [fd0] =>
    have hfree : t.ofile p fd0 = none := by
      have : fd0 ∈ t.freeFds p := by simp [hfds, hfd]
      simpa [State.freeFds] using this
    rw [bind_of_ok (fdalloc_some (hfds.trans hfd))]
    dsimp only
    rw [bind_of_ok (fdalloc_none (freeFds_taken (hfds.trans hfd)))]
    obtain ⟨s', hs', hrest⟩ := hundo
    rw [← setFd_back (x := some r) hfree] at hs'
    exact ⟨s', hs', hrest⟩
  | _ :: _ :: _ => simp [hfd] at hfew

/-! ## Two histories -/

section

variable {m : Make} {us : List (Fin NOFILE × Use)} {t t1 t2 : State v} {r r₁ r₂ : Result}

lemma observe_eq {rs : List Result} (hm : syscall p m.call s = .ok (r, t)) (hu : uses p us t = .ok (rs, s')) :
    observe p m us s = .ok (r :: rs, s') := by
  rw [observe, bind_of_ok hm, bind_of_ok hu]
  rfl

lemma outcome_eq {rs : List Result} (hs' : observe p m us s = .ok (rs, s')) :
    outcome p m us s = some (rs, s'.disk) := by
  rw [outcome, hs']
  rfl

lemma not_consults {rs : List Result} (hs' : observe p m us s = .ok (rs, s')) (hq : Quiet s s') :
    ¬ Consults p m us s := by
  rintro ⟨x, hx, ip, hmem⟩
  rw [hs'] at hx
  cases hx
  obtain ⟨l, hl, hno⟩ := hq
  rw [hl, List.drop_left] at hmem
  exact hno ip hmem

/-- Descriptors that start out in a bisimulation cannot be told apart. -/
lemma Bisimilar.observe {fds : List (Fin NOFILE)} {R : State v → State v → Prop} (hR : Bisimilar p fds R)
    (hus : ∀ x ∈ us, x.1 ∈ fds) (hm1 : syscall p m.call s₁ = .ok (r, t1))
    (hm2 : syscall p m.call s₂ = .ok (r, t2)) (h : R t1 t2) :
    ∃ rs s1' s2', observe p m us s₁ = .ok (rs, s1') ∧ observe p m us s₂ = .ok (rs, s2') ∧ R s1' s2' := by
  obtain ⟨rs, s1', s2', hu1, hu2, h'⟩ := hR.uses hus h
  exact ⟨r :: rs, s1', s2', observe_eq hm1 hu1, observe_eq hm2 hu2, h'⟩

/-- The calls that make the descriptors return different values. -/
lemma outcome_ne (hm1 : syscall p m.call s₁ = .ok (r₁, t1)) (hm2 : syscall p m.call s₂ = .ok (r₂, t2))
    (hne : r₁ ≠ r₂) : outcome p m [] s₁ ≠ outcome p m [] s₂ := by
  rw [outcome_eq (observe_eq hm1 rfl), outcome_eq (observe_eq hm2 rfl)]
  simp [hne]

end

lemma news_free {m : Make} (hfd : fd ∈ s.news p m) : s.ofile p fd = none := by
  have := List.mem_of_mem_take hfd
  simpa [State.freeFds] using this

section Open

variable {path : List UInt8} {omode : BitVec 32}

/-- The states after `sys_open` in both histories. -/
lemma twins_of_open {t1 t2 : State v} {x : ℕ × v.Names × (ℕ → List UInt8)}
    (hdisk : s₁.disk = s₂.disk) (hd1 : t1.disk = (x.2.1, s₁.devices, x.2.2))
    (hd2 : t2.disk = (x.2.1, s₂.devices, x.2.2)) (ho1 : Opened p fd x.1 f₁ h₁ t1)
    (ho2 : Opened p fd x.1 f₂ h₂ t2) (hf1 : t1.ftable f₁ = newFile (s₁.ftable f₁) h₁ omode)
    (hf2 : t2.ftable f₂ = newFile (s₂.ftable f₂) h₂ omode)
    (hflag : ((s₁.ftable f₁).Appends ↔ (s₂.ftable f₂).Appends) ∨ v.isDev x.2.1 x.1 ∨ x.2.2 x.1 = []) :
    Twins p fd x.1 f₁ h₁ f₂ h₂ t1 t2 := by
  refine ⟨ho1, ho2, by rw [hd1, hd2, devices_eq hdisk], by rw [hf1, hf2]; rfl, by rw [hf1, hf2]; rfl, ?_⟩
  have hnames : t1.names = x.2.1 := congrArg Prod.fst hd1
  have hcontents : t1.contents = x.2.2 := congrArg (fun d => d.2.2) hd1
  rw [hf1, hf2, hnames, hcontents]
  rcases hflag with hsame | hdev | hempty
  · exact .inr ⟨rfl, .inl hsame⟩
  · exact .inl hdev
  · exact .inr ⟨rfl, .inr (by rw [hempty]; rfl)⟩

/-- Both histories have the same descriptor for `sys_open`, or none. -/
lemma head_freeFds (hfds : s₁.news p (.open path omode) = s₂.news p (.open path omode)) :
    (s₁.freeFds p).head? = (s₂.freeFds p).head? := by
  have := congrArg List.head? hfds
  simpa [State.news, Make.need, List.head?_take] using this

lemma clean_open_independent (hg1 : Good s₁) (hg2 : Good s₂) (hdisk : s₁.disk = s₂.disk)
    (hfds : s₁.news p (.open path omode) = s₂.news p (.open path omode))
    (hclean : Clean p (.open path omode) s₁ s₂) : Independent p (.open path omode) s₁ s₂ := by
  intro us hus
  refine ⟨?_, fun ⟨_, hpipe⟩ => by cases hpipe⟩
  have hfound : v.found s₂.names s₂.contents path omode = v.found s₁.names s₁.contents path omode := by
    rw [names_eq hdisk, contents_eq hdisk]
  have hhead := head_freeFds hfds
  rcases sysOpen_cases (p := p) hg1 with
    ⟨x, f₁, fs1, fd, fds1, hx, hf1, hfd1, t1, ht1, hd1, ho1, hfile1⟩ | ⟨hno1, t1, ht1, hofile1, hd1⟩
  · have hlen : (s₁.news p (.open path omode)).length = 1 := by simp [State.news, hfd1, Make.need]
    obtain ⟨hfree, hflag⟩ := hclean hlen x hx
    rcases sysOpen_cases (p := p) hg2 with
      ⟨x', f₂, fs2, fd', fds2, hx', hf2, hfd2, t2, ht2, hd2, ho2, hfile2⟩ | ⟨hno2, -⟩
    · obtain rfl : x = x' := Option.some.inj (by rw [← hx, ← hx', hfound])
      obtain rfl : fd = fd' := by simpa [hfd1, hfd2] using hhead
      have htwins := twins_of_open hdisk hd1 hd2 ho1 ho2 hfile1 hfile2
        (hflag f₁ (by simp [hf1]) f₂ (by simp [hf2]))
      obtain ⟨rs, s1', s2', hs1, hs2, h'⟩ := Twins.bisimilar.observe (m := .open path omode)
        (by simpa [State.news, hfd1, Make.need] using hus) ht1 ht2 htwins
      rw [outcome_eq hs1, outcome_eq hs2, h'.disk]
    · rcases hno2 with hno | hno | hno
      · simp [hfound, hx] at hno
      · simp [hfree.mpr hno] at hf1
      · simp [hno, hfd1] at hhead
  · rcases sysOpen_cases (p := p) hg2 with
      ⟨x, f₂, fs2, fd, fds2, hx, hf2, hfd2, -⟩ | ⟨hno2, t2, ht2, hofile2, hd2⟩
    · rw [hfound] at hx
      rcases hno1 with hno | hno | hno
      · simp [hx] at hno
      · have hlen : (s₁.news p (.open path omode)).length = 1 := by
          rw [hfds]
          simp [State.news, hfd2, Make.need]
        simp [(hclean hlen x hx).1.mp hno] at hf2
      · simp [hno, hfd2] at hhead
    · have hwithout : Without p (s₁.news p (.open path omode)) t1 t2 t1 t2 := by
        refine ⟨fun fd hfd => ?_, fun fd hfd => ?_, ?_, Quiet.of_eq rfl, Quiet.of_eq rfl⟩
        · rw [hofile1]
          exact news_free hfd
        · rw [hofile2]
          exact news_free (hfds ▸ hfd)
        · rw [hd1, hd2, names_eq hdisk, contents_eq hdisk, devices_eq hdisk]
      obtain ⟨rs, s1', s2', hs1, hs2, h'⟩ := Without.bisimilar.observe (m := .open path omode)
        hus ht1 ht2 hwithout
      rw [outcome_eq hs1, outcome_eq hs2, h'.disk]

/-- One byte is written to a file. -/
lemma Opened.write_one (ho : Opened p fd k f h s) (hdev : ¬ v.isDev s.names k)
    (hw : (s.ftable f).writable = true) (b : UInt8) :
    ∃ s', filewrite f [b] s = .ok (.ret
        (if (Append.writei (s.contents k) ((s.sought f).ftable f).off [b]).isSome then 1 else -1), s') ∧
      s'.contents k =
        (Append.writei (s.contents k) ((s.sought f).ftable f).off [b]).getD (s.contents k) := by
  obtain ⟨off, hoff⟩ := sought_ftable s f f
  have hw' : ((s.sought f).ftable f).writable = true := by rw [hoff, hw]
  have hnames : (s.sought f).names = s.names := names_eq sought_disk
  have hcontents : (s.sought f).contents = s.contents := contents_eq sought_disk
  have hwritei : writei (s.sought f) h ((s.sought f).ftable f).off [b] =
      (Append.writei (s.contents k) ((s.sought f).ftable f).off [b]).map fun contents =>
        { s.sought f with contents := update s.contents k contents } := by
    simp only [writei, sought_inum, ho.inum, hnames, hcontents, if_neg hdev]
  rw [ho.filewrite_eq, if_neg (by simp [hw'])]
  simp only [List.length_singleton, writeLoop, List.cons_ne_nil, if_false]
  have htake : List.take MAXWRITE [b] = [b] := rfl
  rw [htake, hwritei]
  cases hc : Append.writei (s.contents k) ((s.sought f).ftable f).off [b] with
  | none => exact ⟨s.sought f, rfl, by rw [hcontents]; rfl⟩
  | some c => exact ⟨_, rfl, by simp [State.setFile]⟩

lemma uses_one {u : Use} {r : Result} (hfd : s.ofile p fd = some f) (hu : useFile f u s = .ok (r, s')) :
    uses p [(fd, u)] s = .ok ([r], s') := by
  have hcall : syscall p (u.call fd) s = .ok (r, s') := by rw [syscall_use, withFd_eq hfd, hu]
  rw [uses, bind_of_ok hcall]
  split_ifs <;> rfl

lemma uses_two {u : Use} {us : List (Fin NOFILE × Use)} {r : ℤ} {rs : List Result} {t : State v}
    (hfd : s.ofile p fd = some f) (hu : useFile f u s = .ok (.ret r, t)) (hus : uses p us t = .ok (rs, s')) :
    uses p ((fd, u) :: us) s = .ok (.ret r :: rs, s') := by
  have hcall : syscall p (u.call fd) s = .ok (.ret r, t) := by rw [syscall_use, withFd_eq hfd, hu]
  rw [uses, bind_of_ok hcall, if_neg (by simp), bind_of_ok hus]
  rfl

/-- One byte is read from a file. -/
lemma Opened.read_one (ho : Opened p fd k f h s) (hdev : ¬ v.isDev s.names k)
    (hr : (s.ftable f).readable = true) (hoff : (s.ftable f).off ≤ (s.contents k).length) :
    ∃ s', fileread f 1 s = .ok (.bytes (((s.contents k).drop (s.ftable f).off).take 1), s') := by
  rw [ho.fileread_eq, if_neg (by simp [hr]), readi, ho.inum, if_neg hdev, if_neg hoff.not_gt]
  exact ⟨_, rfl⟩

/-- A file that is not empty tells if its offset was moved to the end. -/
lemma open_differs {t1 t2 : State v} {file1 file2 : File} (hd : t1.disk = t2.disk)
    (ho1 : Opened p fd k f₁ h₁ t1) (ho2 : Opened p fd k f₂ h₂ t2)
    (hf1 : t1.ftable f₁ = newFile file1 h₁ omode) (hf2 : t2.ftable f₂ = newFile file2 h₂ omode)
    (ha1 : file1.Appends) (ha2 : ¬ file2.Appends) (hdev : ¬ v.isDev t1.names k) (hne : t1.contents k ≠ []) :
    ∃ us : List (Fin NOFILE × Use), (∀ x ∈ us, x.1 = fd) ∧ ∃ rs1 rs2 u1 u2,
      uses p us t1 = .ok (rs1, u1) ∧ uses p us t2 = .ok (rs2, u2) ∧ (rs1, u1.disk) ≠ (rs2, u2.disk) := by
  have hdev2 : ¬ v.isDev t2.names k := by rwa [← names_eq hd]
  have hpos : 0 < (t1.contents k).length := List.length_pos_iff.mpr hne
  have happ1 : (t1.ftable f₁).Appends := by rw [hf1]; exact ha1
  have happ2 : ¬ (t2.ftable f₂).Appends := by rw [hf2]; exact ha2
  have hoff1 : ((t1.sought f₁).ftable f₁).off = (t1.contents k).length := by
    obtain ⟨t, -, -, heq⟩ := ho1.sought_eq
    simp [heq, State.setFile, happ1]
  have hsought2 : t2.sought f₂ = t2 := if_neg happ2
  have hoff2 : (t2.ftable f₂).off = 0 := by rw [hf2]; rfl
  by_cases hw : (newFile file1 h₁ omode).writable = true
  · -- A byte is written at the end, or at the start.
    obtain ⟨u1, hu1, hc1⟩ := ho1.write_one hdev (by rw [hf1, hw]) 0
    obtain ⟨u2, hu2, hc2⟩ := ho2.write_one hdev2 (by rw [hf2]; exact hw) 0
    rw [hoff1] at hu1 hc1
    rw [hsought2, hoff2, ← contents_eq hd] at hu2 hc2
    refine ⟨[(fd, .write [0])], by simp, _, _, u1, u2, uses_one ho1.slot hu1, uses_one ho2.slot hu2, ?_⟩
    have hsplice : Append.writei (t1.contents k) 0 [0] = some (splice (t1.contents k) 0 [0]) :=
      if_neg (by simp [MAXFILE, NDIRECT, NINDIRECT, BSIZE])
    rw [hsplice] at hu2 hc2 ⊢
    intro heq
    rw [Prod.mk.injEq] at heq
    obtain ⟨hres, hdisk⟩ := heq
    have hlen := congrArg (fun d => (d.2.2 k).length) hdisk
    simp only [State.disk, hc1, hc2, Option.getD_some, length_splice (Nat.zero_le _)] at hlen
    cases hw1 : Append.writei (t1.contents k) (t1.contents k).length [0] with
    | none => simp [hw1] at hres
    | some c =>
      have hc := hw1
      unfold Append.writei at hc
      split_ifs at hc
      rw [Option.some.injEq, Append.splice_end] at hc
      simp [hw1, ← hc] at hlen
      omega
  · -- The write fails, but only after it has moved the offset.
    have hread : (newFile file1 h₁ omode).readable = true := by
      simp only [newFile, decide_eq_true_eq, not_or, not_not, ne_eq] at hw ⊢
      exact hw.1
    have hw1 : filewrite f₁ [] t1 = .ok (.ret (-1), t1.sought f₁) := by
      obtain ⟨off, hoff⟩ := sought_ftable t1 f₁ f₁
      rw [ho1.filewrite_eq, if_pos (by rw [hoff, hf1]; simpa using hw)]
    have hw2 : filewrite f₂ [] t2 = .ok (.ret (-1), t2) := by
      rw [ho2.filewrite_eq, hsought2, if_pos (by rw [hf2]; exact Bool.eq_false_iff.mpr hw)]
    have hr1 := ho1.sought.read_one (by rwa [names_eq sought_disk]) (by
      obtain ⟨off, hoff⟩ := sought_ftable t1 f₁ f₁
      rw [hoff, hf1, ← hread]) (by rw [hoff1, contents_eq sought_disk])
    have hr2 := ho2.read_one hdev2 (by rw [hf2]; exact hread) (by omega)
    rw [hoff1, contents_eq sought_disk, List.drop_length, List.take_nil] at hr1
    rw [hoff2, List.drop_zero, ← contents_eq hd] at hr2
    obtain ⟨u1, hu1⟩ := hr1
    obtain ⟨u2, hu2⟩ := hr2
    refine ⟨[(fd, .write []), (fd, .read 1)], by simp, [.ret (-1), _], [.ret (-1), _], u1, u2,
      uses_two ho1.slot hw1 (uses_one ho1.sought.slot hu1), uses_two ho2.slot hw2 (uses_one ho2.slot hu2), ?_⟩
    intro heq
    rw [Prod.mk.injEq] at heq
    have := heq.1
    simp [hne] at this

lemma independent_open_clean (hg1 : Good s₁) (hg2 : Good s₂) (hdisk : s₁.disk = s₂.disk)
    (hfds : s₁.news p (.open path omode) = s₂.news p (.open path omode))
    (hind : Independent p (.open path omode) s₁ s₂) : Clean p (.open path omode) s₁ s₂ := by
  intro hlen x hx
  have hfound : v.found s₂.names s₂.contents path omode = v.found s₁.names s₁.contents path omode := by
    rw [names_eq hdisk, contents_eq hdisk]
  have hhead := head_freeFds hfds
  have hfree1 : s₁.freeFds p ≠ [] := fun hnil => by simp [State.news, hnil, Make.need] at hlen
  have hfree2 : s₂.freeFds p ≠ [] := fun hnil => by
    rw [hfds] at hlen
    simp [State.news, hnil, Make.need] at hlen
  have hsame := (hind [] (by simp)).1
  rcases sysOpen_cases (p := p) hg1 with
    ⟨y, f₁, fs1, fd, fds1, hy, hf1, hfd1, t1, ht1, hd1, ho1, hfile1⟩ | ⟨hno1, t1, ht1, -⟩ <;>
  rcases sysOpen_cases (p := p) hg2 with
    ⟨z, f₂, fs2, fd', fds2, hz, hf2, hfd2, t2, ht2, hd2, ho2, hfile2⟩ | ⟨hno2, t2, ht2, -⟩
  · obtain rfl : x = y := Option.some.inj (by rw [← hx, ← hy])
    obtain rfl : x = z := Option.some.inj (by rw [← hy, ← hz, hfound])
    obtain rfl : fd = fd' := by simpa [hfd1, hfd2] using hhead
    refine ⟨by simp [hf1, hf2], fun g1 hg1 g2 hg2 => ?_⟩
    obtain rfl : f₁ = g1 := by simpa [hf1] using hg1
    obtain rfl : f₂ = g2 := by simpa [hf2] using hg2
    by_contra hbad
    obtain ⟨hflag, hdev, hempty⟩ : ¬ ((s₁.ftable f₁).Appends ↔ (s₂.ftable f₂).Appends) ∧
        ¬ v.isDev x.2.1 x.1 ∧ x.2.2 x.1 ≠ [] := by simpa [not_or] using hbad
    have hd : t1.disk = t2.disk := by rw [hd1, hd2, devices_eq hdisk]
    have hnames : t1.names = x.2.1 := congrArg Prod.fst hd1
    have hcontents : t1.contents = x.2.2 := congrArg (fun d => d.2.2) hd1
    rw [← hnames] at hdev
    rw [← hcontents] at hempty
    -- The uses that tell the files apart, in either order.
    obtain ⟨us, hus, rs1, rs2, u1, u2, hu1, hu2, hne⟩ : ∃ us : List (Fin NOFILE × Use),
        (∀ x ∈ us, x.1 = fd) ∧ ∃ rs1 rs2 u1 u2, uses p us t1 = .ok (rs1, u1) ∧
          uses p us t2 = .ok (rs2, u2) ∧ (rs1, u1.disk) ≠ (rs2, u2.disk) := by
      by_cases ha1 : (s₁.ftable f₁).Appends
      · exact open_differs hd ho1 ho2 hfile1 hfile2 ha1 (fun ha2 => hflag (iff_of_true ha1 ha2)) hdev hempty
      · have ha2 : (s₂.ftable f₂).Appends := by
          by_contra ha2
          exact hflag (iff_of_false ha1 ha2)
        rw [names_eq hd] at hdev
        rw [contents_eq hd] at hempty
        obtain ⟨us, hus, rs2, rs1, u2, u1, hu2, hu1, hne⟩ :=
          open_differs hd.symm ho2 ho1 hfile2 hfile1 ha2 ha1 hdev hempty
        exact ⟨us, hus, rs1, rs2, u1, u2, hu1, hu2, hne.symm⟩
    have hout := (hind us fun y hy => by simp [State.news, hfd1, Make.need, hus y hy]).1
    rw [outcome_eq (observe_eq (m := .open path omode) ht1 hu1),
      outcome_eq (observe_eq (m := .open path omode) ht2 hu2)] at hout
    simp only [Option.some.injEq, Prod.mk.injEq, List.cons.injEq, true_and] at hout
    exact hne (Prod.ext hout.1 hout.2)
  · exact absurd hsame (outcome_ne (m := .open path omode) ht1 ht2 (by simp))
  · exact absurd hsame (outcome_ne (m := .open path omode) ht1 ht2 (by simp))
  · have hnil : ∀ {s : State v}, v.found s.names s.contents path omode = some x → s.freeFds p ≠ [] →
        (v.found s.names s.contents path omode = none ∨ s.free = [] ∨ s.freeFds p = []) → s.free = [] := by
      intro s hsome hne hno
      exact (hno.resolve_left (by simp [hsome])).resolve_right hne
    have hnil1 := hnil hx hfree1 hno1
    have hnil2 := hnil (hfound.trans hx) hfree2 hno2
    simp [hnil1, hnil2]

end Open

section Pipe

variable {page : Bool}

/-- Two free entries, or fewer. -/
lemma two_or_few {α : Type*} (l : List α) : (∃ a b l', l = a :: b :: l') ∨ l.length < 2 := by
  match l with
  | [] => exact .inr (by simp)
  | [_] => exact .inr (by simp)
  | a :: b :: l' => exact .inl ⟨a, b, l', rfl⟩

/-- Both histories have the same two descriptors for `sys_pipe`, or neither has two. -/
lemma length_freeFds (hfds : s₁.news p (.pipe page) = s₂.news p (.pipe page)) :
    (s₁.freeFds p).length < 2 ↔ (s₂.freeFds p).length < 2 := by
  have := congrArg List.length hfds
  simp only [State.news, Make.need, List.length_take] at this
  omega

/-- The ends of a new pipe. -/
lemma pipeEnd_new {w : Bool} (hslot : s'.ofile p fd = some f)
    (hfile : s'.ftable f = newEnd (s.ftable f) q w) (hplain : ¬ (s.ftable f).Appends) :
    PipeEnd p fd f q w s' := by
  refine ⟨hslot, ?_, ?_, ?_, ?_, ?_⟩
  all_goals rw [hfile]
  exacts [rfl, rfl, rfl, rfl, hplain]

lemma clean_pipe_independent (hg1 : Good s₁) (hg2 : Good s₂) (hdisk : s₁.disk = s₂.disk)
    (hfds : s₁.news p (.pipe page) = s₂.news p (.pipe page)) (hclean : Clean p (.pipe page) s₁ s₂) :
    Independent p (.pipe page) s₁ s₂ := by
  intro us hus
  have hlen := length_freeFds hfds
  by_cases hmade : page = true ∧ 2 ≤ s₁.free.length ∧ 2 ≤ (s₁.freeFds p).length
  · obtain ⟨rfl, hfree, htwo⟩ := hmade
    have hneed : (s₁.news p (.pipe true)).length = 2 := by simp [State.news, Make.need, htwo]
    obtain ⟨hboth, hplain1, hplain2⟩ := hclean hneed rfl
    obtain ⟨r₁, w1, fs1, hf1⟩ := (two_or_few s₁.free).resolve_right (by omega)
    obtain ⟨r₂, w2, fs2, hf2⟩ := (two_or_few s₂.free).resolve_right (by omega)
    obtain ⟨fd0, fd1, fds1, hfd1⟩ := (two_or_few (s₁.freeFds p)).resolve_right (by omega)
    obtain ⟨fd0', fd1', fds2, hfd2⟩ := (two_or_few (s₂.freeFds p)).resolve_right (by omega)
    obtain ⟨rfl, rfl⟩ : fd0 = fd0' ∧ fd1 = fd1' := by simpa [State.news, Make.need, hfd1, hfd2] using hfds
    obtain ⟨t1, ht1, hd1, hq1, hr1, hw1, hp1, hfr1, hfw1⟩ := sysPipe_some hf1 hfd1
    obtain ⟨t2, ht2, hd2, hq2, hr2, hw2, hp2, hfr2, hfw2⟩ := sysPipe_some hf2 hfd2
    have hp1' := hplain1 hfree
    have hp2' := hplain2 (by omega)
    simp only [hf1, hf2, List.take_succ_cons, List.take_zero, List.mem_cons, List.not_mem_nil, or_false,
      forall_eq_or_imp, forall_eq] at hp1' hp2'
    have htwins : PipeTwins p fd0 fd1 r₁ w1 r₂ w2 s₁.nextPipe s₂.nextPipe s₁ s₂ t1 t2 :=
      ⟨pipeEnd_new hr1 hfr1 hp1'.1, pipeEnd_new hw1 hfw1 hp1'.2, pipeEnd_new hr2 hfr2 hp2'.1,
        pipeEnd_new hw2 hfw2 hp2'.2, by rw [hd1, hd2, hdisk], by rw [hp1, hp2], hq1, hq2⟩
    obtain ⟨rs, s1', s2', hs1, hs2, h'⟩ := PipeTwins.bisimilar.observe (m := .pipe true)
      (by simpa [State.news, hfd1, Make.need] using hus) ht1 ht2 htwins
    rw [outcome_eq hs1, outcome_eq hs2, h'.disk]
    exact ⟨rfl, fun _ => ⟨not_consults hs1 h'.quiet₁, not_consults hs2 h'.quiet₂⟩⟩
  · have hno1 : page = false ∨ s₁.free.length < 2 ∨ (s₁.freeFds p).length < 2 := by
      by_contra hall
      simp only [not_or, Bool.not_eq_false, not_lt] at hall
      exact hmade hall
    have hno2 : page = false ∨ s₂.free.length < 2 ∨ (s₂.freeFds p).length < 2 := by
      rcases hno1 with hno | hno | hno
      · exact .inl hno
      · by_cases hpage : page = true
        · by_cases htwo : 2 ≤ (s₁.freeFds p).length
          · have hneed : (s₁.news p (.pipe page)).length = 2 := by simp [State.news, Make.need, htwo]
            exact .inr (.inl ((hclean hneed hpage).1.mp hno))
          · exact .inr (.inr (hlen.mp (by omega)))
        · exact .inl (by simpa using hpage)
      · exact .inr (.inr (hlen.mp hno))
    obtain ⟨t1, ht1, hofile1, hd1, hq1⟩ := sysPipe_none hg1 hno1
    obtain ⟨t2, ht2, hofile2, hd2, hq2⟩ := sysPipe_none hg2 hno2
    have hwithout : Without p (s₁.news p (.pipe page)) s₁ s₂ t1 t2 := by
      refine ⟨fun fd hfd => ?_, fun fd hfd => ?_, by rw [hd1, hd2, hdisk], hq1, hq2⟩
      · rw [hofile1]
        exact news_free hfd
      · rw [hofile2]
        exact news_free (hfds ▸ hfd)
    obtain ⟨rs, s1', s2', hs1, hs2, h'⟩ := Without.bisimilar.observe (m := .pipe page)
      hus ht1 ht2 hwithout
    rw [outcome_eq hs1, outcome_eq hs2, h'.disk]
    exact ⟨rfl, fun _ => ⟨not_consults hs1 h'.quiet₁, not_consults hs2 h'.quiet₂⟩⟩

/-- A write to an end with the flag reads the size of an inode. -/
lemma consults_of_appends {t : State v} (hm : sysPipe p page s = .ok (.ret 0, t)) (hq : Quiet s t)
    (hslot : t.ofile p fd = some f) (htype : (t.ftable f).type = .pipe)
    (hpipe : (t.ftable f).pipe = some q) (happ : (t.ftable f).Appends) :
    Consults p (.pipe page) [(fd, .write [])] s := by
  obtain ⟨off, hoff⟩ := sought_ftable t f f
  have hlog : (t.sought f).log = t.log ++ [.consult (t.ftable f).ip] := by
    rw [State.sought, if_pos happ]
    rfl
  obtain ⟨r, s', hw, l, hl⟩ : ∃ r s', filewrite f [] t = .ok (r, s') ∧
      ∃ l, s'.log = (t.sought f).log ++ l := by
    have htype' : ((t.sought f).ftable f).type = .pipe := by rw [hoff, htype]
    have hpipe' : ((t.sought f).ftable f).pipe = some q := by rw [hoff, hpipe]
    show ∃ r s', (ite _ _ _ : Kernel v Result) (t.sought f) = .ok (r, s') ∧ _
    simp only [htype', hpipe']
    split_ifs
    · exact ⟨_, _, rfl, [], by simp⟩
    · exact ⟨_, _, rfl, [.access q], rfl⟩
  obtain ⟨l0, hl0, -⟩ := hq
  refine ⟨_, observe_eq (m := .pipe page) hm (uses_one hslot hw), (t.ftable f).ip, ?_⟩
  show _ ∈ s'.log.drop s.log.length
  rw [hl, hlog, hl0, List.append_assoc, List.append_assoc, List.drop_left]
  simp

/-- Neither end of a new pipe has the flag. -/
lemma plain_of_quiet (htwo : 2 ≤ (s.freeFds p).length) (hfree : 2 ≤ s.free.length)
    (hquiet : ∀ us : List (Fin NOFILE × Use), (∀ x ∈ us, x.1 ∈ s.news p (.pipe true)) →
      ¬ Consults p (.pipe true) us s) : ∀ f ∈ s.free.take 2, ¬ (s.ftable f).Appends := by
  obtain ⟨r, w, fs, hf⟩ := (two_or_few s.free).resolve_right (by omega)
  obtain ⟨fd0, fd1, fds, hfd⟩ := (two_or_few (s.freeFds p)).resolve_right (by omega)
  obtain ⟨t, ht, -, hq, hr, hw, -, hfr, hfw⟩ := sysPipe_some hf hfd
  have hnews : s.news p (.pipe true) = [fd0, fd1] := by simp [State.news, Make.need, hfd]
  simp only [hf, List.take_succ_cons, List.take_zero, List.mem_cons, List.not_mem_nil, or_false,
    forall_eq_or_imp, forall_eq]
  constructor
  · intro happ
    refine hquiet [(fd0, .write [])] (by simp [hnews])
      (consults_of_appends ht hq hr (q := s.nextPipe) ?_ ?_ ?_)
    all_goals rw [hfr]
    exacts [rfl, rfl, happ]
  · intro happ
    refine hquiet [(fd1, .write [])] (by simp [hnews])
      (consults_of_appends ht hq hw (q := s.nextPipe) ?_ ?_ ?_)
    all_goals rw [hfw]
    exacts [rfl, rfl, happ]

lemma independent_pipe_clean (hg1 : Good s₁) (hg2 : Good s₂)
    (hfds : s₁.news p (.pipe page) = s₂.news p (.pipe page)) (hind : Independent p (.pipe page) s₁ s₂) :
    Clean p (.pipe page) s₁ s₂ := by
  intro hneed hpage
  subst hpage
  have hlen := length_freeFds hfds
  have htwo : 2 ≤ (s₁.freeFds p).length := by
    simp only [State.news, Make.need, List.length_take] at hneed
    omega
  have hsame := (hind [] (by simp)).1
  have hmade : ∀ {s : State v}, 2 ≤ s.free.length → 2 ≤ (s.freeFds p).length →
      ∃ t, syscall p (Make.pipe true).call s = .ok (.ret 0, t) := by
    intro s hfree htwo
    obtain ⟨r, w, fs, hf⟩ := (two_or_few s.free).resolve_right (by omega)
    obtain ⟨fd0, fd1, fds, hfd⟩ := (two_or_few (s.freeFds p)).resolve_right (by omega)
    obtain ⟨t, ht, -⟩ := sysPipe_some hf hfd
    exact ⟨t, ht⟩
  have hfailed : ∀ {s : State v}, Good s → s.free.length < 2 →
      ∃ t, syscall p (Make.pipe true).call s = .ok (.ret (-1), t) := by
    intro s hg hfew
    obtain ⟨t, ht, -⟩ := sysPipe_none (p := p) hg (.inr (.inl hfew))
    exact ⟨t, ht⟩
  refine ⟨⟨fun hfew => ?_, fun hfew => ?_⟩, fun hfree => ?_, fun hfree => ?_⟩
  · by_contra hfree
    obtain ⟨t1, ht1⟩ := hfailed hg1 hfew
    obtain ⟨t2, ht2⟩ := hmade (s := s₂) (by omega) (by omega)
    exact outcome_ne ht1 ht2 (by simp) hsame
  · by_contra hfree
    obtain ⟨t1, ht1⟩ := hmade (s := s₁) (by omega) (by omega)
    obtain ⟨t2, ht2⟩ := hfailed hg2 hfew
    exact outcome_ne ht1 ht2 (by simp) hsame
  · exact plain_of_quiet htwo hfree fun us hus => ((hind us hus).2 ⟨true, rfl⟩).1
  · refine plain_of_quiet (p := p) (by omega) hfree fun us hus => ((hind us ?_).2 ⟨true, rfl⟩).2
    rwa [hfds]

end Pipe

/-- Two histories that have led to the same files and the same free descriptors cannot be told apart
by new descriptors, and no size is read for a new pipe, exactly if the files that are taken are clean
in both. -/
theorem independent_iff_clean {names₁ names₂ : v.Names} {devices₁ devices₂ : v.Devices}
    {contents₁ contents₂ : ℕ → List UInt8} {es₁ es₂ : List (Fin NPROC × Call)} {m : Make}
    (hrun₁ : exec step (State.init names₁ devices₁ contents₁) es₁ = some s₁)
    (hrun₂ : exec step (State.init names₂ devices₂ contents₂) es₂ = some s₂)
    (hdisk : s₁.disk = s₂.disk) (hfds : s₁.news p m = s₂.news p m) :
    Independent p m s₁ s₂ ↔ Clean p m s₁ s₂ := by
  have hg₁ := good_run hrun₁
  have hg₂ := good_run hrun₂
  cases m with
  | «open» path omode =>
    exact ⟨independent_open_clean hg₁ hg₂ hdisk hfds, clean_open_independent hg₁ hg₂ hdisk hfds⟩
  | pipe page => exact ⟨independent_pipe_clean hg₁ hg₂ hfds, clean_pipe_independent hg₁ hg₂ hdisk hfds⟩

/-- The file `a` has one byte. -/
abbrev oneByte : State oneFile := State.init () () fun _ => [1]

/-- A process has opened the file and closed it again. -/
abbrev reader : List (Fin NPROC × Call) := [(0, .open [97] O_RDONLY), (0, .close 0)]

/-- A process has appended to the file. -/
abbrev appender : List (Fin NPROC × Call) :=
  [(0, .open [97] O_RDWR), (0, .setfl 0 O_APPEND), (0, .close 0)]

lemma reader_runs : (exec step oneByte reader).isSome := by decide +kernel

lemma appender_runs : (exec step oneByte appender).isSome := by decide +kernel

abbrev afterReader : State oneFile := (exec step oneByte reader).get reader_runs

abbrev afterAppender : State oneFile := (exec step oneByte appender).get appender_runs

/-- A pipe is the same after a reader as at the start. -/
theorem independent_iff_clean_reader : exec step oneByte reader = some afterReader ∧
    Independent 0 (.pipe true) afterReader oneByte := by
  have hrun : exec step oneByte reader = some afterReader := (Option.some_get reader_runs).symm
  have hstart : exec step oneByte [] = some oneByte := rfl
  have hfds : afterReader.news 0 (.pipe true) = oneByte.news 0 (.pipe true) := by decide +kernel
  refine ⟨hrun, (independent_iff_clean hrun hstart rfl hfds).mpr fun _ _ => ?_⟩
  decide +kernel

/-- The second history is the first one without the process that has appended.  The file that is
opened after it is appended to, not overwritten; and a pipe that is made instead reads the size of
the file. -/
theorem appender_not_independent : exec step oneByte appender = some afterAppender ∧
    afterAppender.disk = oneByte.disk ∧ afterAppender.freeFds 0 = oneByte.freeFds 0 ∧
    ¬ Independent 0 (.open [97] O_RDWR) afterAppender oneByte ∧
    Consults 0 (.pipe true) [(0, .write [])] afterAppender := by
  refine ⟨(Option.some_get appender_runs).symm, rfl, by decide +kernel, fun hind => ?_, ?_⟩
  · have hsame := (hind [(0, .write [2])] (by decide +kernel)).1
    have hbytes := congrArg (Option.map fun x => x.2.2.2 7) hsame
    revert hbytes
    decide +kernel
  · have hconsults : (observe 0 (.pipe true) [(0, .write [])] afterAppender).toOption.any fun x =>
        .consult (some 0) ∈ x.2.log.drop afterAppender.log.length := by decide +kernel
    cases hobserve : observe 0 (.pipe true) [(0, .write [])] afterAppender with
    | error e => simp [hobserve, Except.toOption] at hconsults
    | ok x =>
      refine ⟨x, hobserve, some 0, ?_⟩
      simpa [hobserve, Except.toOption] using hconsults

end Xv7.Ftable
