import Xv7.Fs.File
import Xv7.Syscall.UserMemory

/-!
# Descriptor arguments

Seven system calls take a descriptor.  Five of them get the file from `argfd`, which compares the
descriptor with `NOFILE` before it indexes `ofile`; `sys_ioctl` and `sys_fcntl` index `ofile` with the
argument as it is.  The array is modelled as the words of memory from `&ofile[0]` on in both
directions, and every index that is used is recorded.  What `file.c` and the devices do with a file is
left open.
-/

namespace Xv7.Syscall

/-- The fields behind a file pointer that `sys_ioctl` and `sys_fcntl` read. -/
structure FileInfo where
  type : FdType
  readable : Bool
  writable : Bool
  flags : BitVec 32
  /-- `f->ip->type == T_DEV`. -/
  isDev : Bool
  /-- `f->ip->major`. -/
  major : ℤ

/-- `file.c` and the devices, over the rest `σ` of the kernel's state.  A file is a pointer. -/
structure FileLayer (σ : Type) where
  info : σ → ℕ → FileInfo
  filedup : ℕ → σ → σ
  fileclose : ℕ → σ → σ
  fileread : ℕ → BitVec 32 → BitVec 32 → σ → BitVec 32 × σ
  filewrite : ℕ → BitVec 32 → BitVec 32 → σ → BitVec 32 × σ
  filestat : ℕ → BitVec 32 → σ → BitVec 32 × σ
  /-- `f->flags |= F_APPEND`. -/
  setAppend : ℕ → σ → σ
  /-- `cprintf`. -/
  cprintf : σ → σ
  /-- `devsw[major].ioctl`, called with the file's inode. -/
  ioctl : ℤ → Option (ℕ → BitVec 32 → BitVec 32 → σ → BitVec 32 × σ)

/-- The state of the kernel for one process. -/
structure Descriptors (σ : Type) where
  /-- The words of memory from `&ofile[0]` on; 0 is the null pointer. -/
  ofile : ℤ → ℕ
  rest : σ
  /-- The indexes that were used. -/
  indexed : List ℤ

/-- Code of the kernel. -/
abbrev Handler (σ : Type) := StateM (Descriptors σ)

variable {σ : Type} (v : FileLayer σ) (p : Proc)

/-- `myproc()->ofile[fd]`. -/
def slot (fd : ℤ) : Handler σ ℕ := fun s => (s.ofile fd, { s with indexed := s.indexed ++ [fd] })

/-- `myproc()->ofile[fd] = f`. -/
def setSlot (fd : ℤ) (f : ℕ) : Handler σ Unit := fun s =>
  ((), { s with ofile := Function.update s.ofile fd f, indexed := s.indexed ++ [fd] })

/-- A function of `file.c`. -/
def inRest (f : σ → BitVec 32 × σ) : Handler σ (BitVec 32) := fun s =>
  ((f s.rest).1, { s with rest := (f s.rest).2 })

/-- A descriptor in range. -/
def InRange (fd : ℤ) : Prop := 0 ≤ fd ∧ fd < NOFILE

instance (fd : ℤ) : Decidable (InRange fd) := inferInstanceAs (Decidable (_ ∧ _))

/-- `argfd`: the descriptor and the file. -/
def fdArg (n : ℕ) : Handler σ (Option (ℤ × ℕ)) := do
  match p.argint n with
  | none => return none
  | some w =>
    if w.toInt < 0 ∨ NOFILE ≤ w.toInt then return none
    else
      let f ← slot w.toInt
      return if f = 0 then none else some (w.toInt, f)

/-- The loop of `fdalloc`, for the `n` descriptors from `fd` on. -/
def fdallocLoop (f : ℕ) : ℕ → ℤ → Handler σ ℤ
  | 0, _ => return -1
  | n + 1, fd => do
    if (← slot fd) = 0 then
      setSlot fd f
      return fd
    else fdallocLoop f n (fd + 1)

/-- `fdalloc`. -/
def fdalloc (f : ℕ) : Handler σ ℤ := fdallocLoop f NOFILE 0

/-- `if(argfd(0, &fd, &f) < 0) return -1;` and the rest of the call. -/
def withFile (body : ℤ → ℕ → Handler σ (BitVec 32)) : Handler σ (BitVec 32) := do
  match ← fdArg p 0 with
  | none => return -1
  | some (fd, f) => body fd f

/-- `sys_dup`. -/
def sysDup : Handler σ (BitVec 32) :=
  withFile p fun _ f => do
    let fd ← fdalloc f
    if fd < 0 then return -1
    else inRest fun r => (BitVec.ofInt 32 fd, v.filedup f r)

/-- `sys_read` and `sys_write`: a file, a length and a pointer for so many bytes. -/
def transfer (io : ℕ → BitVec 32 → BitVec 32 → σ → BitVec 32 × σ) : Handler σ (BitVec 32) :=
  withFile p fun _ f =>
    match p.argint 2 with
    | none => return -1
    | some n =>
      match p.argptr 1 n with
      | none => return -1
      | some a => inRest (io f a n)

/-- `sys_read`. -/
def sysReadFd : Handler σ (BitVec 32) := transfer p v.fileread

/-- `sys_write`. -/
def sysWriteFd : Handler σ (BitVec 32) := transfer p v.filewrite

/-- `sys_close`. -/
def sysCloseFd : Handler σ (BitVec 32) :=
  withFile p fun fd f => do
    setSlot fd 0
    inRest fun r => (0, v.fileclose f r)

/-- `sys_fstat`. -/
def sysFstatFd : Handler σ (BitVec 32) :=
  withFile p fun _ f =>
    match p.argptr 1 (BitVec.ofNat 32 STATSIZE) with
    | none => return -1
    | some st => inRest (v.filestat f st)

/-- `NDEV`. -/
abbrev NDEV : ℤ := 10

/-- `sys_ioctl` once there is a file. -/
def ioctlFile (f : ℕ) (request arg : BitVec 32) : Handler σ (BitVec 32) :=
  inRest fun r =>
    let file := v.info r f
    if file.type ≠ .inode then (-1, v.cprintf r)
    else if file.isDev = false then (-1, v.cprintf r)
    else if file.major < 0 ∨ NDEV ≤ file.major then (-1, r)
    else match v.ioctl file.major with
      | none => (-1, r)
      | some ioctl => ioctl f request arg r

/-- `sys_ioctl`. -/
def sysIoctlFd : Handler σ (BitVec 32) := do
  match p.argint 0, p.argint 1, p.argptr 2 4 with
  | some fd, some request, some arg =>
    let f ← slot fd.toInt
    if f = 0 then return -1 else ioctlFile v f request arg
  | _, _, _ => return -1

/-- `F_GETFL`. -/
abbrev F_GETFL : BitVec 32 := 3

/-- `F_SETFL`. -/
abbrev F_SETFL : BitVec 32 := 4

/-- `O_APPEND`. -/
abbrev O_APPEND : BitVec 32 := 0x800

/-- `sys_fcntl` once there is a file. -/
def fcntlFile (f : ℕ) (cmd arg : BitVec 32) : Handler σ (BitVec 32) :=
  inRest fun r =>
    let file := v.info r f
    if cmd = F_GETFL then
      -- `O_RDONLY`, `O_WRONLY` or `O_RDWR`
      (if file.readable ∧ ¬ file.writable then 0
        else if ¬ file.readable ∧ file.writable then 1 else 2, r)
    else if cmd = F_SETFL then (0, if arg &&& O_APPEND ≠ 0 then v.setAppend f r else r)
    else (-1, r)

/-- `sys_fcntl`; a third argument that cannot be fetched counts as 0. -/
def sysFcntlFd : Handler σ (BitVec 32) := do
  match p.argint 0, p.argint 1 with
  | some fd, some cmd =>
    let f ← slot fd.toInt
    if f = 0 then return -1 else fcntlFile v f cmd ((p.argint 2).getD 0)
  | _, _ => return -1

/-- The calls that take a descriptor. -/
inductive FdCall where
  | dup
  | read
  | write
  | close
  | fstat
  | ioctl
  | fcntl
  deriving DecidableEq, Repr

/-- The handler of a call. -/
def FdCall.handler : FdCall → Handler σ (BitVec 32)
  | .dup => sysDup v p
  | .read => sysReadFd v p
  | .write => sysWriteFd v p
  | .close => sysCloseFd v p
  | .fstat => sysFstatFd v p
  | .ioctl => sysIoctlFd v p
  | .fcntl => sysFcntlFd v p

/-! ## What the checks have to guarantee -/

/-- A call from a state in which no index was recorded: it indexes `ofile` only in range, and it
returns -1 and changes nothing for a descriptor that is out of range or names an empty slot. -/
structure Checked (c : FdCall) (ofile : ℤ → ℕ) (r : σ) : Prop where
  inside : ∀ i ∈ (c.handler v p ⟨ofile, r, []⟩).2.indexed, InRange i
  refused : ∀ fd, p.argint 0 = some fd → ¬ InRange fd.toInt ∨ ofile fd.toInt = 0 →
    (c.handler v p ⟨ofile, r, []⟩).1 = -1 ∧ (c.handler v p ⟨ofile, r, []⟩).2.ofile = ofile ∧
      (c.handler v p ⟨ofile, r, []⟩).2.rest = r

/-- The call takes its descriptor from the stack without a check: the arguments that it fetches before
are there, and the descriptor is out of range. -/
def Unchecked (c : FdCall) : Prop :=
  ∃ fd, p.argint 0 = some fd ∧ ¬ InRange fd.toInt ∧ p.argint 1 ≠ none ∧
    (c = .fcntl ∨ c = .ioctl ∧ p.argptr 2 4 ≠ none)

variable {v p} {ofile : ℤ → ℕ} {r : σ}

/-! ## Code that indexes in range -/

/-- The code indexes `ofile` only in range. -/
def Within {α : Type} (h : Handler σ α) : Prop :=
  ∀ s, (∀ i ∈ s.indexed, InRange i) → ∀ i ∈ (h s).2.indexed, InRange i

namespace Within

variable {α β : Type}

lemma pure (a : α) : Within (Pure.pure a : Handler σ α) := fun _ hs => hs

lemma bind {h : Handler σ α} {f : α → Handler σ β} (hh : Within h) (hf : ∀ a, Within (f a)) :
    Within (h >>= f) := fun s hs => hf _ _ (hh s hs)

lemma inRest (f : σ → BitVec 32 × σ) : Within (Syscall.inRest f) := fun _ hs => hs

lemma slot {fd : ℤ} (hfd : InRange fd) : Within (Syscall.slot fd : Handler σ ℕ) := by
  intro s hs i hi
  rcases List.mem_append.mp hi with hi | hi
  · exact hs i hi
  · exact List.mem_singleton.mp hi ▸ hfd

lemma setSlot {fd : ℤ} (hfd : InRange fd) (f : ℕ) : Within (Syscall.setSlot fd f : Handler σ Unit) := by
  intro s hs i hi
  rcases List.mem_append.mp hi with hi | hi
  · exact hs i hi
  · exact List.mem_singleton.mp hi ▸ hfd

end Within

lemma within_fdallocLoop (f n : ℕ) (fd : ℤ) (h0 : 0 ≤ fd) (hn : fd + n ≤ NOFILE) :
    Within (fdallocLoop f n fd : Handler σ ℤ) := by
  induction n generalizing fd with
  | zero => exact .pure _
  | succ n ih =>
    have hfd : InRange fd := ⟨h0, by omega⟩
    refine .bind (.slot hfd) fun a => ?_
    split_ifs
    · exact .bind (.setSlot hfd f) fun _ => .pure fd
    · exact ih (fd + 1) (by omega) (by omega)

/-- What `argfd` does. -/
lemma fdArg_cases (n : ℕ) (s : Descriptors σ) :
    (fdArg p n s = (none, s) ∧ ∀ w, p.argint n = some w → ¬ InRange w.toInt) ∨
    ∃ w, p.argint n = some w ∧ InRange w.toInt ∧
      fdArg p n s = (if s.ofile w.toInt = 0 then none else some (w.toInt, s.ofile w.toInt),
        { s with indexed := s.indexed ++ [w.toInt] }) := by
  unfold fdArg
  cases hw : p.argint n with
  | none => exact .inl ⟨rfl, nofun⟩
  | some w =>
    by_cases hr : InRange w.toInt
    · refine .inr ⟨w, rfl, hr, ?_⟩
      dsimp only
      rw [if_neg (by unfold InRange at hr; omega)]
      rfl
    · refine .inl ⟨?_, fun w' hw' => Option.some.inj hw' ▸ hr⟩
      dsimp only
      rw [if_pos (by unfold InRange at hr; omega)]
      rfl

/-- A call that begins with `argfd`. -/
lemma checked_of_withFile {c : FdCall} {body : ℤ → ℕ → Handler σ (BitVec 32)}
    (hc : c.handler v p = withFile p body) (hbody : ∀ fd f, InRange fd → Within (body fd f)) :
    Checked v p c ofile r where
  inside := by
    rw [hc]
    unfold withFile
    rcases fdArg_cases (p := p) 0 ⟨ofile, r, []⟩ with ⟨h, -⟩ | ⟨w, -, hw, h⟩
    · simp only [StateT.bind, bind, h]
      simp [Pure.pure, StateT.pure]
    · have hone : ∀ i ∈ ([] : List ℤ) ++ [w.toInt], InRange i := by
        intro i hi
        rw [List.nil_append, List.mem_singleton] at hi
        exact hi ▸ hw
      simp only [StateT.bind, bind, h]
      by_cases hf : ofile w.toInt = 0
      · simpa [hf, Pure.pure, StateT.pure] using hw
      · simp only [hf, if_false]
        exact hbody _ _ hw _ hone
  refused := by
    intro fd hfd hbad
    rw [hc]
    unfold withFile
    rcases fdArg_cases (p := p) 0 ⟨ofile, r, []⟩ with ⟨h, -⟩ | ⟨w, hw, hin, h⟩
    · simp only [StateT.bind, bind, h]
      exact ⟨rfl, rfl, rfl⟩
    · obtain rfl : w = fd := Option.some.inj (hw.symm.trans hfd)
      have hf : ofile w.toInt = 0 := hbad.resolve_left (not_not.mpr hin)
      simp only [StateT.bind, bind, h, hf, if_true]
      exact ⟨rfl, rfl, rfl⟩

lemma checked_of_transfer {c : FdCall} {io : ℕ → BitVec 32 → BitVec 32 → σ → BitVec 32 × σ}
    (hc : c.handler v p = transfer p io) : Checked v p c ofile r := by
  refine checked_of_withFile hc fun fd f _ => ?_
  split
  · exact .pure _
  · split
    · exact .pure _
    · exact .inRest _

/-! ## The two calls without a check -/

/-- A call that indexes `ofile` with its argument as it is. -/
lemma checked_iff_inRange {c : FdCall} {w : BitVec 32} {body : ℕ → Handler σ (BitVec 32)}
    (hw : p.argint 0 = some w)
    (hc : c.handler v p = slot w.toInt >>= fun f => if f = 0 then Pure.pure (-1) else body f)
    (hbody : ∀ f s, (body f s).2.indexed = s.indexed) :
    Checked v p c ofile r ↔ InRange w.toInt := by
  constructor
  · intro h
    refine h.inside _ ?_
    rw [hc]
    simp only [StateT.bind, bind, slot]
    split_ifs
    · exact List.mem_append_right _ (List.mem_singleton_self _)
    · rw [hbody]
      exact List.mem_append_right _ (List.mem_singleton_self _)
  · intro hr
    refine ⟨?_, ?_⟩
    · rw [hc]
      refine Within.bind (.slot hr) (fun f => ?_) _ nofun
      split_ifs
      · exact .pure _
      · intro s hs
        rw [hbody]
        exact hs
    · intro fd hfd hbad
      obtain rfl : w = fd := Option.some.inj (hw.symm.trans hfd)
      have hf : ofile w.toInt = 0 := hbad.resolve_left (not_not.mpr hr)
      rw [hc]
      simp only [StateT.bind, bind, slot, hf, if_true]
      exact ⟨rfl, rfl, rfl⟩

/-- A call that returns -1 before it indexes `ofile`. -/
lemma checked_of_early {c : FdCall} (hc : c.handler v p = Pure.pure (-1)) : Checked v p c ofile r := by
  refine ⟨?_, fun _ _ _ => ?_⟩
  · rw [hc]
    exact fun i hi => absurd hi List.not_mem_nil
  · rw [hc]
    exact ⟨rfl, rfl, rfl⟩

/-- A call other than these two takes its descriptor from `argfd`. -/
lemma not_unchecked {c : FdCall} (hf : c ≠ .fcntl) (hi : c ≠ .ioctl) : ¬ Unchecked p c := by
  rintro ⟨_, _, _, _, h | ⟨h, _⟩⟩
  · exact hf h
  · exact hi h

lemma checked_ioctl_iff : Checked v p .ioctl ofile r ↔ ¬ Unchecked p .ioctl := by
  by_cases hargs : p.argint 0 ≠ none ∧ p.argint 1 ≠ none ∧ p.argptr 2 4 ≠ none
  · obtain ⟨h0, h1, h2⟩ := hargs
    obtain ⟨w, hw⟩ := Option.ne_none_iff_exists'.mp h0
    obtain ⟨request, hrequest⟩ := Option.ne_none_iff_exists'.mp h1
    obtain ⟨arg, harg⟩ := Option.ne_none_iff_exists'.mp h2
    have hc : FdCall.ioctl.handler v p = slot w.toInt >>= fun f =>
        if f = 0 then Pure.pure (-1) else ioctlFile v f request arg := by
      show sysIoctlFd v p = _
      unfold sysIoctlFd
      rw [hw, hrequest, harg]
    rw [checked_iff_inRange hw hc fun _ _ => rfl]
    constructor
    · rintro hin ⟨fd, hfd, hout, -⟩
      exact hout (Option.some.inj (hw.symm.trans hfd) ▸ hin)
    · intro h
      by_contra hout
      exact h ⟨w, hw, hout, h1, .inr ⟨rfl, h2⟩⟩
  · refine ⟨fun _ => ?_, fun _ => checked_of_early ?_⟩
    · rintro ⟨fd, hfd, -, h1, h | ⟨-, h2⟩⟩
      · cases h
      · exact hargs ⟨by simp [hfd], h1, h2⟩
    · show sysIoctlFd v p = _
      unfold sysIoctlFd
      split
      · exact absurd ⟨by simp_all, by simp_all, by simp_all⟩ hargs
      · rfl

lemma checked_fcntl_iff : Checked v p .fcntl ofile r ↔ ¬ Unchecked p .fcntl := by
  by_cases hargs : p.argint 0 ≠ none ∧ p.argint 1 ≠ none
  · obtain ⟨h0, h1⟩ := hargs
    obtain ⟨w, hw⟩ := Option.ne_none_iff_exists'.mp h0
    obtain ⟨cmd, hcmd⟩ := Option.ne_none_iff_exists'.mp h1
    have hc : FdCall.fcntl.handler v p = slot w.toInt >>= fun f =>
        if f = 0 then Pure.pure (-1) else fcntlFile v f cmd ((p.argint 2).getD 0) := by
      show sysFcntlFd v p = _
      unfold sysFcntlFd
      rw [hw, hcmd]
    rw [checked_iff_inRange hw hc fun _ _ => rfl]
    simp [Unchecked, hw, h1]
  · refine ⟨fun _ => ?_, fun _ => checked_of_early ?_⟩
    · rintro ⟨fd, hfd, -, h1, -⟩
      exact hargs ⟨by simp [hfd], h1⟩
    · show sysFcntlFd v p = _
      unfold sysFcntlFd
      split
      · exact absurd ⟨by simp_all, by simp_all⟩ hargs
      · rfl

/-- Each call checks its descriptor, except that `ioctl` and `fcntl` do not when it is out of range. -/
theorem checked_iff (v : FileLayer σ) (p : Proc) (c : FdCall) (ofile : ℤ → ℕ) (r : σ) :
    Checked v p c ofile r ↔ ¬ Unchecked p c := by
  cases c with
  | dup =>
    refine iff_of_true (checked_of_withFile rfl fun _ _ _ => ?_) (not_unchecked nofun nofun)
    refine .bind (within_fdallocLoop _ _ _ le_rfl (by norm_num)) fun fd => ?_
    split_ifs
    · exact .pure _
    · exact .inRest _
  | read | write =>
    exact iff_of_true (checked_of_transfer rfl) (not_unchecked nofun nofun)
  | close =>
    refine iff_of_true (checked_of_withFile rfl fun _ _ hfd => ?_) (not_unchecked nofun nofun)
    exact .bind (.setSlot hfd 0) fun _ => .inRest _
  | fstat =>
    refine iff_of_true (checked_of_withFile rfl fun _ _ _ => ?_) (not_unchecked nofun nofun)
    split
    · exact .pure _
    · exact .inRest _
  | ioctl => exact checked_ioctl_iff
  | fcntl => exact checked_fcntl_iff

/-! ## A descriptor behind the end -/

/-- A process that calls `fcntl(16, F_GETFL, 0)`. -/
def sixteen : Proc where
  mem := fun a => if a = 4 then 16 else if a = 8 then 3 else 0
  sz := 0x1000
  esp := 0
  size_le := page_le_kernbase

/-- A file layer in which every pointer is an open file for reading. -/
def allReadable : FileLayer Unit where
  info := fun _ _ => ⟨.inode, true, false, 0, false, 0⟩
  filedup := fun _ r => r
  fileclose := fun _ r => r
  fileread := fun _ _ _ r => (0, r)
  filewrite := fun _ _ _ r => (0, r)
  filestat := fun _ _ r => (0, r)
  setAppend := fun _ r => r
  cprintf := fun r => r
  ioctl := fun _ => none

/-- The word behind `ofile` is taken for a file, and its fields for the flags of a descriptor. -/
theorem fcntl_outside : (FdCall.fcntl.handler allReadable sixteen
      ⟨fun fd => if fd = 16 then 1 else 0, (), []⟩).1 = 0 ∧
    (FdCall.fcntl.handler allReadable sixteen
      ⟨fun fd => if fd = 16 then 1 else 0, (), []⟩).2.indexed = [16] ∧
    ¬ Checked allReadable sixteen .fcntl (fun fd => if fd = 16 then 1 else 0) () := by
  have hindexed : (FdCall.fcntl.handler allReadable sixteen
      ⟨fun fd => if fd = 16 then 1 else 0, (), []⟩).2.indexed = [16] := by decide
  refine ⟨by decide, hindexed, fun h => ?_⟩
  have hin := h.inside 16 (by rw [hindexed]; exact List.mem_singleton_self _)
  exact absurd hin (by decide)

end Xv7.Syscall
