import Xv7.Console.Model
import Xv7.Pipe.Model

/-!
# What system calls write to user memory

The arguments of a system call are on the user stack.  A handler that writes through a pointer
argument has to pass `argptr` the number of bytes that it writes; `argptr` checks that they lie below
the size of the process.  For each handler there is a trace: the ranges that `argptr` has accepted,
and the addresses of the bytes that were written.

All handlers keep inside what they have checked except for `sys_getcwd`, which checks one byte and
writes at least two.
-/

namespace Xv7.Syscall

/-- The first address of the kernel. -/
abbrev KERNBASE : ℕ := 2 ^ 31

/-- The memory of the current process, its size and its stack pointer.  `exec` and `growproc` let no
process grow into the kernel. -/
structure Proc where
  mem : BitVec 32 → UInt8
  sz : BitVec 32
  esp : BitVec 32
  size_le : sz.toNat ≤ KERNBASE

/-! ## Arguments -/

namespace Proc

/-- `*(int*)addr`. -/
def word (p : Proc) (addr : BitVec 32) : BitVec 32 :=
  (p.mem (addr + 3)).toBitVec ++ (p.mem (addr + 2)).toBitVec ++ (p.mem (addr + 1)).toBitVec ++
    (p.mem addr).toBitVec

/-- `fetchint`. -/
def fetchint (p : Proc) (addr : BitVec 32) : Option (BitVec 32) :=
  if p.sz ≤ addr ∨ p.sz < addr + 4 then none else some (p.word addr)

/-- `argint`. -/
def argint (p : Proc) (n : ℕ) : Option (BitVec 32) :=
  p.fetchint (p.esp + 4 + 4 * BitVec.ofNat 32 n)

/-- `argptr`. -/
def argptr (p : Proc) (n : ℕ) (size : BitVec 32) : Option (BitVec 32) :=
  match p.argint n with
  | none => none
  | some i => if size.toInt < 0 ∨ p.sz ≤ i ∨ p.sz < i + size then none else some i

end Proc

/-! ## What the kernel stores -/

/-- What `fileread` reads from. -/
inductive Source where
  /-- A pipe, with the ring at the time when the bytes are copied. -/
  | pipe (ring : Ring.Buffer UInt8)
  /-- A file or a directory: its contents and the offset. -/
  | inode (contents : List UInt8) (off : ℕ)
  /-- The console, with the ring each time `consoleread` has the lock, up to the end of the call. -/
  | console (wakes : List Console.Input)
  /-- A device that cannot be read. -/
  | device

/-- The fields of `struct file` that matter for `fileread` and `filestat`. -/
structure File where
  readable : Bool
  source : Source

/-- What `sys_getcwd` finds: the current directory is the root, no path leads to it, or this is the
text in `temp` up to its end. -/
inductive Cwd where
  | root
  | failed
  | path (text : List UInt8)
  deriving DecidableEq, Repr

/-- Number of descriptors of a process. -/
abbrev NOFILE : ℕ := 16

/-- What the handlers find in the kernel. -/
structure Kernel where
  ofile : Fin NOFILE → Option File
  /-- The bytes of `myproc()->name`. -/
  name : ℕ → UInt8
  cwd : Cwd
  /-- `pipealloc` and both `fdalloc` succeed. -/
  pipeOk : Bool

/-- The bytes that `consoleread` stores: it goes on at each wakeup until it returns. -/
def consoleread : List Console.Input → (target n : ℕ) → List UInt8 → List UInt8
  | [], _, _, dst => dst
  | input :: wakes, target, n, dst =>
    match (Console.readLoop input target n dst).2 with
    | .done dst' => dst'
    | .empty rd => consoleread wakes rd.target rd.n rd.dst

/-- The bytes that `fileread` stores. -/
def File.fileread (f : File) (n : ℕ) : List UInt8 :=
  if f.readable = false then []
  else match f.source with
    | .pipe ring => (Pipe.copyLoop n ring).1
    | .inode contents off => (contents.drop off).take n
    | .console wakes => consoleread wakes n n []
    | .device => []

/-- `filestat` knows the file. -/
def File.IsInode (f : File) : Bool :=
  match f.source with
  | .pipe _ => false
  | _ => true

/-- The loop of `safestrcpy` and the zero behind it: the bytes that are stored when `n` more are
allowed before the last one. -/
def strcpyLoop (t : ℕ → UInt8) : ℕ → ℕ → List UInt8
  | 0, _ => [0]
  | n + 1, i => t i :: if t i = 0 then [0] else strcpyLoop t n (i + 1)

/-- The bytes that `safestrcpy(s, t, n)` stores. -/
def safestrcpy (t : ℕ → UInt8) (n : ℕ) : List UInt8 := if n = 0 then [] else strcpyLoop t (n - 1) 0

/-- `sizeof(temp) - 1` in `sys_getcwd`. -/
abbrev TEMPSIZE : ℕ := 511

/-- `'/'`. -/
abbrev slash : UInt8 := 47

/-- The bytes that `sys_getcwd` stores in a buffer of `size` bytes. -/
def Cwd.text (size : ℕ) : Cwd → List UInt8
  | .root => if size < 2 then [] else [slash, 0]
  | .failed => []
  | .path text =>
    if text = [] then if size < 2 then [] else [slash, 0]
    else if size ≤ text.length then []
    else if text.head? = some slash then text ++ [0]
    else if TEMPSIZE ≤ text.length then []
    else slash :: text ++ [0]

/-! ## Handlers -/

/-- What a handler has done to user memory. -/
structure Trace where
  /-- The ranges that `argptr` has accepted: address and length. -/
  accepted : List (BitVec 32 × ℕ)
  written : List (BitVec 32)
  deriving DecidableEq, Repr

/-- The handler writes nothing. -/
def quiet : Trace := ⟨[], []⟩

/-- The addresses of `n` bytes. -/
def range (a : BitVec 32) (n : ℕ) : List (BitVec 32) := (List.range n).map fun i => a + BitVec.ofNat 32 i

/-- `argptr`, and a handler that goes on with the pointer. -/
def withPtr (p : Proc) (n : ℕ) (size : BitVec 32) (k : BitVec 32 → List (BitVec 32)) : Trace :=
  match p.argptr n size with
  | none => quiet
  | some a => ⟨[(a, size.toNat)], k a⟩

/-- `argfd`. -/
def argfd (p : Proc) (k : Kernel) (n : ℕ) : Option File :=
  match p.argint n with
  | none => none
  | some fd => if h : fd.toNat < NOFILE then k.ofile ⟨fd.toNat, h⟩ else none

/-- `sys_read`. -/
def sysRead (p : Proc) (k : Kernel) : Trace :=
  match argfd p k 0, p.argint 2 with
  | some f, some n => withPtr p 1 n fun a => range a (f.fileread n.toNat).length
  | _, _ => quiet

/-- `sys_write` reads from the pointer. -/
def sysWrite (p : Proc) (k : Kernel) : Trace :=
  match argfd p k 0, p.argint 2 with
  | some _, some n => withPtr p 1 n fun _ => []
  | _, _ => quiet

/-- The fields of `struct stat`: offset and size. -/
def statFields : List (ℕ × ℕ) := [(0, 2), (4, 4), (8, 4), (12, 2), (16, 4), (20, 4), (24, 4), (28, 4)]

/-- `sizeof(struct stat)`. -/
abbrev STATSIZE : ℕ := 32

/-- `sys_fstat`. -/
def sysFstat (p : Proc) (k : Kernel) : Trace :=
  match argfd p k 0 with
  | some f => withPtr p 1 (BitVec.ofNat 32 STATSIZE) fun a =>
      if f.IsInode then statFields.flatMap fun fld => range (a + BitVec.ofNat 32 fld.1) fld.2 else []
  | none => quiet

/-- `sys_pipe`. -/
def sysPipe (p : Proc) (k : Kernel) : Trace :=
  withPtr p 0 8 fun a => if k.pipeOk then range a 4 ++ range (a + 4) 4 else []

/-- `sys_getcwd`, which passes `argptr` the length 1. -/
def sysGetcwd (p : Proc) (k : Kernel) : Trace :=
  withPtr p 0 1 fun a =>
    match p.argint 1 with
    | none => []
    | some size =>
      if a = 0 ∨ size.toInt ≤ 0 then [] else range a (k.cwd.text size.toNat).length

/-- `sys_kgetprogname`. -/
def sysKgetprogname (p : Proc) (k : Kernel) : Trace :=
  withPtr p 0 16 fun a => range a (safestrcpy k.name 16).length

/-- `sys_ioctl` gives the pointer to `consoleioctl`, which does not use it. -/
def sysIoctl (p : Proc) (_ : Kernel) : Trace :=
  match p.argint 0, p.argint 1 with
  | some _, some _ => withPtr p 2 4 fun _ => []
  | _, _ => quiet

/-- `sys_sigaction` keeps the pointer as the address of the handler. -/
def sysSigaction (p : Proc) (_ : Kernel) : Trace :=
  match p.argint 0 with
  | some _ => withPtr p 1 4 fun _ => []
  | none => quiet

/-- `SYS_getcwd`. -/
abbrev SYS_getcwd : ℕ := 24

/-- `syscall` for the number in `%eax`.  The other handlers have no pointer arguments or only strings,
which they read. -/
def syscall (p : Proc) (k : Kernel) (num : ℕ) : Trace :=
  match num with
  | 4 => sysPipe p k
  | 5 => sysRead p k
  | 8 => sysFstat p k
  | 16 => sysWrite p k
  | 23 => sysIoctl p k
  | 24 => sysGetcwd p k
  | 27 => sysKgetprogname p k
  | 31 => sysSigaction p k
  | _ => quiet

/-! ## Inside what was checked -/

/-- Every byte written lies in a range that `argptr` has accepted, and below the size of the
process. -/
def Trace.Inside (t : Trace) (sz : BitVec 32) : Prop :=
  ∀ a ∈ t.written, (∃ r ∈ t.accepted, r.1.toNat ≤ a.toNat ∧ a.toNat < r.1.toNat + r.2) ∧ a < sz

/-- `sys_getcwd` has a path to store. -/
def Kernel.CwdFits (k : Kernel) (size : ℕ) : Prop :=
  match k.cwd with
  | .root => 2 ≤ size
  | .failed => False
  | .path text => text = [] ∧ 2 ≤ size ∨
      text ≠ [] ∧ text.length < size ∧ (text.head? = some slash ∨ text.length < TEMPSIZE)

/-- The call is a `getcwd` with a valid address and a size that the path of the current directory fits
in. -/
def StoresCwd (p : Proc) (k : Kernel) (num : ℕ) : Prop :=
  num = SYS_getcwd ∧ ∃ size a, p.argint 1 = some size ∧ p.argptr 0 1 = some a ∧ a ≠ 0 ∧
    0 < size.toInt ∧ k.CwdFits size.toNat

section

variable {p : Proc} {k : Kernel} {n : ℕ} {size a b : BitVec 32}

lemma inside_quiet : quiet.Inside p.sz := fun _ h => absurd h List.not_mem_nil

/-- What `argptr` accepts lies below the size of the process. -/
lemma Proc.argptr_eq_some (h : p.argptr n size = some a) :
    0 ≤ size.toInt ∧ a < p.sz ∧ a.toNat + size.toNat ≤ p.sz.toNat := by
  rw [Proc.argptr] at h
  split at h
  · exact nomatch h
  · split_ifs at h with hbad
    rw [Option.some.injEq] at h
    subst h
    simp only [not_or, not_lt, BitVec.not_le] at hbad
    obtain ⟨hpos, hlt, hsum⟩ := hbad
    have hsz := p.size_le
    refine ⟨hpos, hlt, ?_⟩
    have hsmall : size.toNat < 2 ^ 31 := by
      rw [BitVec.toInt_eq_toNat_cond] at hpos
      split_ifs at hpos with hmsb
      · omega
      · omega
    simp only [KERNBASE] at hsz
    bv_omega

lemma mem_range : b ∈ range a n ↔ ∃ i < n, b = a + BitVec.ofNat 32 i := by
  simp only [range, List.mem_map, List.mem_range]
  exact ⟨fun ⟨i, hi, h⟩ => ⟨i, hi, h.symm⟩, fun ⟨i, hi, h⟩ => ⟨i, hi, h.symm⟩⟩

/-- A handler that stays in the range that it has checked. -/
lemma inside_withPtr {st : BitVec 32 → List (BitVec 32)}
    (h : ∀ a, p.argptr n size = some a → ∀ b ∈ st a, ∃ i < size.toNat, b = a + BitVec.ofNat 32 i) :
    (withPtr p n size st).Inside p.sz := by
  rw [withPtr]
  rcases hptr : p.argptr n size with _ | a
  · exact inside_quiet
  · intro b hb
    obtain ⟨hpos, hlt, hsum⟩ := p.argptr_eq_some hptr
    obtain ⟨i, hi, rfl⟩ := h a hptr b hb
    have hsz := p.size_le
    have hadd : (a + BitVec.ofNat 32 i).toNat = a.toNat + i := by
      simp only [KERNBASE] at hsz
      bv_omega
    refine ⟨⟨_, List.mem_singleton_self _, ?_⟩, ?_⟩
    · rw [hadd]
      constructor
      · exact Nat.le_add_right _ _
      · exact Nat.add_lt_add_left hi _
    · rw [BitVec.lt_def, hadd]
      omega

end

/-! ### How much is stored -/

lemma length_copyLoop (n : ℕ) (ring : Ring.Buffer UInt8) : (Pipe.copyLoop n ring).1.length ≤ n := by
  induction n generalizing ring with
  | zero => exact le_rfl
  | succ n ih =>
    rw [Pipe.copyLoop]
    split_ifs
    · exact Nat.zero_le _
    · exact Nat.succ_le_succ (ih _)

/-- The loop of `consoleread` stores no more than it was asked for, and knows how much is left. -/
lemma length_readLoop (s : Console.Input) (target n : ℕ) (dst : List UInt8) :
    match (Console.readLoop s target n dst).2 with
    | .done dst' => dst'.length ≤ n + dst.length
    | .empty rd => rd.n + rd.dst.length = n + dst.length := by
  induction n generalizing s dst with
  | zero => exact le_of_eq (Nat.zero_add _).symm
  | succ n ih =>
    rw [Console.readLoop]
    by_cases hempty : s.r = s.w
    · rw [if_pos hempty]
    rw [if_neg hempty]
    simp only
    by_cases hD : s.get s.r = Console.C 'D'
    · rw [if_pos hD]
      exact Nat.le_add_left _ _
    rw [if_neg hD]
    by_cases hnl : s.get s.r = Console.newline
    · rw [if_pos hnl]
      simp only [List.length_append, List.length_singleton]
      omega
    rw [if_neg hnl]
    have := ih { s with r := s.r + 1 } (dst ++ [s.get s.r])
    simp only [List.length_append, List.length_singleton] at this
    rw [show n + 1 + dst.length = n + (dst.length + 1) by omega]
    exact this

lemma length_consoleread (wakes : List Console.Input) (target n : ℕ) (dst : List UInt8) :
    (consoleread wakes target n dst).length ≤ n + dst.length := by
  induction wakes generalizing target n dst with
  | nil => exact Nat.le_add_left _ _
  | cons input wakes ih =>
    have hloop := length_readLoop input target n dst
    rw [consoleread]
    rcases hend : (Console.readLoop input target n dst).2 with dst' | rd <;> rw [hend] at hloop
    · exact hloop
    · exact (ih rd.target rd.n rd.dst).trans_eq hloop

lemma length_fileread (f : File) (n : ℕ) : (f.fileread n).length ≤ n := by
  rw [File.fileread]
  split_ifs
  · exact Nat.zero_le _
  · rcases f.source with ring | ⟨contents, off⟩ | wakes | _
    · exact length_copyLoop n ring
    · exact List.length_take_le _ _
    · exact length_consoleread wakes n n []
    · exact Nat.zero_le _

lemma length_strcpyLoop (t : ℕ → UInt8) (n i : ℕ) : (strcpyLoop t n i).length ≤ n + 1 := by
  induction n generalizing i with
  | zero => exact le_rfl
  | succ n ih =>
    rw [strcpyLoop, List.length_cons]
    split_ifs
    · exact Nat.succ_le_succ (Nat.succ_le_succ (Nat.zero_le n))
    · exact Nat.succ_le_succ (ih _)

/-- `sys_getcwd` stores nothing or at least two bytes. -/
lemma Kernel.length_text (k : Kernel) (size : ℕ) :
    k.CwdFits size ∧ 2 ≤ (k.cwd.text size).length ∨ ¬ k.CwdFits size ∧ k.cwd.text size = [] := by
  unfold Kernel.CwdFits
  rcases k.cwd with _ | _ | text
  · simp only [Cwd.text]
    split_ifs with h
    · exact Or.inr ⟨by omega, rfl⟩
    · exact Or.inl ⟨by omega, le_rfl⟩
  · exact Or.inr ⟨id, rfl⟩
  · simp only [Cwd.text]
    split_ifs with hnil hsize hlen hslash htemp
    · exact Or.inr ⟨by simp [hnil]; omega, rfl⟩
    · exact Or.inl ⟨Or.inl ⟨hnil, by omega⟩, le_rfl⟩
    · exact Or.inr ⟨by simp [hnil]; omega, rfl⟩
    · have hpos := List.length_pos_iff.mpr hnil
      refine Or.inl ⟨Or.inr ⟨hnil, by omega, Or.inl hslash⟩, ?_⟩
      rw [List.length_append, List.length_singleton]
      omega
    · exact Or.inr ⟨by simp [hnil, hslash]; omega, rfl⟩
    · have hpos := List.length_pos_iff.mpr hnil
      refine Or.inl ⟨Or.inr ⟨hnil, by omega, Or.inr (by omega)⟩, ?_⟩
      simp

/-! ### The handlers -/

section

variable (p : Proc) (k : Kernel)

lemma inside_sysRead : (sysRead p k).Inside p.sz := by
  rw [sysRead]
  split
  · refine inside_withPtr fun a _ b hb => ?_
    obtain ⟨i, hi, rfl⟩ := mem_range.mp hb
    exact ⟨i, hi.trans_le (length_fileread _ _), rfl⟩
  · exact inside_quiet

lemma inside_nothing {n : ℕ} {size : BitVec 32} : (withPtr p n size fun _ => []).Inside p.sz :=
  inside_withPtr fun _ _ _ hb => absurd hb List.not_mem_nil

lemma inside_sysWrite : (sysWrite p k).Inside p.sz := by
  rw [sysWrite]
  split
  · exact inside_nothing p
  · exact inside_quiet

lemma inside_sysFstat : (sysFstat p k).Inside p.sz := by
  rw [sysFstat]
  split
  · refine inside_withPtr fun a _ b hb => ?_
    split_ifs at hb
    · obtain ⟨⟨off, len⟩, hfld, hb⟩ := List.mem_flatMap.mp hb
      obtain ⟨i, hi, rfl⟩ := mem_range.mp hb
      -- every field ends within the structure
      have hend : ∀ fld ∈ statFields, fld.1 + fld.2 ≤ STATSIZE := by decide
      have hle := hend _ hfld
      have hsize : (BitVec.ofNat 32 STATSIZE).toNat = STATSIZE := rfl
      refine ⟨off + i, ?_, ?_⟩
      · rw [hsize]
        exact (Nat.add_lt_add_left hi off).trans_le hle
      · rw [BitVec.add_assoc, ← BitVec.ofNat_add]
    · exact absurd hb List.not_mem_nil
  · exact inside_quiet

lemma inside_sysPipe : (sysPipe p k).Inside p.sz := by
  refine inside_withPtr fun a _ b hb => ?_
  have hsize : (8 : BitVec 32).toNat = 8 := rfl
  split_ifs at hb
  · rcases List.mem_append.mp hb with hb | hb
    · obtain ⟨i, hi, rfl⟩ := mem_range.mp hb
      exact ⟨i, by omega, rfl⟩
    · obtain ⟨i, hi, rfl⟩ := mem_range.mp hb
      refine ⟨4 + i, by omega, ?_⟩
      rw [BitVec.add_assoc, BitVec.ofNat_add]
      rfl
  · exact absurd hb List.not_mem_nil

lemma inside_sysKgetprogname : (sysKgetprogname p k).Inside p.sz := by
  refine inside_withPtr fun a _ b hb => ?_
  obtain ⟨i, hi, rfl⟩ := mem_range.mp hb
  exact ⟨i, hi.trans_le (length_strcpyLoop k.name 15 0), rfl⟩

lemma inside_sysIoctl : (sysIoctl p k).Inside p.sz := by
  rw [sysIoctl]
  split
  · exact inside_nothing p
  · exact inside_quiet

lemma inside_sysSigaction : (sysSigaction p k).Inside p.sz := by
  rw [sysSigaction]
  split
  · exact inside_nothing p
  · exact inside_quiet

/-- `sys_getcwd` stays inside what it has checked if and only if it stores nothing. -/
lemma inside_sysGetcwd : (sysGetcwd p k).Inside p.sz ↔ ¬ StoresCwd p k SYS_getcwd := by
  have hiff : StoresCwd p k SYS_getcwd ↔ ∃ size a, p.argint 1 = some size ∧ p.argptr 0 1 = some a ∧
      a ≠ 0 ∧ 0 < size.toInt ∧ k.CwdFits size.toNat := and_iff_right rfl
  rw [hiff, sysGetcwd]
  rw [withPtr]
  rcases hptr : p.argptr 0 1 with _ | a
  · exact iff_of_true inside_quiet fun ⟨_, _, _, h, _⟩ => nomatch h
  rcases hint : p.argint 1 with _ | size
  · exact iff_of_true (fun _ h => absurd h List.not_mem_nil) fun ⟨_, _, h, _⟩ => nomatch h
  simp only
  split_ifs with hbad
  · refine iff_of_true (fun _ h => absurd h List.not_mem_nil) ?_
    rintro ⟨size', a', hsize, ha, hne, hpos, -⟩
    obtain rfl := Option.some.inj hsize
    obtain rfl := Option.some.inj ha
    rcases hbad with h0 | hle
    · exact hne h0
    · omega
  · simp only [not_or, not_le] at hbad
    rcases k.length_text size.toNat with ⟨hfits, hlen⟩ | ⟨hfits, htext⟩
    · refine iff_of_false (fun hinside => ?_) (not_not_intro ⟨size, a, rfl, rfl, hbad.1, hbad.2, hfits⟩)
      -- the second byte is not in the range of length one
      obtain ⟨⟨r, hr, -, hlt⟩, -⟩ := hinside (a + BitVec.ofNat 32 1) (mem_range.mpr ⟨1, hlen, rfl⟩)
      obtain rfl := List.mem_singleton.mp hr
      obtain ⟨-, ha, -⟩ := p.argptr_eq_some hptr
      have hsz := p.size_le
      simp only [KERNBASE] at hsz
      have hone : (1 : BitVec 32).toNat = 1 := rfl
      simp only [hone] at hlt
      bv_omega
    · rw [htext]
      refine iff_of_true (fun _ h => absurd h List.not_mem_nil) ?_
      rintro ⟨size', a', hsize, -, -, -, hfits'⟩
      obtain rfl := Option.some.inj hsize
      exact hfits hfits'

/-- A system call writes only inside the ranges that it has checked, and below the size of the
process, if and only if it is not a `getcwd` that stores a path. -/
theorem syscall_inside_iff (num : ℕ) :
    (syscall p k num).Inside p.sz ↔ ¬ StoresCwd p k num := by
  by_cases hnum : num = SYS_getcwd
  · subst hnum
    exact inside_sysGetcwd p k
  · refine iff_of_true ?_ fun h => hnum h.1
    unfold syscall
    split
    · exact inside_sysPipe p k
    · exact inside_sysRead p k
    · exact inside_sysFstat p k
    · exact inside_sysWrite p k
    · exact inside_sysIoctl p k
    · exact absurd rfl hnum
    · exact inside_sysKgetprogname p k
    · exact inside_sysSigaction p k
    · exact inside_quiet

end

lemma page_le_kernbase : (0x1000 : BitVec 32).toNat ≤ KERNBASE := by
  decide

/-- A process of one page, whose stack has the arguments 0xfff and 2. -/
def onePage : Proc where
  mem a := if a = 4 then 0xff else if a = 5 then 0x0f else if a = 8 then 2 else 0
  sz := 0x1000
  esp := 0
  size_le := page_le_kernbase

/-- The current directory is the root. -/
def inRoot : Kernel := ⟨fun _ => none, fun _ => 0, .root, true⟩

/-- `getcwd` with the address of the last byte writes behind the process. -/
theorem getcwd_outside : (syscall onePage inRoot SYS_getcwd).accepted = [(0xfff, 1)] ∧
    (syscall onePage inRoot SYS_getcwd).written = [0xfff, 0x1000] ∧
    ¬ (syscall onePage inRoot SYS_getcwd).Inside onePage.sz := by
  have hwritten : (syscall onePage inRoot SYS_getcwd).written = [0xfff, 0x1000] := by decide +kernel
  refine ⟨by decide +kernel, hwritten, fun hinside => ?_⟩
  have := (hinside 0x1000 (by rw [hwritten]; decide)).2
  exact absurd this (by decide)

end Xv7.Syscall
