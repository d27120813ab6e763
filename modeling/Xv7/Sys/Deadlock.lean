import Xv7.Sys.Calls

/-!
# Waiting for oneself

`iput` takes the lock of the inode, also when it only drops a reference.  A call waits for a lock
that it holds itself in two places: `sys_link`, whose `dirlink` drops the inode that has the new name
already, and `sys_unlink`, which locks the inode it removes.  Both happen exactly when the last name
of the path names the directory that it is in.
-/

namespace Xv7.Sys

open Ptable (NPROC)
open Prog

/-- The call comes to an entry that names its own directory. -/
def State.SelfEntry (s : State) (c : Caller) : Syscall → Prop
  | .link (some old) (some new) => s.SelfLink c old new
  | .unlink (some path) => s.SelfUnlink c path
  | _ => False

/-- A call that waits for itself has come to such an entry, and a call that comes to one does not
return. -/
lemma Good.syscall_ends {s : State} (h : Good s) (c : Caller) (call : Syscall) :
    Ends (syscall c call) s (fun _ _ => ¬ s.SelfEntry c call)
      fun e => e = .deadlock → s.SelfEntry c call := by
  have hno : ∀ {Q : ℤ → State → Prop} {x : Kernel ℤ}, ¬ s.SelfEntry c call →
      Ends x s Q Proceeds → Ends x s (fun _ _ => ¬ s.SelfEntry c call)
        fun e => e = .deadlock → s.SelfEntry c call :=
    fun hself hx => hx.imp (fun _ _ _ => hself) fun e he hd => absurd hd he
  cases call with
  | «open» path omode =>
    cases path with
    | none => exact id
    | some path => exact hno id (h.sysOpen path omode)
  | link old new =>
    cases old with
    | none => exact id
    | some old =>
      cases new with
      | none => exact id
      | some new => exact (h.sysLink c old new).mono fun _ _ hs' => hs'.2.1
  | unlink path =>
    cases path with
    | none => exact id
    | some path => exact (h.sysUnlink c path).mono fun _ _ hs' => hs'.2.1
  | mkdir path =>
    cases path with
    | none => exact id
    | some path => exact hno id (h.sysMake path (by decide) 0 0)
  | mknod path major minor =>
    cases path with
    | none => exact id
    | some path => exact hno id (h.sysMake path (by decide) major minor)
  | chdir path =>
    cases path with
    | none => exact id
    | some path => exact hno id (h.sysChdir path)
  | symlink target linkpath =>
    cases target with
    | none => exact id
    | some target =>
      cases linkpath with
      | none => exact id
      | some linkpath => exact hno id (h.sysSymlink target linkpath)
  | getcwd beyond buf size =>
    refine hno (Q := fun _ _ => True) id (ends_map.mpr ?_)
    exact (h.sysGetcwd beyond buf size).mono fun _ _ _ => trivial
  | close fd => exact hno id (h.sysClose fd)

/-- A call that does not panic waits for an inode lock that it holds itself if and only if it comes
to an entry that names its own directory. -/
theorem deadlock_iff_selfEntry {s : State} (h : Good s) (c : Caller) (call : Syscall)
    (hstop : ∀ e, syscall c call s = .error e → e = .deadlock) :
    syscall c call s = .error .deadlock ↔ s.SelfEntry c call := by
  have hends := h.syscall_ends c call
  constructor
  · exact fun he => hends.of_error he rfl
  · intro hself
    rcases hx : syscall c call s with e | ⟨r, s'⟩
    · rw [hstop e hx]
    · exact absurd hself (hends.of_ok hx)

/-! ## A system that has just booted -/

/-- Every process is in the root directory, and no file is open. -/
def boot (fs : Files) : State where
  fs := fs
  ninodes := 200
  inode i := if i = 0 then ⟨ROOTINO, NPROC, true, fs.node ROOTINO⟩
    else ⟨0, 0, false, ⟨0, 0, 0, 0, []⟩⟩
  locked := ∅
  ops := 0
  ftable _ := ⟨0, .none, 0⟩
  cwd _ := 0
  ofile _ _ := none

lemma good_boot {fs : Files} (h : (fs.node ROOTINO).type ≠ 0) : Good (boot fs) := by
  have hpos : ∀ i, 0 < ((boot fs).inode i).ref → i = 0 := by
    intro i hi
    by_contra hne
    simp [boot, hne] at hi
  refine ⟨⟨fun i j hi hj _ => (hpos i hi).trans (hpos j hj).symm, fun i hi _ => ?_,
    fun i hi _ => ?_⟩, rfl, fun i => ?_, fun f => ?_, fun _ _ => rfl⟩
  · rw [hpos i hi]
    rfl
  · rw [hpos i hi]
    exact h
  · by_cases hi : i = 0
    · simp [State.holders, boot, File.Holds, hi]
    · simp [State.holders, boot, File.Holds, Ne.symm hi]
  · simp [State.fds, boot]

/-- A root directory with a file of the name `f`. -/
def oneFile : Files where
  node n := if n = ROOTINO then ⟨T_DIR, 0, 0, 1, []⟩ else if n = 2 then ⟨T_FILE, 0, 0, 1, []⟩
    else ⟨0, 0, 0, 0, []⟩
  dir n := if n = ROOTINO then
      [some (dot, ⟨ROOTINO, 0⟩), some (dotdot, ⟨ROOTINO, 0⟩), some ([102], ⟨2, 0⟩)]
    else []
  gen _ := 0

/-- The first process, with nothing special in its memory. -/
abbrev caller : Caller := ⟨0, 0⟩

/-- `unlink("/f")` does not wait for itself. -/
theorem deadlock_iff_selfEntry_unlink : Good (boot oneFile) ∧
    syscall caller (.unlink (some [slash, 102])) (boot oneFile) ≠ .error .deadlock := by
  have hgood : Good (boot oneFile) := good_boot (by decide)
  have hret : Fallible.failure (syscall caller (.unlink (some [slash, 102])) (boot oneFile)) = none := by
    decide +kernel
  refine ⟨hgood, fun hdead => ?_⟩
  have hself := (deadlock_iff_selfEntry hgood caller (.unlink (some [slash, 102]))
    fun e he => by rw [he] at hret; cases hret).mp hdead
  obtain ⟨d, name, hpath, -, -, hlook⟩ := hself
  have hparent : (boot oneFile).parentOf caller [slash, 102] = some (ROOTINO, [102]) := by
    decide +kernel
  rw [hparent] at hpath
  simp only [Option.some.injEq, Prod.mk.injEq] at hpath
  rw [← hpath.1, ← hpath.2] at hlook
  exact absurd hlook (by decide +kernel)

/-- `link("/f", "/.")` waits for the lock of the root directory, which it holds. -/
theorem deadlock_linkDot :
    syscall caller (.link (some [slash, 102]) (some [slash, 46])) (boot oneFile) =
      .error .deadlock :=
  Fallible.eq_error_of_failure (by decide +kernel)

end Xv7.Sys
