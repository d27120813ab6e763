import Xv7.Sys.Resolve

/-!
# Failed calls

A call that returns -1 has changed no file, with one exception: `sys_open` has made the file when it
finds that no open file or descriptor is free.
-/

namespace Xv7.Sys

open Prog

/-- The calls that work on names. -/
def Syscall.OnNames : Syscall → Prop
  | .open _ _ | .link _ _ | .unlink _ | .mkdir _ | .mknod _ _ _ => True
  | _ => False

/-- The call opens a file that is not there yet. -/
def State.Creates (s : State) (c : Caller) : Syscall → Prop
  | .open (some path) omode => omode &&& O_CREATE ≠ 0 ∧
      ∃ d name, s.parentOf c path = some (d, name) ∧ s.fs.look d name = none
  | _ => False

variable {s s' : State} {c : Caller}

/-- What `sys_open` has done to the files. -/
lemma OpenDone.fs_eq {path : List UInt8} {omode : BitVec 32} (ht : Settled s)
    (h : OpenDone s c path omode s') (hnew : ¬ s.Creates c (.open (some path) omode)) :
    s'.fs = s.fs := by
  have hopened : ∀ {i n fs}, Files.Swept s.Unheld s.fs fs → Opened s s.refs c i n fs s' →
      s'.fs = s.fs := by
    intro i n fs hsw hopened
    rcases hopened with ⟨-, hsw'⟩ | ⟨f, fd, -, -, -, hfs, -⟩
    · exact ht.swept_eq (hsw.trans hsw')
    · exact hfs.trans (ht.swept_eq hsw)
  rcases h with ⟨-, -, hsw⟩ | ⟨i, n, -, -, -, hsw⟩ | ⟨i, n, fs1, -, -, hsw, -, ho⟩ |
    ⟨i, n, s1, hcreate, -, hmade, ho⟩
  · exact ht.swept_eq hsw
  · exact ht.swept_eq hsw
  · exact hopened hsw ho
  · rcases hmade with ⟨-, -, hsw⟩ | ⟨d, name, fs1, htarget, hsw, -, hnone, -, -, -⟩
    · exact hopened hsw ho
    · rw [ht.swept_eq hsw] at hnone
      refine absurd ⟨hcreate, d, name, htarget, ?_⟩ hnew
      rw [Files.look, hnone]
      rfl

/-- The first process has no descriptor left. -/
def noFds : State :=
  { boot oneFile with
    ftable := fun f => if f = 0 then ⟨NOFILE, .pipe, 0⟩ else ⟨0, .none, 0⟩
    ofile := fun p _ => if p = 0 then some 0 else none }

lemma good_noFds : Good noFds := by
  have hboot : Good (boot oneFile) := good_boot (by decide)
  refine ⟨⟨hboot.cache.distinct, hboot.cache.copy, hboot.cache.live⟩, rfl, fun i => ?_, fun f => ?_,
    fun f hf => ?_⟩
  · have hfiles : ∀ f, ¬ (noFds.ftable f).Holds i := fun f hf => by
      have htype := hf.2.1
      by_cases h0 : f = 0 <;> simp [noFds, h0] at htype
    have hle := hboot.handles i
    unfold State.holders at hle ⊢
    simp only [hfiles, if_false, Finset.sum_const_zero]
    have hcwd : noFds.cwd = (boot oneFile).cwd := rfl
    have hinode : noFds.inode = (boot oneFile).inode := rfl
    rw [hcwd, hinode]
    omega
  · by_cases h0 : f = 0
    · subst h0
      simp [State.fds, noFds]
    · simp [State.fds, noFds, Ne.symm h0]
  · by_cases h0 : f = 0
    · subst h0
      exact absurd hf (by decide)
    · simp [noFds, h0]

end Xv7.Sys
