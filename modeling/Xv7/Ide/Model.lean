import Xv7.Bio.Model
import Xv7.Lib.Queue
import Xv7.Proc.Table

/-!
# The disk driver

`idestart`, `ideintr` and `iderw`, with the locks of the buffers.  A step is what a process or the
interrupt handler does while it has `idelock`, or what a process does before it has it.  A process that
sleeps in `iderw` can be woken at any time, since `kill` wakes it too.

The controller has the requests that were started and not completed, and gives one interrupt for each
of them.  The buffers that were appended to the queue and the requests that were completed are
recorded.
-/

namespace Xv7.Ide

open Bio (Buf NBUF)
open Ptable (NPROC)

/-- A call of `iderw`: before it has `idelock`, or asleep.  `since` is the number of requests that had
been completed when it was appended. -/
inductive Call where
  | entered (b : Buf)
  | asleep (b : Buf) (since : ℕ)
  deriving DecidableEq, Repr

/-- The buffer. -/
def Call.buf : Call → Buf
  | .entered b | .asleep b _ => b

/-- A call that has returned: the flags of its buffer, and the transfers of the buffer since it was
appended; `false` is one that has failed. -/
structure Return where
  buf : Buf
  valid : Bool
  dirty : Bool
  transfers : List Bool
  deriving DecidableEq, Repr

/-- The buffers, the queue and the controller. -/
structure State where
  dev : Buf → ℕ
  blockno : Buf → ℕ
  /-- `B_VALID`. -/
  valid : Buf → Bool
  /-- `B_DIRTY`. -/
  dirty : Buf → Bool
  /-- The process that has `b->lock`. -/
  locked : Buf → Option (Fin NPROC)
  /-- `idequeue` and `b->qnext`. -/
  qnext : Option Buf → Option Buf
  havedisk1 : Bool
  calls : Fin NPROC → Option Call
  /-- The requests on the controller: the buffer, and if it is a write. -/
  started : List (Buf × Bool)
  appended : List Buf
  completed : List (Buf × Bool)
  returned : List Return

/-- What can happen. -/
inductive Event where
  /-- `acquiresleep(&b->lock)`. -/
  | lock (p : Fin NPROC) (b : Buf)
  /-- `releasesleep(&b->lock)`. -/
  | unlock (p : Fin NPROC) (b : Buf)
  /-- `b->flags |= B_DIRTY`, in `bwrite` and `log_write`. -/
  | mark (p : Fin NPROC) (b : Buf)
  /-- `bget` takes the buffer for another block. -/
  | recycle (b : Buf) (dev blockno : ℕ)
  /-- `iderw(b)`, up to `acquire(&idelock)`. -/
  | iderw (p : Fin NPROC) (b : Buf)
  /-- `iderw` with `idelock`, up to `sleep`. -/
  | append (p : Fin NPROC)
  /-- `iderw` after `sleep`. -/
  | wake (p : Fin NPROC)
  /-- `ideintr`; `err` says if the disk reports `IDE_DF` or `IDE_ERR` for the request. -/
  | intr (err : Bool)
  deriving DecidableEq, Repr

namespace State

/-- The flags are `B_VALID` without `B_DIRTY`. -/
def Clean (s : State) (b : Buf) : Prop := s.valid b = true ∧ s.dirty b = false
  deriving Decidable

/-- The transfers of a buffer since a number of requests had been completed. -/
def transfers (s : State) (b : Buf) (since : ℕ) : List Bool :=
  ((s.completed.drop since).filter fun x => x.1 = b).map Prod.snd

/-- `idestart`; it panics for a block that is not on the disk. -/
def idestart (s : State) (b : Buf) : Option State :=
  if FSSIZE ≤ s.blockno b then none else some { s with started := s.started ++ [(b, s.dirty b)] }

/-- `iderw` before `acquire`: it panics if the buffer is not locked by the caller, if there is
nothing to do, or if the disk is not there. -/
def iderw (s : State) (p : Fin NPROC) (b : Buf) : Option State :=
  if s.locked b ≠ some p then none
  else if s.Clean b then none
  else if s.dev b ≠ 0 ∧ s.havedisk1 = false then none
  else some { s with calls := Function.update s.calls p (some (.entered b)) }

/-- The end of the loop of `iderw`: return, or sleep. -/
def test (s : State) (p : Fin NPROC) (b : Buf) (since : ℕ) : State :=
  if s.Clean b then { s with
    calls := Function.update s.calls p none
    returned := s.returned ++ [⟨b, s.valid b, s.dirty b, s.transfers b since⟩] }
  else { s with calls := Function.update s.calls p (some (.asleep b since)) }

/-- `iderw` with `idelock`: the buffer is appended, and started if it is the only one. -/
def append (s : State) (p : Fin NPROC) (b : Buf) : Option State := do
  let pp ← Queue.walk (Function.update s.qnext (some b) none) (NBUF + 1) none
  let s := { s with qnext := Queue.append s.qnext pp b, appended := s.appended ++ [b] }
  let s ← if s.qnext none = some b then s.idestart b else some s
  return s.test p b s.completed.length

/-- `ideintr`, when the controller has completed a request.  The buffer is transferred if this was
the request for it, and the disk reports no error. -/
def ideintr (s : State) (request : Buf × Bool) (err : Bool) : Option State :=
  match s.qnext none with
  | none => some s
  | some b =>
    let s := { s with
      qnext := Function.update s.qnext none (s.qnext (some b))
      completed := s.completed ++ [(b, decide (request = (b, s.dirty b)) && !err)]
      valid := Function.update s.valid b true
      dirty := Function.update s.dirty b false }
    match s.qnext none with
    | none => some s
    | some b => s.idestart b

/-- One step; there is none where the kernel stops. -/
def step (s : State) : Event → Option State
  | .lock p b =>
    if s.locked b = none ∧ s.calls p = none then
      some { s with locked := Function.update s.locked b (some p) }
    else none
  | .unlock p b =>
    if s.locked b = some p ∧ s.calls p = none then
      some { s with locked := Function.update s.locked b none }
    else none
  | .mark p b =>
    if s.locked b = some p ∧ s.calls p = none then
      some { s with dirty := Function.update s.dirty b true }
    else none
  | .recycle b dev blockno =>
    if s.locked b = none then some { s with
      dev := Function.update s.dev b dev
      blockno := Function.update s.blockno b blockno
      valid := Function.update s.valid b false
      dirty := Function.update s.dirty b false }
    else none
  | .iderw p b => if s.calls p = none then s.iderw p b else none
  | .append p =>
    match s.calls p with
    | some (.entered b) => s.append p b
    | _ => none
  | .wake p =>
    match s.calls p with
    | some (.asleep b since) => some (s.test p b since)
    | _ => none
  | .intr err =>
    match s.started with
    | [] => none
    | request :: started => { s with started }.ideintr request err

/-- An idle driver. -/
def init (dev blockno : Buf → ℕ) (valid dirty : Buf → Bool) (havedisk1 : Bool) : State where
  dev := dev
  blockno := blockno
  valid := valid
  dirty := dirty
  locked _ := none
  qnext _ := none
  havedisk1 := havedisk1
  calls _ := none
  started := []
  appended := []
  completed := []
  returned := []

end State

end Xv7.Ide
