import Xv7.Lib.Machine

/-!
# The process table

`fork`, `exit`, `wait`, `kill`, `sleep`, `wakeup` and the scheduler on the process table.  A step is
a section under `ptable.lock`; the parts of `fork` between its sections are steps of their own.

The table records for each slot which process it is (a number that is never used again), and which
processes have exited and by whom they were waited for.
-/

namespace Xv7.Ptable

/-- Number of slots. -/
abbrev NPROC : ℕ := 64

instance : NeZero NPROC := ⟨by decide⟩

/-- A slot of the table. -/
abbrev Slot : Type := Fin NPROC

/-- `enum procstate`. -/
inductive ProcState where
  | UNUSED
  | EMBRYO
  | SLEEPING
  | RUNNABLE
  | RUNNING
  | ZOMBIE
  deriving DecidableEq, Repr

/-- What a process sleeps on: `wait` sleeps on the process itself, all others on something else. -/
inductive Chan where
  | proc (p : Slot)
  | other (a : ℕ)
  deriving DecidableEq, Repr

/-- Where a process is in the kernel. -/
inductive Task where
  /-- Not in `fork` or `wait`. -/
  | other
  /-- In `fork`, after `allocproc` has taken a slot. -/
  | forking (np : Slot)
  /-- In `fork`, after the parent of the new process is set. -/
  | forked (np : Slot)
  /-- Asleep in `wait`, or woken up there. -/
  | waiting
  deriving DecidableEq, Repr

/-- The fields of `struct proc` that the table functions use. -/
structure Proc where
  state : ProcState
  pid : UInt32
  parent : Option Slot
  chan : Option Chan
  killed : Bool
  pending : UInt32
  task : Task
  /-- Which process this is. -/
  ident : ℕ
  /-- Which process has forked it. -/
  father : ℕ
  /-- `kill` was called with its pid since `allocproc` gave it this pid. -/
  named : Bool

/-- The table, and what has happened. -/
structure State where
  proc : Slot → Proc
  nextpid : UInt32
  /-- The number of processes so far. -/
  born : ℕ
  exited : List ℕ
  /-- The processes that were waited for, and the slots of those who waited. -/
  reaped : List (ℕ × Slot)

/-- `initproc`. -/
abbrev initproc : Slot := 0

/-- `SIGKILL`. -/
abbrev SIGKILL : UInt32 := 9

/-- What can happen.  Process `i` calls a function or goes on in it. -/
inductive Event where
  /-- The section of `allocproc`, in `fork`. -/
  | alloc (i : Slot)
  /-- `kalloc` or `copyuvm` fails in `fork`. -/
  | forkFail (i : Slot)
  /-- `np->parent = curproc`. -/
  | forkCopy (i : Slot)
  /-- The last section of `fork`. -/
  | forkDone (i : Slot)
  | exit (i : Slot)
  /-- The loop of `wait` until it returns or goes to sleep. -/
  | wait (i : Slot)
  | sleep (i : Slot) (a : ℕ)
  | wakeup (a : ℕ)
  | kill (pid sig : UInt32)
  | yield (i : Slot)
  | schedule (i : Slot)
  deriving DecidableEq, Repr

namespace State

/-- Change one slot. -/
def modify (s : State) (i : Slot) (f : Proc → Proc) : State :=
  { s with proc := Function.update s.proc i (f (s.proc i)) }

/-- The first slot with a property. -/
def first (s : State) (p : Proc → Bool) : Option Slot := (List.finRange NPROC).find? (p ∘ s.proc)

/-- `wakeup1`. -/
def wakeup1 (s : State) (c : Chan) : State :=
  { s with proc := fun p => { s.proc p with
      state := if (s.proc p).state = .SLEEPING ∧ (s.proc p).chan = some c then .RUNNABLE
        else (s.proc p).state } }

/-- What `allocproc` sets under the lock. -/
def embryo (s : State) (np : Slot) : State :=
  { s.modify np fun p => { p with
      state := .EMBRYO, pid := s.nextpid, pending := 0, ident := s.born, named := false } with
    nextpid := s.nextpid + 1
    born := s.born + 1 }

/-- Process `i` goes to a point of the code. -/
def goto (s : State) (i : Slot) (t : Task) : State := s.modify i fun p => { p with task := t }

/-- The section of `allocproc`: the first unused slot, if there is one. -/
def alloc (s : State) (i : Slot) : State :=
  match s.first fun p => p.state = .UNUSED with
  | none => s
  | some np => (s.embryo np).goto i (.forking np)

/-- The children of a process that exits go to `initproc`. -/
def abandon (s : State) (i : Slot) : State :=
  { s with proc := fun p => { s.proc p with
      parent := if (s.proc p).parent = some i then some initproc else (s.proc p).parent } }

/-- The process has a child that has exited. -/
def HasZombie (s : State) (i : Slot) : Prop :=
  ∃ p, (s.proc p).parent = some i ∧ (s.proc p).state = .ZOMBIE

instance (s : State) (i : Slot) : Decidable (s.HasZombie i) :=
  inferInstanceAs (Decidable (∃ p, (s.proc p).parent = some i ∧ (s.proc p).state = .ZOMBIE))

/-- Wake up who waits for children. -/
def wakeParent (s : State) : Option Slot → State
  | none => s
  | some q => s.wakeup1 (.proc q)

/-- The section of `exit`. -/
def exit (s : State) (i : Slot) : State :=
  let s₁ := s.wakeParent (s.proc i).parent
  let s₂ := s₁.abandon i
  let s₃ := if s₁.HasZombie i then s₂.wakeup1 (.proc initproc) else s₂
  { s₃.modify i fun p => { p with state := .ZOMBIE } with exited := (s.proc i).ident :: s.exited }

/-- What `wait` does with a child that has exited. -/
def reap (s : State) (i p : Slot) : State :=
  { s.modify p fun q => { q with pid := 0, parent := none, killed := false, state := .UNUSED } with
    reaped := ((s.proc p).ident, i) :: s.reaped }

/-- `wait` until it returns or goes to sleep. -/
def wait (s : State) (i : Slot) : State :=
  match s.first fun p => p.parent = some i ∧ p.state = .ZOMBIE with
  | some p => (s.reap i p).goto i .other
  | none =>
    if (∀ p, (s.proc p).parent ≠ some i) ∨ (s.proc i).killed then s.goto i .other
    else s.modify i fun p => { p with
      state := .SLEEPING, chan := some (.proc i), task := .waiting }

/-- The slot that `kill` finds; for pid 1 it does not look. -/
def killTarget (s : State) (pid : UInt32) : Option Slot :=
  if pid = 1 then none else s.first fun p => p.pid = pid

/-- What `kill` does to the process it finds. -/
def signal (sig : UInt32) (p : Proc) : Proc :=
  { p with
    killed := if sig = SIGKILL then true else p.killed
    pending := if sig = SIGKILL then p.pending else p.pending ||| (1 <<< (sig % 32))
    state := if p.state = .SLEEPING then .RUNNABLE else p.state }

/-- The processes with a pid have been named. -/
def name (s : State) (pid : UInt32) : State :=
  { s with proc := fun p => { s.proc p with named := (s.proc p).named || (s.proc p).pid = pid } }

/-- `kill`; it returns 0 iff it finds a slot. -/
def kill (s : State) (pid sig : UInt32) : State :=
  match s.killTarget pid with
  | none => s.name pid
  | some q => (s.modify q (signal sig)).name pid

/-- The machine.  A process takes its steps while it is `RUNNING`. -/
def step (s : State) : Event → Option State
  | .alloc i =>
    if (s.proc i).state = .RUNNING ∧ (s.proc i).task = .other then some (s.alloc i) else none
  | .forkFail i =>
    match (s.proc i).task with
    | .forking np =>
      if (s.proc i).state = .RUNNING then
        some ((s.modify np fun p => { p with state := .UNUSED }).goto i .other)
      else none
    | _ => none
  | .forkCopy i =>
    match (s.proc i).task with
    | .forking np =>
      if (s.proc i).state = .RUNNING then
        some ((s.modify np fun p => { p with parent := some i, father := (s.proc i).ident }).goto i
          (.forked np))
      else none
    | _ => none
  | .forkDone i =>
    match (s.proc i).task with
    | .forked np =>
      if (s.proc i).state = .RUNNING then
        some ((s.modify np fun p => { p with state := .RUNNABLE, task := .other }).goto i .other)
      else none
    | _ => none
  | .exit i =>
    if (s.proc i).state = .RUNNING ∧ (s.proc i).task = .other ∧ i ≠ initproc then some (s.exit i)
    else none
  | .wait i =>
    if (s.proc i).state = .RUNNING ∧ ((s.proc i).task = .other ∨ (s.proc i).task = .waiting) then
      some (s.wait i)
    else none
  | .sleep i a =>
    if (s.proc i).state = .RUNNING ∧ (s.proc i).task = .other then
      some (s.modify i fun p => { p with state := .SLEEPING, chan := some (.other a) })
    else none
  | .wakeup a => some (s.wakeup1 (.other a))
  | .kill pid sig => some (s.kill pid sig)
  | .yield i =>
    if (s.proc i).state = .RUNNING then some (s.modify i fun p => { p with state := .RUNNABLE })
    else none
  | .schedule i =>
    if (s.proc i).state = .RUNNABLE then
      some (s.modify i fun p => { p with state := .RUNNING, chan := none })
    else none

/-- The table after `userinit`. -/
def init : State where
  proc := fun p =>
    if p = initproc then ⟨.RUNNABLE, 1, none, none, false, 0, .other, 0, 0, false⟩
    else ⟨.UNUSED, 0, none, none, false, 0, .other, 0, 0, false⟩
  nextpid := 2
  born := 1
  exited := []
  reaped := []

/-! ## What a step can do -/

/-- The steps, with what allows them. -/
inductive Does (s : State) : Event → State → Prop where
  | alloc {i} (hi : (s.proc i).state = .RUNNING) (ht : (s.proc i).task = .other) :
    Does s (.alloc i) (s.alloc i)
  | forkFail {i np} (hi : (s.proc i).state = .RUNNING) (ht : (s.proc i).task = .forking np) :
    Does s (.forkFail i) ((s.modify np fun p => { p with state := .UNUSED }).goto i .other)
  | forkCopy {i np} (hi : (s.proc i).state = .RUNNING) (ht : (s.proc i).task = .forking np) :
    Does s (.forkCopy i) ((s.modify np fun p => { p with
      parent := some i, father := (s.proc i).ident }).goto i (.forked np))
  | forkDone {i np} (hi : (s.proc i).state = .RUNNING) (ht : (s.proc i).task = .forked np) :
    Does s (.forkDone i)
      ((s.modify np fun p => { p with state := .RUNNABLE, task := .other }).goto i .other)
  | exit {i} (hi : (s.proc i).state = .RUNNING) (ht : (s.proc i).task = .other)
    (hne : i ≠ initproc) : Does s (.exit i) (s.exit i)
  | wait {i} (hi : (s.proc i).state = .RUNNING)
    (ht : (s.proc i).task = .other ∨ (s.proc i).task = .waiting) : Does s (.wait i) (s.wait i)
  | sleep {i a} (hi : (s.proc i).state = .RUNNING) (ht : (s.proc i).task = .other) :
    Does s (.sleep i a)
      (s.modify i fun p => { p with state := .SLEEPING, chan := some (.other a) })
  | wakeup {a} : Does s (.wakeup a) (s.wakeup1 (.other a))
  | kill {pid sig} : Does s (.kill pid sig) (s.kill pid sig)
  | yield {i} (hi : (s.proc i).state = .RUNNING) :
    Does s (.yield i) (s.modify i fun p => { p with state := .RUNNABLE })
  | schedule {i} (hi : (s.proc i).state = .RUNNABLE) :
    Does s (.schedule i) (s.modify i fun p => { p with state := .RUNNING, chan := none })

lemma does_of_step {s s' : State} {e : Event} (h : s.step e = some s') : Does s e s' := by
  cases e with
  | alloc i =>
    simp only [step] at h
    split_ifs at h with hi
    exact Option.some.inj h ▸ .alloc hi.1 hi.2
  | forkFail i =>
    simp only [step] at h
    split at h
    · split_ifs at h with hi
      exact Option.some.inj h ▸ .forkFail hi ‹_›
    · exact absurd h (by simp)
  | forkCopy i =>
    simp only [step] at h
    split at h
    · split_ifs at h with hi
      exact Option.some.inj h ▸ .forkCopy hi ‹_›
    · exact absurd h (by simp)
  | forkDone i =>
    simp only [step] at h
    split at h
    · split_ifs at h with hi
      exact Option.some.inj h ▸ .forkDone hi ‹_›
    · exact absurd h (by simp)
  | exit i =>
    simp only [step] at h
    split_ifs at h with hi
    exact Option.some.inj h ▸ .exit hi.1 hi.2.1 hi.2.2
  | wait i =>
    simp only [step] at h
    split_ifs at h with hi
    exact Option.some.inj h ▸ .wait hi.1 hi.2
  | sleep i a =>
    simp only [step] at h
    split_ifs at h with hi
    exact Option.some.inj h ▸ .sleep hi.1 hi.2
  | wakeup a => exact Option.some.inj h ▸ .wakeup
  | kill pid sig => exact Option.some.inj h ▸ .kill
  | yield i =>
    simp only [step] at h
    split_ifs at h with hi
    exact Option.some.inj h ▸ .yield hi
  | schedule i =>
    simp only [step] at h
    split_ifs at h with hi
    exact Option.some.inj h ▸ .schedule hi

end State

end Xv7.Ptable
