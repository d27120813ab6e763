import Xv7.Lib.Machine
import Xv7.Lib.Ring

/-!
# Pipes

`pipewrite`, `piperead` and `pipeclose` on one pipe, with the parts of `sleep`, `wakeup` and `kill`
that they meet.  A step of a process ends where it gives up the lock of the pipe, or where it has to
take that of the process table or reads what is written under it, so that the machine has every
interleaving of the two locks.

The bytes that were stored and those that were delivered are recorded in the order in which this
happens.
-/

namespace Xv7

/-- Size of the buffer of a pipe. -/
abbrev PIPESIZE : ℕ := 512

/-- `struct pipe` without its lock. -/
structure Pipe where
  ring : Ring.Buffer UInt8
  readopen : Bool
  writeopen : Bool

namespace Pipe

/-- The counters are 32 bits wide. -/
abbrev WRAP : ℕ := 2 ^ 32

/-- `p->nwrite == p->nread + PIPESIZE`. -/
def Full (p : Pipe) : Prop := Ring.Full PIPESIZE WRAP p.ring

/-- `p->nread == p->nwrite`. -/
def Empty (p : Pipe) : Prop := Ring.Empty p.ring

instance (p : Pipe) : Decidable p.Full := inferInstanceAs (Decidable (Ring.Full _ _ _))

instance (p : Pipe) : Decidable p.Empty := inferInstanceAs (Decidable (Ring.Empty _))

/-- What a process sleeps on: `&p->nread` or `&p->nwrite`. -/
inductive Chan where
  | nread
  | nwrite
  deriving DecidableEq, Repr

/-- Where a process is in a call. -/
inductive Pc where
  /-- Not in a call on the pipe. -/
  | idle
  /-- `pipewrite`, before it takes the lock, for the first time or after `sleep`. -/
  | write (addr : ℕ → UInt8) (n : ℤ) (i : ℕ)
  /-- The pipe is full, and nothing else was tested. -/
  | writeFull (addr : ℕ → UInt8) (n : ℤ) (i : ℕ)
  /-- Before `wakeup(&p->nread)` in the loop. -/
  | writeWake (addr : ℕ → UInt8) (n : ℤ) (i : ℕ)
  /-- Before `sleep(&p->nwrite, &p->lock)`. -/
  | writeSleep (addr : ℕ → UInt8) (n : ℤ) (i : ℕ)
  /-- Before `wakeup(&p->nread)` at the end. -/
  | writeDone (n : ℤ)
  /-- `piperead`, before it takes the lock. -/
  | read (n : ℤ)
  /-- The pipe is empty and its write end is open, and nothing else was tested. -/
  | readEmpty (n : ℤ)
  /-- Before `sleep(&p->nread, &p->lock)`. -/
  | readSleep (n : ℤ)
  /-- Before `wakeup(&p->nwrite)`, with the bytes that were copied. -/
  | readDone (n : ℤ) (bytes : List UInt8)
  /-- `pipeclose`, before it takes the lock. -/
  | close (writable : Bool)
  /-- Before the `wakeup` of `pipeclose`. -/
  | closeWake (writable : Bool)

/-- The pipe and the processes. -/
structure State where
  pipe : Pipe
  /-- The holder of `p->lock`. -/
  lock : Option ℕ
  /-- `kfree` was called for the pipe. -/
  freed : Bool
  pc : ℕ → Pc
  /-- The channel that a process is `SLEEPING` on. -/
  chan : ℕ → Option Chan
  killed : ℕ → Bool
  /-- The bytes stored so far. -/
  stored : List UInt8
  /-- The bytes delivered so far. -/
  delivered : List UInt8

/-- What can happen: a process starts a call, or goes on with it; `kill` finds a process. -/
inductive Event where
  | pipewrite (k : ℕ) (addr : ℕ → UInt8) (n : ℤ)
  | piperead (k : ℕ) (n : ℤ)
  | pipeclose (k : ℕ) (writable : Bool)
  | run (k : ℕ)
  | kill (k : ℕ) (sigkill : Bool)

/-! ## The loops under the lock -/

/-- The loop of `pipewrite` until the pipe is full: `m` bytes are left, the next one is number
`i`. -/
def storeLoop (addr : ℕ → UInt8) : ℕ → Ring.Buffer UInt8 → ℕ → Ring.Buffer UInt8 × ℕ
  | 0, b, i => (b, i)
  | m + 1, b, i =>
    if Ring.Full PIPESIZE WRAP b then (b, i)
    else storeLoop addr m (Ring.push PIPESIZE WRAP b (addr i)) (i + 1)

/-- The loop of `piperead` that copies at most `m` bytes. -/
def copyLoop : ℕ → Ring.Buffer UInt8 → List UInt8 × Ring.Buffer UInt8
  | 0, b => ([], b)
  | m + 1, b =>
    if Ring.Empty b then ([], b)
    else
      let (bytes, b') := copyLoop m (Ring.pop WRAP b)
      (Ring.front PIPESIZE b :: bytes, b')

namespace State

/-- Process `k` goes to a point of the code. -/
def goto (s : State) (k : ℕ) (pc : Pc) : State := { s with pc := Function.update s.pc k pc }

/-- `wakeup`. -/
def wakeup (s : State) (c : Chan) : State :=
  { s with chan := fun j => if s.chan j = some c then none else s.chan j }

/-- `release(&p->lock)` at the end of a call. -/
def leave (s : State) (k : ℕ) : State := { s.goto k .idle with lock := none }

/-- `sleep`: under the lock of the process table, the lock of the pipe is released. -/
def sleep (s : State) (k : ℕ) (c : Chan) (pc : Pc) : State :=
  { s.goto k pc with lock := none, chan := Function.update s.chan k (some c) }

/-- `kill` of a process: it is woken up in any case. -/
def kill (s : State) (k : ℕ) (sigkill : Bool) : State :=
  { s with
    killed := Function.update s.killed k (s.killed k || sigkill)
    chan := Function.update s.chan k none }

/-- `pipewrite` from where it takes the lock: bytes are stored until the pipe is full. -/
def store (s : State) (k : ℕ) (addr : ℕ → UInt8) (n : ℤ) (i : ℕ) : State :=
  let (ring, j) := storeLoop addr (n - i).toNat s.pipe.ring i
  { s.goto k (if (j : ℤ) < n then .writeFull addr n j else .writeDone n) with
    lock := some k
    pipe := { s.pipe with ring := ring }
    stored := s.stored ++ (List.range' i (j - i)).map addr }

/-- `piperead` from where it takes the lock: it has to wait, or it copies what is there. -/
def copy (s : State) (k : ℕ) (n : ℤ) : State :=
  if s.pipe.Empty ∧ s.pipe.writeopen then { s.goto k (.readEmpty n) with lock := some k }
  else
    let (bytes, ring) := copyLoop n.toNat s.pipe.ring
    { s.goto k (.readDone n bytes) with
      lock := some k
      pipe := { s.pipe with ring := ring }
      delivered := s.delivered ++ bytes }

/-- `pipeclose` from where it takes the lock: an end is closed. -/
def shut (s : State) (k : ℕ) (writable : Bool) : State :=
  { s.goto k (.closeWake writable) with
    lock := some k
    pipe := if writable then { s.pipe with writeopen := false }
      else { s.pipe with readopen := false } }

/-- The end of `pipeclose`: the page is freed when both ends are closed. -/
def closed (s : State) (k : ℕ) (writable : Bool) : State :=
  { (s.wakeup (if writable then .nread else .nwrite)).leave k with
    freed := s.freed || (!s.pipe.readopen && !s.pipe.writeopen) }

/-- The next step of a process that is not asleep. -/
def run (s : State) (k : ℕ) : Option State :=
  match s.pc k with
  | .idle => none
  | .write addr n i => if s.lock = none ∧ ¬ s.freed then some (s.store k addr n i) else none
  | .writeFull addr n i =>
    if ¬ s.pipe.readopen ∨ s.killed k then some (s.leave k)
    else some (s.goto k (.writeWake addr n i))
  | .writeWake addr n i => some ((s.wakeup .nread).goto k (.writeSleep addr n i))
  | .writeSleep addr n i => some (s.sleep k .nwrite (.write addr n i))
  | .writeDone _ => some ((s.wakeup .nread).leave k)
  | .read n => if s.lock = none ∧ ¬ s.freed then some (s.copy k n) else none
  | .readEmpty n => if s.killed k then some (s.leave k) else some (s.goto k (.readSleep n))
  | .readSleep n => some (s.sleep k .nread (.read n))
  | .readDone _ _ => some ((s.wakeup .nwrite).leave k)
  | .close writable => if s.lock = none ∧ ¬ s.freed then some (s.shut k writable) else none
  | .closeWake writable => some (s.closed k writable)

/-- A process that is in no call starts one. -/
def call (s : State) (k : ℕ) (pc : Pc) : Option State :=
  match s.pc k with
  | .idle => some (s.goto k pc)
  | _ => none

/-- The machine. -/
def step (s : State) : Event → Option State
  | .pipewrite k addr n => s.call k (.write addr n 0)
  | .piperead k n => s.call k (.read n)
  | .pipeclose k writable => s.call k (.close writable)
  | .run k => if s.chan k = none then s.run k else none
  | .kill k sigkill => some (s.kill k sigkill)

/-- `pipealloc`, in a page with any contents. -/
def init (data : ℕ → UInt8) (killed : ℕ → Bool) : State where
  pipe := ⟨⟨data, 0, 0⟩, true, true⟩
  lock := none
  freed := false
  pc := fun _ => .idle
  chan := fun _ => none
  killed := killed
  stored := []
  delivered := []

@[simp] lemma goto_pc_self (s : State) (k : ℕ) (pc : Pc) : (s.goto k pc).pc k = pc := by
  simp only [goto, Function.update_self]

lemma goto_pc_of_ne (s : State) {k j : ℕ} (h : j ≠ k) (pc : Pc) : (s.goto k pc).pc j = s.pc j := by
  simp only [goto, Function.update_of_ne h]

/-! ## What a step can do -/

/-- The process holds the lock of the pipe. -/
def Holding : Pc → Prop
  | .idle | .write _ _ _ | .read _ | .close _ => False
  | _ => True

/-- The steps of a process. -/
inductive Takes (s : State) (k : ℕ) : State → Prop where
  | store {addr n i} (hpc : s.pc k = .write addr n i) (hlock : s.lock = none) :
    Takes s k (s.store k addr n i)
  | giveUp {addr n i} (hpc : s.pc k = .writeFull addr n i)
    (h : s.pipe.readopen = false ∨ s.killed k = true) : Takes s k (s.leave k)
  | goOn {addr n i} (hpc : s.pc k = .writeFull addr n i) (hopen : s.pipe.readopen = true) :
    Takes s k (s.goto k (.writeWake addr n i))
  | wakeReaders {addr n i} (hpc : s.pc k = .writeWake addr n i) :
    Takes s k ((s.wakeup .nread).goto k (.writeSleep addr n i))
  | writeSleep {addr n i} (hpc : s.pc k = .writeSleep addr n i) :
    Takes s k (s.sleep k .nwrite (.write addr n i))
  | writeDone {n} (hpc : s.pc k = .writeDone n) : Takes s k ((s.wakeup .nread).leave k)
  | wait {n} (hpc : s.pc k = .read n) (hlock : s.lock = none) (hempty : s.pipe.Empty)
    (hopen : s.pipe.writeopen = true) :
    Takes s k { s.goto k (.readEmpty n) with lock := some k }
  | copy {n} (hpc : s.pc k = .read n) (hlock : s.lock = none)
    (h : ¬ s.pipe.Empty ∨ s.pipe.writeopen = false) :
    Takes s k { s.goto k (.readDone n (copyLoop n.toNat s.pipe.ring).1) with
      lock := some k
      pipe := { s.pipe with ring := (copyLoop n.toNat s.pipe.ring).2 }
      delivered := s.delivered ++ (copyLoop n.toNat s.pipe.ring).1 }
  | readKilled {n} (hpc : s.pc k = .readEmpty n) : Takes s k (s.leave k)
  | readOn {n} (hpc : s.pc k = .readEmpty n) : Takes s k (s.goto k (.readSleep n))
  | readSleep {n} (hpc : s.pc k = .readSleep n) : Takes s k (s.sleep k .nread (.read n))
  | readDone {n bytes} (hpc : s.pc k = .readDone n bytes) :
    Takes s k ((s.wakeup .nwrite).leave k)
  | shut {writable} (hpc : s.pc k = .close writable) (hlock : s.lock = none) :
    Takes s k (s.shut k writable)
  | closed {writable} (hpc : s.pc k = .closeWake writable) : Takes s k (s.closed k writable)

variable {s s' : State} {e : Event}

lemma takes_of_run {k : ℕ} (h : s.run k = some s') : Takes s k s' := by
  unfold run at h
  split at h
  case h_1 => exact absurd h (by simp)
  case h_2 addr n i hpc =>
    split_ifs at h with hlock
    exact Option.some.inj h ▸ .store hpc hlock.1
  case h_3 addr n i hpc =>
    split_ifs at h with hgive
    · exact Option.some.inj h ▸ .giveUp hpc (by simpa using hgive)
    · rw [not_or] at hgive
      exact Option.some.inj h ▸ .goOn hpc (by simpa using hgive.1)
  case h_4 addr n i hpc => exact Option.some.inj h ▸ .wakeReaders hpc
  case h_5 addr n i hpc => exact Option.some.inj h ▸ .writeSleep hpc
  case h_6 n hpc => exact Option.some.inj h ▸ .writeDone hpc
  case h_7 n hpc =>
    split_ifs at h with hlock
    rw [State.copy] at h
    split_ifs at h with hwait
    · exact Option.some.inj h ▸ .wait hpc hlock.1 hwait.1 hwait.2
    · rw [not_and_or, Bool.not_eq_true] at hwait
      exact Option.some.inj h ▸ .copy hpc hlock.1 hwait
  case h_8 n hpc =>
    split_ifs at h
    · exact Option.some.inj h ▸ .readKilled hpc
    · exact Option.some.inj h ▸ .readOn hpc
  case h_9 n hpc => exact Option.some.inj h ▸ .readSleep hpc
  case h_10 n bytes hpc => exact Option.some.inj h ▸ .readDone hpc
  case h_11 writable hpc =>
    split_ifs at h with hlock
    exact Option.some.inj h ▸ .shut hpc hlock.1
  case h_12 writable hpc => exact Option.some.inj h ▸ .closed hpc

lemma call_eq_some {k : ℕ} {pc : Pc} (h : s.call k pc = some s') :
    s.pc k = .idle ∧ s' = s.goto k pc := by
  unfold call at h
  split at h
  · rename_i hpc
    exact ⟨hpc, (Option.some.inj h).symm⟩
  · exact absurd h (by simp)

/-- An event starts a call, or is a step of a call, or a `kill`. -/
lemma step_cases (h : s.step e = some s') :
    (∃ k pc, s.pc k = .idle ∧ ¬ Holding pc ∧ s' = s.goto k pc) ∨
      (∃ k, e = .run k ∧ Takes s k s') ∨ ∃ k sigkill, s' = s.kill k sigkill := by
  cases e with
  | pipewrite k | piperead k | pipeclose k =>
    obtain ⟨hpc, rfl⟩ := call_eq_some h
    exact .inl ⟨k, _, hpc, id, rfl⟩
  | run k =>
    rw [step] at h
    split_ifs at h
    exact .inr (.inl ⟨k, rfl, takes_of_run h⟩)
  | kill k sigkill => exact .inr (.inr ⟨k, sigkill, (Option.some.inj h).symm⟩)

/-! ## The lock -/

/-- A process that is in a critical section holds the lock. -/
def Locked (s : State) : Prop := ∀ k, Holding (s.pc k) → s.lock = some k

lemma locked_init (data : ℕ → UInt8) (killed : ℕ → Bool) : Locked (init data killed) :=
  fun _ h => h.elim

/-- The other processes are outside of their critical sections. -/
lemma Locked.not_holding (h : Locked s) {k j : ℕ} (hk : s.lock = none ∨ s.lock = some k)
    (hj : j ≠ k) : ¬ Holding (s.pc j) := by
  intro hhold
  rw [h j hhold] at hk
  rcases hk with hk | hk
  · exact absurd hk (by simp)
  · exact hj (Option.some.inj hk)

/-- A process takes a step when the lock is free or its own. -/
lemma Takes.lock {k : ℕ} (h : Takes s k s') (hl : Locked s) : s.lock = none ∨ s.lock = some k := by
  cases h with
  | store hpc hlock | wait hpc hlock | copy hpc hlock | shut hpc hlock => exact .inl hlock
  | giveUp hpc | goOn hpc | wakeReaders hpc | writeSleep hpc | writeDone hpc | readKilled hpc
  | readOn hpc | readSleep hpc | readDone hpc | closed hpc =>
    exact .inr (hl k (by rw [hpc]; trivial))

/-- The other processes stay where they are. -/
lemma Takes.pc_of_ne {k j : ℕ} (h : Takes s k s') (hj : j ≠ k) : s'.pc j = s.pc j := by
  cases h <;> exact Function.update_of_ne hj _ _

/-- After a step the process holds the lock, or it is free and the process outside. -/
lemma Takes.locked {k : ℕ} (h : Takes s k s') :
    s'.lock = some k ∨ s'.lock = none ∧ ¬ Holding (s'.pc k) ∨
      s'.lock = s.lock ∧ Holding (s.pc k) := by
  cases h with
  | store | wait | copy | shut => exact .inl rfl
  | giveUp | readKilled | writeDone | readDone | closed | writeSleep | readSleep =>
    exact .inr (.inl ⟨rfl, (goto_pc_self _ _ _).symm ▸ id⟩)
  | goOn hpc | wakeReaders hpc | readOn hpc => exact .inr (.inr ⟨rfl, by rw [hpc]; trivial⟩)

lemma Locked.step (hl : Locked s) (h : s.step e = some s') : Locked s' := by
  rcases step_cases h with ⟨k, pc, -, hpc, rfl⟩ | ⟨k, -, htake⟩ | ⟨k, sigkill, rfl⟩
  · intro j hj
    by_cases hjk : j = k
    · subst hjk
      rw [goto_pc_self] at hj
      exact absurd hj hpc
    · rw [goto_pc_of_ne s hjk] at hj
      exact hl j hj
  · intro j hj
    by_cases hjk : j = k
    · subst hjk
      rcases htake.locked with hlock | ⟨-, hout⟩ | ⟨hlock, hhold⟩
      · exact hlock
      · exact absurd hj hout
      · rw [hlock, hl j hhold]
    · rw [htake.pc_of_ne hjk] at hj
      exact absurd hj (hl.not_holding (htake.lock hl) hjk)
  · exact hl

end State

end Pipe

end Xv7
