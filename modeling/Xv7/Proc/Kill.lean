import Xv7.Console.Model
import Xv7.Pipe.Model
import Xv7.Proc.Table

/-!
# Kill and sleep

A process in one of the calls that wait for something, and everybody else: other processes and
interrupts take and release the spinlocks, change what they protect, wake up and kill.  A step of the
process ends where it takes or releases a lock, so that the machine has every interleaving of the
locks.

Every call tests `killed` before it goes to sleep, and `kill` wakes up a process that sleeps.  Only
`wait` makes the test under `ptable.lock`; in the other calls a `kill` that comes between the test
and `acquire(&ptable.lock)` in `sleep` is slept through.
-/

namespace Xv7.Kill

open Ptable (ProcState)

/-- The spinlocks. -/
inductive Lock where
  | ptable
  | pipe
  | cons
  | tickslock
  deriving DecidableEq, Repr

instance : Fintype Lock := ⟨{.ptable, .pipe, .cons, .tickslock}, fun l => by cases l <;> decide⟩

/-- Who holds a lock: the process, or somebody else. -/
inductive Owner where
  | self
  | other
  deriving DecidableEq, Repr

/-- What a process sleeps on. -/
inductive Chan where
  | nread
  | nwrite
  | input
  | ticks
  | curproc
  deriving DecidableEq, Repr

/-- A call that waits, with its arguments and what it has done. -/
inductive Call where
  | piperead (n : ℤ)
  | pipewrite (addr : ℕ → UInt8) (n : ℤ) (i : ℕ)
  | consoleread (rd : Console.Reader)
  | sysSleep (n ticks0 : BitVec 32)
  | wait

namespace Call

/-- The lock that the call has while it tests. -/
def lk : Call → Lock
  | piperead _ | pipewrite _ _ _ => .pipe
  | consoleread _ => .cons
  | sysSleep _ _ => .tickslock
  | wait => .ptable

/-- What the call sleeps on. -/
def chan : Call → Chan
  | piperead _ => .nread
  | pipewrite _ _ _ => .nwrite
  | consoleread _ => .input
  | sysSleep _ _ => .ticks
  | wait => .curproc

end Call

/-- Where the process is. -/
inductive Pc where
  /-- Not in a call. -/
  | idle
  /-- Before the lock is taken. -/
  | enter (c : Call)
  /-- With the lock, before the condition of the loop. -/
  | test (c : Call)
  /-- Before `wakeup(&p->nread)` in the loop of `pipewrite`. -/
  | wake (c : Call)
  /-- Before `acquire(&ptable.lock)` in `sleep`. -/
  | sleep (c : Call)
  /-- In `sleep`, with `ptable.lock`. -/
  | switch (c : Call)
  /-- The process has given up the processor in `sleep`. -/
  | asleep (c : Call)
  /-- It has got it back, with `ptable.lock`. -/
  | woken (c : Call)
  /-- Before `acquire(lk)` at the end of `sleep`. -/
  | reacquire (c : Call)
  /-- Before the `wakeup` at the end of `piperead` or `pipewrite`. -/
  | finish (c : Call)

/-- The locks, what they protect, and the process. -/
structure State where
  lock : Lock → Option Owner
  pipe : Pipe
  input : Console.Input
  ticks : BitVec 32
  /-- The states of the children of the process. -/
  kids : List ProcState
  pc : Pc
  state : ProcState
  chan : Option Chan
  killed : Bool
  pending : BitVec 32
  blocked : BitVec 32

/-- What can happen.  All but `start`, `run`, `yield` and `schedule` is done by others. -/
inductive Event where
  | start (c : Call)
  | run
  | yield
  | schedule
  | acquire (l : Lock)
  | release (l : Lock)
  | setPipe (pipe : Pipe)
  | setInput (input : Console.Input)
  | setTicks (ticks : BitVec 32)
  | setKids (kids : List ProcState)
  | wakeup (chan : Chan)
  | kill (sig : ℕ)

/-- `SIGKILL`. -/
abbrev SIGKILL : ℕ := 9

namespace State

/-- The process or somebody else takes or gives up a lock. -/
def setLock (s : State) (l : Lock) (o : Option Owner) : State :=
  { s with lock := Function.update s.lock l o }

/-- The process goes to a point of the code. -/
def goto (s : State) (pc : Pc) : State := { s with pc }

/-- `release` of the lock of the call, and return. -/
def leave (s : State) (c : Call) : State := (s.setLock c.lk none).goto .idle

/-- `myproc()->pending & ~myproc()->blocked`. -/
def signalled (s : State) : Bool := s.pending &&& ~~~ s.blocked ≠ 0

/-- The loop of a call, from where its condition is tested to the next point where a lock is taken or
released.  The loops of `piperead`, `consoleread` and `wait` that take what there is are run to their
end; `wait` goes into `sleep` with `ptable.lock`. -/
def test (s : State) : Call → State
  | .piperead n =>
    if s.pipe.Empty ∧ s.pipe.writeopen = true then
      if s.killed then s.leave (.piperead n) else s.goto (.sleep (.piperead n))
    else
      { s with pipe := { s.pipe with ring := (Pipe.copyLoop n.toNat s.pipe.ring).2 } }.goto
        (.finish (.piperead n))
  | .pipewrite addr n i =>
    if n ≤ i then s.goto (.finish (.pipewrite addr n i))
    else if s.pipe.Full then
      if s.pipe.readopen = false ∨ s.killed then s.leave (.pipewrite addr n i)
      else s.goto (.wake (.pipewrite addr n i))
    else
      { s with pipe := { s.pipe with
          ring := Ring.push PIPESIZE Pipe.WRAP s.pipe.ring (addr i) } }.goto
        (.test (.pipewrite addr n (i + 1)))
  | .consoleread rd =>
    match Console.readLoop s.input rd.target rd.n rd.dst with
    | (input, .done _) => { s with input }.leave (.consoleread rd)
    | (input, .empty rd') =>
      if s.killed || s.signalled then { s with input }.leave (.consoleread rd')
      else { s with input }.goto (.sleep (.consoleread rd'))
  | .sysSleep n ticks0 =>
    if s.ticks - ticks0 < n then
      if s.killed then s.leave (.sysSleep n ticks0) else s.goto (.sleep (.sysSleep n ticks0))
    else s.leave (.sysSleep n ticks0)
  | .wait =>
    if .ZOMBIE ∈ s.kids then { s with kids := s.kids.erase .ZOMBIE }.leave .wait
    else if s.kids = [] ∨ s.killed then s.leave .wait
    else s.goto (.switch .wait)

/-- A step of the process. -/
def run (s : State) : Option State :=
  match s.pc with
  | .idle | .asleep _ => none
  | .enter c =>
    if s.lock c.lk = none then
      some ((s.setLock c.lk (some .self)).goto (.test (match c with
        | .sysSleep n _ => .sysSleep n s.ticks
        | c => c)))
    else none
  | .test c => some (s.test c)
  | .wake c => if s.lock .ptable = none then some (s.goto (.sleep c)) else none
  | .sleep c =>
    if s.lock .ptable = none then some ((s.setLock .ptable (some .self)).goto (.switch c)) else none
  | .switch c =>
    some (({ s with chan := some c.chan, state := .SLEEPING }.setLock c.lk none).setLock .ptable none
      |>.goto (.asleep c))
  | .woken c =>
    match c with
    | .wait => some ({ s with chan := none }.goto (.test .wait))
    | c => some (({ s with chan := none }.setLock .ptable none).goto (.reacquire c))
  | .reacquire c =>
    if s.lock c.lk = none then some ((s.setLock c.lk (some .self)).goto (.test c)) else none
  | .finish c => if s.lock .ptable = none then some (s.leave c) else none

/-- A step. -/
def step (s : State) : Event → Option State
  | .start c =>
    match s.pc with
    | .idle => if s.state = .RUNNING then some (s.goto (.enter c)) else none
    | _ => none
  | .run => if s.state = .RUNNING then s.run else none
  | .yield =>
    -- interrupts are off while the process holds a spinlock
    if s.state = .RUNNING ∧ (∀ l, s.lock l ≠ some .self) ∧ s.lock .ptable = none then
      some { s with state := .RUNNABLE }
    else none
  | .schedule =>
    if s.state = .RUNNABLE ∧ s.lock .ptable = none then
      match s.pc with
      | .asleep c => some (({ s with state := .RUNNING }.setLock .ptable (some .self)).goto (.woken c))
      | _ => some { s with state := .RUNNING }
    else none
  | .acquire l => if s.lock l = none then some (s.setLock l (some .other)) else none
  | .release l => if s.lock l = some .other then some (s.setLock l none) else none
  | .setPipe pipe => if s.lock .pipe = some .other then some { s with pipe } else none
  | .setInput input => if s.lock .cons = some .other then some { s with input } else none
  | .setTicks ticks => if s.lock .tickslock = some .other then some { s with ticks } else none
  | .setKids kids => if s.lock .ptable = some .other then some { s with kids } else none
  | .wakeup chan =>
    if s.lock .ptable = some .other then
      if s.state = .SLEEPING ∧ s.chan = some chan then some { s with state := .RUNNABLE } else some s
    else none
  | .kill sig =>
    if s.lock .ptable = some .other then
      let s := if sig = SIGKILL then { s with killed := true }
        else { s with pending := s.pending ||| (1 <<< sig) }
      if s.state = .SLEEPING then some { s with state := .RUNNABLE } else some s
    else none

/-- The process runs and is not in a call, and all locks are free. -/
def init (pipe : Pipe) (input : Console.Input) (ticks : BitVec 32) (kids : List ProcState)
    (pending blocked : BitVec 32) : State where
  lock _ := none
  pipe := pipe
  input := input
  ticks := ticks
  kids := kids
  pc := .idle
  state := .RUNNING
  chan := none
  killed := false
  pending := pending
  blocked := blocked

end State

/-- All spinlocks are free, and the process sleeps in a call although it was killed. -/
def SleptThrough (s : State) : Prop :=
  (∀ l, s.lock l = none) ∧ s.state = .SLEEPING ∧ (∃ c, s.pc = .asleep c) ∧ s.killed = true

/-- The process has tested `killed` without `ptable.lock`, and goes to sleep. -/
def Committed : Pc → Prop
  | .wake _ | .sleep _ => True
  | _ => False

/-- `kill` with `SIGKILL` does not find the process between its test and `sleep`. -/
def Timely (s : State) : Event → Prop
  | .kill sig => sig = SIGKILL → ¬ Committed s.pc
  | _ => True

/-! ## The invariant -/

/-- The locks that the process has at a point of the code. -/
def Pc.Holds : Pc → Lock → Prop
  | .test c, l | .wake c, l | .sleep c, l | .finish c, l => l = c.lk
  | .switch c, l => l = c.lk ∨ l = .ptable
  | .woken _, l => l = .ptable
  | _, _ => False

/-- Only these calls come to these points. -/
def Pc.Fits : Pc → Prop
  | .wake c | .sleep c | .reacquire c | .finish c => c ≠ .wait
  | _ => True

/-- What is kept along every run. -/
structure Sound (s : State) : Prop where
  locks : ∀ l, s.lock l = some .self ↔ s.pc.Holds l
  fits : s.pc.Fits
  /-- A process that holds a lock runs. -/
  running : (∃ l, s.pc.Holds l) → s.state = .RUNNING
  sleeping : s.state = .SLEEPING → ∃ c, s.pc = .asleep c

/-- A process that was killed does not go to sleep. -/
structure Alert (s : State) : Prop where
  awake : s.killed = true → s.state ≠ .SLEEPING
  tested : s.killed = true → ¬ Committed s.pc ∧ ∀ c, s.pc ≠ .switch c

section

variable {s s' : State} {e : Event} {c : Call} {l : Lock} {pc : Pc}

lemma lock_setLock {o : Option Owner} {l' : Lock} :
    (s.setLock l o).lock l' = if l' = l then o else s.lock l' := Function.update_apply ..

/-- What the loop of a call leads to. -/
inductive Tests (s : State) (c : Call) : State → Prop
  /-- It returns. -/
  | leave (s₁ : State) (c' : Call) : c'.lk = c.lk → s₁.lock = s.lock → s₁.state = s.state →
      s₁.killed = s.killed → Tests s c (s₁.leave c')
  /-- It keeps its lock. -/
  | goto (s₁ : State) (pc : Pc) : s₁.lock = s.lock → s₁.state = s.state → s₁.killed = s.killed →
      pc.Fits → (∀ l, pc.Holds l ↔ l = c.lk) →
      ((Committed pc ∨ ∃ c, pc = .switch c) → s.killed = false) → Tests s c (s₁.goto pc)

lemma tests (s : State) (c : Call) : Tests s c (s.test c) := by
  cases c with
  | piperead n =>
    rw [State.test]
    split_ifs with hempty hkilled
    · exact .leave s _ rfl rfl rfl rfl
    · exact .goto s _ rfl rfl rfl (by simp [Pc.Fits]) (fun _ => Iff.rfl) fun _ => by simpa using hkilled
    · exact .goto _ _ rfl rfl rfl (by simp [Pc.Fits]) (fun _ => Iff.rfl) (by simp [Committed])
  | pipewrite addr n i =>
    rw [State.test]
    split_ifs with hdone hfull hgone
    · exact .goto s _ rfl rfl rfl (by simp [Pc.Fits]) (fun _ => Iff.rfl) (by simp [Committed])
    · exact .leave s _ rfl rfl rfl rfl
    · refine .goto s _ rfl rfl rfl (by simp [Pc.Fits]) (fun _ => Iff.rfl) fun _ => ?_
      simpa using fun h => hgone (Or.inr h)
    · exact .goto _ _ rfl rfl rfl trivial (fun _ => Iff.rfl) (by simp [Committed])
  | consoleread rd =>
    rw [State.test]
    rcases Console.readLoop s.input rd.target rd.n rd.dst with ⟨input, dst | rd'⟩
    · exact .leave { s with input } _ rfl rfl rfl rfl
    · simp only
      split_ifs with hkilled
      · exact .leave { s with input } _ rfl rfl rfl rfl
      · refine .goto { s with input } _ rfl rfl rfl (by simp [Pc.Fits]) (fun _ => Iff.rfl) fun _ => ?_
        simpa using fun h : s.killed = true => hkilled (by rw [h, Bool.true_or])
  | sysSleep n ticks0 =>
    rw [State.test]
    split_ifs with hlt hkilled
    · exact .leave s _ rfl rfl rfl rfl
    · exact .goto s _ rfl rfl rfl (by simp [Pc.Fits]) (fun _ => Iff.rfl) fun _ => by simpa using hkilled
    · exact .leave s _ rfl rfl rfl rfl
  | wait =>
    rw [State.test]
    split_ifs with hzombie hnone
    · exact .leave _ _ rfl rfl rfl rfl
    · exact .leave s _ rfl rfl rfl rfl
    · refine .goto s _ rfl rfl rfl trivial (fun _ => ⟨fun h => h.elim id id, Or.inl⟩) fun _ => ?_
      simpa using fun h => hnone (Or.inr h)

/-! ### Locks -/

lemma Sound.leave (h : Sound s) {s1 : State} {c' : Call} (hpc : ∀ l, s.pc.Holds l ↔ l = c'.lk)
    (hlock : s1.lock = s.lock) (hstate : s1.state = s.state) : Sound (s1.leave c') where
  locks l := by
    have hl := h.locks l
    rw [hpc] at hl
    show (s1.setLock c'.lk none).lock l = _ ↔ False
    rw [lock_setLock, hlock]
    split_ifs with heq
    · simp
    · rw [hl]
      exact iff_of_false heq id
  fits := trivial
  running := fun ⟨_, hl⟩ => hl.elim
  sleeping hs := by
    have hrun := h.running ⟨c'.lk, (hpc _).mpr rfl⟩
    rw [State.leave] at hs
    have hs : s1.state = .SLEEPING := hs
    rw [hstate, hrun] at hs
    exact nomatch hs

/-- A step after which the process has the same locks, and one more or less. -/
lemma Sound.goto {s1 : State} (hlocks : ∀ l, s1.lock l = some .self ↔ pc.Holds l) (hfits : pc.Fits)
    (hstate : s1.state = .RUNNING) : Sound (s1.goto pc) where
  locks := hlocks
  fits := hfits
  running _ := hstate
  sleeping hs := by
    have hs : s1.state = .SLEEPING := hs
    rw [hstate] at hs
    exact nomatch hs

lemma Sound.test (h : Sound s) (hpc : s.pc = .test c) (hstate : s.state = .RUNNING) :
    Sound (s.test c) := by
  have hholds : ∀ l, s.pc.Holds l ↔ l = c.lk := fun l => by
    rw [hpc]
    exact Iff.rfl
  have htests := tests s c
  generalize s.test c = t at htests ⊢
  cases htests with
  | leave s1 c' hlk hlock hst _ => exact h.leave (by rwa [hlk]) hlock hst
  | goto s1 pc hlock hst _ hfits hpc' _ =>
    refine Sound.goto (fun l => ?_) hfits (hst.trans hstate)
    rw [hlock, h.locks, hholds, hpc']

/-- The process takes a lock. -/
lemma Sound.take {s1 : State} (h : Sound s) (hlock : s1.lock = s.lock)
    (hpc : ∀ l', pc.Holds l' ↔ l' = l ∨ s.pc.Holds l') (hfits : pc.Fits)
    (hstate : s1.state = .RUNNING) : Sound ((s1.setLock l (some .self)).goto pc) := by
  refine Sound.goto (fun l' => ?_) hfits hstate
  rw [lock_setLock, hlock, hpc]
  split_ifs with heq
  · simp [heq]
  · rw [h.locks]
    exact ⟨Or.inr, fun hor => hor.resolve_left heq⟩

lemma Sound.run (h : Sound s) (hstate : s.state = .RUNNING) (hrun : s.run = some s') : Sound s' := by
  rw [State.run] at hrun
  have hfits := h.fits
  rcases hpc : s.pc with _ | c | c | c | c | c | c | c | c | c <;> rw [hpc] at hrun hfits <;>
    simp only [reduceCtorEq] at hrun
  case enter =>
    split_ifs at hrun with hfree
    rw [Option.some.injEq] at hrun
    subst hrun
    refine h.take rfl (fun l' => ?_) trivial hstate
    rw [hpc]
    cases c <;> simp [Pc.Holds, Call.lk]
  case test =>
    rw [Option.some.injEq] at hrun
    exact hrun ▸ h.test hpc hstate
  case wake =>
    split_ifs at hrun with hfree
    rw [Option.some.injEq] at hrun
    subst hrun
    refine Sound.goto (fun l => ?_) hfits hstate
    rw [h.locks, hpc]
    exact Iff.rfl
  case sleep =>
    split_ifs at hrun with hfree
    rw [Option.some.injEq] at hrun
    subst hrun
    refine h.take rfl (fun l' => ?_) trivial hstate
    rw [hpc]
    exact or_comm
  case switch =>
    rw [Option.some.injEq] at hrun
    subst hrun
    refine ⟨fun l => ?_, trivial, fun ⟨_, hl⟩ => hl.elim, fun _ => ⟨c, rfl⟩⟩
    have hl := h.locks l
    rw [hpc] at hl
    refine iff_of_false (fun hself => ?_) id
    simp only [State.goto, lock_setLock] at hself
    split_ifs at hself with h1 h2
    exact (hl.mp hself).elim h2 h1
  case woken =>
    by_cases hwait : c = .wait
    · subst hwait
      rw [Option.some.injEq] at hrun
      subst hrun
      refine Sound.goto (fun l => ?_) trivial hstate
      show s.lock l = _ ↔ _
      rw [h.locks, hpc]
      exact Iff.rfl
    · have hrun' : s' = ({ s with chan := none }.setLock .ptable none).goto (.reacquire c) := by
        cases c <;> simp_all
      subst hrun'
      refine Sound.goto (fun l => ?_) hwait hstate
      have hl := h.locks l
      rw [hpc] at hl
      refine iff_of_false (fun hself => ?_) id
      rw [lock_setLock] at hself
      split_ifs at hself with h1
      exact h1 (hl.mp hself)
  case reacquire =>
    split_ifs at hrun with hfree
    rw [Option.some.injEq] at hrun
    subst hrun
    refine h.take rfl (fun l' => ?_) trivial hstate
    rw [hpc]
    exact (or_iff_left id).symm
  case finish =>
    split_ifs at hrun with hfree
    rw [Option.some.injEq] at hrun
    subst hrun
    refine h.leave (fun l => ?_) rfl rfl
    rw [hpc]
    exact Iff.rfl

/-- Somebody else takes or gives up a lock. -/
lemma Sound.setLock {o : Option Owner} (h : Sound s) (hl : s.lock l ≠ some .self)
    (ho : o ≠ some .self) : Sound (s.setLock l o) where
  locks l' := by
    have := h.locks l'
    rw [lock_setLock]
    split_ifs with heq
    · subst heq
      exact iff_of_false ho fun hself => hl (this.mpr hself)
    · exact this
  fits := h.fits
  running := h.running
  sleeping := h.sleeping

/-- The process does nothing, and may be woken up. -/
lemma Sound.keep (h : Sound s) (hlock : s'.lock = s.lock) (hpc : s'.pc = s.pc)
    (hstate : s'.state = s.state ∨ s.state = .SLEEPING ∧ s'.state = .RUNNABLE) : Sound s' where
  locks := by
    rw [hlock, hpc]
    exact h.locks
  fits := hpc ▸ h.fits
  running hl := by
    rw [hpc] at hl
    have hrun := h.running hl
    rcases hstate with heq | ⟨hsleep, -⟩
    · rw [heq, hrun]
    · rw [hrun] at hsleep
      exact nomatch hsleep
  sleeping hs := by
    rcases hstate with heq | ⟨-, hrunnable⟩
    · rw [hpc]
      exact h.sleeping (heq ▸ hs)
    · rw [hrunnable] at hs
      exact nomatch hs

lemma start_eq (hstep : s.step (.start c) = some s') :
    s.pc = .idle ∧ s.state = .RUNNING ∧ s' = s.goto (.enter c) := by
  rw [State.step] at hstep
  rcases hpc : s.pc with _ | _ | _ | _ | _ | _ | _ | _ | _ | _ <;> rw [hpc] at hstep <;>
    simp only [reduceCtorEq] at hstep
  split_ifs at hstep with hrun
  exact ⟨rfl, hrun, (Option.some.inj hstep).symm⟩

/-- A process that has given up the processor in `sleep` goes on with `ptable.lock`. -/
lemma schedule_cases (hstep : s.step .schedule = some s') :
    (∃ c, s.pc = .asleep c ∧
      s' = ({ s with state := .RUNNING }.setLock .ptable (some .self)).goto (.woken c)) ∨
    s' = { s with state := .RUNNING } := by
  rw [State.step] at hstep
  split_ifs at hstep with hcond
  split at hstep
  · exact Or.inl ⟨_, ‹_›, (Option.some.inj hstep).symm⟩
  · exact Or.inr (Option.some.inj hstep).symm

lemma Sound.start (h : Sound s) (hstep : s.step (.start c) = some s') : Sound s' := by
  obtain ⟨hpc, hrun, rfl⟩ := start_eq hstep
  refine Sound.goto (fun l => ?_) trivial hrun
  rw [h.locks, hpc]
  exact Iff.rfl

lemma Sound.schedule (h : Sound s) (hstep : s.step .schedule = some s') : Sound s' := by
  rcases schedule_cases hstep with ⟨c, hpc, rfl⟩ | rfl
  · refine h.take rfl (fun l' => ?_) trivial rfl
    rw [hpc]
    exact (or_iff_left id).symm
  · exact ⟨h.locks, h.fits, fun _ => rfl, fun hs => nomatch hs⟩

/-- The invariant is kept by every step. -/
lemma Sound.step (h : Sound s) (hstep : s.step e = some s') : Sound s' := by
  cases e with
  | start c => exact h.start hstep
  | schedule => exact h.schedule hstep
  | run =>
    rw [State.step] at hstep
    split_ifs at hstep with hrun
    exact h.run hrun hstep
  | yield =>
    rw [State.step] at hstep
    split_ifs at hstep with hcond
    rw [Option.some.injEq] at hstep
    subst hstep
    refine ⟨h.locks, h.fits, fun ⟨l, hl⟩ => ?_, fun hs => nomatch hs⟩
    exact absurd ((h.locks l).mpr hl) (hcond.2.1 l)
  | acquire l =>
    rw [State.step] at hstep
    split_ifs at hstep with hfree
    rw [Option.some.injEq] at hstep
    exact hstep ▸ h.setLock (by simp [hfree]) (by decide)
  | release l =>
    rw [State.step] at hstep
    split_ifs at hstep with hother
    rw [Option.some.injEq] at hstep
    exact hstep ▸ h.setLock (by simp [hother]) (by decide)
  | setPipe | setInput | setTicks | setKids =>
    rw [State.step] at hstep
    split_ifs at hstep with hother
    rw [Option.some.injEq] at hstep
    subst hstep
    exact h.keep rfl rfl (Or.inl rfl)
  | wakeup chan =>
    rw [State.step] at hstep
    split_ifs at hstep with hother hsleep <;> rw [Option.some.injEq] at hstep <;> subst hstep
    · exact h.keep rfl rfl (Or.inr ⟨hsleep.1, rfl⟩)
    · exact h
  | kill sig =>
    rw [State.step] at hstep
    split_ifs at hstep with hother hsig <;> simp only at hstep <;>
      split_ifs at hstep with hsleep <;> rw [Option.some.injEq] at hstep <;> subst hstep
    · exact h.keep rfl rfl (Or.inr ⟨hsleep, rfl⟩)
    · exact h.keep rfl rfl (Or.inl rfl)
    · exact h.keep rfl rfl (Or.inr ⟨hsleep, rfl⟩)
    · exact h.keep rfl rfl (Or.inl rfl)

/-! ### Sleeping -/

/-- A step of the process that does not lead into `sleep`. -/
lemma alert_goto {s1 : State} (hstate : s1.state = .RUNNING)
    (hpc : s1.killed = true → ¬ Committed pc ∧ ∀ c, pc ≠ .switch c) : Alert (s1.goto pc) where
  awake _ hs := by
    have hs : s1.state = .SLEEPING := hs
    rw [hstate] at hs
    exact nomatch hs
  tested := hpc

lemma Alert.run (h : Alert s) (hstate : s.state = .RUNNING) (hrun : s.run = some s') : Alert s' := by
  have htested := h.tested
  rw [State.run] at hrun
  rcases hpc : s.pc with _ | c | c | c | c | c | c | c | c | c <;> rw [hpc] at hrun htested <;>
    simp only [reduceCtorEq] at hrun
  case enter =>
    split_ifs at hrun with hfree
    rw [Option.some.injEq] at hrun
    subst hrun
    exact alert_goto hstate fun _ => ⟨id, fun _ => nofun⟩
  case test =>
    rw [Option.some.injEq] at hrun
    subst hrun
    have htests := tests s c
    generalize s.test c = t at htests ⊢
    cases htests with
    | leave s1 c' _ _ hst _ => exact alert_goto (hst.trans hstate) fun _ => ⟨id, fun _ => nofun⟩
    | goto s1 pc _ hst hk _ _ hcommit =>
      refine alert_goto (hst.trans hstate) fun hkilled => ?_
      rw [hk] at hkilled
      have hno : ¬ (Committed pc ∨ ∃ c, pc = .switch c) := fun hor => by
        rw [hcommit hor] at hkilled
        exact nomatch hkilled
      exact ⟨fun hc => hno (Or.inl hc), fun c hc => hno (Or.inr ⟨c, hc⟩)⟩
  case wake =>
    split_ifs at hrun with hfree
    rw [Option.some.injEq] at hrun
    subst hrun
    exact alert_goto hstate fun hk => absurd trivial (htested hk).1
  case sleep =>
    split_ifs at hrun with hfree
    rw [Option.some.injEq] at hrun
    subst hrun
    exact alert_goto hstate fun hk => absurd trivial (htested hk).1
  case switch =>
    rw [Option.some.injEq] at hrun
    subst hrun
    exact ⟨fun hk => absurd rfl ((htested hk).2 c), fun hk => absurd rfl ((htested hk).2 c)⟩
  case woken =>
    by_cases hwait : c = .wait
    · subst hwait
      rw [Option.some.injEq] at hrun
      subst hrun
      exact alert_goto hstate fun _ => ⟨id, fun _ => nofun⟩
    · have hrun' : s' = ({ s with chan := none }.setLock .ptable none).goto (.reacquire c) := by
        cases c <;> simp_all
      subst hrun'
      exact alert_goto hstate fun _ => ⟨id, fun _ => nofun⟩
  case reacquire =>
    split_ifs at hrun with hfree
    rw [Option.some.injEq] at hrun
    subst hrun
    exact alert_goto hstate fun _ => ⟨id, fun _ => nofun⟩
  case finish =>
    split_ifs at hrun with hfree
    rw [Option.some.injEq] at hrun
    subst hrun
    exact alert_goto hstate fun _ => ⟨id, fun _ => nofun⟩

/-- The process does nothing, and is not killed; it may be woken up. -/
lemma Alert.keep (h : Alert s) (hpc : s'.pc = s.pc) (hkilled : s'.killed = s.killed)
    (hstate : s'.state = .SLEEPING → s.state = .SLEEPING) : Alert s' where
  awake hk hs := h.awake (hkilled ▸ hk) (hstate hs)
  tested := by
    rw [hpc, hkilled]
    exact h.tested

/-- The process is killed, and does not sleep after it. -/
lemma Sound.alert_kill (h : Sound s) (hother : s.lock .ptable = some .other) (hpc : ¬ Committed s.pc)
    (hpc' : s'.pc = s.pc) (hstate : s'.state ≠ .SLEEPING) : Alert s' where
  awake _ := hstate
  tested _ := by
    rw [hpc']
    refine ⟨hpc, fun c hc => ?_⟩
    -- in `sleep` the process has `ptable.lock` itself
    have hself := (h.locks .ptable).mpr (by rw [hc]; exact Or.inr rfl)
    rw [hother] at hself
    exact nomatch hself

/-- A step that is timely keeps the process alert. -/
lemma Alert.step (h : Alert s) (hsound : Sound s) (htimely : Timely s e)
    (hstep : s.step e = some s') : Alert s' := by
  cases e with
  | start c =>
    obtain ⟨-, hrun, rfl⟩ := start_eq hstep
    exact alert_goto hrun fun _ => ⟨id, fun _ => nofun⟩
  | schedule =>
    rcases schedule_cases hstep with ⟨c, -, rfl⟩ | rfl
    · exact alert_goto rfl fun _ => ⟨id, fun _ => nofun⟩
    · exact h.keep rfl rfl fun hs => nomatch hs
  | run =>
    rw [State.step] at hstep
    split_ifs at hstep with hrun
    exact h.run hrun hstep
  | yield =>
    rw [State.step] at hstep
    split_ifs at hstep with hcond
    rw [Option.some.injEq] at hstep
    subst hstep
    exact h.keep rfl rfl fun hs => nomatch hs
  | acquire | release | setPipe | setInput | setTicks | setKids =>
    rw [State.step] at hstep
    split_ifs at hstep with hother
    rw [Option.some.injEq] at hstep
    subst hstep
    exact h.keep rfl rfl id
  | wakeup chan =>
    rw [State.step] at hstep
    split_ifs at hstep with hother hsleep <;> rw [Option.some.injEq] at hstep <;> subst hstep
    · exact h.keep rfl rfl fun hs => nomatch hs
    · exact h
  | kill sig =>
    rw [State.step] at hstep
    split_ifs at hstep with hother hsig <;> simp only at hstep <;>
      split_ifs at hstep with hsleep <;> rw [Option.some.injEq] at hstep <;> subst hstep
    · exact hsound.alert_kill hother (htimely hsig) rfl fun hs => nomatch hs
    · exact hsound.alert_kill hother (htimely hsig) rfl hsleep
    · exact h.keep rfl rfl fun hs => nomatch hs
    · exact h.keep rfl rfl id

/-! ## A kill that is slept through -/

/-- The others can give up all their locks. -/
lemma exec_release (s : State) (ls : List Lock) (hls : ls.Nodup) : ∃ tr,
    Machine.exec State.step s tr = some { s with
      lock := fun l => if l ∈ ls ∧ s.lock l = some .other then none else s.lock l } := by
  induction ls with
  | nil => exact ⟨[], by simp⟩
  | cons l ls ih =>
    obtain ⟨tr, htr⟩ := ih (List.nodup_cons.mp hls).2
    have hnot := (List.nodup_cons.mp hls).1
    by_cases hl : s.lock l = some .other
    · refine ⟨tr ++ [.release l], Machine.exec_concat_eq_some.mpr ⟨_, htr, ?_⟩⟩
      rw [State.step, if_pos (by simp [hnot, hl])]
      congr 1
      simp only [State.setLock]
      congr 1
      funext l'
      rw [Function.update_apply]
      by_cases heq : l' = l
      · simp [heq, hl]
      · simp [heq]
    · refine ⟨tr, htr.trans ?_⟩
      congr 2
      funext l'
      by_cases heq : l' = l
      · simp [heq, hl, hnot]
      · simp [heq]

/-- All locks of others are free. -/
def State.released (s : State) : State :=
  { s with lock := fun l => if s.lock l = some .other then none else s.lock l }

lemma exec_released (s : State) : ∃ tr, Machine.exec State.step s tr = some s.released := by
  obtain ⟨tr, htr⟩ := exec_release s [.ptable, .pipe, .cons, .tickslock] (by decide)
  refine ⟨tr, htr.trans ?_⟩
  rw [State.released]
  congr 2
  funext l
  have hmem : l ∈ [Lock.ptable, .pipe, .cons, .tickslock] := by cases l <;> decide
  simp only [hmem, true_and]

lemma released_ne_other (s : State) (l : Lock) : s.released.lock l ≠ some .other := by
  intro hl
  simp only [State.released] at hl
  split_ifs at hl with hother
  exact hother hl

lemma Call.lk_ne_ptable (hc : c ≠ .wait) : c.lk ≠ .ptable := by
  cases c with
  | wait => exact absurd rfl hc
  | piperead | pipewrite | consoleread | sysSleep => exact nofun

/-- Where the process has only the lock of its call and the others have none, the locks are known. -/
lemma Sound.lock_eq (h : Sound s) (hfree : ∀ l, s.lock l ≠ some .other)
    (hpc : ∀ l, s.pc.Holds l ↔ l = c.lk) (l : Lock) :
    s.lock l = if l = c.lk then some .self else none := by
  have hl := (h.locks l).trans (hpc l)
  split_ifs with heq
  · exact hl.mpr heq
  · rcases hlock : s.lock l with _ | _ | _
    · rfl
    · exact absurd (hl.mp hlock) heq
    · exact absurd hlock (hfree l)

/-- A process that was killed after its test goes to sleep, if nobody hinders it. -/
lemma Sound.sleeps (h : Sound s) (hkilled : s.killed = true) (hfree : ∀ l, s.lock l ≠ some .other)
    (hpc : s.pc = .sleep c) :
    ∃ s', Machine.exec State.step s [.run, .run] = some s' ∧ SleptThrough s' := by
  have hrun : s.state = .RUNNING := h.running ⟨c.lk, by rw [hpc]; exact rfl⟩
  have hfits := h.fits
  rw [hpc] at hfits
  have hlocks := h.lock_eq (c := c) hfree fun l => by
    rw [hpc]
    exact Iff.rfl
  have hptable : s.lock .ptable = none := by rw [hlocks, if_neg (Call.lk_ne_ptable hfits).symm]
  have hstep : s.step .run = some ((s.setLock .ptable (some .self)).goto (.switch c)) := by
    rw [State.step, if_pos hrun, State.run, hpc]
    simp only [hptable, if_true]
  have hstep' : ((s.setLock .ptable (some .self)).goto (.switch c)).step .run = some
      ((({ (s.setLock .ptable (some .self)).goto (.switch c) with
        chan := some c.chan, state := .SLEEPING }.setLock c.lk none).setLock .ptable none).goto
          (.asleep c)) := if_pos hrun
  simp only [Machine.exec_cons, Machine.exec_nil, hstep, hstep', Option.bind_some]
  refine ⟨_, rfl, fun l => ?_, rfl, ⟨c, rfl⟩, hkilled⟩
  simp only [State.goto, State.setLock, Function.update_apply, hlocks]
  split_ifs <;> rfl

/-- The same before the `wakeup` in the loop of `pipewrite`. -/
lemma Sound.wakes (h : Sound s) (hkilled : s.killed = true) (hfree : ∀ l, s.lock l ≠ some .other)
    (hpc : s.pc = .wake c) :
    ∃ s', Machine.exec State.step s [.run, .run, .run] = some s' ∧ SleptThrough s' := by
  have hrun : s.state = .RUNNING := h.running ⟨c.lk, by rw [hpc]; exact rfl⟩
  have hfits := h.fits
  rw [hpc] at hfits
  have hlocks := h.lock_eq (c := c) hfree fun l => by
    rw [hpc]
    exact Iff.rfl
  have hptable : s.lock .ptable = none := by rw [hlocks, if_neg (Call.lk_ne_ptable hfits).symm]
  have hstep : s.step .run = some (s.goto (.sleep c)) := by
    rw [State.step, if_pos hrun, State.run, hpc]
    simp only [hptable, if_true]
  rw [Machine.exec_cons, hstep]
  exact (h.step hstep).sleeps hkilled hfree rfl

lemma kill_eq (hstep : s.step (.kill SIGKILL) = some s') : s'.pc = s.pc ∧ s'.killed = true := by
  rw [State.step] at hstep
  simp only [if_true] at hstep
  split_ifs at hstep with hother hsleep <;> rw [Option.some.injEq] at hstep <;> subst hstep
  · exact ⟨rfl, rfl⟩
  · exact ⟨rfl, rfl⟩

/-- After a kill that is not timely there is a run in which it is slept through. -/
lemma Sound.slept (h : Sound s) (htimely : ¬ Timely s e) (hstep : s.step e = some s') :
    ∃ tr t, Machine.exec State.step s' tr = some t ∧ SleptThrough t := by
  obtain ⟨rfl, hcommitted⟩ : e = .kill SIGKILL ∧ Committed s.pc := by
    cases e <;> simp_all [Timely]
  obtain ⟨hpc, hkilled⟩ := kill_eq hstep
  rw [← hpc] at hcommitted
  obtain ⟨tr, htr⟩ := exec_released s'
  have hsound : Sound s'.released :=
    Machine.exec_induction (motive := fun _ s => Sound s) (h.step hstep)
      (fun _ _ _ _ _ h hstep => h.step hstep) htr
  rcases hpc' : s'.pc with _ | _ | _ | c | c | _ | _ | _ | _ | _ <;> rw [hpc'] at hcommitted
  case wake =>
    obtain ⟨t, ht, hslept⟩ := hsound.wakes hkilled (released_ne_other s') hpc'
    exact ⟨tr ++ [.run, .run, .run], t, by rw [Machine.exec_append, htr]; exact ht, hslept⟩
  case sleep =>
    obtain ⟨t, ht, hslept⟩ := hsound.sleeps hkilled (released_ne_other s') hpc'
    exact ⟨tr ++ [.run, .run], t, by rw [Machine.exec_append, htr]; exact ht, hslept⟩
  all_goals exact hcommitted.elim

end

lemma sound_init (pipe : Pipe) (input : Console.Input) (ticks : BitVec 32) (kids : List ProcState)
    (pending blocked : BitVec 32) : Sound (.init pipe input ticks kids pending blocked) where
  locks _ := iff_of_false (fun h => nomatch h) id
  fits := trivial
  running := fun ⟨_, hl⟩ => hl.elim
  sleeping hs := nomatch hs

lemma alert_init (pipe : Pipe) (input : Console.Input) (ticks : BitVec 32) (kids : List ProcState)
    (pending blocked : BitVec 32) : Alert (.init pipe input ticks kids pending blocked) where
  awake h := nomatch h
  tested h := nomatch h

/-- An empty pipe with both ends open. -/
def emptyPipe : Pipe := ⟨⟨fun _ => 0, 0, 0⟩, true, true⟩

/-- Nothing was typed. -/
def noInput : Console.Input := ⟨fun _ => 0, 0, 0, 0⟩

end Xv7.Kill
