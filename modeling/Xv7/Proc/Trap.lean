import Mathlib

/-!
# Signals in `trap`

`trap` looks at the pending signals of a process in four places.  At the entry from user mode, and
before and after a system call, it exits the process for any of them that is not blocked; only when
it has served an interrupt does it look for a handler.  `kill` can come between any two of these
places.
-/

namespace Xv7.Signal

/-- `struct trapframe`, without the padding. -/
structure TrapFrame where
  edi : UInt32
  esi : UInt32
  ebp : UInt32
  oesp : UInt32
  ebx : UInt32
  edx : UInt32
  ecx : UInt32
  eax : UInt32
  gs : UInt16
  fs : UInt16
  es : UInt16
  ds : UInt16
  trapno : UInt32
  err : UInt32
  eip : UInt32
  cs : UInt16
  eflags : UInt32
  esp : UInt32
  ss : UInt16
  deriving DecidableEq, Repr

/-- A page that holds a saved trap frame. -/
structure SavedFrame where
  page : ℕ
  tf : TrapFrame
  deriving DecidableEq, Repr

/-- What `trap` and the system calls for signals use: fields of `struct proc`, the free list of
`kalloc`, and the words that were stored on the user's stack. -/
structure State where
  killed : Bool
  pending : UInt32
  blocked : UInt32
  handlers : Fin 32 → UInt32
  sigTf : Option SavedFrame
  free : List ℕ
  stored : List (UInt32 × UInt32)
  deriving DecidableEq

/-- `T_SYSCALL`. -/
abbrev T_SYSCALL : UInt32 := 64

/-- `T_IRQ0`. -/
abbrev T_IRQ0 : UInt32 := 32

/-- The cases of the `switch` for devices: timer, `IRQ_IDE` and the spurious one after it,
`IRQ_KBD`, `IRQ_COM1`, 7 and `IRQ_SPURIOUS`. -/
def interrupts : List UInt32 :=
  [T_IRQ0 + 0, T_IRQ0 + 14, T_IRQ0 + 14 + 1, T_IRQ0 + 1, T_IRQ0 + 4, T_IRQ0 + 7, T_IRQ0 + 31]

/-- `SIGINT`. -/
abbrev SIGINT : Fin 32 := 2

/-- `SIGKILL`. -/
abbrev SIGKILL : Fin 32 := 9

/-- `1 << sig`. -/
def bit (sig : Fin 32) : UInt32 := 1 <<< UInt32.ofNat sig

/-- `(tf->cs & 3) == DPL_USER`. -/
def TrapFrame.User (tf : TrapFrame) : Prop := tf.cs &&& 3 = 3

instance (tf : TrapFrame) : Decidable tf.User := inferInstanceAs (Decidable (_ = _))

/-- The system calls.  Those that have nothing to do with signals only set registers. -/
inductive Call where
  /-- `sigaction`; the handler is `none` if `argptr` refuses it. -/
  | sigaction (sig : UInt32) (handler : Option UInt32)
  | sigprocmask (mask : UInt32)
  | sigreturn
  | exec (entry sp : UInt32)
  | other (ret : UInt32)
  deriving DecidableEq, Repr

/-- A trap, with the system call that it is if `trapno` says so, and the addresses that the kernel
can store a word at. -/
structure Trap where
  tf : TrapFrame
  call : Call
  writable : UInt32 → Bool

/-- Where `kill` can come, seen from `trap`. -/
inductive Point where
  /-- Before the first test: in user mode. -/
  | entry
  /-- Between the first test and the system call or the `switch`. -/
  | enter
  /-- In the system call, asleep in it or not, or in the `switch`. -/
  | work
  /-- After the last place that looks at the pending signals, for instance in `yield`. -/
  | tail
  deriving DecidableEq, Repr

/-- How `trap` ends for the process. -/
inductive Outcome where
  | exit
  | panic
  | ret (s : State) (tf : TrapFrame)

namespace State

/-- Others call `kill`. -/
def raise (s : State) (sigs : UInt32) : State := { s with pending := s.pending ||| sigs }

/-- `p->pending & ~p->blocked`. -/
def unblocked (s : State) : UInt32 := s.pending &&& ~~~s.blocked

/-- `p->killed || (p->pending & ~p->blocked)`. -/
def Fatal (s : State) : Prop := s.killed ∨ s.unblocked ≠ 0

instance (s : State) : Decidable s.Fatal := inferInstanceAs (Decidable (_ ∨ _))

/-- `sys_sigaction`. -/
def sysSigaction (s : State) (sig : UInt32) : Option UInt32 → State × UInt32
  | none => (s, -1)
  | some handler =>
    if h : sig.toNat < 32 then
      ({ s with handlers := Function.update s.handlers ⟨sig.toNat, h⟩ handler }, 0)
    else (s, -1)

/-- `sys_sigprocmask`. -/
def sysSigprocmask (s : State) (mask : UInt32) : State × UInt32 := ({ s with blocked := mask }, 0)

/-- `sys_sigreturn`. -/
def sysSigreturn (s : State) (tf : TrapFrame) : State × TrapFrame × UInt32 :=
  match s.sigTf with
  | some saved => ({ s with sigTf := none }, saved.tf, 0)
  | none => (s, tf, 0)

/-- `syscall`: the result of the call is stored in the frame that the call leaves. -/
def syscall (s : State) (tf : TrapFrame) : Call → State × TrapFrame
  | .sigaction sig handler =>
    ((s.sysSigaction sig handler).1, { tf with eax := (s.sysSigaction sig handler).2 })
  | .sigprocmask mask => ((s.sysSigprocmask mask).1, { tf with eax := (s.sysSigprocmask mask).2 })
  | .sigreturn =>
    ((s.sysSigreturn tf).1, { (s.sysSigreturn tf).2.1 with eax := (s.sysSigreturn tf).2.2 })
  | .exec entry sp => (s, { tf with eip := entry, esp := sp, eax := 0 })
  | .other ret => (s, { tf with eax := ret })

/-- The `switch` of `trap`; `none` is its `panic`. -/
def service (s : State) (tf : TrapFrame) : Option State :=
  if tf.trapno ∈ interrupts then some s
  else if tf.User then some { s with killed := true }
  else none

/-- The lowest signal of a set, 0 if there is none. -/
def lowest (sigs : UInt32) : Fin 32 :=
  ((List.finRange 32).find? fun i => sigs &&& bit i ≠ 0).getD 0

/-- Save the frame in the page of `sig_tf`, which `kalloc` gives if there is none. -/
def save (s : State) (tf : TrapFrame) : Option State :=
  match s.sigTf, s.free with
  | some saved, _ => some { s with sigTf := some { saved with tf := tf } }
  | none, page :: free => some { s with sigTf := some ⟨page, tf⟩, free := free }
  | none, [] => none

/-- Send the process to its handler; `none` if the kernel faults on the user's stack. -/
def divert (s : State) (T : Trap) (sig : Fin 32) : Option (State × TrapFrame) :=
  match s.save T.tf with
  | none => some (s, T.tf)
  | some s =>
    if T.writable (T.tf.esp - 4) then
      some ({ s with stored := (T.tf.esp - 4, UInt32.ofNat sig) :: s.stored },
        { T.tf with esp := T.tf.esp - 4, eip := s.handlers sig })
    else none

/-- What `trap` does with pending signals after the `switch`. -/
def deliver (s : State) (T : Trap) : Option (State × TrapFrame) :=
  if s.unblocked = 0 then some (s, T.tf)
  else
    let sig := lowest s.unblocked
    if sig = 0 then some (s, T.tf)
    else
      let s := { s with pending := s.pending &&& ~~~bit sig }
      if sig = SIGKILL ∨ sig = SIGINT ∧ s.handlers sig = 0 then some ({ s with killed := true }, T.tf)
      else if s.handlers sig ≠ 0 then s.divert T sig
      else some (s, T.tf)

/-- The branch of `trap` for system calls. -/
def trapSyscall (s : State) (T : Trap) (a : Point → UInt32) : Outcome :=
  if s.Fatal then .exit
  else
    let r := s.syscall T.tf T.call
    let s := r.1.raise (a .work)
    if s.Fatal then .exit else .ret (s.raise (a .tail)) r.2

/-- The rest of `trap`, from the `switch` on. -/
def trapInterrupt (s : State) (T : Trap) (a : Point → UInt32) : Outcome :=
  match (s.raise (a .work)).service T.tf with
  | none => .panic
  | some s =>
    match if T.tf.User then s.deliver T else some (s, T.tf) with
    | none => .panic
    | some (s, tf) => if s.killed ∧ T.tf.User then .exit else .ret (s.raise (a .tail)) tf

/-- `trap`; at each point `a` says which signals `kill` has sent. -/
def trap (s : State) (T : Trap) (a : Point → UInt32) : Outcome :=
  let s := s.raise (a .entry)
  if T.tf.User ∧ s.Fatal then .exit
  else
    let s := s.raise (a .enter)
    if T.tf.trapno = T_SYSCALL then s.trapSyscall T a else s.trapInterrupt T a

end State

/-! ## Where a signal finds its handler -/

open State

variable {s s' : State} {T T₁ T₂ : Trap} {a : Point → UInt32} {tf : TrapFrame}

/-- One signal, sent at one point. -/
def once (sig : Fin 32) (pt : Point) : Point → UInt32 := fun q => if q = pt then bit sig else 0

/-- The traps of a process until the last one can have seen the signal: the trap `T₁` in which it
was sent, and if this was after the last test, the next one. -/
def traps (s : State) (T₁ T₂ : Trap) (sig : Fin 32) (pt : Point) : Outcome :=
  match s.trap T₁ (once sig pt) with
  | .ret s' tf => if pt = .tail then s'.trap T₂ fun _ => 0 else .ret s' tf
  | o => o

/-- The process goes on in user mode at the handler, and the signal is no longer pending. -/
def Handled (s : State) (T₁ T₂ : Trap) (sig : Fin 32) (pt : Point) : Prop :=
  ∃ s' tf, traps s T₁ T₂ sig pt = .ret s' tf ∧ s'.pending &&& bit sig = 0 ∧
    tf = { (if pt = .tail then T₂ else T₁).tf with
      esp := (if pt = .tail then T₂ else T₁).tf.esp - 4, eip := s.handlers sig }

/-- The trap is a system call or comes from a device: it does not set `killed`. -/
def Trap.Regular (T : Trap) : Prop := T.tf.trapno = T_SYSCALL ∨ T.tf.trapno ∈ interrupts

/-- The signal comes while `trap` serves an interrupt, there is a page for the frame, and the user's
stack can take the number of the signal. -/
def Served (s : State) (T : Trap) (sig : Fin 32) (pt : Point) : Prop :=
  T.tf.trapno ∈ interrupts ∧ (pt = .enter ∨ pt = .work) ∧ s.handlers sig ≠ 0 ∧
    (s.sigTf ≠ none ∨ s.free ≠ []) ∧ T.writable (T.tf.esp - 4)

lemma bit_ne_zero (sig : Fin 32) : bit sig ≠ 0 := by
  revert sig
  decide

lemma lowest_bit (sig : Fin 32) : lowest (bit sig) = sig := by
  revert sig
  decide +kernel

/-- A signal that is not blocked stays in the set that `trap` looks at. -/
lemma and_not_of_and_eq_zero {x y : UInt32} (h : y &&& x = 0) : x &&& ~~~y = x := by
  rw [← UInt32.toBitVec_inj] at h ⊢
  ext i hi
  have := congrArg (fun b : BitVec 32 => b[i]) h
  simp at this ⊢
  grind

lemma and_ne_zero_of_subset {x y : UInt32} (hy : y ≠ 0) : (x ||| y) &&& y ≠ 0 := by
  intro h
  apply hy
  rw [← UInt32.toBitVec_inj] at h ⊢
  ext i hi
  have := congrArg (fun b : BitVec 32 => b[i]) h
  simp at this ⊢
  grind

lemma and_not_self_and (x y : UInt32) : x &&& ~~~y &&& y = 0 := by
  rw [UInt32.and_assoc, ← UInt32.toBitVec_inj]
  ext i hi
  simp

lemma unblocked_raise (s : State) (x : UInt32) :
    (s.raise x).unblocked = s.unblocked ||| x &&& ~~~s.blocked := by
  unfold unblocked raise
  rw [← UInt32.toBitVec_inj]
  ext i hi
  simp
  grind

@[simp] lemma raise_zero (s : State) : s.raise 0 = s := by
  simp [raise]

@[simp] lemma raise_raise (s : State) (x y : UInt32) : (s.raise x).raise y = s.raise (x ||| y) := by
  simp [raise, UInt32.or_assoc]

/-- A system call clears no pending signal. -/
lemma syscall_pending (s : State) (tf : TrapFrame) (c : Call) :
    (s.syscall tf c).1.pending = s.pending := by
  cases c with
  | sigaction sig handler =>
    cases handler with
    | none => rfl
    | some handler =>
      unfold syscall sysSigaction
      dsimp only
      split_ifs <;> rfl
  | sigreturn =>
    unfold syscall sysSigreturn
    dsimp only
    split <;> rfl
  | sigprocmask | exec | other => rfl

lemma trapSyscall_pending (h : s.trapSyscall T a = .ret s' tf) :
    s'.pending = s.pending ||| a .work ||| a .tail := by
  unfold trapSyscall at h
  dsimp only at h
  split_ifs at h
  obtain ⟨rfl, -⟩ := Outcome.ret.inj h
  rw [← syscall_pending s T.tf T.call]
  rfl

lemma deliver_of_unblocked (h : s.unblocked = 0) : s.deliver T = some (s, T.tf) := by
  unfold deliver
  rw [if_pos h]

/-- Without a new signal the rest of `trap` changes nothing. -/
lemma trapInterrupt_of_unblocked (hT : T.tf.trapno ∈ interrupts) (hk : ¬ s.killed)
    (hs : s.unblocked = 0) (ha : a .work = 0) :
    s.trapInterrupt T a = .ret (s.raise (a .tail)) T.tf := by
  unfold trapInterrupt service
  rw [ha, raise_zero, if_pos hT]
  dsimp only
  rw [deliver_of_unblocked hs, ite_self]
  dsimp only
  rw [if_neg (fun h => hk h.1)]

/-- A trap that returns to user mode has not seen a signal at its entry. -/
lemma trap_eq (hu : T.tf.User) (h : s.trap T a = .ret s' tf) :
    ¬ (s.raise (a .entry)).Fatal ∧
      (if T.tf.trapno = T_SYSCALL then ((s.raise (a .entry)).raise (a .enter)).trapSyscall T a
        else ((s.raise (a .entry)).raise (a .enter)).trapInterrupt T a) = .ret s' tf := by
  unfold trap at h
  dsimp only at h
  split_ifs at h with hf hno
  · exact ⟨fun hF => hf ⟨hu, hF⟩, by rw [if_pos hno]; exact h⟩
  · exact ⟨fun hF => hf ⟨hu, hF⟩, by rw [if_neg hno]; exact h⟩

/-- A trap that returns without a new signal before its last test keeps the pending ones. -/
lemma trap_pending (hu : T.tf.User) (hT : T.Regular) (hwork : a .work = 0) (henter : a .enter = 0)
    (h : s.trap T a = .ret s' tf) : s'.pending = s.pending ||| a .entry ||| a .tail := by
  obtain ⟨hfatal, h⟩ := trap_eq hu h
  rw [henter, raise_zero] at h
  split_ifs at h with hno
  · rw [trapSyscall_pending h, hwork, UInt32.or_zero]
    rfl
  · rw [trapInterrupt_of_unblocked (hT.resolve_left hno) (fun hk => hfatal (.inl hk))
      (not_not.mp fun hs => hfatal (.inr hs)) hwork] at h
    obtain ⟨rfl, -⟩ := Outcome.ret.inj h
    rfl

section Once

variable {sig : Fin 32} {pt : Point}

/-- The signal is there at one point only. -/
lemma once_of_ne {q : Point} (h : q ≠ pt) : once sig pt q = 0 := if_neg h

@[simp] lemma once_self : once sig pt pt = bit sig := if_pos rfl

/-- The process with no other signal to look at sees exactly the new one. -/
lemma unblocked_raise_bit (hs : s.unblocked = 0) (hb : s.blocked &&& bit sig = 0) :
    (s.raise (bit sig)).unblocked = bit sig := by
  rw [unblocked_raise, hs, UInt32.zero_or, and_not_of_and_eq_zero hb]

/-- A signal that was sent is pending until `trap` looks for its handler. -/
lemma not_handled_of_pending (hu : T₂.tf.User) (hT : T₂.Regular)
    (h : ∀ s' tf, s.trap T₁ (once sig pt) = .ret s' tf → ∃ x, s'.pending = x ||| bit sig) :
    ¬ Handled s T₁ T₂ sig pt := by
  rintro ⟨s2, tf2, hret, hclear, -⟩
  unfold traps at hret
  split at hret
  · rename_i s1 tf1 h1
    obtain ⟨x, hx⟩ := h s1 tf1 h1
    split_ifs at hret with hpt
    · rw [trap_pending hu hT rfl rfl hret, hx, UInt32.or_zero, UInt32.or_zero] at hclear
      exact and_ne_zero_of_subset (bit_ne_zero sig) hclear
    · obtain ⟨rfl, -⟩ := Outcome.ret.inj hret
      rw [hx] at hclear
      exact and_ne_zero_of_subset (bit_ne_zero sig) hclear
  · rename_i hne
    exact hne _ _ hret

/-- No system call delivers a signal. -/
lemma not_handled_syscall (hu1 : T₁.tf.User) (hno : T₁.tf.trapno = T_SYSCALL) (hu : T₂.tf.User)
    (hT : T₂.Regular) : ¬ Handled s T₁ T₂ sig pt := by
  refine not_handled_of_pending hu hT fun s' tf h => ?_
  obtain ⟨-, h⟩ := trap_eq hu1 h
  rw [if_pos hno] at h
  have hp := trapSyscall_pending h
  refine ⟨s.pending, ?_⟩
  cases pt <;> simpa [raise, once] using hp

/-- A signal that comes in user mode, or after the tests, is not delivered. -/
lemma not_handled_entry_tail (hu1 : T₁.tf.User) (hT1 : T₁.Regular) (hu : T₂.tf.User)
    (hT : T₂.Regular) (hpt : pt = .entry ∨ pt = .tail) : ¬ Handled s T₁ T₂ sig pt := by
  refine not_handled_of_pending hu hT fun s' tf h => ⟨s.pending, ?_⟩
  rcases hpt with rfl | rfl
  · rw [trap_pending hu1 hT1 (once_of_ne (by decide)) (once_of_ne (by decide)) h, once_self,
      once_of_ne (by decide), UInt32.or_zero]
  · rw [trap_pending hu1 hT1 (once_of_ne (by decide)) (once_of_ne (by decide)) h, once_self,
      once_of_ne (by decide), UInt32.or_zero]

/-- An interrupt during which the signal comes goes on with the search for its handler. -/
lemma trap_interrupt (hu : T.tf.User) (hT : T.tf.trapno ∈ interrupts) (hk : ¬ s.killed)
    (hs : s.unblocked = 0) (hpt : pt = .enter ∨ pt = .work) :
    s.trap T (once sig pt) = match (s.raise (bit sig)).deliver T with
      | none => .panic
      | some (s, tf) => if s.killed then .exit else .ret s tf := by
  have hno : T.tf.trapno ≠ T_SYSCALL := by
    rintro heq
    rw [heq] at hT
    revert hT
    decide
  have hfatal : ¬ (T.tf.User ∧ s.Fatal) := fun h => h.2.elim hk fun h => h hs
  have hraise : once sig pt .enter ||| once sig pt .work = bit sig := by
    rcases hpt with rfl | rfl <;> simp [once]
  have hentry : once sig pt .entry = 0 ∧ once sig pt .tail = 0 := by
    rcases hpt with rfl | rfl <;> exact ⟨rfl, rfl⟩
  unfold trap trapInterrupt service
  simp only [hentry, raise_zero, if_neg hfatal, if_neg hno, raise_raise, hraise, if_pos hT,
    if_pos hu]
  simp only [hu, and_true]

/-- The search for the handler of the only signal. -/
lemma deliver_raise (h0 : sig ≠ 0) (hkill : sig ≠ SIGKILL) (hs : s.unblocked = 0)
    (hb : s.blocked &&& bit sig = 0) :
    (s.raise (bit sig)).deliver T =
      let s1 := { s with pending := (s.pending ||| bit sig) &&& ~~~bit sig }
      if s.handlers sig ≠ 0 then s1.divert T sig
      else if sig = SIGINT then some ({ s1 with killed := true }, T.tf) else some (s1, T.tf) := by
  have hone := unblocked_raise_bit hs hb
  unfold deliver
  simp only [hone, if_neg (bit_ne_zero sig), lowest_bit, if_neg h0, hkill, false_or]
  by_cases hh : s.handlers sig = 0
  · by_cases hint : sig = SIGINT
    · subst hint
      simp [hh, raise]
    · simp [hh, hint, raise]
  · simp [hh, raise]

/-- Only the page and the free list change when a frame is saved. -/
lemma save_eq_some (h : s.save tf = some s') :
    s'.killed = s.killed ∧ s'.pending = s.pending ∧ s'.handlers = s.handlers := by
  unfold save at h
  split at h
  · cases h
    exact ⟨rfl, rfl, rfl⟩
  · cases h
    exact ⟨rfl, rfl, rfl⟩
  · exact absurd h (by simp)

lemma save_eq_none_iff : s.save tf = none ↔ ¬ (s.sigTf ≠ none ∨ s.free ≠ []) := by
  unfold save
  split <;> simp_all

lemma sub_four_ne (x : UInt32) : x - 4 ≠ x := by
  intro h
  have hnat := congrArg UInt32.toNat h
  have hlt := x.toNat_lt
  rw [UInt32.toNat_sub, show (4 : UInt32).toNat = 4 from rfl] at hnat
  omega

/-- A signal that comes before the last test is handled by the trap it comes in. -/
lemma handled_iff (hpt : pt ≠ .tail) : Handled s T₁ T₂ sig pt ↔
    ∃ s', s.trap T₁ (once sig pt) =
      .ret s' { T₁.tf with esp := T₁.tf.esp - 4, eip := s.handlers sig } ∧
      s'.pending &&& bit sig = 0 := by
  unfold Handled traps
  simp only [if_neg hpt]
  constructor
  · rintro ⟨s', tf, hret, hclear, rfl⟩
    refine ⟨s', ?_, hclear⟩
    split at hret
    · rename_i h
      rw [h, hret]
    · exact hret
  · rintro ⟨s', hret, hclear⟩
    exact ⟨s', _, by rw [hret], hclear, rfl⟩

/-- The process is sent to its handler iff there is a page for the frame and room on the stack. -/
lemma divert_iff (hk : ¬ s.killed) (hclear : s.pending &&& bit sig = 0) :
    (∃ s', s.divert T sig =
      some (s', { T.tf with esp := T.tf.esp - 4, eip := s.handlers sig }) ∧ ¬ s'.killed ∧
        s'.pending &&& bit sig = 0) ↔
      (s.sigTf ≠ none ∨ s.free ≠ []) ∧ T.writable (T.tf.esp - 4) := by
  unfold divert
  cases hsave : s.save T.tf with
  | none =>
    have hnone := save_eq_none_iff.mp hsave
    refine iff_of_false ?_ fun h => hnone h.1
    rintro ⟨s', heq, -⟩
    have htf := congrArg Prod.snd (Option.some.inj heq)
    exact sub_four_ne _ (congrArg TrapFrame.esp htf).symm
  | some s1 =>
    obtain ⟨hkilled, hpending, hhandlers⟩ := save_eq_some hsave
    have hpage : s.sigTf ≠ none ∨ s.free ≠ [] := by
      by_contra h
      rw [save_eq_none_iff.mpr h] at hsave
      exact absurd hsave (by simp)
    by_cases hw : T.writable (T.tf.esp - 4)
    · refine iff_of_true ⟨{ s1 with stored := (T.tf.esp - 4, UInt32.ofNat sig) :: s1.stored },
        by simp only [hw, if_true, hhandlers], ?_, ?_⟩ ⟨hpage, hw⟩
      · rw [hkilled]
        exact hk
      · rw [hpending]
        exact hclear
    · refine iff_of_false ?_ fun h => hw h.2
      simp [hw]

/-- A signal that comes while an interrupt is served. -/
lemma handled_interrupt_iff (h0 : sig ≠ 0) (hkill : sig ≠ SIGKILL) (hk : ¬ s.killed)
    (hs : s.unblocked = 0) (hb : s.blocked &&& bit sig = 0) (hu : T₁.tf.User)
    (hT : T₁.tf.trapno ∈ interrupts) (hpt : pt = .enter ∨ pt = .work) :
    Handled s T₁ T₂ sig pt ↔ s.handlers sig ≠ 0 ∧ (s.sigTf ≠ none ∨ s.free ≠ []) ∧
      T₁.writable (T₁.tf.esp - 4) := by
  have hret : ∀ s' tf, s.trap T₁ (once sig pt) = .ret s' tf ↔
      (s.raise (bit sig)).deliver T₁ = some (s', tf) ∧ ¬ s'.killed := by
    intro s' tf
    rw [trap_interrupt hu hT hk hs hpt]
    grind
  rw [handled_iff (by rcases hpt with rfl | rfl <;> decide)]
  simp only [hret, deliver_raise h0 hkill hs hb, and_assoc]
  by_cases hh : s.handlers sig = 0
  · -- without a handler the frame stays as it is
    refine iff_of_false ?_ fun h => h.1 hh
    rintro ⟨s', heq, -⟩
    rw [if_neg (not_not.mpr hh)] at heq
    have htf : T₁.tf = { T₁.tf with esp := T₁.tf.esp - 4, eip := s.handlers sig } := by
      split_ifs at heq <;> exact congrArg Prod.snd (Option.some.inj heq)
    exact sub_four_ne _ (congrArg TrapFrame.esp htf).symm
  · simp only [ne_eq, hh, not_false_eq_true, if_true, true_and]
    exact divert_iff (s := { s with pending := (s.pending ||| bit sig) &&& ~~~bit sig }) hk
      (and_not_self_and _ _)

/-- A signal with a handler, sent to a process that has no other signal to see and is not killed, is
handled if and only if it comes while `trap` serves an interrupt, after the first test and before
the search for a handler, with a page for the frame and a stack to store to.  Everywhere else the
process is exited by the next test, or the signal is lost. -/
theorem handled_iff_served (h0 : sig ≠ 0) (hkill : sig ≠ SIGKILL) (hk : ¬ s.killed)
    (hs : s.unblocked = 0) (hb : s.blocked &&& bit sig = 0) (hu₁ : T₁.tf.User) (hT₁ : T₁.Regular)
    (hu₂ : T₂.tf.User) (hT₂ : T₂.Regular) :
    Handled s T₁ T₂ sig pt ↔ Served s T₁ sig pt := by
  unfold Served
  by_cases hno : T₁.tf.trapno = T_SYSCALL
  · refine iff_of_false (not_handled_syscall hu₁ hno hu₂ hT₂) fun h => ?_
    have hmem := h.1
    rw [hno] at hmem
    exact absurd hmem (by decide)
  · have hT := hT₁.resolve_left hno
    by_cases hpt : pt = .enter ∨ pt = .work
    · rw [handled_interrupt_iff h0 hkill hk hs hb hu₁ hT hpt]
      simp only [hT, hpt, true_and]
    · refine iff_of_false (not_handled_entry_tail hu₁ hT₁ hu₂ hT₂ ?_) fun h => hpt h.2.1
      cases pt <;> simp_all

end Once

/-- A user's registers when the trap `trapno` comes. -/
def userFrame (trapno : UInt32) : TrapFrame where
  edi := 1
  esi := 2
  ebp := 0x2ff0
  oesp := 0
  ebx := 3
  edx := 4
  ecx := 5
  eax := 6
  gs := 0
  fs := 0
  es := 0x23
  ds := 0x23
  trapno := trapno
  err := 0
  eip := 0x100
  cs := 0x1b
  eflags := 0x200
  esp := 0x2fe0
  ss := 0x23

/-- A trap of a process with a stack in the page at `0x2000`. -/
def userTrap (trapno : UInt32) : Trap where
  tf := userFrame trapno
  call := .other 0
  writable := fun addr => 0x2000 ≤ addr ∧ addr < 0x3000

/-- A process that has installed a handler for signal 15 with `sigaction`. -/
def installed : State :=
  (State.sysSigaction ⟨false, 0, 0, fun _ => 0, none, [7, 8], []⟩ 15 (some 0x40)).1

theorem handled_timer : Served installed (userTrap 32) 15 .work ∧
    Handled installed (userTrap 32) (userTrap 32) 15 .work := by
  have hserved : Served installed (userTrap 32) 15 .work :=
    ⟨by decide, .inr rfl, by decide, .inr (by decide), by decide⟩
  exact ⟨hserved, (handled_iff_served (by decide) (by decide) (by decide) (by decide) (by decide)
    (by decide) (.inr (by decide)) (by decide) (.inr (by decide))).mpr hserved⟩

/-- The signal comes in user mode and `trap` exits the process, which has a handler for it; and the
same happens if it comes in a system call or after the tests of a trap. -/
theorem exited_handler :
    installed.handlers 15 = 0x40 ∧ ¬ installed.killed ∧ installed.pending = 0 ∧
      installed.blocked = 0 ∧
      traps installed (userTrap 32) (userTrap 32) 15 .entry = .exit ∧
      traps installed (userTrap T_SYSCALL) (userTrap 32) 15 .work = .exit ∧
      traps installed (userTrap 32) (userTrap 32) 15 .tail = .exit :=
  ⟨rfl, by decide, rfl, rfl, rfl, rfl, rfl⟩

end Xv7.Signal
