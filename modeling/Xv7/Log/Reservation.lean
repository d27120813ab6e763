import Xv7.Log.Crash

/-!
# The reservation of log space

`begin_op` lets an operation in when the blocks already logged, and `MAXOPBLOCKS` for each open
operation, fit in `LOGSIZE`.  `log_write` compares with the size of the log area, of which one
block is the header, so that the last of the `LOGSIZE` reserved blocks does not exist.

`tooBig_iff_groupBlocks` says when `log_write` halts the machine: when it is called with
`nlog - 1` distinct blocks logged since the last commit.  That happens with operations that use
their whole reservation (`tooBig_fullTrace`), and does not happen when every operation stays one
block below it (`tooBig_iff_of_run`).
-/

namespace Xv7.Log

open Function (update update_eq_self update_of_ne update_self)
open Machine

variable {P : Type*} {sb : Superblock}

/-! ## Blocks logged since the last commit -/

/-- The effect of an event on the distinct blocks logged since the last commit. -/
def nextGroup (bs : List ℕ) : Event P → List ℕ
  | .logAppend _ b _ => Store.absorb bs b
  | .clearHead _ | .recoverClear | .crash => []
  | _ => bs

/-- The distinct blocks logged since the last commit. -/
def groupBlocks (tr : List (Event P)) : List ℕ := tr.foldl nextGroup []

lemma groupBlocks_concat (tr : List (Event P)) (e : Event P) :
    groupBlocks (tr ++ [e]) = nextGroup (groupBlocks tr) e := by
  simp [groupBlocks, List.foldl_append]

/-! ## Blocks logged by the open operations -/

section Used

variable [DecidableEq P]

/-- The effect of an event on the distinct blocks that the last operation of each process has
logged. -/
def nextUsed (used : P → List ℕ) : Event P → P → List ℕ
  | .beginOp p | .fssync p => Function.update used p []
  | .logAppend p b _ => Function.update used p (Store.absorb (used p) b)
  | _ => used

/-- The distinct blocks that the last operation of each process has logged. -/
def opBlocks (tr : List (Event P)) : P → List ℕ := tr.foldl nextUsed fun _ => []

/-- With the block that it is about to log, the operation has logged at most `n` blocks. -/
def Event.Within (n : ℕ) (used : P → List ℕ) : Event P → Prop
  | .logTest p b => (Store.absorb (used p) b).length ≤ n
  | _ => True

/-- Each operation logs at most `n` distinct blocks. -/
def OpsWithin (n : ℕ) (tr : List (Event P)) : Prop :=
  Meets (fun used e => some (nextUsed used e)) (fun used e => e.Within n used) (fun _ => []) tr

lemma opBlocks_concat (tr : List (Event P)) (e : Event P) :
    opBlocks (tr ++ [e]) = nextUsed (opBlocks tr) e := by
  simp [opBlocks, List.foldl_append]

lemma opsWithin_concat {n : ℕ} {tr : List (Event P)} {e : Event P} :
    OpsWithin n (tr ++ [e]) ↔ OpsWithin n tr ∧ e.Within n (opBlocks tr) :=
  meets_concat (exec_total nextUsed _ tr)

instance (n : ℕ) (used : P → List ℕ) (e : Event P) : Decidable (e.Within n used) :=
  match e with
  | .logTest p b => inferInstanceAs (Decidable ((Store.absorb (used p) b).length ≤ n))
  | .beginOp _ | .logAppend .. | .endOp _ | .writeLog _ | .writeHead _ | .install _
  | .clearHead _ | .commitDone _ | .fssync _ | .logSync _ | .syncWake _ | .syncIo .. | .bsync _
  | .load _ | .evict _ | .crash | .readHead | .recoverInstall | .recoverClear => isTrue trivial

instance (n : ℕ) (tr : List (Event P)) : Decidable (OpsWithin n tr) :=
  decidableMeets _ _

end Used

lemma absorb_of_mem {bs : List ℕ} {b : ℕ} (h : b ∈ bs) : Store.absorb bs b = bs := if_pos h

lemma length_absorb_of_notMem {bs : List ℕ} {b : ℕ} (h : b ∉ bs) :
    (Store.absorb bs b).length = bs.length + 1 := by
  simp [Store.absorb, h]

lemma length_absorb_le (bs : List ℕ) (b : ℕ) :
    (Store.absorb bs b).length ≤ bs.length + 1 := by
  by_cases h : b ∈ bs
  · rw [absorb_of_mem h]
    omega
  · exact (length_absorb_of_notMem h).le

variable [Fintype P] [DecidableEq P]

/-! ## When the test fails -/

/-- Once the machine is up, the in-memory header lists the blocks logged since the last commit. -/
lemma lh_eq_groupBlocks {d : Disk} {tr : List (Event P)} {s : State P}
    (hrun : exec (step sb) (boot d) tr = some s) (hm : ∀ t, s.mode ≠ .recovering t) :
    s.lh = groupBlocks tr := by
  refine exec_induction (motive := fun tr s => (∀ t, s.mode ≠ .recovering t) →
    s.lh = groupBlocks tr) (fun _ => rfl) ?_ hrun hm
  intro tr s e s' _ ih hs hm
  rw [groupBlocks_concat]
  -- a machine that is up was not recovering, and its header was that of the events so far
  have hup : s.mode = .up → s.lh = groupBlocks tr := fun h => ih fun t ht => by simp [h] at ht
  cases Transition.of_step hs with
  | logTest h | logTestOpen h =>
    unfold State.logTest
    split_ifs <;> exact hup h
  | logAppend h => exact congrArg (Store.absorb · _) (hup h)
  | endOp h | endEphemeral h =>
    unfold State.endOp
    split_ifs <;> exact hup h
  | logSync h | syncWake h =>
    unfold State.syncTest
    split_ifs <;> exact hup h
  | clearHead | recoverClear | crash => rfl
  | readHead | recoverInstall => exact absurd rfl (hm _)
  | beginOp h | writeLog h | writeHead h | install h | commitDone h | fssync h => exact hup h
  | logSyncSleep h | syncIo h | bsyncPanic h | bsync h | load h | evict h => exact hup h

/-- The tests of `log_write` fail for this header. -/
def LogFull (sb : Superblock) (lh : List ℕ) : Prop :=
  LOGSIZE ≤ lh.length ∨ sb.nlog - 1 ≤ lh.length

omit [Fintype P] in
lemma logTest_mode {s : State P} {p : P} {b : ℕ} {nested eph : Bool} (hm : s.mode = .up) :
    (s.logTest sb p b nested eph).mode = .panicked .tooBig ↔ LogFull sb s.lh := by
  unfold State.logTest
  split_ifs with h
  · exact ⟨fun _ => h, fun _ => rfl⟩
  · exact ⟨fun hp => by simp [State.setProc, hm] at hp, fun hf => absurd hf h⟩

/-- `log_write` halts the machine iff it is called with a full log. -/
lemma tooBig_step {s s' : State P} {e : Event P} (hs : step sb s e = some s') :
    s'.mode = .panicked .tooBig ↔ ∃ p b, e = .logTest p b ∧ LogFull sb s.lh := by
  cases Transition.of_step hs with
  | logTest hm | logTestOpen hm =>
    refine (logTest_mode (by exact hm)).trans ⟨fun h => ⟨_, _, rfl, h⟩, ?_⟩
    rintro ⟨-, -, -, h⟩
    exact h
  | endOp hm | endEphemeral hm =>
    unfold State.endOp
    split_ifs <;> simp [State.setProc, hm]
  | logSync hm | syncWake hm =>
    unfold State.syncTest
    split_ifs <;> simp [State.setProc, hm]
  | _ => simp_all [State.setProc, State.logAppend, boot]

/-- A run has just halted in `log_write` iff its last event is a call of `log_write` with a full
log. -/
lemma tooBig_iff_groupBlocks {d : Disk} {tr : List (Event P)} {s : State P}
    (hrun : exec (step sb) (boot d) tr = some s) :
    s.mode = .panicked .tooBig ↔ ∃ tr1 p b, tr = tr1 ++ [.logTest p b] ∧
      LogFull sb (groupBlocks tr1) := by
  induction tr using List.reverseRecOn with
  | nil =>
    rw [exec_nil, Option.some.injEq] at hrun
    subst hrun
    simp [boot]
  | append_singleton tr e =>
    obtain ⟨t, ht, hs⟩ := exec_concat_eq_some.mp hrun
    have hlh : ∀ p b, e = .logTest p b → t.lh = groupBlocks tr := by
      rintro p b rfl
      refine lh_eq_groupBlocks ht fun i hi => ?_
      cases Transition.of_step hs <;> simp_all
    rw [tooBig_step hs]
    constructor
    · rintro ⟨p, b, rfl, hfull⟩
      exact ⟨tr, p, b, rfl, hlh p b rfl ▸ hfull⟩
    · rintro ⟨tr1, p, b, htr, hfull⟩
      obtain ⟨rfl, he⟩ := List.append_inj' htr rfl
      obtain rfl : e = .logTest p b := by simpa using he
      exact ⟨p, b, rfl, (hlh p b rfl).symm ▸ hfull⟩

/-! ## Operations that leave one block of their reservation unused -/

/-- What is left of the reservation of a process. -/
def share (used : P → List ℕ) (proc : P → Proc) (p : P) : ℕ :=
  if (proc p).inOp then MAXOPBLOCKS - (used p).length else 0

/-- The reservations of the open operations are still available, with one block to spare when a
single operation is open. -/
structure Reserved (used : P → List ℕ) (s : State P) : Prop where
  /-- The blocks of the open operations are in the log. -/
  logged : ∀ p, (s.proc p).inOp = true → ∀ b ∈ used p, b ∈ s.lh
  /-- The open operations have logged fewer blocks than they may. -/
  small : ∀ p, (s.proc p).inOp = true → (used p).length < MAXOPBLOCKS
  /-- Also with the block that they are logging. -/
  next : ∀ p b nested eph, s.proc p = .logging b nested eph →
    (Store.absorb (used p) b).length < MAXOPBLOCKS
  /-- The reservations are available. -/
  room : s.lh.length + ∑ p, share used s.proc p + (if s.outstanding = 1 then 1 else 0) ≤ LOGSIZE
  /-- The log is empty while no operation is open. -/
  empty : s.outstanding = 0 → s.lh = []

omit [Fintype P] in
lemma share_update_of_ne {used : P → List ℕ} {proc : P → Proc} {p q : P} {c : Proc}
    {bs : List ℕ} (hq : q ≠ p) :
    share (update used p bs) (update proc p c) q = share used proc q := by
  simp [share, update_of_ne hq]

/-- The shares after one process has moved. -/
lemma sum_share_update (used : P → List ℕ) (proc : P → Proc) (p : P) (c : Proc) (bs : List ℕ) :
    ∑ q, share (update used p bs) (update proc p c) q + share used proc p =
      ∑ q, share used proc q + (if c.inOp then MAXOPBLOCKS - bs.length else 0) := by
  rw [sum_add_of_eq_off fun q hq => share_update_of_ne hq]
  simp [share]

omit [DecidableEq P] in
lemma sum_share_le (used : P → List ℕ) (proc : P → Proc) :
    ∑ p, share used proc p ≤ countOp proc * MAXOPBLOCKS := by
  rw [countOp, Finset.sum_mul]
  refine Finset.sum_le_sum fun p _ => ?_
  unfold share
  cases (proc p).inOp <;> simp

omit [DecidableEq P] in
/-- Each open operation keeps at least one block of its reservation. -/
lemma Reserved.countOp_le {used : P → List ℕ} {s : State P} (h : Reserved used s) :
    countOp s.proc ≤ ∑ p, share used s.proc p := by
  refine Finset.sum_le_sum fun p _ => ?_
  unfold share
  cases hp : (s.proc p).inOp with
  | false => simp
  | true =>
    have := h.small p hp
    simp only [Bool.toNat_true, if_true]
    omega

omit [DecidableEq P] in
/-- With the reservations available, `log_write` finds two blocks free. -/
lemma Reserved.length_lt {used : P → List ℕ} {s : State P} (h : Reserved used s)
    (hcount : s.outstanding = countOp s.proc) (hout : 1 ≤ s.outstanding) :
    s.lh.length + 1 < LOGSIZE := by
  have hroom := h.room
  have hle := h.countOp_le
  split_ifs at hroom <;> omega

omit [DecidableEq P] in
/-- No operation is open. -/
lemma Reserved.of_idle {used : P → List ℕ} {s : State P} (hp : ∀ p, s.proc p = .idle)
    (hout : s.outstanding = 0) (hlh : s.lh = []) : Reserved used s where
  logged := fun p h => by simp [hp p, Proc.inOp] at h
  small := fun p h => by simp [hp p, Proc.inOp] at h
  next := fun p b _ _ h => by simp [hp p] at h
  room := by simp [share, hp, Proc.inOp, hout, hlh]
  empty := fun _ => hlh

omit [DecidableEq P] in
/-- A move inside the operations, with the same log. -/
lemma Reserved.keep {used : P → List ℕ} {s s' : State P} (h : Reserved used s)
    (hlh : s'.lh = s.lh) (hout : s'.outstanding = s.outstanding)
    (hin : ∀ q, (s'.proc q).inOp = (s.proc q).inOp)
    (hnext : ∀ q b nested eph, s'.proc q = .logging b nested eph →
      (Store.absorb (used q) b).length < MAXOPBLOCKS) : Reserved used s' := by
  have hshare : ∀ q, share used s'.proc q = share used s.proc q := fun q => by
    rw [share, share, hin q]
  refine ⟨fun q hq => ?_, fun q hq => h.small q (hin q ▸ hq), hnext, ?_, ?_⟩
  · rw [hlh]
    exact h.logged q (hin q ▸ hq)
  · rw [hlh, hout, Finset.sum_congr rfl fun q _ => hshare q]
    exact h.room
  · rw [hlh, hout]
    exact h.empty

/-- Moving one process inside its operation. -/
lemma Reserved.setProc {used : P → List ℕ} {s : State P} (h : Reserved used s) {p : P}
    {c : Proc} (hin : c.inOp = (s.proc p).inOp)
    (hnext : ∀ b nested eph, c = .logging b nested eph →
      (Store.absorb (used p) b).length < MAXOPBLOCKS) : Reserved used (s.setProc p c) := by
  refine h.keep rfl rfl (fun q => ?_) fun q b nested eph hq => ?_
  · by_cases hqp : q = p
    · subst hqp
      simpa [State.setProc] using hin
    · simp [State.setProc, hqp]
  · by_cases hqp : q = p
    · subst hqp
      exact hnext b nested eph (by simpa [State.setProc] using hq)
    · exact h.next q b nested eph (by simpa [State.setProc, hqp] using hq)

/-- `begin_op` makes a reservation. -/
lemma Reserved.begin {used : P → List ℕ} {s : State P} (h : Reserved used s)
    (hcount : s.outstanding = countOp s.proc) {p : P} (hp : s.proc p = .idle)
    (hroom : s.lh.length + (s.outstanding + 1) * MAXOPBLOCKS ≤ LOGSIZE) {c : Proc}
    (hin : c.inOp = true) (hc : ∀ b nested eph, c ≠ .logging b nested eph) :
    Reserved (update used p [])
      ({ s with outstanding := s.outstanding + 1 }.setProc p c) := by
  refine ⟨fun q hq => ?_, fun q hq => ?_, fun q b nested eph hq => ?_, ?_, fun h0 => ?_⟩
  · by_cases hqp : q = p
    · simp [hqp]
    · simp only [State.setProc, update_of_ne hqp] at hq ⊢
      exact h.logged q hq
  · by_cases hqp : q = p
    · simp [hqp]
    · simp only [State.setProc, update_of_ne hqp] at hq ⊢
      exact h.small q hq
  · by_cases hqp : q = p
    · subst hqp
      exact absurd (by simpa [State.setProc] using hq) (hc b nested eph)
    · simp only [State.setProc, update_of_ne hqp] at hq ⊢
      exact h.next q b nested eph hq
  · -- the guard of `begin_op` covers all reservations, old and new
    have hle := sum_share_le (update used p []) (update s.proc p c)
    have hcount' := countOp_update s.proc p c
    rw [hp, hin, ← hcount] at hcount'
    simp only [Proc.inOp, Bool.toNat_false, Bool.toNat_true] at hcount'
    rw [show countOp (update s.proc p c) = s.outstanding + 1 by omega] at hle
    show s.lh.length + ∑ q, share (update used p []) (update s.proc p c) q +
      (if s.outstanding + 1 = 1 then 1 else 0) ≤ LOGSIZE
    split_ifs with hone
    · have hzero : s.outstanding = 0 := by omega
      rw [hzero] at hle
      rw [h.empty hzero, List.length_nil]
      exact (Nat.add_le_add_right (Nat.add_le_add_left hle 0) 1).trans (by decide)
    · omega
  · simp [State.setProc] at h0

/-- The locked part of `log_write` uses up one block of a reservation at most. -/
lemma Reserved.append {used : P → List ℕ} {s : State P} (h : Reserved used s) {p : P} {b : ℕ}
    {v : Block} (hp : s.proc p = .logging b true false) (hout : 1 ≤ s.outstanding) :
    Reserved (update used p (Store.absorb (used p) b))
      (s.logAppend p b v true false) := by
  have hin : (s.proc p).inOp = true := by simp [hp, Proc.inOp]
  have hnext := h.next p b _ _ hp
  refine ⟨fun q hq c hc => mem_absorb.mpr ?_, fun q hq => ?_, fun q c nested eph hq => ?_, ?_,
    fun h0 => ?_⟩
  · by_cases hqp : q = p
    · subst hqp
      rw [update_self, mem_absorb] at hc
      exact hc.imp_left (h.logged q hin c)
    · simp only [State.logAppend, State.setProc, update_of_ne hqp] at hq hc
      exact Or.inl (h.logged q hq c hc)
  · by_cases hqp : q = p
    · subst hqp
      rwa [update_self]
    · simp only [State.logAppend, State.setProc, update_of_ne hqp] at hq ⊢
      exact h.small q hq
  · by_cases hqp : q = p
    · subst hqp
      simp [State.logAppend, State.setProc] at hq
    · simp only [State.logAppend, State.setProc, update_of_ne hqp] at hq ⊢
      exact h.next q c nested eph hq
  · have hsum := sum_share_update used s.proc p .op (Store.absorb (used p) b)
    have hshare : share used s.proc p = MAXOPBLOCKS - (used p).length := if_pos hin
    have hroom := h.room
    have hsmall := h.small p hin
    show (Store.absorb s.lh b).length + ∑ q, share (update used p
      (Store.absorb (used p) b)) (update s.proc p .op) q +
      (if s.outstanding = 1 then 1 else 0) ≤ LOGSIZE
    simp only [Proc.inOp, if_true] at hsum
    by_cases hb : b ∈ used p
    · -- a block that the operation logs again is in the log already
      rw [absorb_of_mem hb] at hsum ⊢
      rw [absorb_of_mem (h.logged p hin b hb)]
      omega
    · rw [length_absorb_of_notMem hb] at hsum hnext
      have := length_absorb_le s.lh b
      omega
  · exact absurd (show s.outstanding = 0 from h0) (by omega)

/-- An operation that is not the last one gives back its reservation. -/
lemma Reserved.close {used : P → List ℕ} {s : State P} (h : Reserved used s) {p : P}
    (hp : (s.proc p).inOp = true) (hout : s.outstanding - 1 ≠ 0) :
    Reserved used ({ s with outstanding := s.outstanding - 1 }.setProc p .idle) := by
  refine ⟨fun q hq => ?_, fun q hq => ?_, fun q b nested eph hq => ?_, ?_,
    fun h0 => absurd h0 hout⟩
  · by_cases hqp : q = p
    · simp [State.setProc, hqp, Proc.inOp] at hq
    · simp only [State.setProc, update_of_ne hqp] at hq ⊢
      exact h.logged q hq
  · by_cases hqp : q = p
    · simp [State.setProc, hqp, Proc.inOp] at hq
    · simp only [State.setProc, update_of_ne hqp] at hq
      exact h.small q hq
  · by_cases hqp : q = p
    · simp [State.setProc, hqp] at hq
    · simp only [State.setProc, update_of_ne hqp] at hq
      exact h.next q b nested eph hq
  · -- at least one block comes back, which pays for the spare one of a single operation
    have hsum := sum_share_update used s.proc p .idle (used p)
    have hshare : share used s.proc p = MAXOPBLOCKS - (used p).length := if_pos hp
    have hroom := h.room
    have hsmall := h.small p hp
    rw [update_eq_self] at hsum
    simp only [Proc.inOp, Bool.false_eq_true, if_false] at hsum
    show s.lh.length + ∑ q, share used (update s.proc p .idle) q +
      (if s.outstanding - 1 = 1 then 1 else 0) ≤ LOGSIZE
    split_ifs at hroom ⊢ <;> omega

/-- Every step keeps the reservations available. -/
lemma reserved_step {D : Disk} {hist : History} {s s' : State P} {e : Event P}
    {used : P → List ℕ} (hI : Inv sb D hist s) (hop : e.InOperation sb s) (hquiet : e.QuietSync s)
    (hwithin : e.Within (MAXOPBLOCKS - 1) used) (hs : step sb s e = some s')
    (h : s.mode = .up → s.committing = false → Reserved used s) :
    s'.mode = .up → s'.committing = false → Reserved (nextUsed used e) s' := by
  intro hm' hcom'
  -- a process that is inside an operation keeps everybody out of `commit`
  have hres : s.mode = .up → ∀ p, (s.proc p).inOp = true →
      Running sb hist.pending s ∧ Reserved used s := by
    intro hm p hp
    have hR := hI.running_of_inOp hm hp
    exact ⟨hR, h hm hR.idle⟩
  cases Transition.of_step hs with
  | beginOp hm hl hp hcom hroom | fssync hm hl hp hcom hroom =>
    have hcount : s.outstanding = countOp s.proc := by
      rcases (hI.up hm).2 with hR | ⟨q, pc, hC⟩
      · exact hR.count
      · simp [hC.busy] at hcom
    exact (h hm hcom).begin hcount hp hroom rfl (by simp)
  | @logTest p b hm =>
    have hin : (s.proc p).inOp = true := by rw [hop.1]; rfl
    obtain ⟨-, hr⟩ := hres hm p hin
    unfold State.logTest at hm' ⊢
    split_ifs at hm' ⊢
    refine hr.setProc (by simp [hop.1, Proc.inOp]) ?_
    intro b' nested eph hb'
    obtain ⟨rfl, -, -⟩ := Proc.logging.inj hb'
    exact Nat.lt_of_le_pred (by decide) hwithin
  | logTestOpen hm _ _ hout =>
    have := hI.one_le_outstanding hm (congrArg Proc.inOp hop.1)
    omega
  | @logAppend p b v nested eph hm hl hp =>
    obtain ⟨hR, rfl, rfl, -⟩ := hI.running_of_logging hm hp
    exact (h hm hR.idle).append hp (hI.one_le_outstanding hm (congrArg Proc.inOp hp))
  | @endOp p hm hl hp =>
    have hin : (s.proc p).inOp = true := congrArg Proc.inOp hp
    obtain ⟨hR, hr⟩ := hres hm p hin
    unfold State.endOp at hcom' ⊢
    rw [if_neg (by simp [hR.idle])] at hcom' ⊢
    by_cases hlast : s.outstanding - 1 = 0
    · rw [if_pos hlast] at hcom'
      exact absurd hcom' (by simp [State.setProc])
    · rw [if_neg hlast]
      exact hr.close hin hlast
  | @endEphemeral p b hm hl hp =>
    have hord := (hI.running_of_inOp hm (congrArg Proc.inOp hp)).procs p
    rw [hp] at hord
    exact hord.elim
  | writeLog hm hp | writeHead hm hp | install hm hp | clearHead hm hp =>
    have hbusy := (hI.committing_of_commit hm hp).2.busy
    exact absurd (hbusy.symm.trans hcom') (by simp)
  | @commitDone p held hm hl hp =>
    obtain ⟨-, hC⟩ := hI.committing_of_commit hm hp
    obtain ⟨-, hlh, -, -⟩ := hC.phase
    refine Reserved.of_idle (fun q => ?_) hC.zero hlh
    by_cases hq : q = p
    · simp [State.setProc, hq]
    · simpa [State.setProc, hq] using hC.others q hq
  | logSyncSleep hm hl hp hcom =>
    have := (hres hm _ (congrArg Proc.inOp hp)).1.idle
    simp [hcom] at this
  | logSync hm hl hp hcom =>
    obtain ⟨-, hr⟩ := hres hm _ (congrArg Proc.inOp hp)
    rw [State.syncTest, if_pos (hquiet.resolve_left (by simp [hcom]))]
    exact hr.setProc (by rw [hp]; rfl) (by simp)
  | syncWake hm hl hp => exact absurd hp (hI.not_syncCommit hm).1
  | syncIo hm hp => exact absurd hp (hI.not_syncCommit hm).2
  | bsync hm hp =>
    obtain ⟨-, hr⟩ := hres hm _ (congrArg Proc.inOp hp)
    exact hr.setProc (by rw [hp]; rfl) (by simp)
  | load hm | evict hm => exact (h hm hcom').keep rfl rfl (fun _ => rfl) (h hm hcom').next
  | recoverClear hm =>
    have hmode := hI.mode
    rw [hm] at hmode
    obtain ⟨-, hf, -⟩ := hmode
    exact Reserved.of_idle hf.procs hf.zero rfl
  | bsyncPanic | crash | readHead | recoverInstall => simp [boot] at hm'

/-- In a log area of `LOGSIZE` blocks, log writes find room. -/
lemma noOverrun_of_reserved {D : Disk} {hist : History} {s s' : State P} {e : Event P}
    {used : P → List ℕ} (hnlog : LOGSIZE ≤ sb.nlog) (hI : Inv sb D hist s)
    (hs : step sb s e = some s') (h : s.mode = .up → s.committing = false → Reserved used s) :
    e.NoOverrun sb s := by
  cases Transition.of_step hs with
  | logAppend hm hl hp =>
    intro _
    obtain ⟨hR, rfl, rfl, -⟩ := hI.running_of_logging hm hp
    have := (h hm hR.idle).length_lt hR.count (hI.one_le_outstanding hm (congrArg Proc.inOp hp))
    omega
  | _ => trivial

/-- Operations that leave one block of their reservation unused always find room. -/
lemma reserved_exec {d : Disk} {tr : List (Event P)} {s : State P} (hnlog : LOGSIZE ≤ sb.nlog)
    (hd : HeaderOk sb (header sb d)) (hrun : exec (step sb) (boot d) tr = some s)
    (hop : Meets (step sb) (fun s e => e.InOperation sb s) (boot d) tr)
    (hquiet : Meets (step sb) (fun s e => e.QuietSync s) (boot d) tr)
    (hwithin : OpsWithin (MAXOPBLOCKS - 1) tr) :
    Orderly sb d tr ∧ (s.mode = .up → s.committing = false → Reserved (opBlocks tr) s) := by
  refine exec_induction (motive := fun tr s =>
    Meets (step sb) (fun s e => e.InOperation sb s) (boot d) tr →
    Meets (step sb) (fun s e => e.QuietSync s) (boot d) tr → OpsWithin (MAXOPBLOCKS - 1) tr →
    Orderly sb d tr ∧ (s.mode = .up → s.committing = false → Reserved (opBlocks tr) s)) ?_ ?_
    hrun hop hquiet hwithin
  · exact fun _ _ _ => ⟨⟨trivial, trivial, trivial⟩, fun hm => by simp [boot] at hm⟩
  · intro tr s e s' hs ih hse hop hquiet hwithin
    rw [meets_concat hs] at hop hquiet
    rw [opsWithin_concat] at hwithin
    obtain ⟨hord, hr⟩ := ih hop.1 hquiet.1 hwithin.1
    have hI := inv_exec hd hs hord
    have hroom := noOverrun_of_reserved hnlog hI hse hr
    refine ⟨⟨(meets_concat hs).mpr hop, (meets_concat hs).mpr ⟨hord.room, hroom⟩,
      (meets_concat hs).mpr hquiet⟩, ?_⟩
    rw [opBlocks_concat]
    exact reserved_step hI hop.2 hquiet.2 hwithin.2 hse hr

/-! ## The theorem -/

/-- When `log_write` reaches its panic, on a file system made by `mkfs`.  A run halts there iff it
calls `log_write` with `nlog - 1` distinct blocks logged since the last commit; and it never does
when every operation logs at most `MAXOPBLOCKS - 1` distinct blocks, inside its own `begin_op` and
`end_op`, and every `log_sync` finds the log empty. -/
theorem tooBig_iff_of_run {d : Disk} {tr : List (Event P)} {s : State P}
    (hd : HeaderOk mkfsSuperblock (header mkfsSuperblock d))
    (hrun : exec (step mkfsSuperblock) (boot d) tr = some s) :
    (s.mode = .panicked .tooBig ↔ ∃ tr₁ p b, tr = tr₁ ++ [.logTest p b] ∧
      mkfsSuperblock.nlog - 1 ≤ (groupBlocks tr₁).length) ∧
    (Meets (step mkfsSuperblock) (fun s e => e.InOperation mkfsSuperblock s) (boot d) tr →
      Meets (step mkfsSuperblock) (fun s e => e.QuietSync s) (boot d) tr →
      OpsWithin (MAXOPBLOCKS - 1) tr → s.mode ≠ .panicked .tooBig) := by
  constructor
  · rw [tooBig_iff_groupBlocks hrun]
    have hfull : ∀ lh, LogFull mkfsSuperblock lh ↔ mkfsSuperblock.nlog - 1 ≤ lh.length := by
      intro lh
      have h1 : LOGSIZE = 60 := rfl
      have h2 : mkfsSuperblock.nlog = 60 := rfl
      unfold LogFull
      omega
    simp only [hfull]
  · intro hop hquiet hwithin hbig
    induction tr using List.reverseRecOn with
    | nil =>
      rw [exec_nil, Option.some.injEq] at hrun
      simp [← hrun, boot] at hbig
    | append_singleton tr e =>
      obtain ⟨t, ht, hs⟩ := exec_concat_eq_some.mp hrun
      obtain ⟨p, b, rfl, hfull⟩ := (tooBig_step hs).mp hbig
      rw [meets_concat ht] at hop hquiet
      obtain ⟨hord, hr⟩ := reserved_exec le_rfl hd ht hop.1 hquiet.1 (opsWithin_concat.mp hwithin).1
      have hI := inv_exec hd ht hord
      have hin : (t.proc p).inOp = true := congrArg Proc.inOp hop.2.1
      have hm : t.mode = .up := by cases Transition.of_step hs <;> assumption
      have hR := hI.running_of_inOp hm hin
      have hlt := (hr hm hR.idle).length_lt hR.count (hI.one_le_outstanding hm hin)
      have hnlog : mkfsSuperblock.nlog = LOGSIZE := rfl
      unfold LogFull at hfull
      omega

/-! ## Three operations that fill the log -/

/-- Three operations that log `n` distinct blocks each. -/
def fillTrace (n : ℕ) : List (Event (Fin 3)) :=
  List.flatten [[.readHead, .recoverClear, .beginOp 0, .beginOp 1, .beginOp 2],
    logWrites 0 (List.range' 100 n), logWrites 1 (List.range' 200 n),
    logWrites 2 (List.range' 300 n)]

set_option maxRecDepth 20000 in
theorem not_tooBig_fillTrace :
    ∃ s, exec (step mkfsSuperblock) (boot zeroDisk) (fillTrace 19) = some s ∧
      s.mode ≠ .panicked .tooBig := by
  have hrun : (exec (step mkfsSuperblock) (boot zeroDisk) (fillTrace 19)).isSome = true := by
    decide +kernel
  obtain ⟨s, hs⟩ := Option.isSome_iff_exists.mp hrun
  have hd : HeaderOk mkfsSuperblock (header mkfsSuperblock zeroDisk) := by
    rw [header_zeroDisk]
    exact HeaderOk.nil
  exact ⟨s, hs, (tooBig_iff_of_run hd hs).2 (by decide +kernel)
    (meets_of_forall fun s e he => Event.quietSync_of_isSync
      ((by decide +kernel : ∀ e ∈ fillTrace 19, e.isSync = false) e he) s) (by decide +kernel)⟩

/-- Three operations that log twenty distinct blocks each, up to the last block of the third. -/
def fullTrace : List (Event (Fin 3)) :=
  List.flatten [fillTrace 19, logWrites 0 [119], logWrites 1 [219], [.logTest 2 319]]

set_option maxRecDepth 20000 in
/-- `begin_op` admits the three operations together, but their last block does not fit. -/
theorem tooBig_fullTrace :
    ∃ s, exec (step mkfsSuperblock) (boot zeroDisk) fullTrace = some s ∧
      Meets (step mkfsSuperblock) (fun s e => e.InOperation mkfsSuperblock s) (boot zeroDisk)
        fullTrace ∧
      OpsWithin MAXOPBLOCKS fullTrace ∧ s.mode = .panicked .tooBig := by
  have hrun : ∃ s ∈ exec (step mkfsSuperblock) (boot zeroDisk) fullTrace,
      s.mode = .panicked .tooBig := by
    decide +kernel
  obtain ⟨s, hs, hm⟩ := hrun
  exact ⟨s, hs, by decide +kernel, by decide +kernel, hm⟩

end Xv7.Log
