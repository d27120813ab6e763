import Xv7.Log.Quiescence

/-!
# A log write outside any operation

When no operation is outstanding, `log_write` opens one around its own append.  Its `end_op` then
runs `commit` while the caller still has the buffer locked, and `write_log` reads the logged block
through `bread`, which waits for that lock.  So the call returns only if another process has opened an
operation in the meantime, and then without having committed anything.

`Counted` is what is needed of the counters, in all runs; `Inside` says where a process can be during
such a call.
-/

namespace Xv7.Log

open Function (update update_of_ne update_self)
open Machine

variable {P : Type*} {sb : Superblock}

/-- The process is in the `commit` of an `end_op`. -/
def Proc.commits : Proc → Bool
  | .commit _ _ => true
  | _ => false

/-- `log.outstanding` counts the operations, and one process at most is in `commit`, with no operation
open. -/
structure Counted [Fintype P] (s : State P) : Prop where
  count : s.outstanding = countOp s.proc
  commit : ∀ p, (s.proc p).commits = true → s.committing = true ∧ s.outstanding = 0
  single : ∀ p q, (s.proc p).commits = true → (s.proc q).commits = true → p = q

section Counted

variable [Fintype P] {s s' : State P} {p q : P} {c : Proc}

lemma Counted.not_commits (h : Counted s) (hcom : s.committing = false) :
    (s.proc p).commits = false := by
  by_contra hp
  have := (h.commit p (by simpa using hp)).1
  simp [hcom] at this

lemma Counted.pos_of_inOp (h : Counted s) (hp : (s.proc p).inOp = true) : 0 < s.outstanding := by
  have hle : (s.proc p).inOp.toNat ≤ countOp s.proc :=
    Finset.single_le_sum (f := fun r => (s.proc r).inOp.toNat) (fun _ _ => Nat.zero_le _)
      (Finset.mem_univ p)
  rw [hp, ← h.count] at hle
  exact hle

/-- While an operation is open nobody is in `commit`. -/
lemma Counted.not_commits_of_inOp (h : Counted s) (hp : (s.proc p).inOp = true) :
    (s.proc q).commits = false := by
  by_contra hq
  exact (h.pos_of_inOp hp).ne' (h.commit q (by simpa using hq)).2

/-- The state of the log and of the disk does not matter. -/
lemma Counted.congr (h : Counted s) (hproc : s'.proc = s.proc) (hout : s'.outstanding = s.outstanding)
    (hcom : s'.committing = s.committing) : Counted s' :=
  ⟨by rw [hout, hproc, h.count], fun p hp => by rw [hcom, hout]; exact h.commit p (hproc ▸ hp),
    fun p q hp hq => h.single p q (hproc ▸ hp) (hproc ▸ hq)⟩

variable [DecidableEq P]

/-- A process moves and stays inside, or outside, of its operation and of `commit`. -/
lemma Counted.keep (h : Counted s) (hproc : s'.proc = update s.proc p c)
    (hout : s'.outstanding = s.outstanding) (hcom : s'.committing = s.committing)
    (hop : c.inOp = (s.proc p).inOp) (hc : c.commits = (s.proc p).commits) : Counted s' := by
  have hsame : ∀ q, (s'.proc q).commits = (s.proc q).commits := by
    intro q
    rw [hproc]
    rcases eq_or_ne q p with rfl | hq
    · rw [update_self, hc]
    · rw [update_of_ne hq]
  refine ⟨?_, fun q hq => ?_, fun q r hq hr => ?_⟩
  · have hcount := countOp_update s.proc p c
    rw [hop] at hcount
    rw [hout, hproc, h.count]
    omega
  · rw [hcom, hout]
    exact h.commit q (hsame q ▸ hq)
  · exact h.single q r (hsame q ▸ hq) (hsame r ▸ hr)

/-- A process moves while nobody commits. -/
lemma Counted.move (h : Counted s) (hproc : s'.proc = update s.proc p c)
    (hout : s'.outstanding + (s.proc p).inOp.toNat = s.outstanding + c.inOp.toNat)
    (hcom : s.committing = false) (hc : c.commits = false) : Counted s' := by
  have hno : ∀ q, (s'.proc q).commits = false := by
    intro q
    rw [hproc]
    rcases eq_or_ne q p with rfl | hq
    · rw [update_self, hc]
    · rw [update_of_ne hq]
      exact h.not_commits hcom
  refine ⟨?_, fun q hq => absurd hq (by simp [hno]), fun q r hq => absurd hq (by simp [hno])⟩
  have hcount := countOp_update s.proc p c
  rw [hproc]
  have := h.count
  omega

omit [Fintype P] [DecidableEq P] in
/-- A process that has an operation of its own, or none, moves through the tests of `log_write`. -/
lemma logging_inOp (hp : s.proc p = .op ∨ s.proc p = .idle) (b : ℕ) :
    (Proc.logging b (decide (s.proc p = .op)) false).inOp = (s.proc p).inOp := by
  rcases hp with hp | hp <;> simp [hp, Proc.inOp]

/-- The last operation ends: everybody else is outside, and the process goes into `commit`. -/
lemma Counted.enter {pc : CommitPc} {held : Option ℕ} (h : Counted s) (hp : (s.proc p).inOp = true)
    (hcom : s.committing = false) (hlast : s.outstanding - 1 = 0)
    (hproc : s'.proc = update s.proc p (.commit pc held)) (hout : s'.outstanding = 0)
    (hcom' : s'.committing = true) : Counted s' := by
  have hself : ∀ q, (s'.proc q).commits = true → q = p := by
    intro q hq
    by_contra hne
    rw [hproc, update_of_ne hne, h.not_commits hcom] at hq
    exact absurd hq (by simp)
  refine ⟨?_, fun q hq => ⟨hcom', hout⟩, fun q r hq hr => (hself q hq).trans (hself r hr).symm⟩
  have hcount := countOp_update s.proc p (.commit pc held)
  rw [hp, ← h.count] at hcount
  have hpos := h.pos_of_inOp hp
  have hno : (Proc.commit pc held).inOp.toNat = 0 := rfl
  have hone : true.toNat = 1 := rfl
  rw [hproc]
  omega

lemma Counted.endOp {held : Option ℕ} (h : Counted s) (hp : (s.proc p).inOp = true)
    (hup : ∀ why, (s.endOp p held).mode ≠ .panicked why) : Counted (s.endOp p held) := by
  unfold State.endOp at hup ⊢
  generalize (if s.lh = [] then CommitPc.done else .writeLog 0) = pc at hup ⊢
  split_ifs at hup ⊢ with hcom hlast
  · exact absurd rfl (hup .committing)
  · exact h.enter hp (by simpa using hcom) hlast rfl rfl rfl
  · refine h.move rfl ?_ (by simpa using hcom) rfl
    rw [hp]
    show s.outstanding - 1 + 1 = s.outstanding + 0
    omega

/-- The counters along a step; a machine that has halted only boots again. -/
lemma counted_step {e : Event P} (h : (∀ why, s.mode ≠ .panicked why) → Counted s)
    (hs : step sb s e = some s') (hup : ∀ why, s'.mode ≠ .panicked why) : Counted s' := by
  cases Transition.of_step hs with
  | crash =>
    refine ⟨?_, fun p hp => absurd hp (by simp [boot, Proc.commits]),
      fun p q hp => absurd hp (by simp [boot, Proc.commits])⟩
    simp [boot, countOp, Proc.inOp]
  | beginOp hm _ hp hcom | fssync hm _ hp hcom =>
    exact (h (by simp [hm])).move rfl (by simp [hp, Proc.inOp, State.setProc]) hcom rfl
  | logTest hm _ hp =>
    unfold State.logTest at hup ⊢
    split_ifs at hup ⊢
    · exact absurd rfl (hup .tooBig)
    · refine (h (by simp [hm])).keep rfl rfl rfl (logging_inOp hp _) ?_
      rcases hp with hp | hp <;> simp [hp, Proc.commits]
  | @logTestOpen p b hm _ hp hout _ hcom =>
    have hc := h (by simp [hm])
    unfold State.logTest at hup ⊢
    split_ifs at hup ⊢
    · exact absurd rfl (hup .tooBig)
    · refine hc.move rfl ?_ hcom rfl
      rcases hp with hp | hp
      · exact absurd hout (hc.pos_of_inOp (p := p) (by simp [hp, Proc.inOp])).ne'
      · simp [hp, Proc.inOp, State.setProc]
  | @logAppend p b v nested eph hm _ hp =>
    refine (h (by simp [hm])).keep rfl rfl rfl ?_ ?_
    · cases eph <;> cases nested <;> simp [hp, Proc.inOp]
    · cases eph <;> cases nested <;> simp [hp, Proc.commits]
  | endOp hm _ hp | endEphemeral hm _ hp =>
    exact (h (by simp [hm])).endOp (by simp [hp, Proc.inOp]) hup
  | writeLog hm hp | writeHead hm hp | install hm hp | clearHead hm hp =>
    exact (h (by simp [hm])).keep rfl rfl rfl (by simp [hp, Proc.inOp]) (by simp [hp, Proc.commits])
  | @commitDone p held hm _ hp =>
    have hc := h (by simp [hm])
    have hother : ∀ q, (update s.proc p .idle q).commits = false := by
      intro q
      rcases eq_or_ne q p with rfl | hne
      · simp [Proc.commits]
      · rw [update_of_ne hne]
        by_contra hq
        exact hne (hc.single q p (by simpa using hq) (by simp [hp, Proc.commits]))
    refine ⟨?_, fun q hq => absurd hq (by simp [State.setProc, hother]),
      fun q r hq => absurd hq (by simp [State.setProc, hother])⟩
    have hcount := countOp_update s.proc p .idle
    have := hc.count
    simp only [hp, Proc.inOp, Bool.toNat_false] at hcount
    simp only [State.setProc]
    omega
  | logSyncSleep hm _ hp | bsync hm hp =>
    exact (h (by simp [hm])).keep rfl rfl rfl (by simp [hp, Proc.inOp]) (by simp [hp, Proc.commits])
  | logSync hm _ hp | syncWake hm _ hp =>
    unfold State.syncTest
    split_ifs
    all_goals
      exact (h (by simp [hm])).keep rfl rfl rfl (by simp [hp, Proc.inOp]) (by simp [hp, Proc.commits])
  | syncIo => exact absurd rfl (hup .schedLocks)
  | bsyncPanic => exact absurd rfl (hup .bwrite)
  | load hm | evict hm | readHead hm | recoverInstall hm | recoverClear hm =>
    exact (h (by simp [hm])).congr rfl rfl rfl

lemma counted_exec {d : Disk} {tr : List (Event P)} (hrun : exec (step sb) (boot d) tr = some s)
    (hm : s.mode = .up) : Counted s := by
  refine exec_induction (motive := fun _ s => (∀ why, s.mode ≠ .panicked why) → Counted s) (fun _ => ?_)
    (fun _ _ _ _ _ h hs => counted_step h hs) hrun (by simp [hm])
  exact ⟨by simp [boot, countOp, Proc.inOp], fun p hp => absurd hp (by simp [boot, Proc.commits]),
    fun p q hp => absurd hp (by simp [boot, Proc.commits])⟩

end Counted

/-! ## The call -/

/-- Where a process can be in a `log_write` of block `b` that has opened an operation: before the
append, before its `end_op`, or in `write_log` with the block still ahead. -/
def Inside (b : ℕ) (lh : List ℕ) : Proc → Prop
  | .logging b' _ eph => b' = b ∧ eph = true
  | .ephemeral b' => b' = b ∧ b ∈ lh
  | .commit (.writeLog t) held => held = some b ∧ b ∈ lh.drop t
  | _ => False

lemma Inside.held {b : ℕ} {lh : List ℕ} {c : Proc} (h : Inside b lh c) : c.held = some b := by
  cases c with
  | logging b' nested eph => simp [Proc.held, h.1]
  | ephemeral b' => simp [Proc.held, h.1]
  | commit pc held =>
    cases pc with
    | writeLog t => exact h.1
    | _ => exact h.elim
  | _ => exact h.elim

/-- Other processes may log more blocks. -/
lemma Inside.absorb {b b' : ℕ} {lh : List ℕ} {c : Proc} (h : Inside b lh c) :
    Inside b (Store.absorb lh b') c := by
  have hpre : lh <+: Store.absorb lh b' := by
    unfold Store.absorb
    split_ifs
    · exact List.prefix_rfl
    · exact List.prefix_append _ _
  cases c with
  | logging _ _ _ => exact h
  | ephemeral _ => exact ⟨h.1, hpre.subset h.2⟩
  | commit pc held =>
    cases pc with
    | writeLog t => exact ⟨h.1, (hpre.drop t).subset h.2⟩
    | _ => exact h.elim
  | _ => exact h.elim

section Call

variable [DecidableEq P] {s s' : State P} {p q : P} {b : ℕ} {e : Event P}

/-- Another process moves. -/
lemma Inside.setProc_other (h : Inside b s.lh (s.proc p)) (hq : ¬ Inside b s.lh (s.proc q)) (c : Proc) :
    Inside b s.lh (update s.proc q c p) := by
  have hne : p ≠ q := by
    rintro rfl
    exact hq h
  rwa [update_of_ne hne]

lemma Inside.logAppend {b' : ℕ} {v : Block} {nested eph : Bool} (h : Inside b s.lh (s.proc p))
    (hq : s.proc q = .logging b' nested eph) :
    Inside b (s.logAppend q b' v nested eph).lh ((s.logAppend q b' v nested eph).proc p) := by
  show Inside b (Store.absorb s.lh b') (update s.proc q _ p)
  rcases eq_or_ne p q with rfl | hne
  · rw [hq] at h
    obtain ⟨rfl, rfl⟩ := h
    rw [update_self]
    exact ⟨rfl, mem_absorb.2 (.inr rfl)⟩
  · rw [update_of_ne hne]
    exact h.absorb

lemma endOp_lh (held : Option ℕ) : (s.endOp q held).lh = s.lh := by
  unfold State.endOp
  split_ifs <;> rfl

lemma endOp_outstanding (held : Option ℕ) : (s.endOp q held).outstanding = s.outstanding - 1 := by
  unfold State.endOp
  split_ifs with _ hlast
  · rfl
  · exact hlast.symm
  · exact hlast.symm
  · rfl

lemma endOp_proc_of_ne (hne : p ≠ q) (held : Option ℕ) : (s.endOp q held).proc p = s.proc p := by
  unfold State.endOp
  split_ifs
  · rfl
  all_goals exact update_of_ne hne _ _

/-- The caller's own `end_op`, with its buffer locked. -/
lemma Inside.endOp_self (h : Inside b s.lh (s.proc p)) (hp : s.proc p = .ephemeral b)
    (hm' : (s.endOp p (some b)).mode = .up) :
    Inside b (s.endOp p (some b)).lh ((s.endOp p (some b)).proc p) ∨
      (s.endOp p (some b)).proc p = .idle ∧ 1 < s.outstanding := by
  rw [hp] at h
  have hlh : s.lh ≠ [] := List.ne_nil_of_mem h.2
  rw [endOp_lh]
  unfold State.endOp at hm' ⊢
  rw [if_neg hlh] at hm' ⊢
  split_ifs at hm' ⊢ with hcom hlast
  · left
    show Inside b s.lh (update s.proc p _ p)
    rw [update_self]
    exact ⟨rfl, by simpa using h.2⟩
  · exact .inr ⟨update_self _ _ _, by omega⟩

/-- The caller copies the logged blocks to the log, and cannot pass its own. -/
lemma Inside.writeLog {t : ℕ} {held : Option ℕ} (h : Inside b s.lh (s.proc p))
    (hq : s.proc q = .commit (.writeLog t) held) (ht : t < s.lh.length)
    (hhome : s.Free (s.lh.getD t 0)) :
    Inside b s.lh (update s.proc q (.commit (.writeLog (t + 1)) held) p) := by
  rcases eq_or_ne p q with rfl | hne
  · have hheld := hhome p
    rw [h.held] at hheld
    rw [hq, Inside, List.drop_eq_getElem_cons ht, List.mem_cons] at h
    rw [update_self]
    refine ⟨h.1, h.2.resolve_left fun hb => hheld ?_⟩
    rw [hb, List.getD_eq_getElem _ _ ht]
  · rwa [update_of_ne hne]

variable [Fintype P]

/-- The home of a block does not change while its buffer is locked. -/
lemma disk_eq_of_held (hfree : ¬ s.Free b) (hm : s.mode = .up) (hs : step sb s e = some s')
    (he : e ≠ .crash) (hm' : s'.mode = .up) : s'.disk b = s.disk b := by
  by_cases hw : e.isWrite = false
  · rw [step_disk hs hw]
  have hne : ∀ {n : ℕ}, s.Free n → b ≠ n := by
    rintro n hn rfl
    exact hfree hn
  cases Transition.of_step hs with
  | writeLog _ _ _ hlog =>
    exact (congrFun (Store.writeLogBlock_disk sb s.toStore _) b).trans
      (update_of_ne (hne hlog) _ _)
  | install _ _ _ _ hhome =>
    exact (congrFun (Store.installBlock_disk sb s.toStore _) b).trans
      (update_of_ne (hne hhome) _ _)
  | writeHead _ _ _ hhead =>
    exact (congrFun (Store.writeHead_disk sb s.toStore) b).trans
      (update_of_ne (hne hhead) _ _)
  | clearHead _ _ _ hhead =>
    exact (congrFun (Store.clearHead_disk sb s.toStore) b).trans
      (update_of_ne (hne hhead) _ _)
  | syncIo => exact absurd hm' (by simp)
  | recoverInstall hmode | recoverClear hmode => simp [hm] at hmode
  | _ => exact absurd rfl hw

omit [DecidableEq P] in
/-- Nobody erases the log while the caller is inside. -/
lemma Inside.not_install (h : Inside b s.lh (s.proc p)) (hc : Counted s) {t : ℕ}
    {held : Option ℕ} : s.proc q ≠ .commit (.install t) held := by
  intro hq
  have hcommits : (s.proc q).commits = true := by simp [hq, Proc.commits]
  have hop : (s.proc p).inOp = false := by
    by_contra hop
    rw [hc.not_commits_of_inOp (by simpa using hop)] at hcommits
    exact absurd hcommits (by simp)
  cases hp : s.proc p with
  | logging b' nested eph =>
    rw [hp] at h hop
    simp [Proc.inOp, h.2] at hop
  | ephemeral b' => simp [hp, Proc.inOp] at hop
  | commit pc held' =>
    obtain rfl := hc.single p q (by simp [hp, Proc.commits]) hcommits
    rw [hq] at h
    exact h
  | _ =>
    rw [hp] at h
    exact h

lemma inside_step (hc : Counted s) (hm : s.mode = .up) (h : Inside b s.lh (s.proc p))
    (hs : step sb s e = some s') (he : e ≠ .crash) (hm' : s'.mode = .up) :
    Inside b s'.lh (s'.proc p) ∨ s'.proc p = .idle ∧ 1 < s.outstanding := by
  cases Transition.of_step hs with
  | crash => exact absurd rfl he
  | beginOp _ _ hq | fssync _ _ hq | logSyncSleep _ _ hq | bsync _ hq =>
    exact .inl (h.setProc_other (by simp [hq, Inside]) _)
  | logTest _ _ hq | logTestOpen _ _ hq =>
    left
    unfold State.logTest at hm' ⊢
    split_ifs at hm' ⊢
    exact h.setProc_other (by rcases hq with hq | hq <;> simp [hq, Inside]) _
  | logAppend _ _ hq => exact .inl (h.logAppend hq)
  | @endOp q _ _ hq =>
    have hne : p ≠ q := by
      rintro rfl
      simp [hq, Inside] at h
    rw [endOp_lh, endOp_proc_of_ne hne]
    exact .inl h
  | @endEphemeral q b' _ _ hq =>
    rcases eq_or_ne p q with rfl | hne
    · obtain rfl : b' = b := by
        have := h.held
        simpa [hq, Proc.held] using this
      exact h.endOp_self hq hm'
    · rw [endOp_lh, endOp_proc_of_ne hne]
      exact .inl h
  | writeLog _ hq ht _ hhome => exact .inl (h.writeLog hq ht hhome)
  | writeHead _ hq ht =>
    refine .inl (h.setProc_other ?_ _)
    simp [hq, Inside, List.drop_eq_nil_of_le ht]
  | install _ hq | clearHead _ hq => exact absurd hq (h.not_install hc)
  | commitDone _ _ hq =>
    exact .inl (h.setProc_other (by simp [hq, Inside]) _)
  | logSync _ _ hq | syncWake _ _ hq =>
    left
    unfold State.syncTest
    split_ifs
    all_goals exact h.setProc_other (by simp [hq, Inside]) _
  | syncIo => exact absurd hm' (by simp)
  | bsyncPanic => exact absurd hm' (by simp)
  | load | evict => exact .inl h
  | readHead hmode | recoverInstall hmode | recoverClear hmode => simp [hm] at hmode

/-- The machine serves operations, or has halted. -/
def State.Booted (s : State P) : Prop := s.mode = .up ∨ ∃ why, s.mode = .panicked why

lemma Booted.step (h : s.Booted) (he : e ≠ .crash) (hs : step sb s e = some s') :
    s.mode = .up ∧ s'.Booted := by
  rcases h with hm | ⟨why, hm⟩
  · refine ⟨hm, ?_⟩
    cases Transition.of_step hs with
    | crash => exact absurd rfl he
    | logTest | logTestOpen =>
      unfold State.logTest
      split_ifs
      · exact .inr ⟨_, rfl⟩
      · exact .inl hm
    | endOp | endEphemeral =>
      unfold State.endOp
      split_ifs
      · exact .inr ⟨_, rfl⟩
      all_goals exact .inl hm
    | logSync | syncWake =>
      unfold State.syncTest
      split_ifs <;> exact .inl hm
    | syncIo | bsyncPanic => exact .inr ⟨_, rfl⟩
    | readHead hm' | recoverInstall hm' | recoverClear hm' => simp [hm] at hm'
    | _ => exact .inl hm
  · cases Transition.of_step hs with
    | crash => exact absurd rfl he
    | _ => simp_all

/-- Process `p` is in its call for block `b`, and the power does not fail. -/
def During (p : P) (b : ℕ) (s : State P) (e : Event P) : Prop := (s.proc p).held = some b ∧ e ≠ .crash

/-- What can be said of the state during the call, or after it. -/
structure Called (p : P) (b : ℕ) (home : Block) (s : State P) : Prop where
  counted : Counted s
  disk : s.disk b = home
  inside : Inside b s.lh (s.proc p) ∨ s.proc p = .idle

/-- The call goes on. -/
lemma Called.step (h : Called p b (s.disk b) s) (hm : s.mode = .up) (hd : During p b s e)
    (hs : step sb s e = some s') (hm' : s'.mode = .up) :
    Called p b (s.disk b) s' ∧ (s'.proc p = .idle → 1 < s.outstanding) := by
  have hin : Inside b s.lh (s.proc p) := by
    refine h.inside.resolve_right fun hidle => ?_
    have := hd.1
    simp [hidle, Proc.held] at this
  have hnext := inside_step h.counted hm hin hs hd.2 hm'
  have hfree : ¬ s.Free b := fun hfree => hfree p hd.1
  refine ⟨⟨counted_step (fun _ => h.counted) hs (by simp [hm']),
    disk_eq_of_held hfree hm hs hd.2 hm', hnext.imp_right And.left⟩, fun hidle => ?_⟩
  rcases hnext with hin' | ⟨-, hout⟩
  · exact absurd hin' (by simp [hidle, Inside])
  · exact hout

/-- The call starts. -/
lemma called_of_logTest (hc : Counted s) (hout : s.outstanding = 0)
    (hs : Log.step sb s (.logTest p b) = some s') (hm' : s'.mode = .up) :
    Called p b (s.disk b) s' ∧ s'.outstanding = 1 ∧ s'.proc p ≠ .idle := by
  have hc' := counted_step (fun _ => hc) hs (by simp [hm'])
  have hdisk := congrFun (step_disk hs rfl) b
  cases Transition.of_step hs with
  | logTest _ _ _ hpos => omega
  | logTestOpen =>
    unfold State.logTest at hc' hdisk hm' ⊢
    split_ifs at hc' hdisk hm' ⊢
    refine ⟨⟨hc', hdisk, .inl ?_⟩, by simp [State.setProc, hout], by simp [State.setProc]⟩
    show Inside b s.lh (update s.proc p _ p)
    rw [update_self]
    exact ⟨rfl, rfl⟩

/-- The event opens an operation of its own. -/
def Event.opens : Event P → Bool
  | .beginOp _ | .fssync _ => true
  | _ => false

/-- Only `begin_op` makes the operations two. -/
lemma outstanding_le_one (h : s.outstanding ≤ 1) (he : e.opens = false) (hs : step sb s e = some s') :
    s'.outstanding ≤ 1 := by
  cases Transition.of_step hs with
  | beginOp | fssync => simp [Event.opens] at he
  | logTest =>
    unfold State.logTest
    split_ifs <;> exact h
  | logTestOpen _ _ _ hout =>
    unfold State.logTest
    split_ifs <;> exact (Nat.succ_le_succ hout.le)
  | endOp | endEphemeral =>
    rw [endOp_outstanding]
    exact (Nat.sub_le _ _).trans h
  | logSync | syncWake =>
    unfold State.syncTest
    split_ifs <;> exact h
  | crash => exact Nat.zero_le _
  | _ => exact h

/-- The run of a call: the block stays as it was on the disk, and the call returns only if another
operation was opened. -/
lemma called_exec {s1 : State P} {tr : List (Event P)} (hc : Counted s) (hm : s.mode = .up)
    (hout : s.outstanding = 0) (hcall : step sb s (.logTest p b) = some s1)
    (hrun : exec (step sb) s1 tr = some s') (hduring : Meets (step sb) (During p b) s1 tr)
    (hm' : s'.mode = .up) :
    s'.disk b = s.disk b ∧ ((∀ e ∈ tr, e.opens = false) → s'.proc p ≠ .idle) := by
  have hI := exec_induction_of_meets (motive := fun tr t => t.Booted ∧ (t.mode = .up →
      Called p b (s.disk b) t ∧
        ((∀ e ∈ tr, e.opens = false) → t.outstanding ≤ 1 ∧ t.proc p ≠ .idle)))
    ?_ ?_ hrun hduring
  · obtain ⟨hcalled, hno⟩ := hI.2 hm'
    exact ⟨hcalled.disk, fun h => (hno h).2⟩
  · refine ⟨(Booted.step (.inl hm) (by simp) hcall).2, fun hup => ?_⟩
    obtain ⟨hcalled, hone, hne⟩ := called_of_logTest hc hout hcall hup
    exact ⟨hcalled, fun _ => ⟨hone.le, hne⟩⟩
  · rintro tr t e t' - ⟨hboot, ih⟩ hd hs
    obtain ⟨hup, hboot'⟩ := Booted.step hboot hd.2 hs
    refine ⟨hboot', fun hup' => ?_⟩
    obtain ⟨hcalled, hno⟩ := ih hup
    obtain ⟨hcalled', hidle⟩ := Called.step (hcalled.disk ▸ hcalled) hup hd hs hup'
    refine ⟨hcalled.disk ▸ hcalled', fun hopens => ?_⟩
    obtain ⟨hle, -⟩ := hno fun e' he' => hopens e' (by simp [he'])
    exact ⟨outstanding_le_one hle (hopens e (by simp)) hs, fun hreturn => by
      have := hidle hreturn
      omega⟩

omit [Fintype P] in
lemma commits_update {c : Proc} (h : (s.proc p).commits = true)
    (hq : (s.proc q).commits = false ∨ c.commits = true) :
    (update s.proc q c p).commits = true := by
  rcases eq_or_ne p q with rfl | hne
  · rw [update_self]
    exact hq.resolve_left (by simp [h])
  · rwa [update_of_ne hne]

/-- A process leaves `commit` at its end only. -/
lemma commits_step (h : (s.proc p).commits = true) (hp : ∀ held, s.proc p ≠ .commit .done held)
    (hs : step sb s e = some s') (he : e ≠ .crash) : (s'.proc p).commits = true := by
  cases Transition.of_step hs with
  | crash => exact absurd rfl he
  | beginOp _ _ hq | fssync _ _ hq | logSyncSleep _ _ hq | bsync _ hq =>
    exact commits_update h (.inl (by simp [hq, Proc.commits]))
  | logTest _ _ hq | logTestOpen _ _ hq =>
    unfold State.logTest
    split_ifs
    · exact h
    · exact commits_update h (.inl (by rcases hq with hq | hq <;> simp [hq, Proc.commits]))
  | logAppend _ _ hq => exact commits_update h (.inl (by simp [hq, Proc.commits]))
  | endOp _ _ hq | endEphemeral _ _ hq =>
    rw [endOp_proc_of_ne]
    · exact h
    · rintro rfl
      simp [hq, Proc.commits] at h
  | writeLog | writeHead | install | clearHead => exact commits_update h (.inr rfl)
  | @commitDone q _ _ _ hq =>
    have hne : p ≠ q := by
      rintro rfl
      exact hp _ hq
    show (update s.proc q .idle p).commits = true
    rwa [update_of_ne hne]
  | logSync _ _ hq | syncWake _ _ hq =>
    unfold State.syncTest
    split_ifs
    all_goals exact commits_update h (.inl (by simp [hq, Proc.commits]))
  | _ => exact h

/-- Once in `write_log` the caller never leaves. -/
lemma held_exec {tr : List (Event P)} (hc : Counted s) (hm : s.mode = .up)
    (h : Inside b s.lh (s.proc p)) (hcommits : (s.proc p).commits = true)
    (hrun : exec (step sb) s tr = some s') (htr : ∀ e ∈ tr, e ≠ .crash) (hm' : s'.mode = .up) :
    (s'.proc p).held = some b := by
  have hI := exec_induction (motive := fun tr t => (∀ e ∈ tr, e ≠ .crash) → t.Booted ∧
      (t.mode = .up → Counted t ∧ Inside b t.lh (t.proc p) ∧ (t.proc p).commits = true))
    (fun _ => ⟨.inl hm, fun _ => ⟨hc, h, hcommits⟩⟩) ?_ hrun htr
  · exact (hI.2 hm').2.1.held
  intro tr t e t' _ ih hs htr
  obtain ⟨hboot, ih⟩ := ih fun e' he' => htr e' (by simp [he'])
  have he := htr e (by simp)
  obtain ⟨hup, hboot'⟩ := Booted.step hboot he hs
  obtain ⟨hct, hin, hcom⟩ := ih hup
  refine ⟨hboot', fun hup' => ⟨counted_step (fun _ => hct) hs (by simp [hup']), ?_,
    commits_step hcom (fun held hdone => by simp [hdone, Inside] at hin) hs he⟩⟩
  refine (inside_step hct hup hin hs he hup').resolve_right fun hreturn => ?_
  have := (hct.commit p hcom).2
  omega

/-- The call of `log_write` that process `p` makes in the state `s` for its locked buffer of block `b`,
with the new contents `v`, has returned after the events `tr`. -/
def Returns (sb : Superblock) (s : State P) (p : P) (b : ℕ) (v : Block) (tr : List (Event P))
    (s' : State P) : Prop :=
  ∃ s₁, step sb s (.logTest p b) = some s₁ ∧ exec (step sb) s₁ tr = some s' ∧
    Meets (step sb) (During p b) s₁ tr ∧ .logAppend p b v ∈ tr ∧ s'.mode = .up ∧ s'.proc p = .idle

/-- In no state of a run with `log.outstanding = 0` does `log_write` commit its block: if the call
returns, the home of the block is as before, and it does not return unless another operation is opened
while it is going on. -/
theorem logWrite_never_commits {d : Disk} {tr₀ : List (Event P)}
    (hrun : exec (step sb) (boot d) tr₀ = some s) (hm : s.mode = .up) (hout : s.outstanding = 0) (p : P)
    (b : ℕ) (v : Block) :
    (∀ tr s', Returns sb s p b v tr s' → s'.disk b = s.disk b) ∧
      ∀ tr s', (∀ e ∈ tr, e.opens = false) → ¬ Returns sb s p b v tr s' := by
  have hc := counted_exec hrun hm
  constructor
  · rintro tr s' ⟨s₁, hcall, hexec, hduring, -, hm', -⟩
    exact (called_exec hc hm hout hcall hexec hduring hm').1
  · rintro tr s' hopens ⟨s₁, hcall, hexec, hduring, -, hm', hidle⟩
    exact (called_exec hc hm hout hcall hexec hduring hm').2 hopens hidle

end Call

/-! ## Process 0 logs block 100 -/

/-- The machine has booted from an empty disk. -/
def bootTrace : List (Event (Fin 2)) := [.readHead, .recoverClear]

theorem logWrite_never_commits_bootTrace :
    ∃ s, exec (step mkfsSuperblock) (boot zeroDisk) bootTrace = some s ∧ s.mode = .up ∧
      s.outstanding = 0 ∧ s.committing = false ∧
      ∀ tr s', (∀ e ∈ tr, e.opens = false) →
        ¬ Returns mkfsSuperblock s 0 100 (fun _ => 1) tr s' := by
  have hrun : ∃ s ∈ exec (step mkfsSuperblock) (boot zeroDisk) bootTrace, s.mode = .up ∧
      s.outstanding = 0 ∧ s.committing = false := by decide +kernel
  obtain ⟨s, hs, hm, hout, hcom⟩ := hrun
  exact ⟨s, hs, hm, hout, hcom, (logWrite_never_commits hs hm hout 0 100 (fun _ => 1)).2⟩

/-- The call up to its `commit`. -/
def ephemeralTrace : List (Event (Fin 2)) := [.logTest 0 100, .logAppend 0 100 (fun _ => 1), .endOp 0]

/-- The process is in `write_log`, waits for the buffer that it holds itself, and does so for ever. -/
theorem logWrite_waits_for_itself :
    ∃ s s', exec (step mkfsSuperblock) (boot zeroDisk) bootTrace = some s ∧ s.outstanding = 0 ∧
      s.committing = false ∧ exec (step mkfsSuperblock) s ephemeralTrace = some s' ∧
      s'.proc 0 = .commit (.writeLog 0) (some 100) ∧ s'.lh = [100] ∧ s'.disk 100 0 = 0 ∧
      ∀ tr t, exec (step mkfsSuperblock) s' tr = some t → (∀ e ∈ tr, e ≠ .crash) → t.mode = .up →
        (t.proc 0).held = some 100 := by
  have hrun : ∃ s ∈ exec (step mkfsSuperblock) (boot zeroDisk) bootTrace, s.outstanding = 0 ∧
      s.committing = false ∧ ∃ s' ∈ exec (step mkfsSuperblock) s ephemeralTrace, s'.mode = .up ∧
      s'.proc 0 = .commit (.writeLog 0) (some 100) ∧ s'.lh = [100] ∧ s'.disk 100 0 = 0 := by
    decide +kernel
  obtain ⟨s, hs, hout, hcom, s', hs', hm, hp, hlh, hdisk⟩ := hrun
  refine ⟨s, s', hs, hout, hcom, hs', hp, hlh, hdisk, fun tr t ht htr hup => ?_⟩
  have hall : exec (step mkfsSuperblock) (boot zeroDisk) (bootTrace ++ ephemeralTrace) = some s' := by
    rw [exec_append, hs]
    exact hs'
  exact held_exec (counted_exec hall hm) hm (by simp [hp, hlh, Inside]) (by simp [hp, Proc.commits]) ht htr
    hup

end Xv7.Log
