import Xv7.Pipe.Fifo

/-!
# Sleeping on a pipe

When nobody holds its lock, a process should be asleep on a pipe only if it has to wait: for
`&p->nread` if the pipe is empty and its write end is open, for `&p->nwrite` if it is full and its
read end is open.  There is one way out of a critical section without the `wakeup` that is due:
`pipewrite` gives up on a pipe that it has filled.
-/

namespace Xv7.Pipe

open State

variable {s s' : State} {e : Event}

/-- Who sleeps on `&p->nread` has to wait. -/
def ReadersWait (s : State) : Prop :=
  ∀ j, s.chan j = some .nread → s.pipe.Empty ∧ s.pipe.writeopen = true

/-- Who sleeps on `&p->nwrite` has to wait. -/
def WritersWait (s : State) : Prop :=
  ∀ j, s.chan j = some .nwrite → s.pipe.Full ∧ s.pipe.readopen = true

/-- No process is asleep on a pipe that lets it proceed. -/
def AtRest (s : State) : Prop := ReadersWait s ∧ WritersWait s

/-- A `wakeup(&p->nread)` is due. -/
def OwesReaders : Pc → Prop
  | .writeFull _ _ _ | .writeWake _ _ _ | .writeDone _ | .closeWake true => True
  | _ => False

/-- A `wakeup(&p->nwrite)` is due. -/
def OwesWriters : Pc → Prop
  | .readDone _ _ | .closeWake false => True
  | _ => False

/-- What a process has tested under the lock. -/
def Tested (p : Pipe) : Pc → Prop
  | .writeFull _ _ _ => p.Full
  | .writeWake _ _ _ | .writeSleep _ _ _ => p.Full ∧ p.readopen = true
  | .readEmpty _ | .readSleep _ => p.Empty ∧ p.writeopen = true
  | _ => True

/-- What is kept along a run. -/
structure Awake (s : State) : Prop where
  fifo : Fifo s
  readers : (∀ k, ¬ OwesReaders (s.pc k)) → ReadersWait s
  writers : (∀ k, ¬ OwesWriters (s.pc k)) → WritersWait s
  tested : ∀ k, Tested s.pipe (s.pc k)

/-- A `pipewrite` that gives up on a full pipe, because its process was killed or the read end is
closed, leaves no process asleep on `&p->nread`. -/
def LeavesNoReader (s : State) : Event → Prop
  | .run k =>
    match s.pc k with
    | .writeFull _ _ _ =>
      s.pipe.readopen = false ∨ s.killed k = true → ∀ j, s.chan j ≠ some .nread
    | _ => True
  | _ => True

lemma awake_init (data : ℕ → UInt8) (killed : ℕ → Bool) : Awake (init data killed) where
  fifo := fifo_init data killed
  readers := fun _ _ h => nomatch h
  writers := fun _ _ h => nomatch h
  tested := fun _ => trivial

/-- A full pipe is not empty. -/
lemma Fifo.not_empty_of_full (h : Fifo s) (hfull : s.pipe.Full) : ¬ s.pipe.Empty := by
  obtain ⟨q, hq, -⟩ := h.queue
  intro hempty
  have hlen := (hq.full_iff pipesize_lt).mp hfull
  rw [(hq.empty_iff pipesize_lt).mp hempty] at hlen
  exact absurd hlen (by decide)

lemma OwesReaders.holding {pc : Pc} (h : OwesReaders pc) : Holding pc := by
  cases pc <;> trivial

lemma OwesWriters.holding {pc : Pc} (h : OwesWriters pc) : Holding pc := by
  cases pc <;> trivial

lemma tested_of_not_holding {p : Pipe} {pc : Pc} (h : ¬ Holding pc) : Tested p pc := by
  cases pc with
  | idle | write | writeDone | read | readDone | close | closeWake => exact trivial
  | writeFull | writeWake | writeSleep | readEmpty | readSleep => exact absurd trivial h

section Takes

variable {k : ℕ} (h : Awake s) (ht : Takes s k s')

include h ht

/-- After a step of a process, only that process can owe a `wakeup` or rely on a test. -/
lemma Awake.not_holding {j : ℕ} (hj : j ≠ k) : ¬ Holding (s'.pc j) := by
  rw [ht.pc_of_ne hj]
  exact h.fifo.locked.not_holding (ht.lock h.fifo.locked) hj

/-- The invariant after a step of a process, from what is true at its own place. -/
lemma Awake.of_self (hF : Fifo s') (hr : ¬ OwesReaders (s'.pc k) → ReadersWait s')
    (hw : ¬ OwesWriters (s'.pc k) → WritersWait s') (hk : Tested s'.pipe (s'.pc k)) : Awake s' where
  fifo := hF
  readers := fun hno => hr (hno k)
  writers := fun hno => hw (hno k)
  tested := fun j => by
    by_cases hj : j = k
    · exact hj ▸ hk
    · exact tested_of_not_holding (h.not_holding ht hj)

/-- Before the step, only this process can have owed a `wakeup`. -/
lemma Awake.readers_of_not (hno : ¬ OwesReaders (s.pc k)) : ReadersWait s := by
  refine h.readers fun j hj => ?_
  by_cases hjk : j = k
  · exact hno (hjk ▸ hj)
  · exact h.not_holding ht hjk (ht.pc_of_ne hjk ▸ hj.holding)

lemma Awake.writers_of_not (hno : ¬ OwesWriters (s.pc k)) : WritersWait s := by
  refine h.writers fun j hj => ?_
  by_cases hjk : j = k
  · exact hno (hjk ▸ hj)
  · exact h.not_holding ht hjk (ht.pc_of_ne hjk ▸ hj.holding)

end Takes

/-- After a `wakeup` nobody sleeps on the channel, and nobody else has fallen asleep. -/
lemma wakeup_chan {c c' : Chan} {j : ℕ} (h : (s.wakeup c).chan j = some c') :
    c' ≠ c ∧ s.chan j = some c' := by
  rw [wakeup] at h
  simp only at h
  split_ifs at h with hc
  exact ⟨fun heq => hc (heq ▸ h), h⟩

/-- After a `kill` nobody has fallen asleep. -/
lemma kill_chan {c : Chan} {j k : ℕ} {sigkill : Bool} (h : (s.kill k sigkill).chan j = some c) :
    s.chan j = some c := by
  rw [State.kill] at h
  simp only at h
  by_cases hj : j = k
  · rw [hj, Function.update_self] at h
    exact absurd h (by simp)
  · rwa [Function.update_of_ne hj] at h

/-- What falls asleep in `sleep`. -/
lemma sleep_chan {c c' : Chan} {pc : Pc} {j k : ℕ} (h : (s.sleep k c pc).chan j = some c') :
    c' = c ∨ s.chan j = some c' := by
  rw [sleep] at h
  simp only at h
  by_cases hj : j = k
  · rw [hj, Function.update_self, Option.some.injEq] at h
    exact .inl h.symm
  · rw [Function.update_of_ne hj] at h
    exact .inr h

/-- A step of a process that meets the condition keeps the invariant. -/
lemma Awake.takes {k : ℕ} (h : Awake s) (hC : LeavesNoReader s (.run k)) (ht : Takes s k s')
    (hF : Fifo s') : Awake s' := by
  have hself := h.of_self ht hF
  have hreaders := h.readers_of_not ht
  have hwriters := h.writers_of_not ht
  have htest := h.tested k
  cases ht with
  | @store addr n i hpc hlock =>
    obtain ⟨q, hq, -⟩ := h.fifo.queue
    obtain ⟨b', c, hloop, hc, -, hmore⟩ := storeLoop_spec addr (m := (n - i).toNat) (i := i) hq
    have hpc' : (s.store k addr n i).pc k = if ((i + c : ℕ) : ℤ) < n then .writeFull addr n (i + c)
        else .writeDone n := by
      simp only [State.store, hloop, goto_pc_self]
    have hring : (s.store k addr n i).pipe = { s.pipe with ring := b' } := by
      simp only [State.store, hloop]
    refine hself (fun hno => absurd ?_ hno) (fun _ j hj => ?_) ?_
    · rw [hpc']
      split_ifs <;> trivial
    · -- nothing is stored in a full pipe
      obtain ⟨hfull, hopen⟩ := hwriters (by rw [hpc]; exact id) j hj
      refine ⟨?_, by rw [hring]; exact hopen⟩
      have hsame : storeLoop addr (n - i).toNat s.pipe.ring i = (s.pipe.ring, i) := by
        cases (n - i).toNat with
        | zero => rfl
        | succ m => exact if_pos hfull
      rw [hsame, Prod.mk.injEq] at hloop
      rw [hring, Pipe.Full, ← hloop.1]
      exact hfull
    · rw [hpc', hring]
      split_ifs with hlt
      · exact hmore (by omega)
      · trivial
  | @giveUp addr n i hpc hgive =>
    have hnone : ∀ j, s.chan j ≠ some .nread := by
      rw [LeavesNoReader, hpc] at hC
      exact hC hgive
    refine hself (fun _ j hj => absurd hj (hnone j)) (fun _ => ?_) ?_
    · exact hwriters (by rw [hpc]; exact id)
    · rw [leave, goto_pc_self]
      trivial
  | @goOn addr n i hpc hopen =>
    rw [hpc] at htest
    refine hself (fun hno => absurd ?_ hno) (fun _ => hwriters (by rw [hpc]; exact id)) ?_
    · rw [goto_pc_self]
      trivial
    · rw [goto_pc_self]
      exact ⟨htest, hopen⟩
  | @wakeReaders addr n i hpc =>
    rw [hpc] at htest
    refine hself (fun _ j hj => absurd rfl (wakeup_chan hj).1) (fun _ j hj => ?_) ?_
    · exact hwriters (by rw [hpc]; exact id) j (wakeup_chan hj).2
    · rw [goto_pc_self]
      exact htest
  | @writeSleep addr n i hpc =>
    rw [hpc] at htest
    refine hself (fun _ j hj => ?_) (fun _ j _ => htest) ?_
    · rcases sleep_chan hj with hc | hj
      · exact absurd hc (by decide)
      · exact hreaders (by rw [hpc]; exact id) j hj
    · rw [State.sleep, goto_pc_self]
      trivial
  | @writeDone n hpc =>
    refine hself (fun _ j hj => absurd rfl (wakeup_chan hj).1) (fun _ j hj => ?_) ?_
    · exact hwriters (by rw [hpc]; exact id) j (wakeup_chan hj).2
    · rw [leave, goto_pc_self]
      trivial
  | @wait n hpc hlock hempty hopen =>
    refine hself (fun _ => hreaders (by rw [hpc]; exact id))
      (fun _ => hwriters (by rw [hpc]; exact id)) ?_
    rw [goto_pc_self]
    exact ⟨hempty, hopen⟩
  | @copy n hpc hlock hready =>
    refine hself (fun _ j hj => ?_) (fun hno => absurd ?_ hno) ?_
    · -- nobody waits for a pipe that can be read
      obtain ⟨hempty, hopen⟩ := hreaders (by rw [hpc]; exact id) j hj
      rcases hready with hready | hready
      · exact absurd hempty hready
      · exact absurd (hopen.symm.trans hready) (by decide)
    · rw [goto_pc_self]
      trivial
    · rw [goto_pc_self]
      trivial
  | @readKilled n hpc =>
    refine hself (fun _ => hreaders (by rw [hpc]; exact id))
      (fun _ => hwriters (by rw [hpc]; exact id)) ?_
    rw [leave, goto_pc_self]
    trivial
  | @readOn n hpc =>
    rw [hpc] at htest
    refine hself (fun _ => hreaders (by rw [hpc]; exact id))
      (fun _ => hwriters (by rw [hpc]; exact id)) ?_
    rw [goto_pc_self]
    exact htest
  | @readSleep n hpc =>
    rw [hpc] at htest
    refine hself (fun _ j _ => htest) (fun _ j hj => ?_) ?_
    · rcases sleep_chan hj with hc | hj
      · exact absurd hc (by decide)
      · exact hwriters (by rw [hpc]; exact id) j hj
    · rw [State.sleep, goto_pc_self]
      trivial
  | @readDone n bytes hpc =>
    refine hself (fun _ j hj => ?_) (fun _ j hj => absurd rfl (wakeup_chan hj).1) ?_
    · exact hreaders (by rw [hpc]; exact id) j (wakeup_chan hj).2
    · rw [leave, goto_pc_self]
      trivial
  | @shut writable hpc hlock =>
    cases writable with
    | true =>
      refine hself (fun hno => absurd ?_ hno) (fun _ => hwriters (by rw [hpc]; exact id)) ?_
      · rw [State.shut, goto_pc_self]
        trivial
      · rw [State.shut, goto_pc_self]
        trivial
    | false =>
      refine hself (fun _ => hreaders (by rw [hpc]; exact id)) (fun hno => absurd ?_ hno) ?_
      · rw [State.shut, goto_pc_self]
        trivial
      · rw [State.shut, goto_pc_self]
        trivial
  | @closed writable hpc =>
    have hlast : Tested (s.closed k writable).pipe ((s.closed k writable).pc k) := by
      rw [State.closed, leave, goto_pc_self]
      trivial
    cases writable with
    | true =>
      refine hself (fun _ j hj => absurd rfl (wakeup_chan hj).1) (fun _ j hj => ?_) hlast
      exact hwriters (by rw [hpc]; exact id) j (wakeup_chan hj).2
    | false =>
      refine hself (fun _ j hj => ?_) (fun _ j hj => absurd rfl (wakeup_chan hj).1) hlast
      exact hreaders (by rw [hpc]; exact id) j (wakeup_chan hj).2

lemma Awake.step (h : Awake s) (hC : LeavesNoReader s e) (hstep : s.step e = some s') :
    Awake s' := by
  have hF := h.fifo.step hstep
  rcases step_cases hstep with ⟨k, pc, hidle, hpc, rfl⟩ | ⟨k, rfl, ht⟩ | ⟨k, sigkill, rfl⟩
  · -- outside of a call and before the lock is taken nothing is owed
    have hpcs : ∀ j, (s.goto k pc).pc j = s.pc j ∨ ¬ Holding ((s.goto k pc).pc j) ∧
        ¬ Holding (s.pc j) := by
      intro j
      by_cases hj : j = k
      · subst hj
        rw [goto_pc_self, hidle]
        exact .inr ⟨hpc, id⟩
      · exact .inl (goto_pc_of_ne s hj pc)
    refine ⟨hF, fun hno => h.readers fun j hj => ?_, fun hno => h.writers fun j hj => ?_,
      fun j => ?_⟩
    · rcases hpcs j with hsame | ⟨-, hout⟩
      · exact hno j (hsame.symm ▸ hj)
      · exact hout hj.holding
    · rcases hpcs j with hsame | ⟨-, hout⟩
      · exact hno j (hsame.symm ▸ hj)
      · exact hout hj.holding
    · rcases hpcs j with hsame | ⟨hout, -⟩
      · rw [hsame]
        exact h.tested j
      · exact tested_of_not_holding hout
  · exact h.takes hC ht hF
  · exact ⟨hF, fun hno j hj => h.readers hno j (kill_chan hj),
      fun hno j hj => h.writers hno j (kill_chan hj), h.tested⟩

/-- When the lock is free, nobody owes a `wakeup`. -/
lemma Awake.atRest (h : Awake s) (hlock : s.lock = none) : AtRest s := by
  have hout : ∀ k, ¬ Holding (s.pc k) := fun k hk => by
    rw [h.fifo.locked k hk] at hlock
    exact absurd hlock (by simp)
  exact ⟨h.readers fun k hk => hout k hk.holding, h.writers fun k hk => hout k hk.holding⟩

/-- A `pipewrite` that gives up while a process is asleep on `&p->nread` leaves it asleep. -/
lemma Awake.not_atRest (h : Awake s) (hC : ¬ LeavesNoReader s e) (hstep : s.step e = some s') :
    s'.lock = none ∧ ¬ AtRest s' := by
  cases e with
  | pipewrite | piperead | pipeclose | kill => exact absurd trivial hC
  | run k =>
    rw [State.step] at hstep
    split_ifs at hstep
    simp only [LeavesNoReader] at hC
    split at hC
    · rename_i addr n i hpc
      rw [Classical.not_imp, not_forall] at hC
      obtain ⟨hgive, j, hj⟩ := hC
      have hfull : s.pipe.Full := by
        have := h.tested k
        rwa [hpc] at this
      have hgive' : ¬ s.pipe.readopen = true ∨ s.killed k = true := by
        rcases hgive with hgive | hgive
        · exact .inl (by rw [hgive]; decide)
        · exact .inr hgive
      simp only [State.run, hpc, if_pos hgive', Option.some.injEq] at hstep
      subst hstep
      exact ⟨rfl, fun hrest => h.fifo.not_empty_of_full hfull (hrest.1 j (not_not.mp hj)).1⟩
    · exact absurd trivial hC

/-- Whenever the lock is free along the run, no process is asleep on a pipe that lets it
proceed. -/
def NoMissedWakeup (s₀ : State) (tr : List Event) : Prop :=
  ∀ tr₁, tr₁ <+: tr → ∀ s, Machine.exec State.step s₀ tr₁ = some s → s.lock = none → AtRest s

/-- A run misses no wakeup iff every `pipewrite` that gives up on a full pipe does so while no
process is asleep on `&p->nread`. -/
theorem noMissedWakeup_iff {data : ℕ → UInt8} {killed : ℕ → Bool} {tr : List Event}
    (h : Machine.exec State.step (init data killed) tr = some s) :
    NoMissedWakeup (init data killed) tr ↔
      Machine.Meets State.step LeavesNoReader (init data killed) tr := by
  have hawake : ∀ {tr s}, Machine.exec State.step (init data killed) tr = some s →
      Machine.Meets State.step LeavesNoReader (init data killed) tr → Awake s := by
    intro tr s hrun hm
    exact Machine.exec_induction_of_meets (motive := fun _ => Awake) (awake_init data killed)
      (fun _ _ _ _ _ ih hC hstep => ih.step hC hstep) hrun hm
  constructor
  · intro hno
    -- the first step that breaks the condition leaves a process asleep
    induction tr using List.reverseRecOn generalizing s with
    | nil => trivial
    | append_singleton tr e ih =>
      obtain ⟨t, ht, hte⟩ := Machine.exec_concat_eq_some.mp h
      have hm := ih ht fun tr₁ hpre => hno tr₁ (hpre.trans (List.prefix_append _ _))
      refine (Machine.meets_concat ht).mpr ⟨hm, ?_⟩
      by_contra hC
      obtain ⟨hlock, hbad⟩ := (hawake ht hm).not_atRest hC hte
      exact hbad (hno _ List.prefix_rfl s h hlock)
  · rintro hm tr₁ ⟨tr₂, rfl⟩ t ht hlock
    exact (hawake ht (Machine.meets_append.mp hm).1).atRest hlock

/-- A process falls asleep in `piperead`; another one is killed while it writes 513 bytes. -/
def killedWriter : List Event :=
  [.piperead 1 1, .run 1, .run 1, .run 1, .pipewrite 2 (fun _ => 0) 513, .run 2, .kill 2 true,
    .run 2]

/-- The reader stays asleep on a full pipe whose write end is open. -/
theorem reader_asleep_killedWriter :
    ∃ s, Machine.exec State.step (init (fun _ => 0) fun _ => false) killedWriter = some s ∧
      s.lock = none ∧ s.chan 1 = some .nread ∧ s.pipe.Full ∧ s.pipe.writeopen = true ∧
      ¬ AtRest s := by
  obtain ⟨s, hs, hrec⟩ : ∃ s, Machine.exec State.step (init (fun _ => 0) fun _ => false)
      killedWriter = some s ∧ (s.lock, s.chan 1, decide s.pipe.Full, decide s.pipe.Empty,
        s.pipe.writeopen) = (none, some .nread, true, false, true) :=
    Option.map_eq_some_iff.mp (by decide +kernel)
  simp only [Prod.mk.injEq, decide_eq_true_eq, decide_eq_false_iff_not] at hrec
  obtain ⟨hlock, hchan, hfull, hempty, hopen⟩ := hrec
  exact ⟨s, hs, hlock, hchan, hfull, hopen, fun hrest => hempty (hrest.1 1 hchan).1⟩

theorem noMissedWakeup_oneByte : NoMissedWakeup (init (fun _ => 0) fun _ => false)
    [.piperead 1 1, .pipewrite 2 (fun _ => 7) 1, .run 2] := by
  obtain ⟨s, hs, -⟩ : ∃ s, Machine.exec State.step (init (fun _ => 0) fun _ => false)
      [.piperead 1 1, .pipewrite 2 (fun _ => 7) 1, .run 2] = some s ∧ s.lock = some 2 :=
    Option.map_eq_some_iff.mp (by decide +kernel)
  refine (noMissedWakeup_iff hs).mpr ⟨trivial, fun s₁ h₁ => ⟨trivial, fun s₂ h₂ => ⟨?_, ?_⟩⟩⟩
  · obtain rfl := Option.some.inj h₁
    obtain rfl := Option.some.inj h₂
    trivial
  · exact fun _ _ => trivial

end Xv7.Pipe
