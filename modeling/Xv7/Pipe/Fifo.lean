import Xv7.Pipe.Model

/-!
# Pipes are queues

What was stored is what was delivered, followed by what is in the buffer, in every state that a
pipe can come to.  A `piperead` that returns nothing has seen an empty pipe with a closed write
end.
-/

namespace Xv7.Pipe

open State

variable {s s' : State} {e : Event}

lemma pipesize_dvd : PIPESIZE ∣ WRAP := by decide

lemma pipesize_lt : PIPESIZE < WRAP := by decide

/-- The buffer of the pipe is a queue. -/
abbrev Holds (b : Ring.Buffer UInt8) (q : List UInt8) : Prop := Ring.Holds PIPESIZE WRAP b q

/-- The loop of `pipewrite` puts bytes at the end of the queue, all of them unless it gets full. -/
lemma storeLoop_spec (addr : ℕ → UInt8) {m i : ℕ} {b : Ring.Buffer UInt8} {q : List UInt8}
    (h : Holds b q) : ∃ b' c, storeLoop addr m b i = (b', i + c) ∧ c ≤ m ∧
      Holds b' (q ++ (List.range' i c).map addr) ∧ (c < m → Ring.Full PIPESIZE WRAP b') := by
  induction m generalizing i b q with
  | zero => exact ⟨b, 0, rfl, le_rfl, by simpa using h, fun h => absurd h (Nat.lt_irrefl 0)⟩
  | succ m ih =>
    rw [storeLoop]
    split_ifs with hfull
    · exact ⟨b, 0, rfl, Nat.zero_le _, by simpa using h, fun _ => hfull⟩
    · have hlt : q.length < PIPESIZE :=
        h.le.lt_of_ne fun heq => hfull ((h.full_iff pipesize_lt).mpr heq)
      obtain ⟨b', c, hloop, hc, hb', hmore⟩ := ih (i := i + 1) (h.push pipesize_dvd hlt (addr i))
      refine ⟨b', c + 1, by rw [hloop, Nat.add_assoc, Nat.add_comm 1], Nat.succ_le_succ hc, ?_,
        fun h => hmore (Nat.lt_of_succ_lt_succ h)⟩
      rwa [List.append_assoc, List.singleton_append, ← List.map_cons, ← List.range'_succ] at hb'

/-- The loop of `piperead` takes bytes from the front of the queue. -/
lemma copyLoop_spec {m : ℕ} {b : Ring.Buffer UInt8} {q : List UInt8} (h : Holds b q) :
    (copyLoop m b).1 = q.take m ∧ Holds (copyLoop m b).2 (q.drop m) := by
  induction m generalizing b q with
  | zero => exact ⟨rfl, h⟩
  | succ m ih =>
    rw [copyLoop]
    split_ifs with hempty
    · obtain rfl := (h.empty_iff pipesize_lt).mp hempty
      exact ⟨rfl, h⟩
    · obtain ⟨a, q, rfl⟩ := List.exists_cons_of_ne_nil
        (mt (h.empty_iff pipesize_lt).mpr hempty)
      obtain ⟨hfront, hpop⟩ := h.pop pipesize_dvd
      obtain ⟨hbytes, hrest⟩ := ih hpop
      exact ⟨by simp only [hfront, hbytes, List.take_succ_cons], hrest⟩

/-- What is kept along a run. -/
structure Fifo (s : State) : Prop where
  locked : Locked s
  queue : ∃ q, Holds s.pipe.ring q ∧ s.stored = s.delivered ++ q
  eof : ∀ k n, s.pc k = .readDone n [] → 0 < n → s.pipe.Empty ∧ s.pipe.writeopen = false

lemma fifo_init (data : ℕ → UInt8) (killed : ℕ → Bool) : Fifo (init data killed) where
  locked := locked_init data killed
  queue := ⟨[], Ring.holds_nil _ (Nat.two_pow_pos 32) rfl, rfl⟩
  eof := fun _ _ h => nomatch h

/-- The steps that leave the pipe and the records alone, and end no `piperead`. -/
lemma Fifo.of_same (h : Fifo s) (hl : Locked s') (hpipe : s'.pipe = s.pipe)
    (hstored : s'.stored = s.stored) (hdelivered : s'.delivered = s.delivered)
    (hpc : ∀ k n bytes, s'.pc k = .readDone n bytes → s.pc k = .readDone n bytes) : Fifo s' where
  locked := hl
  queue := by
    rw [hpipe, hstored, hdelivered]
    exact h.queue
  eof := fun k n hk => by
    rw [hpipe]
    exact h.eof k n (hpc k n [] hk)

/-- A process that takes the lock leaves no other in a critical section. -/
lemma Fifo.eof_of_lock (hl : Locked s') {k : ℕ} (hlock : s'.lock = some k)
    (h : ∀ n, s'.pc k = .readDone n [] → 0 < n → s'.pipe.Empty ∧ s'.pipe.writeopen = false) :
    ∀ j n, s'.pc j = .readDone n [] → 0 < n → s'.pipe.Empty ∧ s'.pipe.writeopen = false := by
  intro j n hj hn
  have hhold := hl j (by rw [hj]; trivial)
  rw [hlock, Option.some.injEq] at hhold
  subst hhold
  exact h n hj hn

/-- A `piperead` that copies nothing although it may has seen an empty pipe. -/
lemma empty_of_copy {b : Ring.Buffer UInt8} {n : ℤ} (hn : 0 < n)
    (hnil : (copyLoop n.toNat b).1 = []) : Ring.Empty b ∧ (copyLoop n.toNat b).2 = b := by
  obtain ⟨m, hm⟩ : ∃ m, n.toNat = m + 1 := ⟨n.toNat - 1, by omega⟩
  rw [hm, copyLoop] at hnil ⊢
  split_ifs at hnil ⊢ with hempty
  exact ⟨hempty, rfl⟩

/-- A step of a process keeps the queue. -/
lemma Fifo.takes {k : ℕ} (h : Fifo s) (hl : Locked s') (ht : Takes s k s') : Fifo s' := by
  obtain ⟨q, hq, hstored⟩ := h.queue
  have hgoto : ∀ {t : State} {pc : Pc}, t.pc = s.pc → (∀ n bytes, pc ≠ .readDone n bytes) →
      ∀ j n bytes, (t.goto k pc).pc j = .readDone n bytes → s.pc j = .readDone n bytes := by
    intro t pc ht hpc j n bytes hj
    by_cases hjk : j = k
    · subst hjk
      rw [goto_pc_self] at hj
      exact absurd hj (hpc n bytes)
    · rwa [goto_pc_of_ne t hjk, ht] at hj
  cases ht with
  | giveUp | goOn | wakeReaders | writeSleep | writeDone | wait | readKilled | readOn | readSleep
  | readDone | closed =>
    exact h.of_same hl rfl rfl rfl (hgoto rfl fun _ _ => by simp)
  | @store addr n i hpc hlock =>
    obtain ⟨b', c, hloop, -, hb', -⟩ := storeLoop_spec addr (m := (n - i).toNat) (i := i) hq
    have hring : (s.store k addr n i).pipe.ring = b' := by simp only [State.store, hloop]
    refine ⟨hl, ⟨q ++ (List.range' i c).map addr, hring ▸ hb', ?_⟩, Fifo.eof_of_lock hl rfl ?_⟩
    · simp only [State.store, hloop, Nat.add_sub_cancel_left, hstored, List.append_assoc, goto]
    · intro n' hn'
      have : (s.store k addr n i).pc k = if ((i + c : ℕ) : ℤ) < n then .writeFull addr n (i + c)
          else .writeDone n := by
        simp only [State.store, hloop, goto_pc_self]
      rw [this] at hn'
      split_ifs at hn'
  | @copy n hpc hlock hready =>
    obtain ⟨hbytes, hrest⟩ := copyLoop_spec (m := n.toNat) hq
    refine ⟨hl, ⟨q.drop n.toNat, hrest, ?_⟩, Fifo.eof_of_lock hl rfl fun n' hn' hpos => ?_⟩
    · simp only [goto, hbytes, List.append_assoc, List.take_append_drop, hstored]
    · rw [goto_pc_self, Pc.readDone.injEq] at hn'
      obtain ⟨rfl, hnil⟩ := hn'
      obtain ⟨hempty, hsame⟩ := empty_of_copy hpos hnil
      refine ⟨?_, hready.resolve_left (not_not.mpr hempty)⟩
      simp only [Pipe.Empty, hsame]
      exact hempty
  | @shut writable hpc hlock =>
    refine ⟨hl, ⟨q, ?_, hstored⟩, Fifo.eof_of_lock hl rfl fun n hn => ?_⟩
    · cases writable <;> exact hq
    · rw [State.shut, goto_pc_self] at hn
      exact absurd hn (by simp)

lemma Fifo.step (h : Fifo s) (hstep : s.step e = some s') : Fifo s' := by
  have hl := h.locked.step hstep
  rcases step_cases hstep with ⟨k, pc, -, hpc, rfl⟩ | ⟨k, -, ht⟩ | ⟨k, sigkill, rfl⟩
  · refine h.of_same hl rfl rfl rfl fun j n bytes hj => ?_
    by_cases hjk : j = k
    · subst hjk
      rw [goto_pc_self] at hj
      exact absurd (by rw [hj]; trivial) hpc
    · rwa [goto_pc_of_ne s hjk] at hj
  · exact h.takes hl ht
  · exact h.of_same hl rfl rfl rfl fun _ _ _ hj => hj

/-- In every state of a pipe: the counters are at most `PIPESIZE` apart; what was stored is what
was delivered, followed by what is in the buffer; and a `piperead` for more than nothing that
returns nothing has found the pipe empty and its write end closed. -/
theorem pipe_fifo {data : ℕ → UInt8} {killed : ℕ → Bool} {tr : List Event}
    (h : Machine.exec State.step (init data killed) tr = some s) :
    (s.pipe.ring.nwrite + (2 ^ 32 - s.pipe.ring.nread)) % 2 ^ 32 ≤ PIPESIZE ∧
      (∃ q : List UInt8, s.stored = s.delivered ++ q ∧
        q.length = (s.pipe.ring.nwrite + (2 ^ 32 - s.pipe.ring.nread)) % 2 ^ 32 ∧
        ∀ i a, q[i]? = some a → s.pipe.ring.data ((s.pipe.ring.nread + i) % PIPESIZE) = a) ∧
      ∀ k n, s.pc k = .readDone n [] → 0 < n →
        s.pipe.Empty ∧ s.pipe.writeopen = false := by
  have hF : Fifo s := Machine.exec_induction (motive := fun _ => Fifo) (fifo_init data killed)
    (fun _ _ _ _ _ ih hstep => ih.step hstep) h
  obtain ⟨q, hq, hstored⟩ := hF.queue
  have hlen := hq.sub_eq pipesize_lt
  exact ⟨hlen.trans_le hq.le, ⟨q, hstored, hlen.symm, hq.data⟩, hF.eof⟩

/-- A write of three bytes and a read of two. -/
def threeBytes : List Event :=
  [.pipewrite 1 (fun i => UInt8.ofNat i) 3, .run 1, .run 1, .piperead 2 2, .run 2]

theorem pipe_fifo_threeBytes :
    ∃ s, Machine.exec State.step (init (fun _ => 0) fun _ => false) threeBytes = some s ∧
      s.stored = [0, 1, 2] ∧ s.delivered = [0, 1] ∧ ∃ q, s.stored = s.delivered ++ q := by
  obtain ⟨s, hs, hrec⟩ : ∃ s, Machine.exec State.step (init (fun _ => 0) fun _ => false)
      threeBytes = some s ∧ (s.stored, s.delivered) = ([0, 1, 2], [0, 1]) :=
    Option.map_eq_some_iff.mp (by decide +kernel)
  rw [Prod.mk.injEq] at hrec
  obtain ⟨-, ⟨q, hq, -⟩, -⟩ := pipe_fifo hs
  exact ⟨s, hs, hrec.1, hrec.2, q, hq⟩

end Xv7.Pipe
