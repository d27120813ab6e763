import Xv7.Log.Crash

/-!
# Commits at quiescent points

`end_op` calls `commit` when the last operation ends, with `log.lock` released; `log_sync` calls
it with `log.lock` held and with the operation of `fssync`, and perhaps others, still open.
`quiescent_iff_quietSync` says that this second path is the only way to lose quiescence: along the
runs whose log writes are orderly, `commit` always runs alone and unlocked, and home blocks only
receive committed contents, exactly when no `log_sync` finds anything in the log.
-/

namespace Xv7.Log

open Machine

variable {P : Type*} {sb : Superblock}

/-- The process is inside `commit`. -/
def Proc.inCommit : Proc → Bool
  | .commit _ _ | .syncCommit => true
  | _ => false

/-- Whoever runs `commit` has no other operation beside it, and `log.lock` is not held. -/
structure Quiescent (s : State P) : Prop where
  /-- No operation is open but the one that runs `commit`. -/
  alone : s.mode = .up → ∀ p, (s.proc p).inCommit = true →
    s.outstanding = 0 ∨ ∀ q, q ≠ p → (s.proc q).inOp = false
  /-- Disk requests may sleep. -/
  unlocked : s.mode = .up → ∀ p, (s.proc p).inCommit = true → s.lock = none

/-- A home block that changes receives what the header on the disk commits. -/
def InstallsCommitted (sb : Superblock) (d d' : Disk) : Prop :=
  ∀ b, ¬ sb.InLog b → d' b ≠ d b → (b, d' b) ∈ logged sb (header sb d) d

/-- The step leads to a quiescent state and writes no uncommitted contents home. -/
def QuietStep [Fintype P] [DecidableEq P] (sb : Superblock) (s : State P) (e : Event P) : Prop :=
  ∀ s', step sb s e = some s' → Quiescent s' ∧ InstallsCommitted sb s.disk s'.disk

lemma InstallsCommitted.refl (d : Disk) : InstallsCommitted sb d d :=
  fun _ _ hne => absurd rfl hne

/-- A write to the log area is no home write. -/
lemma InstallsCommitted.of_inLog {d : Disk} {c : ℕ} {v : Block} (hc : sb.InLog c) :
    InstallsCommitted sb d (Function.update d c v) := by
  intro b hb hne
  have hbc : b ≠ c := fun heq => hb (heq ▸ hc)
  exact absurd (Function.update_of_ne hbc v d) hne

/-- `install_trans` copies what is committed. -/
lemma Installing.installsCommitted {s : Store} {t : ℕ} (h : Installing sb s t)
    (hc : s.Coherent) (hok : HeaderOk sb (header sb s.disk)) (ht : t < s.lh.length) :
    InstallsCommitted sb s.disk (s.installBlock sb t).disk := by
  intro b _ hne
  rw [Store.installBlock_disk] at hne ⊢
  obtain rfl : b = s.lh.getD t 0 := by
    by_contra hb
    exact hne (Function.update_of_ne hb _ _)
  rw [Function.update_self, h.view_logBlock hc (h.head ▸ hok) ht, ← h.head]
  refine List.mem_map.mpr ⟨(s.lh.getD t 0, t), ?_, rfl⟩
  rw [List.mk_mem_zipIdx_iff_getElem?, List.getD_eq_getElem _ _ ht, List.getElem?_eq_getElem ht]

variable [Fintype P]

/-- The invariant makes a state quiescent. -/
lemma Inv.quiescent {D : Disk} {h : History} {s : State P} (hI : Inv sb D h s) :
    Quiescent s := by
  refine ⟨fun hm p hp => ?_, fun hm p _ => (hI.up hm).1⟩
  cases hpc : s.proc p with
  | commit pc held =>
    exact Or.inl (hI.committing_of_commit hm hpc).2.zero
  | syncCommit => exact absurd hpc (hI.not_syncCommit hm).2
  | _ => simp [hpc, Proc.inCommit] at hp

variable [DecidableEq P]

/-- The event is a disk write. -/
def Event.isWrite : Event P → Bool
  | .writeLog _ | .writeHead _ | .install _ | .clearHead _ | .syncIo _ _ => true
  | .recoverInstall | .recoverClear => true
  | _ => false

/-- The other events leave the disk alone. -/
lemma step_disk {s s' : State P} {e : Event P} (hs : step sb s e = some s')
    (he : e.isWrite = false) : s'.disk = s.disk := by
  cases Transition.of_step hs with
  | writeLog | writeHead | install | clearHead | syncIo | recoverInstall | recoverClear =>
    simp [Event.isWrite] at he
  | logTest | logTestOpen =>
    unfold State.logTest
    split_ifs <;> rfl
  | endOp | endEphemeral =>
    unfold State.endOp
    split_ifs <;> rfl
  | logSync | syncWake =>
    unfold State.syncTest
    split_ifs <;> rfl
  | _ => rfl

/-- In the runs considered a home block only receives committed contents. -/
lemma Inv.installsCommitted {D : Disk} {h : History} {s s' : State P} {e : Event P}
    (hI : Inv sb D h s) (hs : step sb s e = some s') :
    InstallsCommitted sb s.disk s'.disk := by
  by_cases he : e.isWrite = false
  · rw [step_disk hs he]
    exact .refl s.disk
  cases Transition.of_step hs with
  | writeLog hm hp ht =>
    obtain ⟨hP, -, -⟩ := (hI.committing_of_commit hm hp).2.phase
    exact (Store.writeLogBlock_disk sb s.toStore _).symm ▸ .of_inLog (hP.ok.inLog ht)
  | install hm hp ht =>
    obtain ⟨-, hinst⟩ := (hI.committing_of_commit hm hp).2.phase
    exact hinst.installsCommitted hI.coherent hI.header_ok ht
  | recoverInstall hm ht =>
    have hmode := hI.mode
    rw [hm] at hmode
    exact hmode.2.2.installsCommitted hI.coherent hI.header_ok ht
  | writeHead => exact (Store.writeHead_disk sb s.toStore).symm ▸ .of_inLog (Or.inl rfl)
  | clearHead | recoverClear =>
    exact (Store.clearHead_disk sb s.toStore).symm ▸ .of_inLog (Or.inl rfl)
  | syncIo hm hp => exact absurd hp (hI.not_syncCommit hm).2
  | _ => exact absurd rfl he

/-- A `log_sync` that finds something in the log calls `commit` with `log.lock` held. -/
lemma quietSync_of_quietStep {s s' : State P} {e : Event P} (hs : step sb s e = some s')
    (h : QuietStep sb s e) : e.QuietSync s := by
  have hlocked : ∀ p : P, s.mode = .up → s.lh ≠ [] → ¬ Quiescent (s.syncTest p) := by
    intro p hm hlh hq
    rw [State.syncTest, if_neg hlh] at hq
    have := hq.unlocked hm p (by simp [State.setProc, Proc.inCommit])
    simp [State.setProc] at this
  obtain ⟨hq, -⟩ := h s' hs
  cases Transition.of_step hs with
  | logSyncSleep _ _ _ hcom => exact Or.inl hcom
  | logSync hm =>
    refine Or.inr ?_
    by_contra hne
    exact hlocked _ hm hne hq
  | syncWake hm =>
    show s.lh = []
    by_contra hne
    exact hlocked _ hm hne hq
  | _ => trivial

/-- Commits happen at quiescent points, with `log.lock` free, and write committed contents home,
in every step of a run, iff no `log_sync` of the run finds anything in the log.  The run is one of
any number of processes and operations, with log writes made inside an operation of the caller
that find room in the log area. -/
theorem quiescent_iff_quietSync {d : Disk} {tr : List (Event P)} {s : State P}
    (hd : HeaderOk sb (header sb d)) (hrun : exec (step sb) (boot d) tr = some s)
    (hop : Meets (step sb) (fun s e => e.InOperation sb s) (boot d) tr)
    (hroom : Meets (step sb) (fun s e => e.NoOverrun sb s) (boot d) tr) :
    Meets (step sb) (QuietStep sb) (boot d) tr ↔
      Meets (step sb) (fun s e => e.QuietSync s) (boot d) tr := by
  constructor
  · exact Meets.imp_of_exec (fun s e s' hs h => quietSync_of_quietStep hs h) hrun
  · intro hquiet
    refine exec_induction (motive := fun tr _ => Orderly sb d tr →
      Meets (step sb) (QuietStep sb) (boot d) tr) (fun _ => trivial) ?_ hrun ⟨hop, hroom, hquiet⟩
    intro tr s e s' hs ih _ hord
    obtain ⟨hord', hop, hroom, hquiet⟩ := hord.concat hs
    have hI := inv_exec hd hs hord'
    refine (meets_concat hs).mpr ⟨ih hord', fun t ht => ⟨?_, hI.installsCommitted ht⟩⟩
    exact (inv_step hI hop hroom hquiet ht).quiescent

/-! ## Runs with `fssync` -/

instance (s : State P) (e : Event P) : Decidable (e.QuietSync s) :=
  match e with
  | .logSync _ => inferInstanceAs (Decidable (s.committing = true ∨ s.lh = []))
  | .syncWake _ => inferInstanceAs (Decidable (s.lh = []))
  | .beginOp _ | .logTest .. | .logAppend .. | .endOp _ | .writeLog _ | .writeHead _
  | .install _ | .clearHead _ | .commitDone _ | .fssync _ | .syncIo .. | .bsync _ | .load _
  | .evict _ | .crash | .readHead | .recoverInstall | .recoverClear => isTrue trivial

/-- An operation that commits, and an `fssync` after it. -/
def quietTrace : List (Event (Fin 2)) :=
  List.flatten [[.readHead, .recoverClear, .beginOp 0], logWrites 0 [100],
    [.endOp 0, .writeLog 0, .writeHead 0, .install 0, .clearHead 0, .commitDone 0],
    [.fssync 1, .logSync 1, .bsync 1, .endOp 1]]

theorem quiescent_quietTrace :
    Meets (step mkfsSuperblock) (QuietStep mkfsSuperblock) (boot zeroDisk) quietTrace := by
  have hrun : (exec (step mkfsSuperblock) (boot zeroDisk) quietTrace).isSome = true := by
    decide +kernel
  obtain ⟨s, hs⟩ := Option.isSome_iff_exists.mp hrun
  exact (quiescent_iff_quietSync (by rw [header_zeroDisk]; exact HeaderOk.nil) hs
    (by decide +kernel) (by decide +kernel)).mpr (by decide +kernel)

/-- An `fssync` between the two log writes of another process's operation. -/
def syncTrace : List (Event (Fin 2)) :=
  List.flatten [[.readHead, .recoverClear, .beginOp 0], logWrites 0 [100],
    [.fssync 1, .logSync 1]]

/-- `log_sync` runs `commit` with `log.lock` held, while the operation of process 0 is open and
has a block in the log. -/
theorem not_quiescent_syncTrace :
    ∃ s, exec (step mkfsSuperblock) (boot zeroDisk) syncTrace = some s ∧
      Meets (step mkfsSuperblock) (fun s e => e.InOperation mkfsSuperblock s) (boot zeroDisk)
        syncTrace ∧
      Meets (step mkfsSuperblock) (fun s e => e.NoOverrun mkfsSuperblock s) (boot zeroDisk)
        syncTrace ∧
      s.mode = .up ∧ s.proc 1 = .syncCommit ∧ s.lock = some 1 ∧
      s.outstanding = 2 ∧ s.proc 0 = .op ∧ s.lh = [100] ∧ ¬ Quiescent s := by
  have hrun : ∃ s ∈ exec (step mkfsSuperblock) (boot zeroDisk) syncTrace, s.mode = .up ∧
      s.proc 1 = .syncCommit ∧ s.lock = some 1 ∧ s.outstanding = 2 ∧ s.proc 0 = .op ∧
      s.lh = [100] := by decide +kernel
  obtain ⟨s, hs, hm, h1, hl, hout, h0, hlh⟩ := hrun
  refine ⟨s, hs, by decide +kernel, by decide +kernel, hm, h1, hl, hout, h0, hlh, fun hq => ?_⟩
  have hfree := hq.unlocked hm 1 (by rw [h1]; rfl)
  rw [hl] at hfree
  exact absurd hfree (by simp)

end Xv7.Log
