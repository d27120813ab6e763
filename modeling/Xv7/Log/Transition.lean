import Xv7.Log.Basic

/-!
# What each event does

`Transition` lists the outcomes of `step`, one constructor for each, with the facts that the guards
establish.  Every proof about the steps of the machine starts from `Transition.of_step` and never
unfolds `step` again.
-/

namespace Xv7.Log

variable {P : Type*} [Fintype P] [DecidableEq P]

/-- The outcomes of the events. -/
inductive Transition (sb : Superblock) (s : State P) : Event P → State P → Prop
  | beginOp {p : P} (hm : s.mode = .up) (hl : s.lock = none) (hp : s.proc p = .idle)
      (hcom : s.committing = false)
      (hroom : s.lh.length + (s.outstanding + 1) * MAXOPBLOCKS ≤ LOGSIZE) :
      Transition sb s (.beginOp p) ({ s with outstanding := s.outstanding + 1 }.setProc p .op)
  | logTest {p : P} {b : ℕ} (hm : s.mode = .up) (hfree : s.Free b)
      (hp : s.proc p = .op ∨ s.proc p = .idle) (hout : 1 ≤ s.outstanding) :
      Transition sb s (.logTest p b) (s.logTest sb p b (s.proc p = .op) false)
  | logTestOpen {p : P} {b : ℕ} (hm : s.mode = .up) (hfree : s.Free b)
      (hp : s.proc p = .op ∨ s.proc p = .idle) (hout : s.outstanding = 0) (hl : s.lock = none)
      (hcom : s.committing = false)
      (hroom : s.lh.length + (s.outstanding + 1) * MAXOPBLOCKS ≤ LOGSIZE) :
      Transition sb s (.logTest p b) ({ s with outstanding := s.outstanding + 1 }.logTest sb p b
        (s.proc p = Proc.op) true)
  | logAppend {p : P} {b : ℕ} {v : Block} {nested eph : Bool} (hm : s.mode = .up)
      (hl : s.lock = none) (hp : s.proc p = .logging b nested eph) :
      Transition sb s (.logAppend p b v) (s.logAppend p b v nested eph)
  | endOp {p : P} (hm : s.mode = .up) (hl : s.lock = none) (hp : s.proc p = .op) :
      Transition sb s (.endOp p) (s.endOp p none)
  | endEphemeral {p : P} {b : ℕ} (hm : s.mode = .up) (hl : s.lock = none)
      (hp : s.proc p = .ephemeral b) :
      Transition sb s (.endOp p) (s.endOp p (some b))
  | writeLog {p : P} {t : ℕ} {held : Option ℕ} (hm : s.mode = .up)
      (hp : s.proc p = .commit (.writeLog t) held) (ht : t < s.lh.length)
      (hlog : s.Free (sb.logstart + t + 1)) (hhome : s.Free (s.lh.getD t 0)) :
      Transition sb s (.writeLog p) ({ s with toStore := s.writeLogBlock sb t }.setProc p
        (.commit (.writeLog (t + 1)) held))
  | writeHead {p : P} {t : ℕ} {held : Option ℕ} (hm : s.mode = .up)
      (hp : s.proc p = .commit (.writeLog t) held) (ht : s.lh.length ≤ t)
      (hfree : s.Free sb.logstart) :
      Transition sb s (.writeHead p) ({ s with toStore := s.toStore.writeHead sb }.setProc p
        (.commit (.install 0) held))
  | install {p : P} {t : ℕ} {held : Option ℕ} (hm : s.mode = .up)
      (hp : s.proc p = .commit (.install t) held) (ht : t < s.lh.length)
      (hlog : s.Free (sb.logstart + t + 1)) (hhome : s.Free (s.lh.getD t 0)) :
      Transition sb s (.install p) ({ s with toStore := s.installBlock sb t }.setProc p
        (.commit (.install (t + 1)) held))
  | clearHead {p : P} {t : ℕ} {held : Option ℕ} (hm : s.mode = .up)
      (hp : s.proc p = .commit (.install t) held) (ht : s.lh.length ≤ t)
      (hfree : s.Free sb.logstart) :
      Transition sb s (.clearHead p) ({ s with toStore := s.clearHead sb }.setProc p
        (.commit .done held))
  | commitDone {p : P} {held : Option ℕ} (hm : s.mode = .up) (hl : s.lock = none)
      (hp : s.proc p = .commit .done held) :
      Transition sb s (.commitDone p) ({ s with committing := false }.setProc p .idle)
  | fssync {p : P} (hm : s.mode = .up) (hl : s.lock = none) (hp : s.proc p = .idle)
      (hcom : s.committing = false)
      (hroom : s.lh.length + (s.outstanding + 1) * MAXOPBLOCKS ≤ LOGSIZE) :
      Transition sb s (.fssync p) ({ s with outstanding := s.outstanding + 1 }.setProc p .sync)
  | logSyncSleep {p : P} (hm : s.mode = .up) (hl : s.lock = none) (hp : s.proc p = .sync)
      (hcom : s.committing = true) : Transition sb s (.logSync p) (s.setProc p .syncSleep)
  | logSync {p : P} (hm : s.mode = .up) (hl : s.lock = none) (hp : s.proc p = .sync)
      (hcom : s.committing = false) : Transition sb s (.logSync p) (s.syncTest p)
  | syncWake {p : P} (hm : s.mode = .up) (hl : s.lock = none) (hp : s.proc p = .syncSleep) :
      Transition sb s (.syncWake p) (s.syncTest p)
  | syncIo {p : P} {issued : Bool} (hm : s.mode = .up) (hp : s.proc p = .syncCommit) :
      Transition sb s (.syncIo p issued) { s with
        disk := if issued then Function.update s.disk (sb.logstart + 1) (s.view (s.lh.getD 0 0))
          else s.disk
        mode := .panicked .schedLocks }
  | bsyncPanic {p : P} (hm : s.mode = .up) (hp : s.proc p = .synced) :
      Transition sb s (.bsync p) { s with mode := .panicked .bwrite }
  | bsync {p : P} (hm : s.mode = .up) (hp : s.proc p = .synced) :
      Transition sb s (.bsync p) (s.setProc p .op)
  | load {b : ℕ} (hm : s.mode = .up) :
      Transition sb s (.load b) { s with toStore := s.bread b }
  | evict {b : ℕ} {buf : Buf} (hm : s.mode = .up) (hb : s.cache.lookup b = some buf)
      (hclean : buf.dirty = false) :
      Transition sb s (.evict b) { s with cache := s.cache.erase b }
  | crash : Transition sb s .crash (boot s.disk)
  | readHead (hm : s.mode = .boot) :
      Transition sb s .readHead { s with toStore := s.readHead sb, mode := .recovering 0 }
  | recoverInstall {t : ℕ} (hm : s.mode = .recovering t) (ht : t < s.lh.length) :
      Transition sb s .recoverInstall
        { s with toStore := s.installBlock sb t, mode := .recovering (t + 1) }
  | recoverClear {t : ℕ} (hm : s.mode = .recovering t) (ht : s.lh.length ≤ t) :
      Transition sb s .recoverClear { s with toStore := s.clearHead sb, mode := .up }

omit [Fintype P] [DecidableEq P] in
lemma beginOp_eq_some {s s' : State P} (h : s.beginOp = some s') :
    s.committing = false ∧ s.lh.length + (s.outstanding + 1) * MAXOPBLOCKS ≤ LOGSIZE ∧
      s' = { s with outstanding := s.outstanding + 1 } := by
  unfold State.beginOp at h
  split_ifs at h with hcom hroom
  exact ⟨by simpa using hcom, by omega, (Option.some.inj h).symm⟩

variable {sb : Superblock} {s s' : State P} {e : Event P}

/-- Every step is one of the listed transitions. -/
lemma Transition.of_step (hs : step sb s e = some s') : Transition sb s e s' := by
  cases e with
  | beginOp p | fssync p =>
    simp only [step] at hs
    split_ifs at hs with hg
    obtain ⟨t, ht, rfl⟩ := Option.map_eq_some_iff.mp hs
    obtain ⟨hcom, hroom, rfl⟩ := beginOp_eq_some ht
    constructor
    exacts [hg.1, hg.2.1, hg.2.2, hcom, hroom]
  | logTest p b =>
    simp only [step] at hs
    split_ifs at hs with hg hout hl
    · obtain ⟨t, ht, rfl⟩ := Option.map_eq_some_iff.mp hs
      obtain ⟨hcom, hroom, rfl⟩ := beginOp_eq_some ht
      exact .logTestOpen hg.1 hg.2.1 hg.2.2 (by omega) hl hcom hroom
    · rw [Option.some.injEq] at hs
      exact hs ▸ .logTest hg.1 hg.2.1 hg.2.2 (by omega)
  | logAppend p b v =>
    simp only [step] at hs
    split_ifs at hs with hg
    split at hs
    case h_2 => simp at hs
    case h_1 b' nested eph hp =>
      split_ifs at hs with hb
      rw [Option.some.injEq] at hs
      exact hs ▸ .logAppend hg.1 hg.2 (hb ▸ hp)
  | endOp p =>
    simp only [step] at hs
    split_ifs at hs with hg
    split at hs
    case h_3 => simp at hs
    all_goals rw [Option.some.injEq] at hs
    case h_1 hp => exact hs ▸ .endOp hg.1 hg.2 hp
    case h_2 b hp => exact hs ▸ .endEphemeral hg.1 hg.2 hp
  | writeLog p | install p =>
    simp only [step] at hs
    split at hs
    case h_2 => simp at hs
    case h_1 t held hp =>
      split_ifs at hs with hg
      rw [Option.some.injEq] at hs
      subst hs
      constructor
      exacts [hg.1, hp, hg.2.1, hg.2.2.1, hg.2.2.2.1]
  | writeHead p | clearHead p =>
    simp only [step] at hs
    split at hs
    case h_2 => simp at hs
    case h_1 t held hp =>
      split_ifs at hs with hg
      rw [Option.some.injEq] at hs
      subst hs
      constructor
      exacts [hg.1, hp, hg.2.1, hg.2.2]
  | commitDone p =>
    simp only [step] at hs
    split at hs
    case h_2 => simp at hs
    case h_1 held hp =>
      split_ifs at hs with hg
      rw [Option.some.injEq] at hs
      exact hs ▸ .commitDone hg.1 hg.2 hp
  | logSync p =>
    simp only [step] at hs
    split_ifs at hs with hg hcom
    all_goals rw [Option.some.injEq] at hs
    · exact hs ▸ .logSyncSleep hg.1 hg.2.1 hg.2.2 hcom
    · exact hs ▸ .logSync hg.1 hg.2.1 hg.2.2 (by simpa using hcom)
  | syncWake p =>
    simp only [step] at hs
    split_ifs at hs with hg
    rw [Option.some.injEq] at hs
    exact hs ▸ .syncWake hg.1 hg.2.1 hg.2.2
  | syncIo p issued =>
    rw [step, Option.ite_none_right_eq_some, Option.some.injEq] at hs
    exact hs.2 ▸ .syncIo hs.1.1 hs.1.2
  | bsync p =>
    simp only [step] at hs
    split_ifs at hs with hg
    all_goals rw [Option.some.injEq] at hs
    · exact hs ▸ .bsyncPanic hg.1 hg.2
    · exact hs ▸ .bsync hg.1 hg.2
  | load b =>
    rw [step, Option.ite_none_right_eq_some, Option.some.injEq] at hs
    exact hs.2 ▸ .load hs.1
  | evict b =>
    simp only [step] at hs
    split at hs
    case h_2 => simp at hs
    case h_1 buf hb =>
      split_ifs at hs with hg
      rw [Option.some.injEq] at hs
      exact hs ▸ .evict hg.1 hb hg.2.1
  | crash =>
    rw [step, Option.some.injEq] at hs
    exact hs ▸ .crash
  | readHead =>
    rw [step, Option.ite_none_right_eq_some, Option.some.injEq] at hs
    exact hs.2 ▸ .readHead hs.1
  | recoverInstall =>
    simp only [step] at hs
    split at hs
    case h_2 => simp at hs
    case h_1 t hm =>
      split_ifs at hs with hg
      rw [Option.some.injEq] at hs
      exact hs ▸ .recoverInstall hm hg.1
  | recoverClear =>
    simp only [step] at hs
    split at hs
    case h_2 => simp at hs
    case h_1 t hm =>
      split_ifs at hs with hg
      rw [Option.some.injEq] at hs
      exact hs ▸ .recoverClear hm hg

end Xv7.Log
