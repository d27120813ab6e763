import Xv7.Log.Invariant
import Xv7.Log.Transition

/-!
# Every step keeps the invariant

One lemma for each kind of event, and `inv_step` that collects them.
-/

namespace Xv7.Log

open Function (update update_of_ne update_self)
open Updates

variable {P : Type*} [Fintype P] {sb : Superblock} {D : Disk} {h : History}
  {s s' : State P} {p : P}

/-- In a running machine the mode part of the invariant is about the open group. -/
lemma Inv.up (hI : Inv sb D h s) (hm : s.mode = .up) :
    s.lock = none ∧ (Running sb h.pending s ∨ ∃ p pc, Committing sb h.pending s p pc) := by
  have := hI.mode
  rwa [hm] at this

/-- While a process is inside an operation, nobody is in `commit`. -/
lemma Inv.running_of_inOp (hI : Inv sb D h s) (hm : s.mode = .up)
    (hp : (s.proc p).inOp = true) : Running sb h.pending s := by
  rcases (hI.up hm).2 with hR | ⟨q, pc, hC⟩
  · exact hR
  · exfalso
    by_cases hq : p = q
    · rw [hq, hC.self] at hp
      simp [Proc.inOp] at hp
    · rw [hC.others p hq] at hp
      simp [Proc.inOp] at hp

/-- While a process is in `commit`, it is the only one that is doing anything. -/
lemma Inv.committing_of_commit (hI : Inv sb D h s) (hm : s.mode = .up) {pc : CommitPc}
    {held : Option ℕ} (hp : s.proc p = .commit pc held) :
    held = none ∧ Committing sb h.pending s p pc := by
  rcases (hI.up hm).2 with hR | ⟨q, pc', hC⟩
  · have := hR.procs p
    rw [hp] at this
    exact this.elim
  · by_cases hq : p = q
    · subst hq
      have := hC.self
      rw [hp, Proc.commit.injEq] at this
      obtain ⟨rfl, rfl⟩ := this
      exact ⟨rfl, hC⟩
    · have := hC.others p hq
      simp [hp] at this

/-- The invariant of a running machine, from its parts. -/
lemma Inv.of_running (hc : s.Coherent) (hok : HeaderOk sb (header sb s.disk))
    (hd : Home sb (durable sb s.disk) (h.apply D)) (hm : s.mode = .up) (hl : s.lock = none)
    (hR : Running sb h.pending s) : Inv sb D h s :=
  ⟨hc, hok, hd, by rw [hm]; exact ⟨hl, Or.inl hR⟩⟩

/-- The invariant of a committing machine, from its parts. -/
lemma Inv.of_committing (p : P) (pc : CommitPc) (hc : s.Coherent)
    (hok : HeaderOk sb (header sb s.disk)) (hd : Home sb (durable sb s.disk) (h.apply D))
    (hm : s.mode = .up) (hl : s.lock = none) (hC : Committing sb h.pending s p pc) :
    Inv sb D h s :=
  ⟨hc, hok, hd, by rw [hm]; exact ⟨hl, Or.inr ⟨p, pc, hC⟩⟩⟩

/-- A panic keeps the invariant: only the disk matters from then on. -/
lemma Inv.panicked (hI : Inv sb D h s) {why : Panic} (hs : s'.toStore = s.toStore)
    (hm : s'.mode = .panicked why) : Inv sb D h s' := by
  refine ⟨hs ▸ hI.coherent, hs ▸ hI.header_ok, hs ▸ hI.survives, ?_⟩
  rw [hm]
  trivial

/-! ## Operations -/

section Operations

variable [DecidableEq P]

/-- `begin_op`, of an operation or in `fssync`. -/
lemma inv_begin (hI : Inv sb D h s) (hm : s.mode = .up) (hl : s.lock = none)
    (hp : s.proc p = .idle) (hcom : s.committing = false) {c : Proc} (hc : c.Orderly sb)
    (hin : c.inOp = true) :
    Inv sb D h ({ s with outstanding := s.outstanding + 1 }.setProc p c) := by
  have hR : Running sb h.pending s := by
    rcases (hI.up hm).2 with hR | ⟨q, pc, hC⟩
    · exact hR
    · simp [hC.busy] at hcom
  exact Inv.of_running hI.coherent hI.header_ok hI.survives hm hl
    (hR.move hc (by rw [hp, hin]; rfl))

/-- The operation of a process that has one is counted. -/
lemma Inv.one_le_outstanding (hI : Inv sb D h s) (hm : s.mode = .up)
    (hp : (s.proc p).inOp = true) : 1 ≤ s.outstanding := by
  have hcount := countOp_update s.proc p .idle
  rw [hp, ← (hI.running_of_inOp hm hp).count] at hcount
  simp only [Proc.inOp, Bool.toNat_false, Bool.toNat_true] at hcount
  omega

/-- The unlocked tests of `log_write`. -/
lemma inv_logTest {b : ℕ} (hI : Inv sb D h s) (hm : s.mode = .up) (hp : s.proc p = .op)
    (hb : b < 2 ^ 32 ∧ ¬ sb.InLog b) :
    Inv sb D h (s.logTest sb p b (s.proc p = .op) false) := by
  have hR := hI.running_of_inOp hm (p := p) (by simp [hp, Proc.inOp])
  unfold State.logTest
  split_ifs
  · exact hI.panicked rfl rfl
  · have hmove := hR.move (p := p) (c := .logging b true false) (n := s.outstanding)
      ⟨rfl, rfl, hb⟩ (by simp [hp, Proc.inOp])
    rw [hp]
    exact Inv.of_running hI.coherent hI.header_ok hI.survives hm (hI.up hm).1 hmove

/-- A process in `log_write` is inside its own operation. -/
lemma Inv.running_of_logging (hI : Inv sb D h s) (hm : s.mode = .up) {b : ℕ}
    {nested eph : Bool} (hp : s.proc p = .logging b nested eph) :
    Running sb h.pending s ∧ nested = true ∧ eph = false ∧ b < 2 ^ 32 ∧ ¬ sb.InLog b := by
  rcases (hI.up hm).2 with hR | ⟨q, pc, hC⟩
  · have := hR.procs p
    rw [hp] at this
    exact ⟨hR, this⟩
  · exfalso
    by_cases hq : p = q
    · have := hC.self
      rw [← hq, hp] at this
      simp at this
    · have := hC.others p hq
      rw [hp] at this
      simp at this

/-- The locked part of `log_write`. -/
lemma inv_logAppend {b : ℕ} {v : Block} {nested eph : Bool} (hI : Inv sb D h s)
    (hroom : Event.NoOverrun sb s (.logAppend p b v)) (hm : s.mode = .up) (hl : s.lock = none)
    (hp : s.proc p = .logging b nested eph) :
    Inv sb D { h with pending := h.pending ++ [(b, v)] } (s.logAppend p b v nested eph) := by
  obtain ⟨hR, rfl, rfl, hb⟩ := hI.running_of_logging hm hp
  have hR' : Running sb (h.pending ++ [(b, v)]) { s with toStore := s.record b v } :=
    ⟨hR.idle, hR.procs, hR.count, hR.pending.record hI.coherent hb hroom⟩
  exact Inv.of_running (Coherent.record hI.coherent b v) hI.header_ok hI.survives hm hl
    (hR'.move (c := .op) trivial (by simp [hp, Proc.inOp]))

/-- `end_op` up to `commit`. -/
lemma inv_endOp (hI : Inv sb D h s) (hm : s.mode = .up) (hl : s.lock = none)
    (hp : s.proc p = .op) : Inv sb D h (s.endOp p none) := by
  have hin : (s.proc p).inOp = true := by simp [hp, Proc.inOp]
  have hR := hI.running_of_inOp hm hin
  unfold State.endOp
  rw [if_neg (by simp [hR.idle])]
  split_ifs with hlast hempty
  · -- the last operation ends with an empty log
    have hpend : h.pending = [] := by
      by_contra hne
      obtain ⟨u, hu⟩ := List.exists_mem_of_ne_nil _ hne
      have := (hR.pending.keys u.1).mpr (List.mem_map_of_mem hu)
      simp [hempty] at this
    refine Inv.of_committing p .done hI.coherent hI.header_ok hI.survives hm hl
      ⟨rfl, rfl, by simp [State.setProc], fun q hq => ?_, hpend, hempty,
        hR.pending.empty, fun b hb => ?_⟩
    · simpa [State.setProc, update_of_ne hq] using hR.others_idle (by omega) hin hq
    · have := (hR.pending.dirty b).mp hb
      simp [hempty] at this
  · refine Inv.of_committing p (.writeLog 0) hI.coherent hI.header_ok hI.survives hm
      hl ⟨rfl, rfl, by simp [State.setProc], fun q hq => ?_, hR.pending, Nat.zero_le _,
        fun i hi => absurd hi (by omega)⟩
    simpa [State.setProc, update_of_ne hq] using hR.others_idle (by omega) hin hq
  · -- other operations are still open
    exact Inv.of_running hI.coherent hI.header_ok hI.survives hm hl
      (hR.move (c := .idle) trivial (by simp [hp, Proc.inOp]; omega))

/-! ## The disk writes of `commit` -/

omit [Fintype P] in
/-- Moving the committing process. -/
lemma Committing.move {us : List (ℕ × Block)} {pc : CommitPc} (hC : Committing sb us s p pc)
    {us' : List (ℕ × Block)} {pc' : CommitPc} {st : Store} (hphase : CommitPhase sb us' st pc') :
    Committing sb us' ({ s with toStore := st }.setProc p (.commit pc' none)) p pc' where
  busy := hC.busy
  zero := hC.zero
  self := by simp [State.setProc]
  others := fun q hq => by simpa [State.setProc, update_of_ne hq] using hC.others q hq
  phase := hphase

/-- Writing a log block leaves everything outside the log area alone. -/
lemma pending_writeLogBlock {us : List (ℕ × Block)} {st : Store} {t : ℕ}
    (hP : Pending sb us st) (ht : t < st.lh.length) :
    Pending sb us (st.writeLogBlock sb t) := by
  have hlog := hP.ok.inLog ht
  have hne : ∀ b ∈ st.lh, b ≠ sb.logstart + t + 1 := fun b hb heq =>
    (hP.ok.home b hb).2 (heq ▸ hlog)
  refine ⟨hP.keys, hP.ok, fun b => ?_, fun b hb => ?_, ?_⟩
  · rw [Store.writeLogBlock, Store.bwrite_dirty, Store.bread_dirty, Store.bread_dirty, hP.dirty]
    exact ⟨fun h => h.2, fun h => ⟨hne b h, h⟩⟩
  · rw [Store.writeLogBlock_disk, Store.writeLogBlock, Store.bwrite_view, if_neg (hne b hb),
      Store.bread_view, Store.bread_view, hP.data b hb]
    exact applyUpdates_congr (Or.inr (update_of_ne (hne b hb) _ _).symm)
  · rw [Store.writeLogBlock_disk, header_update_logBlock]
    exact hP.empty

/-- `commit` writes a log block. -/
lemma inv_writeLog {t : ℕ} {held : Option ℕ} (hI : Inv sb D h s) (hm : s.mode = .up)
    (hp : s.proc p = .commit (.writeLog t) held) (ht : t < s.lh.length) :
    Inv sb D h ({ s with toStore := s.writeLogBlock sb t }.setProc p
      (.commit (.writeLog (t + 1)) held)) := by
  obtain ⟨rfl, hC⟩ := hI.committing_of_commit hm hp
  obtain ⟨hP, -, hdata⟩ := hC.phase
  have hP' := pending_writeLogBlock hP ht
  have hlog := hP.ok.inLog ht
  have hhome : Home sb (s.writeLogBlock sb t).disk s.disk := by
    intro b hb
    have hne : b ≠ sb.logstart + t + 1 := fun heq => hb (heq ▸ hlog)
    rw [Store.writeLogBlock_disk, update_of_ne hne]
  have hsurv : Home sb (durable sb (s.writeLogBlock sb t).disk) (h.apply D) := by
    intro b hb
    rw [durable_of_header_nil hP'.empty, hhome b hb]
    exact hI.disk_home hP.empty b hb
  refine Inv.of_committing p (.writeLog (t + 1)) (((hI.coherent.bread _).bread _).bwrite _ _)
    ?_ hsurv hm (hI.up hm).1 (hC.move ⟨hP', ht, fun i hi => ?_⟩)
  · rw [State.setProc, hP'.empty]
    exact HeaderOk.nil
  · have hview : (s.writeLogBlock sb t).view (s.lh.getD i 0) = s.view (s.lh.getD i 0) := by
      have hi' : i < s.lh.length := by omega
      have hne : s.lh.getD i 0 ≠ sb.logstart + t + 1 := fun heq =>
        hP.ok.notInLog_getD hi' (heq ▸ hlog)
      rw [Store.writeLogBlock, Store.bwrite_view, if_neg hne, Store.bread_view,
        Store.bread_view]
    show (s.writeLogBlock sb t).disk _ = (s.writeLogBlock sb t).view (s.lh.getD i 0)
    rw [hview, Store.writeLogBlock_disk]
    rcases Nat.lt_succ_iff_lt_or_eq.mp hi with hlt | rfl
    · rw [update_of_ne (by omega)]
      exact hdata i hlt
    · rw [update_self]

/-- Closing the group: once the log blocks hold its contents, writing the header makes recovery
produce it. -/
lemma durable_writeHead {us : List (ℕ × Block)} {st : Store} (hP : Pending sb us st)
    (hc : st.Coherent)
    (hdata : ∀ i, i < st.lh.length → st.disk (sb.logstart + i + 1) = st.view (st.lh.getD i 0)) :
    Home sb (durable sb (st.writeHead sb).disk) (applyUpdates us st.disk) := by
  intro b hb
  have hne : b ≠ sb.logstart := fun heq => hb (Or.inl heq)
  have hhead : header sb (st.writeHead sb).disk = st.lh := by
    rw [Store.writeHead_disk, header_update_encodeHead hP.ok]
  rw [durable, hhead, Store.writeHead_disk, logged_update_header]
  by_cases hbl : b ∈ st.lh
  · refine applyUpdates_of_forall (by rwa [logged_keys]) fun u hu hub => ?_
    obtain ⟨⟨c, i⟩, hci, rfl⟩ := List.mem_map.mp hu
    have hi : i < st.lh.length := by simpa using List.snd_lt_of_mem_zipIdx hci
    have hget : st.lh.getD i 0 = b := by
      rw [List.mk_mem_zipIdx_iff_getElem?] at hci
      rw [List.getD_eq_getElem?_getD, hci]
      exact hub
    show st.disk (sb.logstart + i + 1) = _
    rw [hdata i hi, hget]
    exact hP.view_eq hc b
  · rw [applyUpdates_of_notMem (by rwa [logged_keys]), update_of_ne hne,
      applyUpdates_of_notMem fun hk => hbl ((hP.keys b).mpr hk)]

/-- `commit` writes the header. -/
lemma inv_writeHead {t : ℕ} {held : Option ℕ} (hI : Inv sb D h s) (hm : s.mode = .up)
    (hp : s.proc p = .commit (.writeLog t) held) (ht : s.lh.length ≤ t) :
    Inv sb D ⟨[], h.committed ++ [h.pending]⟩
      ({ s with toStore := s.toStore.writeHead sb }.setProc p (.commit (.install 0) held)) := by
  obtain ⟨rfl, hC⟩ := hI.committing_of_commit hm hp
  obtain ⟨hP, -, hdata⟩ := hC.phase
  have hhead : header sb (s.toStore.writeHead sb).disk = s.lh := by
    rw [Store.writeHead_disk, header_update_encodeHead hP.ok]
  have hsurv : Home sb (durable sb (s.toStore.writeHead sb).disk)
      (History.apply ⟨[], h.committed ++ [h.pending]⟩ D) := by
    intro b hb
    rw [durable_writeHead hP hI.coherent (fun i hi => hdata i (by omega)) b hb, History.apply,
      List.flatten_append, applyUpdates_append, List.flatten_singleton]
    exact applyUpdates_congr (Or.inr (hI.disk_home hP.empty b hb))
  have hphase : Installing sb (s.toStore.writeHead sb) 0 := by
    refine ⟨Nat.zero_le _, hhead.symm, fun b hb => ?_, _, fun b _ => rfl⟩
    rw [Store.writeHead, Store.bwrite_dirty, Store.bread_dirty] at hb
    exact (hP.dirty b).mp hb.2
  refine Inv.of_committing p (.install 0) ((hI.coherent.bread _).bwrite _ _) ?_ hsurv hm
    (hI.up hm).1 (hC.move ⟨rfl, hphase⟩)
  rw [State.setProc, hhead]
  exact hP.ok

/-- `commit` writes a home block. -/
lemma inv_install {t : ℕ} {held : Option ℕ} (hI : Inv sb D h s) (hm : s.mode = .up)
    (hp : s.proc p = .commit (.install t) held) (ht : t < s.lh.length) :
    Inv sb D h ({ s with toStore := s.installBlock sb t }.setProc p
      (.commit (.install (t + 1)) held)) := by
  obtain ⟨rfl, hC⟩ := hI.committing_of_commit hm hp
  obtain ⟨hus, hinst⟩ := hC.phase
  have hok : HeaderOk sb s.lh := hinst.head ▸ hI.header_ok
  have hinst' := hinst.step hI.coherent hok ht
  refine Inv.of_committing p (.install (t + 1)) (coherent_installBlock hI.coherent t) ?_
    (fun b hb => (hinst.durable_step hok ht b hb).trans (hI.survives b hb)) hm (hI.up hm).1
    (hC.move ⟨hus, hinst'⟩)
  rw [State.setProc, ← hinst'.head]
  exact hok

/-- `commit` erases the transaction. -/
lemma inv_clearHead {t : ℕ} {held : Option ℕ} (hI : Inv sb D h s) (hm : s.mode = .up)
    (hp : s.proc p = .commit (.install t) held) (ht : s.lh.length ≤ t) :
    Inv sb D h ({ s with toStore := s.clearHead sb }.setProc p (.commit .done held)) := by
  obtain ⟨rfl, hC⟩ := hI.committing_of_commit hm hp
  obtain ⟨hus, hinst⟩ := hC.phase
  have hhead : header sb (s.clearHead sb).disk = [] := header_clearHead s.toStore
  refine Inv.of_committing p .done (coherent_clearHead hI.coherent) ?_ (fun b hb => ?_) hm
    (hI.up hm).1 (hC.move ⟨hus, rfl, hhead, not_dirty_clearHead (hinst.not_dirty ht)⟩)
  · rw [State.setProc, hhead]
    exact HeaderOk.nil
  · rw [State.setProc, durable_of_header_nil hhead, home_clearHead _ b hb,
      hinst.disk_eq_durable ht b hb]
    exact hI.survives b hb

/-- `end_op` clears `log.committing`. -/
lemma inv_commitDone {held : Option ℕ} (hI : Inv sb D h s) (hm : s.mode = .up)
    (hl : s.lock = none) (hp : s.proc p = .commit .done held) :
    Inv sb D h ({ s with committing := false }.setProc p .idle) := by
  obtain ⟨rfl, hC⟩ := hI.committing_of_commit hm hp
  obtain ⟨hus, hlh, hhead, hclean⟩ := hC.phase
  have hidle : ∀ q, update s.proc p .idle q = .idle := by
    intro q
    by_cases hq : q = p
    · subst hq
      simp
    · rw [update_of_ne hq]
      exact hC.others q hq
  have hpend : Pending sb h.pending s.toStore := by
    refine ⟨fun b => by simp [hlh, hus], hlh ▸ HeaderOk.nil, fun b => ?_, fun b hb => ?_, hhead⟩
    · simpa [hlh] using hclean b
    · simp [hlh] at hb
  refine Inv.of_running hI.coherent hI.header_ok hI.survives hm hl
    ⟨rfl, fun q => ?_, ?_, hpend⟩
  · show Proc.Orderly sb (update s.proc p .idle q)
    rw [hidle q]
    trivial
  · show s.outstanding = countOp (update s.proc p .idle)
    rw [hC.zero, countOp]
    simp [hidle, Proc.inOp]

end Operations

/-! ## The buffer cache -/

/-- A change of the cache that keeps the contents and the dirty buffers keeps every phase. -/
structure SameBuffers (st st' : Store) : Prop where
  /-- The disk is unchanged. -/
  disk : st'.disk = st.disk
  /-- The in-memory header is unchanged. -/
  lh : st'.lh = st.lh
  /-- The contents are unchanged. -/
  view : ∀ b, st'.view b = st.view b
  /-- The same buffers are dirty. -/
  dirty : ∀ b, st'.Dirty b ↔ st.Dirty b

omit [Fintype P] in
lemma SameBuffers.pending {us : List (ℕ × Block)} {st st' : Store} (hsame : SameBuffers st st')
    (hP : Pending sb us st) : Pending sb us st' := by
  refine ⟨fun b => ?_, ?_, fun b => ?_, fun b hb => ?_, ?_⟩
  · rw [hsame.lh]
    exact hP.keys b
  · rw [hsame.lh]
    exact hP.ok
  · rw [hsame.dirty, hsame.lh]
    exact hP.dirty b
  · rw [hsame.lh] at hb
    rw [hsame.view, hsame.disk]
    exact hP.data b hb
  · rw [hsame.disk]
    exact hP.empty

omit [Fintype P] in
lemma SameBuffers.phase {us : List (ℕ × Block)} {st st' : Store} (hsame : SameBuffers st st')
    {pc : CommitPc} (hph : CommitPhase sb us st pc) : CommitPhase sb us st' pc := by
  cases pc with
  | writeLog t =>
    obtain ⟨hP, ht, hdata⟩ := hph
    refine ⟨hsame.pending hP, by rwa [hsame.lh], fun i hi => ?_⟩
    rw [hsame.disk, hsame.view, hsame.lh]
    exact hdata i hi
  | install t =>
    obtain ⟨hus, hinst⟩ := hph
    refine ⟨hus, ?_, ?_, fun b hb => ?_, ?_⟩
    · rw [hsame.lh]
      exact hinst.le
    · rw [hsame.lh, hsame.disk]
      exact hinst.head
    · rw [hsame.lh]
      exact hinst.dirty b ((hsame.dirty b).mp hb)
    · rw [hsame.lh, hsame.disk]
      exact hinst.disk
  | done =>
    obtain ⟨hus, hlh, hhead, hclean⟩ := hph
    refine ⟨hus, by rw [hsame.lh, hlh], by rw [hsame.disk, hhead], fun b hb => ?_⟩
    exact hclean b ((hsame.dirty b).mp hb)

/-- A change of the cache in a running machine. -/
lemma Inv.of_sameBuffers (hI : Inv sb D h s) (hm : s.mode = .up) {st : Store}
    (hsame : SameBuffers s.toStore st) (hc : st.Coherent) :
    Inv sb D h { s with toStore := st } := by
  have hok : HeaderOk sb (header sb st.disk) := hsame.disk ▸ hI.header_ok
  have hsurv : Home sb (durable sb st.disk) (h.apply D) := hsame.disk ▸ hI.survives
  rcases (hI.up hm).2 with hR | ⟨q, pc, hC⟩
  · exact Inv.of_running hc hok hsurv hm (hI.up hm).1
      ⟨hR.idle, hR.procs, hR.count, hsame.pending hR.pending⟩
  · exact Inv.of_committing q pc hc hok hsurv hm (hI.up hm).1
      ⟨hC.busy, hC.zero, hC.self, hC.others, hsame.phase hC.phase⟩

/-- Somebody reads a block. -/
lemma inv_load {b : ℕ} (hI : Inv sb D h s) (hm : s.mode = .up) :
    Inv sb D h { s with toStore := s.bread b } :=
  hI.of_sameBuffers hm ⟨rfl, rfl, Store.bread_view _ b, Store.bread_dirty _ b⟩
    (hI.coherent.bread b)

/-- `bget` recycles a clean buffer. -/
lemma inv_evict {b : ℕ} {buf : Buf} (hI : Inv sb D h s) (hm : s.mode = .up)
    (hbuf : s.cache.lookup b = some buf) (hclean : buf.dirty = false) :
    Inv sb D h { s with cache := s.cache.erase b } := by
  have hlook : ∀ c, (s.cache.erase b).lookup c = if c = b then none else s.cache.lookup c := by
    intro c
    by_cases hc : c = b
    · subst hc
      simp
    · simp [hc]
  refine hI.of_sameBuffers hm ⟨rfl, rfl, fun c => ?_, fun c => ?_⟩ fun c buf' hc hd => ?_
  · rw [Store.view, Store.view, hlook]
    by_cases hc : c = b
    · subst hc
      rw [if_pos rfl, hbuf]
      exact (hI.coherent c buf hbuf hclean).symm
    · rw [if_neg hc]
  · rw [Store.Dirty, Store.Dirty, hlook]
    by_cases hc : c = b
    · subst hc
      simp [hbuf, hclean]
    · rw [if_neg hc]
  · rw [hlook] at hc
    split_ifs at hc with hcb
    exact hI.coherent c buf' hc hd

/-! ## Crashes and recovery -/

/-- A crash loses the open group and nothing else. -/
lemma inv_crash (hI : Inv sb D h s) : Inv sb D { h with pending := [] } (boot s.disk : State P) :=
  ⟨coherent_init _, hI.header_ok, hI.survives, rfl, ⟨rfl, rfl, fun _ => rfl, rfl⟩,
    not_dirty_init _⟩

/-- `recover_from_log` reads the header. -/
lemma inv_readHead (hI : Inv sb D h s) (hm : s.mode = .boot) :
    Inv sb D h { s with toStore := s.readHead sb, mode := .recovering 0 } := by
  have hmode := hI.mode
  rw [hm] at hmode
  obtain ⟨hus, hf, hclean⟩ := hmode
  exact ⟨hI.coherent.bread _, hI.header_ok, hI.survives, hus,
    ⟨hf.idle, hf.zero, hf.procs, hf.unlocked⟩, installing_readHead hI.coherent hclean⟩

/-- `recover_from_log` writes a home block. -/
lemma inv_recoverInstall {t : ℕ} (hI : Inv sb D h s) (hm : s.mode = .recovering t)
    (ht : t < s.lh.length) :
    Inv sb D h { s with toStore := s.installBlock sb t, mode := .recovering (t + 1) } := by
  have hmode := hI.mode
  rw [hm] at hmode
  obtain ⟨hus, hf, hinst⟩ := hmode
  have hok : HeaderOk sb s.lh := hinst.head ▸ hI.header_ok
  have hinst' := hinst.step hI.coherent hok ht
  refine ⟨coherent_installBlock hI.coherent t, ?_, fun b hb =>
    (hinst.durable_step hok ht b hb).trans (hI.survives b hb), hus,
    ⟨hf.idle, hf.zero, hf.procs, hf.unlocked⟩, hinst'⟩
  show HeaderOk sb (header sb (s.installBlock sb t).disk)
  rw [← hinst'.head]
  exact hok

/-- `recover_from_log` erases the transaction, and the machine is up. -/
lemma inv_recoverClear {t : ℕ} (hI : Inv sb D h s) (hm : s.mode = .recovering t)
    (ht : s.lh.length ≤ t) :
    Inv sb D h { s with toStore := s.clearHead sb, mode := .up } := by
  have hmode := hI.mode
  rw [hm] at hmode
  obtain ⟨hus, hf, hinst⟩ := hmode
  have hhead : header sb (s.clearHead sb).disk = [] := header_clearHead s.toStore
  have hclean : ∀ b, ¬ (s.clearHead sb).Dirty b := not_dirty_clearHead (hinst.not_dirty ht)
  have hpend : Pending sb h.pending (s.clearHead sb) := by
    have hlh : (s.clearHead sb).lh = [] := rfl
    refine ⟨fun b => by simp [hlh, hus], HeaderOk.nil, fun b => ?_, fun b hb => ?_, hhead⟩
    · simpa [hlh] using hclean b
    · simp [hlh] at hb
  refine Inv.of_running (coherent_clearHead hI.coherent) ?_ (fun b hb => ?_) rfl hf.unlocked
    ⟨hf.idle, fun q => ?_, ?_, hpend⟩
  · show HeaderOk sb (header sb (s.clearHead sb).disk)
    rw [hhead]
    exact HeaderOk.nil
  · show durable sb (s.clearHead sb).disk b = _
    rw [durable_of_header_nil hhead, home_clearHead _ b hb, hinst.disk_eq_durable ht b hb]
    exact hI.survives b hb
  · rw [hf.procs q]
    trivial
  · show s.outstanding = countOp s.proc
    simp [hf.zero, countOp, hf.procs, Proc.inOp]

/-! ## `fssync` -/

/-- A process in `fssync` is not asleep and not in `commit`. -/
lemma Inv.not_syncCommit (hI : Inv sb D h s) (hm : s.mode = .up) :
    s.proc p ≠ .syncSleep ∧ s.proc p ≠ .syncCommit := by
  rcases (hI.up hm).2 with hR | ⟨q, pc, hC⟩
  · have := hR.procs p
    constructor <;> intro hp <;> rw [hp] at this <;> exact this.elim
  · by_cases hq : p = q
    · simp [hq, hC.self]
    · simp [hC.others p hq]

variable [DecidableEq P]

/-- `log_sync` with an empty log. -/
lemma inv_syncTest (hI : Inv sb D h s) (hm : s.mode = .up) (hl : s.lock = none)
    (hp : s.proc p = .sync) (hempty : s.lh = []) : Inv sb D h (s.syncTest p) := by
  have hR := hI.running_of_inOp hm (p := p) (by simp [hp, Proc.inOp])
  rw [State.syncTest, if_pos hempty]
  exact Inv.of_running hI.coherent hI.header_ok hI.survives hm hl
    (hR.move (c := .synced) (n := s.outstanding) trivial (by simp [hp, Proc.inOp]))

/-- `bsync` with nothing to write. -/
lemma inv_bsync (hI : Inv sb D h s) (hm : s.mode = .up) (hp : s.proc p = .synced) :
    Inv sb D h (s.setProc p .op) := by
  have hR := hI.running_of_inOp hm (p := p) (by simp [hp, Proc.inOp])
  exact Inv.of_running hI.coherent hI.header_ok hI.survives hm (hI.up hm).1
    (hR.move (c := .op) (n := s.outstanding) trivial (by simp [hp, Proc.inOp]))

/-! ## All events -/

/-- Every step of the runs considered keeps the invariant. -/
lemma inv_step {e : Event P} (hI : Inv sb D h s) (hop : e.InOperation sb s)
    (hroom : e.NoOverrun sb s) (hq : e.QuietSync s) (hs : step sb s e = some s') :
    Inv sb D (h.next e) s' := by
  cases Transition.of_step hs with
  | beginOp hm hl hp hcom | fssync hm hl hp hcom =>
    exact inv_begin hI hm hl hp hcom trivial rfl
  | logTest hm => exact inv_logTest hI hm hop.1 hop.2
  | logTestOpen hm hfree hp hout =>
    -- the operation of the caller is counted, so `log_write` never opens one of its own
    have := hI.one_le_outstanding hm (by rw [hop.1]; rfl)
    omega
  | logAppend hm hl hp => exact inv_logAppend hI hroom hm hl hp
  | endOp hm hl hp => exact inv_endOp hI hm hl hp
  | @endEphemeral p b hm hl hp =>
    have hord := (hI.running_of_inOp hm (congrArg Proc.inOp hp)).procs p
    rw [hp] at hord
    exact hord.elim
  | writeLog hm hp ht => exact inv_writeLog hI hm hp ht
  | writeHead hm hp ht => exact inv_writeHead hI hm hp ht
  | install hm hp ht => exact inv_install hI hm hp ht
  | clearHead hm hp ht => exact inv_clearHead hI hm hp ht
  | commitDone hm hl hp => exact inv_commitDone hI hm hl hp
  | logSyncSleep hm hl hp hcom =>
    -- the operation of `fssync` keeps everybody else out of `commit`
    have := (hI.running_of_inOp hm (by rw [hp]; rfl)).idle
    simp [hcom] at this
  | logSync hm hl hp hcom =>
    exact inv_syncTest hI hm hl hp (hq.resolve_left (by simp [hcom]))
  | syncWake hm hl hp => exact absurd hp (hI.not_syncCommit hm).1
  | syncIo hm hp => exact absurd hp (hI.not_syncCommit hm).2
  | bsyncPanic => exact hI.panicked rfl rfl
  | bsync hm hp => exact inv_bsync hI hm hp
  | load hm => exact inv_load hI hm
  | evict hm hb hclean => exact inv_evict hI hm hb hclean
  | crash => exact inv_crash hI
  | readHead hm => exact inv_readHead hI hm
  | recoverInstall hm ht => exact inv_recoverInstall hI hm ht
  | recoverClear hm ht => exact inv_recoverClear hI hm ht

end Xv7.Log
