import Xv7.Log.Recovery

/-!
# The invariant of the logging layer

`history` reads off a list of events the commit groups: the updates logged between two commits,
a group being closed when `commit` writes the header.  `Inv` ties the history to the state.  While
operations run, the header on the disk is empty and the dirty buffers hold the updates of the open
group (`Pending`); inside `commit` the log blocks written so far hold the same contents; and at
every moment, whatever the machine is doing, recovery would produce the disk with the closed
groups.

The invariant is kept by every step of the runs in which log writes happen inside an operation of
the caller (`Event.InOperation`) and find room in the log area (`Event.NoOverrun`), and in which
`log_sync` finds the log empty (`Event.QuietSync`).
-/

namespace Xv7.Log

open Updates

variable {P : Type*}

/-! ## Commit groups -/

/-- The updates of the open commit group and of the closed ones. -/
structure History where
  /-- The updates logged since the last commit. -/
  pending : List (ℕ × Block)
  /-- The groups whose header reached the disk, the oldest first. -/
  committed : List (List (ℕ × Block))

/-- The effect of an event on the commit groups. -/
def History.next (h : History) : Event P → History
  | .logAppend _ b v => { h with pending := h.pending ++ [(b, v)] }
  | .writeHead _ => ⟨[], h.committed ++ [h.pending]⟩
  | .crash => { h with pending := [] }
  | _ => h

/-- The commit groups of a list of events. -/
def history (tr : List (Event P)) : History := tr.foldl History.next ⟨[], []⟩

lemma history_concat (tr : List (Event P)) (e : Event P) :
    history (tr ++ [e]) = (history tr).next e := by
  simp [history, List.foldl_append]

/-- The disk `d` with the updates of the closed groups. -/
def History.apply (h : History) (d : Disk) : Disk := applyUpdates h.committed.flatten d

/-! ## The runs considered -/

/-- Log writes are made inside an operation of the caller, for a block outside the log area. -/
def Event.InOperation (sb : Superblock) (s : State P) : Event P → Prop
  | .logTest p b => s.proc p = .op ∧ b < 2 ^ 32 ∧ ¬ sb.InLog b
  | _ => True

/-- A block that is not yet in the log still finds room in the log area when `log_write` has
acquired `log.lock`. -/
def Event.NoOverrun (sb : Superblock) (s : State P) : Event P → Prop
  | .logAppend _ b _ => b ∉ s.lh → s.lh.length < LOGSIZE ∧ s.lh.length < sb.nlog - 1
  | _ => True

/-- `log_sync` finds the log empty when it comes to its test of `log.lh.n`. -/
def Event.QuietSync (s : State P) : Event P → Prop
  | .logSync _ => s.committing = true ∨ s.lh = []
  | .syncWake _ => s.lh = []
  | _ => True

/-! ## The invariant -/

/-- The open group with the updates `us`: the header names its blocks, their buffers are pinned
and hold the latest contents, and the header on the disk is empty. -/
structure Pending (sb : Superblock) (us : List (ℕ × Block)) (s : Store) : Prop where
  /-- The in-memory header names the blocks of the group. -/
  keys : ∀ b, b ∈ s.lh ↔ b ∈ us.map Prod.fst
  /-- The in-memory header fits the log. -/
  ok : HeaderOk sb s.lh
  /-- The dirty buffers are those of the group. -/
  dirty : ∀ b, s.Dirty b ↔ b ∈ s.lh
  /-- They hold the latest contents. -/
  data : ∀ b ∈ s.lh, s.view b = applyUpdates us s.disk b
  /-- Nothing is committed on the disk. -/
  empty : header sb s.disk = []

/-- The number of processes inside an operation. -/
def countOp [Fintype P] (proc : P → Proc) : ℕ := ∑ p, (proc p).inOp.toNat

/-- The positions of a process outside `commit` in the runs considered. -/
def Proc.Orderly (sb : Superblock) : Proc → Prop
  | .idle | .op | .sync | .synced => True
  | .logging b nested eph => nested = true ∧ eph = false ∧ b < 2 ^ 32 ∧ ¬ sb.InLog b
  | _ => False

/-- Operations run, and nobody is in `commit`. -/
structure Running [Fintype P] (sb : Superblock) (us : List (ℕ × Block)) (s : State P) : Prop where
  /-- `log.committing` is clear. -/
  idle : s.committing = false
  /-- Where the processes can be. -/
  procs : ∀ p, (s.proc p).Orderly sb
  /-- `log.outstanding` counts the open operations. -/
  count : s.outstanding = countOp s.proc
  /-- The open group. -/
  pending : Pending sb us s.toStore

/-- The state of the log at each point of `commit`. -/
def CommitPhase (sb : Superblock) (us : List (ℕ × Block)) (s : Store) : CommitPc → Prop
  | .writeLog t => Pending sb us s ∧ t ≤ s.lh.length ∧
      ∀ i, i < t → s.disk (sb.logstart + i + 1) = s.view (s.lh.getD i 0)
  | .install t => us = [] ∧ Installing sb s t
  | .done => us = [] ∧ s.lh = [] ∧ header sb s.disk = [] ∧ ∀ b, ¬ s.Dirty b

/-- The process `p` is in `commit`, and every other process is outside any operation. -/
structure Committing (sb : Superblock) (us : List (ℕ × Block)) (s : State P) (p : P)
    (pc : CommitPc) : Prop where
  /-- `log.committing` is set. -/
  busy : s.committing = true
  /-- No operation is open. -/
  zero : s.outstanding = 0
  /-- The committing process. -/
  self : s.proc p = .commit pc none
  /-- The other processes. -/
  others : ∀ q, q ≠ p → s.proc q = .idle
  /-- The state of the log. -/
  phase : CommitPhase sb us s.toStore pc

/-- The counters and processes of a machine that has not started to serve operations. -/
structure Fresh (s : State P) : Prop where
  /-- No commit is running. -/
  idle : s.committing = false
  /-- No operation is open. -/
  zero : s.outstanding = 0
  /-- Nobody has started. -/
  procs : ∀ p, s.proc p = .idle
  /-- `log.lock` is free. -/
  unlocked : s.lock = none

/-- What holds in each mode of the machine. -/
def ModeInv [Fintype P] (sb : Superblock) (us : List (ℕ × Block)) (s : State P) : Mode → Prop
  | .boot => us = [] ∧ Fresh s ∧ ∀ b, ¬ s.Dirty b
  | .recovering t => us = [] ∧ Fresh s ∧ Installing sb s.toStore t
  | .up => s.lock = none ∧ (Running sb us s ∨ ∃ p pc, Committing sb us s p pc)
  | .panicked _ => True

/-- The invariant: `D` is what recovery makes of the disk that the machine first booted from. -/
structure Inv [Fintype P] (sb : Superblock) (D : Disk) (h : History) (s : State P) : Prop where
  /-- Clean buffers agree with the disk. -/
  coherent : s.Coherent
  /-- The header on the disk is sound. -/
  header_ok : HeaderOk sb (header sb s.disk)
  /-- Recovery would produce the closed groups. -/
  survives : Home sb (durable sb s.disk) (h.apply D)
  /-- The open group, according to the mode. -/
  mode : ModeInv sb h.pending s s.mode

variable {sb : Superblock} {D : Disk}

/-! ## The open group -/

/-- The contents of a block in the open group. -/
lemma Pending.view_eq {us : List (ℕ × Block)} {s : Store} (h : Pending sb us s)
    (hc : s.Coherent) (b : ℕ) : s.view b = applyUpdates us s.disk b := by
  by_cases hb : b ∈ s.lh
  · exact h.data b hb
  · have hd : ¬ s.Dirty b := fun hd => hb ((h.dirty b).mp hd)
    have hk : b ∉ us.map Prod.fst := fun hk => hb ((h.keys b).mpr hk)
    rw [Store.view_eq_disk hc hd, applyUpdates_of_notMem hk]

lemma mem_absorb {lh : List ℕ} {b c : ℕ} : c ∈ Store.absorb lh b ↔ c ∈ lh ∨ c = b := by
  unfold Store.absorb
  split
  · exact ⟨Or.inl, fun hc => hc.elim id fun hcb => hcb ▸ ‹b ∈ lh›⟩
  · simp

lemma record_lookup (s : Store) (b c : ℕ) (v : Block) :
    (s.record b v).cache.lookup c = if c = b then some ⟨v, true⟩ else s.cache.lookup c := by
  by_cases hcb : c = b
  · subst hcb
    simp [Store.record]
  · simp [Store.record, hcb]

/-- Recording a block keeps the header sound when there is room for it. -/
lemma HeaderOk.absorb {lh : List ℕ} (h : HeaderOk sb lh) {b : ℕ}
    (hb : b < 2 ^ 32 ∧ ¬ sb.InLog b)
    (hroom : b ∉ lh → lh.length < LOGSIZE ∧ lh.length < sb.nlog - 1) :
    HeaderOk sb (Store.absorb lh b) := by
  by_cases hbl : b ∈ lh
  · simpa [Store.absorb, hbl] using h
  · obtain ⟨h1, h2⟩ := hroom hbl
    have hlen : (Store.absorb lh b).length = lh.length + 1 := by simp [Store.absorb, hbl]
    refine ⟨by omega, by omega, fun c hc => ?_⟩
    rcases mem_absorb.mp hc with hc | rfl
    · exact h.home c hc
    · exact hb

/-- The locked part of `log_write` adds its update to the group. -/
lemma Pending.record {us : List (ℕ × Block)} {s : Store} (h : Pending sb us s)
    (hc : s.Coherent) {b : ℕ} {v : Block} (hb : b < 2 ^ 32 ∧ ¬ sb.InLog b)
    (hroom : b ∉ s.lh → s.lh.length < LOGSIZE ∧ s.lh.length < sb.nlog - 1) :
    Pending sb (us ++ [(b, v)]) (s.record b v) := by
  refine ⟨fun c => ?_, h.ok.absorb hb hroom, fun c => ?_, fun c _ => ?_, h.empty⟩
  · rw [Store.record, mem_absorb, h.keys]
    simp
  · rw [Store.Dirty, record_lookup]
    by_cases hcb : c = b
    · simp [hcb, Store.record, mem_absorb]
    · simpa [hcb, Store.record, mem_absorb, Store.Dirty] using h.dirty c
  · have hview : (s.record b v).view c = if c = b then v else s.view c := by
      rw [Store.view, record_lookup]
      by_cases hcb : c = b
      · simp [hcb]
      · simp [hcb, Store.view, Store.record]
    have hdisk : (s.record b v).disk = s.disk := rfl
    rw [hview, hdisk, applyUpdates_concat]
    by_cases hcb : c = b
    · subst hcb
      simp
    · rw [if_neg hcb, Function.update_of_ne hcb]
      exact h.view_eq hc c

/-- A dirty buffer may hold anything. -/
lemma Coherent.record {s : Store} (h : s.Coherent) (b : ℕ) (v : Block) :
    (s.record b v).Coherent := by
  intro c buf hc hd
  rw [record_lookup] at hc
  by_cases hcb : c = b
  · rw [if_pos hcb, Option.some.injEq] at hc
    rw [← hc] at hd
    exact absurd hd (by simp)
  · rw [if_neg hcb] at hc
    exact h c buf hc hd

/-! ## Power-on -/

variable [Fintype P]

/-- The invariant holds at power-on. -/
lemma inv_boot {d : Disk} (hd : HeaderOk sb (header sb d)) :
    Inv sb (recoverFromLog sb d) ⟨[], []⟩ (boot d : State P) where
  coherent := coherent_init d
  header_ok := hd
  survives := fun b hb => (recoverFromLog_home hd b hb).symm
  mode := ⟨rfl, ⟨rfl, rfl, fun _ => rfl, rfl⟩, not_dirty_init d⟩

/-- When nothing is committed on the disk, the disk itself holds the closed groups. -/
lemma Inv.disk_home {h : History} {s : State P} (hI : Inv sb D h s)
    (he : header sb s.disk = []) : Home sb s.disk (h.apply D) := by
  have := hI.survives
  rwa [durable_of_header_nil he] at this

/-! ## Counting operations -/

section Count

variable [DecidableEq P]

/-- Two sums over the processes that differ in one term. -/
lemma sum_add_of_eq_off {v w : P → ℕ} {p : P} (h : ∀ q, q ≠ p → w q = v q) :
    ∑ q, w q + v p = ∑ q, v q + w p := by
  have hrest : ∑ q ∈ Finset.univ.erase p, w q = ∑ q ∈ Finset.univ.erase p, v q :=
    Finset.sum_congr rfl fun q hq => h q (Finset.ne_of_mem_erase hq)
  rw [← Finset.add_sum_erase _ v (Finset.mem_univ p),
    ← Finset.add_sum_erase _ w (Finset.mem_univ p), hrest]
  omega

/-- Moving one process changes the count by its own share. -/
lemma countOp_update (proc : P → Proc) (p : P) (c : Proc) :
    countOp (Function.update proc p c) + (proc p).inOp.toNat = countOp proc + c.inOp.toNat := by
  have h := sum_add_of_eq_off (p := p) (v := fun q => (proc q).inOp.toNat)
    (w := fun q => (Function.update proc p c q).inOp.toNat) fun q hq => by
      simp [Function.update_of_ne hq]
  simpa [countOp] using h

/-- When one operation is open, the other processes are outside any operation. -/
lemma not_inOp_of_countOp {proc : P → Proc} {p : P} (h : countOp proc ≤ 1)
    (hp : (proc p).inOp = true) {q : P} (hq : q ≠ p) : (proc q).inOp = false := by
  by_contra hne
  have hq' : (proc q).inOp = true := by simpa using hne
  have hle : ∑ r ∈ {p, q}, (proc r).inOp.toNat ≤ countOp proc :=
    Finset.sum_le_sum_of_subset (Finset.subset_univ _)
  rw [Finset.sum_pair hq.symm, hp, hq'] at hle
  simp only [Bool.toNat_true] at hle
  omega

/-- When one operation is open, everybody else is idle. -/
lemma Running.others_idle {us : List (ℕ × Block)} {s : State P} {p : P}
    (hR : Running sb us s) (h1 : s.outstanding ≤ 1) (hp : (s.proc p).inOp = true) {q : P}
    (hq : q ≠ p) : s.proc q = .idle := by
  have hno := not_inOp_of_countOp (by rw [← hR.count]; exact h1) hp hq
  have hord := hR.procs q
  cases hq' : s.proc q with
  | idle => rfl
  | op | sync | synced => simp [hq', Proc.inOp] at hno
  | logging b nested eph =>
    rw [hq'] at hord hno
    simp [Proc.inOp, hord.1] at hno
  | _ =>
    rw [hq'] at hord
    exact hord.elim

/-- Moving one process, with the count adjusted by its share. -/
lemma Running.move {us : List (ℕ × Block)} {s : State P} (hR : Running sb us s) {p : P}
    {c : Proc} (hc : c.Orderly sb) {n : ℕ} (hn : n + (s.proc p).inOp.toNat = s.outstanding + c.inOp.toNat) :
    Running sb us ({ s with outstanding := n }.setProc p c) := by
  refine ⟨hR.idle, fun q => ?_, ?_, hR.pending⟩
  · by_cases hq : q = p
    · subst hq
      simpa [State.setProc] using hc
    · simpa [State.setProc, Function.update_of_ne hq] using hR.procs q
  · have hcount := countOp_update s.proc p c
    have := hR.count
    simp only [State.setProc]
    omega

end Count

end Xv7.Log
