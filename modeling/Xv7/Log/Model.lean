import Xv7.Param
import Xv7.Lib.Machine

/-!
# The logging layer

The model of `log.c`, and of the parts of `bio.c` and `fs.c` (`bsync`, `fssync`) that reach the
disk.  The state holds the disk, the buffer cache, the in-memory log header and counters, and for
every process where it stands in the logging code.

An event is one critical section under `log.lock`, the unlocked tests at the start of
`log_write`, or one single-block disk write; so the runs of the machine are the interleavings at
which the locks are free, with a crash possible between any two disk writes.  A process that
sleeps in `begin_op` or waits for a buffer simply has no event.
-/

namespace Xv7.Log

/-! ## The log header block -/

/-- `hb->n = log.lh.n; hb->block[i] = log.lh.block[i]`: store a header in a block.  The entries
beyond `n` keep their old values. -/
def encodeHead (blk : Block) (lh : List ℕ) : Block :=
  lh.zipIdx.foldl (fun blk e => Bytes.setWord blk (e.2 + 1) e.1) (Bytes.setWord blk 0 lh.length)

/-- The header stored in a block: `n` is a signed integer, and a negative `n` means no entry. -/
def decodeHead (blk : Block) : List ℕ :=
  if Bytes.word blk 0 < 2 ^ 31 then
    (List.range (Bytes.word blk 0)).map fun i => Bytes.word blk (i + 1)
  else []

/-! ## The state -/

/-- A buffer of the cache: its contents and its `B_DIRTY` flag. -/
structure Buf where
  /-- The contents of the block. -/
  data : Block
  /-- The flag `B_DIRTY`, which keeps the buffer in the cache. -/
  dirty : Bool

/-- The next disk write of a process inside `commit`. -/
inductive CommitPc where
  /-- In `write_log`, about to write log block `tail`, or past the last one. -/
  | writeLog (tail : ℕ)
  /-- In `install_trans`, about to write home block `tail`, or past the last one. -/
  | install (tail : ℕ)
  /-- Back in `end_op`. -/
  | done
  deriving DecidableEq, Repr

/-- Where a process stands in the logging code. -/
inductive Proc where
  /-- Outside any operation. -/
  | idle
  /-- Between `begin_op` and `end_op`. -/
  | op
  /-- In `log_write b`, past the unlocked tests, with the buffer `b` locked.  `nested` says that
  the caller has an operation of its own, `ephemeral` that `log_write` opened one. -/
  | logging (b : ℕ) (nested ephemeral : Bool)
  /-- In `log_write b`, about to end the operation it opened, with the buffer `b` locked. -/
  | ephemeral (b : ℕ)
  /-- In the `commit` of an `end_op`; `held` is a buffer locked by an ephemeral `log_write`. -/
  | commit (pc : CommitPc) (held : Option ℕ)
  /-- In `fssync`, before `log_sync`. -/
  | sync
  /-- Asleep in `log_sync`. -/
  | syncSleep
  /-- In the `commit` of `log_sync`, holding `log.lock`. -/
  | syncCommit
  /-- In `fssync`, between `log_sync` and `bsync`. -/
  | synced
  deriving DecidableEq, Repr

/-- The operation of the process is counted in `log.outstanding`. -/
def Proc.inOp : Proc → Bool
  | .op | .ephemeral _ | .sync | .syncSleep | .syncCommit | .synced => true
  | .logging _ nested eph => nested || eph
  | .idle | .commit _ _ => false

/-- The buffer that the process keeps locked between two events. -/
def Proc.held : Proc → Option ℕ
  | .logging b _ _ | .ephemeral b => some b
  | .commit _ held => held
  | _ => none

/-- The calls of `panic` in the logging code. -/
inductive Panic where
  /-- `log_write`: "too big a transaction". -/
  | tooBig
  /-- `end_op`: "log.committing". -/
  | committing
  /-- `sched`: "sched locks", for a process that sleeps with a spin lock held. -/
  | schedLocks
  /-- `bwrite`: "bwrite", for a buffer that the caller has not locked. -/
  | bwrite
  deriving DecidableEq, Repr

/-- What the machine is doing. -/
inductive Mode where
  /-- Just powered on. -/
  | boot
  /-- In `recover_from_log`, about to install log block `tail`, or past the last one. -/
  | recovering (tail : ℕ)
  /-- Serving file-system operations. -/
  | up
  /-- Halted. -/
  | panicked (why : Panic)
  deriving DecidableEq, Repr

/-- The disk, the buffer cache and the in-memory log header. -/
structure Store where
  /-- The contents of the disk. -/
  disk : Disk
  /-- The buffer cache, by block number. -/
  cache : AList fun _ : ℕ => Buf
  /-- `log.lh`: the block numbers logged since the last commit. -/
  lh : List ℕ

/-- The state of the logging layer, for the processes of a type `P`. -/
structure State (P : Type*) extends Store where
  /-- `log.outstanding`. -/
  outstanding : ℕ
  /-- `log.committing`. -/
  committing : Bool
  /-- The process that keeps `log.lock` from one event to the next. -/
  lock : Option P
  /-- Where each process stands. -/
  proc : P → Proc
  /-- What the machine is doing. -/
  mode : Mode

/-- The memory just after power-on, with the surviving disk. -/
def Store.init (d : Disk) : Store := ⟨d, ∅, []⟩

/-- The machine just after power-on, with the surviving disk. -/
def boot {P : Type*} (d : Disk) : State P where
  toStore := Store.init d
  outstanding := 0
  committing := false
  lock := none
  proc := fun _ => .idle
  mode := .boot

namespace Store

/-- The contents of block `b` as `bread` returns them. -/
def view (s : Store) (b : ℕ) : Block :=
  match s.cache.lookup b with
  | some buf => buf.data
  | none => s.disk b

/-- `bread`: make sure that the block has a buffer. -/
def bread (s : Store) (b : ℕ) : Store :=
  { s with
    cache := match s.cache.lookup b with
      | some _ => s.cache
      | none => s.cache.insert b ⟨s.disk b, false⟩ }

/-- `bwrite` of a buffer whose contents are `v`: write it to the disk and clear `B_DIRTY`. -/
def bwrite (s : Store) (b : ℕ) (v : Block) : Store :=
  { s with disk := Function.update s.disk b v, cache := s.cache.insert b ⟨v, false⟩ }

/-! ## The code of `log.c` -/

/-- One turn of the loop of `write_log`: copy a cached block to its log block. -/
def writeLogBlock (sb : Superblock) (s : Store) (tail : ℕ) : Store :=
  let s := (s.bread (sb.logstart + tail + 1)).bread (s.lh.getD tail 0)
  s.bwrite (sb.logstart + tail + 1) (s.view (s.lh.getD tail 0))

/-- One turn of the loop of `install_trans`: copy a log block to its home location. -/
def installBlock (sb : Superblock) (s : Store) (tail : ℕ) : Store :=
  let s := (s.bread (sb.logstart + tail + 1)).bread (s.lh.getD tail 0)
  s.bwrite (s.lh.getD tail 0) (s.view (sb.logstart + tail + 1))

/-- `write_head`: write the in-memory header to disk. -/
def writeHead (sb : Superblock) (s : Store) : Store :=
  let s := s.bread sb.logstart
  s.bwrite sb.logstart (encodeHead (s.view sb.logstart) s.lh)

/-- `read_head`: read the header from disk. -/
def readHead (sb : Superblock) (s : Store) : Store :=
  let s := s.bread sb.logstart
  { s with lh := decodeHead (s.view sb.logstart) }

/-- `log.lh.n = 0; write_head()`. -/
def clearHead (sb : Superblock) (s : Store) : Store :=
  writeHead sb { s with lh := [] }

/-- The scan of `log.lh` in `log_write`: a block that is already logged is absorbed. -/
def absorb (lh : List ℕ) (b : ℕ) : List ℕ := if b ∈ lh then lh else lh ++ [b]

/-- `log_write` records block `b`, whose buffer holds `v`, and pins the buffer. -/
def record (s : Store) (b : ℕ) (v : Block) : Store :=
  { s with lh := absorb s.lh b, cache := s.cache.insert b ⟨v, true⟩ }

/-- `install_trans`. -/
def installTrans (sb : Superblock) (s : Store) : Store :=
  (List.range s.lh.length).foldl (fun s tail => s.installBlock sb tail) s

end Store

/-- `recover_from_log`, run to its end on a machine that has just booted from the disk `d`. -/
def recoverFromLog (sb : Superblock) (d : Disk) : Disk :=
  ((((Store.init d).readHead sb).installTrans sb).clearHead sb).disk

variable {P : Type*}

namespace State

/-- Move one process. -/
def setProc [DecidableEq P] (s : State P) (p : P) (c : Proc) : State P :=
  { s with proc := Function.update s.proc p c }

/-- No process keeps the buffer of the block locked. -/
def Free (s : State P) (b : ℕ) : Prop := ∀ p, (s.proc p).held ≠ some b

instance [Fintype P] (s : State P) (b : ℕ) : Decidable (s.Free b) :=
  inferInstanceAs (Decidable (∀ p, (s.proc p).held ≠ some b))

/-- `begin_op`, when it does not have to sleep. -/
def beginOp (s : State P) : Option (State P) :=
  if s.committing then none
  else if LOGSIZE < s.lh.length + (s.outstanding + 1) * MAXOPBLOCKS then none
  else some { s with outstanding := s.outstanding + 1 }

variable [DecidableEq P]

/-- `end_op`, up to the point where it has released `log.lock`. -/
def endOp (s : State P) (p : P) (held : Option ℕ) : State P :=
  if s.committing then { s with outstanding := s.outstanding - 1, mode := .panicked .committing }
  else if s.outstanding - 1 = 0 then
    { s with outstanding := 0, committing := true }.setProc p
      -- `commit` does nothing at all when the log is empty
      (.commit (if s.lh = [] then .done else .writeLog 0) held)
  else { s with outstanding := s.outstanding - 1 }.setProc p .idle

/-- The unlocked tests of `log_write`. -/
def logTest (sb : Superblock) (s : State P) (p : P) (b : ℕ) (nested eph : Bool) : State P :=
  if LOGSIZE ≤ s.lh.length ∨ sb.nlog - 1 ≤ s.lh.length then { s with mode := .panicked .tooBig }
  else s.setProc p (.logging b nested eph)

/-- The locked part of `log_write`.  The caller has set the contents of its buffer to `v`; nobody
else can read the buffer before it is released, so the new contents appear here. -/
def logAppend (s : State P) (p : P) (b : ℕ) (v : Block) (nested eph : Bool) : State P :=
  { s with toStore := s.record b v }.setProc p
    (if eph then .ephemeral b else if nested then .op else .idle)

/-- `log_sync` from its test of `log.lh.n` on. -/
def syncTest (s : State P) (p : P) : State P :=
  if s.lh = [] then s.setProc p .synced else { s with lock := some p }.setProc p .syncCommit

end State

/-! ## Events and steps -/

/-- The atomic events. -/
inductive Event (P : Type*) where
  /-- `begin_op` returns. -/
  | beginOp (p : P)
  /-- `log_write` passes or fails its unlocked tests, for a buffer that the caller has locked. -/
  | logTest (p : P) (b : ℕ)
  /-- `log_write` records the block, whose new contents are `v`. -/
  | logAppend (p : P) (b : ℕ) (v : Block)
  /-- `end_op` releases `log.lock`. -/
  | endOp (p : P)
  /-- `commit` writes a log block. -/
  | writeLog (p : P)
  /-- `commit` writes the header: the true point at which the transaction commits. -/
  | writeHead (p : P)
  /-- `commit` writes a home block. -/
  | install (p : P)
  /-- `commit` erases the transaction from the log. -/
  | clearHead (p : P)
  /-- `end_op` clears `log.committing`. -/
  | commitDone (p : P)
  /-- `begin_op` returns in `fssync`. -/
  | fssync (p : P)
  /-- `log_sync` has acquired `log.lock`. -/
  | logSync (p : P)
  /-- `log_sync` has woken up and acquired `log.lock` again. -/
  | syncWake (p : P)
  /-- The first disk request of the `commit` of `log_sync`; `issued` says that it was a write. -/
  | syncIo (p : P) (issued : Bool)
  /-- `bsync`. -/
  | bsync (p : P)
  /-- Some process reads a block. -/
  | load (b : ℕ)
  /-- `bget` recycles the buffer of a block. -/
  | evict (b : ℕ)
  /-- Power failure and restart. -/
  | crash
  /-- `recover_from_log` reads the header. -/
  | readHead
  /-- `recover_from_log` writes a home block. -/
  | recoverInstall
  /-- `recover_from_log` erases the transaction from the log. -/
  | recoverClear

variable [Fintype P] [DecidableEq P]

/-- The effect of one event; `none` when the event cannot happen in the state. -/
def step (sb : Superblock) (s : State P) : Event P → Option (State P)
  | .beginOp p =>
    if s.mode = .up ∧ s.lock = none ∧ s.proc p = .idle then
      s.beginOp.map fun s => s.setProc p .op
    else none
  | .logTest p b =>
    if s.mode = .up ∧ s.Free b ∧ (s.proc p = .op ∨ s.proc p = .idle) then
      if s.outstanding < 1 then
        if s.lock = none then
          s.beginOp.map fun s' => s'.logTest sb p b (s.proc p = .op) true
        else none
      else some (s.logTest sb p b (s.proc p = .op) false)
    else none
  | .logAppend p b v =>
    if s.mode = .up ∧ s.lock = none then
      match s.proc p with
      | .logging b' nested eph => if b = b' then some (s.logAppend p b v nested eph) else none
      | _ => none
    else none
  | .endOp p =>
    if s.mode = .up ∧ s.lock = none then
      match s.proc p with
      | .op => some (s.endOp p none)
      | .ephemeral b => some (s.endOp p (some b))
      | _ => none
    else none
  | .writeLog p =>
    match s.proc p with
    | .commit (.writeLog tail) held =>
      -- `bread` waits for the locks of both buffers, and would wait for itself on one buffer
      if s.mode = .up ∧ tail < s.lh.length ∧ s.Free (sb.logstart + tail + 1) ∧
          s.Free (s.lh.getD tail 0) ∧ sb.logstart + tail + 1 ≠ s.lh.getD tail 0 then
        some ({ s with toStore := s.writeLogBlock sb tail }.setProc p
          (.commit (.writeLog (tail + 1)) held))
      else none
    | _ => none
  | .writeHead p =>
    match s.proc p with
    | .commit (.writeLog tail) held =>
      if s.mode = .up ∧ s.lh.length ≤ tail ∧ s.Free sb.logstart then
        some ({ s with toStore := s.toStore.writeHead sb }.setProc p (.commit (.install 0) held))
      else none
    | _ => none
  | .install p =>
    match s.proc p with
    | .commit (.install tail) held =>
      if s.mode = .up ∧ tail < s.lh.length ∧ s.Free (sb.logstart + tail + 1) ∧
          s.Free (s.lh.getD tail 0) ∧ sb.logstart + tail + 1 ≠ s.lh.getD tail 0 then
        some ({ s with toStore := s.installBlock sb tail }.setProc p
          (.commit (.install (tail + 1)) held))
      else none
    | _ => none
  | .clearHead p =>
    match s.proc p with
    | .commit (.install tail) held =>
      if s.mode = .up ∧ s.lh.length ≤ tail ∧ s.Free sb.logstart then
        some ({ s with toStore := s.clearHead sb }.setProc p (.commit .done held))
      else none
    | _ => none
  | .commitDone p =>
    match s.proc p with
    | .commit .done _ =>
      if s.mode = .up ∧ s.lock = none then
        some ({ s with committing := false }.setProc p .idle)
      else none
    | _ => none
  | .fssync p =>
    if s.mode = .up ∧ s.lock = none ∧ s.proc p = .idle then
      s.beginOp.map fun s => s.setProc p .sync
    else none
  | .logSync p =>
    if s.mode = .up ∧ s.lock = none ∧ s.proc p = .sync then
      some (if s.committing then s.setProc p .syncSleep else s.syncTest p)
    else none
  | .syncWake p =>
    if s.mode = .up ∧ s.lock = none ∧ s.proc p = .syncSleep then some (s.syncTest p) else none
  | .syncIo p issued =>
    -- waiting for the disk with `log.lock` held is a panic in `sched`; a write may be under way
    if s.mode = .up ∧ s.proc p = .syncCommit then
      some { s with
        disk := if issued then Function.update s.disk (sb.logstart + 1) (s.view (s.lh.getD 0 0))
          else s.disk
        mode := .panicked .schedLocks }
    else none
  | .bsync p =>
    if s.mode = .up ∧ s.proc p = .synced then
      -- `bwrite` of a buffer that `bsync` has not locked
      if ∃ e ∈ s.cache.entries, e.2.dirty = true ∧ s.Free e.1 then
        some { s with mode := .panicked .bwrite }
      else some (s.setProc p .op)
    else none
  | .load b => if s.mode = .up then some { s with toStore := s.bread b } else none
  | .evict b =>
    match s.cache.lookup b with
    | some buf =>
      if s.mode = .up ∧ buf.dirty = false ∧ s.Free b then
        some { s with cache := s.cache.erase b }
      else none
    | none => none
  | .crash => some (boot s.disk)
  | .readHead =>
    if s.mode = .boot then some { s with toStore := s.readHead sb, mode := .recovering 0 } else none
  | .recoverInstall =>
    match s.mode with
    | .recovering tail =>
      if tail < s.lh.length ∧ sb.logstart + tail + 1 ≠ s.lh.getD tail 0 then
        some { s with toStore := s.installBlock sb tail, mode := .recovering (tail + 1) }
      else none
    | _ => none
  | .recoverClear =>
    match s.mode with
    | .recovering tail =>
      if s.lh.length ≤ tail then some { s with toStore := s.clearHead sb, mode := .up } else none
    | _ => none

end Xv7.Log
