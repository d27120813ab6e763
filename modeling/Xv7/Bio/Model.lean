import Xv7.Lib.DList
import Xv7.Param

/-!
# The buffer cache

`bread`, `bwrite`, `log_write` and `brelse` on the buffers of `ROOTDEV`, with the queue of the disk
driver.  A step is what one process does between two points where it gives up a lock: the part of
`bget` under `bcache.lock`, `acquiresleep`, a request to the disk and its end, and the two parts of
`brelse`.  A process that is about to have a buffer, has it or is giving it back is an activity.
-/

namespace Xv7.Bio

/-- `NBUF`. -/
abbrev NBUF : ℕ := MAXOPBLOCKS * 3

instance : NeZero NBUF := ⟨by decide⟩

/-- An element of `bcache.buf`. -/
abbrev Buf := Fin NBUF

/-- `ROOTDEV`. -/
abbrev ROOTDEV : ℕ := 1

/-- `struct buf`, without its pointers. -/
structure Buffer (D : Type*) where
  dev : ℕ
  blockno : ℕ
  /-- `B_VALID`. -/
  valid : Bool
  /-- `B_DIRTY`. -/
  dirty : Bool
  /-- `lock.locked`. -/
  locked : Bool
  refcnt : ℕ
  data : D
  /-- The owner has changed the data and not called `log_write` or `bwrite` yet. -/
  touched : Bool

/-- What a process does with a buffer. -/
inductive Act where
  /-- `bget` has counted it, before `acquiresleep`. -/
  | waiting (b : Buf)
  /-- `bread` has the lock and looks at `B_VALID`. -/
  | reading (b : Buf)
  /-- In `iderw`. -/
  | io (b : Buf)
  /-- Between `bread` and `brelse`. -/
  | owns (b : Buf)
  /-- In `brelse`, after `releasesleep`. -/
  | releasing (b : Buf)
  deriving DecidableEq, Repr

/-- The buffer. -/
def Act.slot : Act → Option Buf
  | waiting b | reading b | io b | owns b | releasing b => some b

/-- The activity has the lock of the buffer. -/
def Act.HasLock : Act → Bool
  | reading _ | io _ | owns _ => true
  | waiting _ | releasing _ => false

/-- The cache and the disk. -/
structure State (D : Type*) where
  buf : Buf → Buffer D
  /-- `bcache.head` and the pointers of the buffers. -/
  links : DList.Links Buf
  disk : ℕ → D
  /-- What was left in a block by the last owner that has called `log_write` or `bwrite`. -/
  last : ℕ → D
  /-- `idequeue`. -/
  queue : List Buf
  acts : Multiset Act

/-- What can happen. -/
inductive Event (D : Type*) where
  /-- `bread(ROOTDEV, n)`, until `bget` releases `bcache.lock`. -/
  | bread (n : ℕ)
  /-- The owner changes the data. -/
  | modify (b : Buf) (d : D)
  | logWrite (b : Buf)
  /-- `bwrite`, until `iderw` sleeps. -/
  | bwrite (b : Buf)
  /-- `brelse`, until the end of `releasesleep`. -/
  | brelse (b : Buf)
  /-- An activity goes on by itself. -/
  | go (a : Act)
  | ideintr

namespace State

variable {D : Type*}

/-- Change one buffer. -/
def update (s : State D) (b : Buf) (f : Buffer D → Buffer D) : State D :=
  { s with buf := Function.update s.buf b (f (s.buf b)) }

/-- Write a block of the disk. -/
def write (s : State D) (n : ℕ) (d : D) : State D := { s with disk := Function.update s.disk n d }

/-- One more activity. -/
def add (s : State D) (a : Act) : State D := { s with acts := a ::ₘ s.acts }

/-- An activity is over. -/
def remove (s : State D) (a : Act) : State D := { s with acts := s.acts.erase a }

/-- An activity goes on as another one. -/
def become (s : State D) (a a' : Act) : State D := (s.remove a).add a'

/-- The first loop of `bget`. -/
def cached (s : State D) (n : ℕ) : Option Buf :=
  DList.scan s.links.next (fun b => (s.buf b).dev = ROOTDEV ∧ (s.buf b).blockno = n) (NBUF + 1)
    (s.links.next none)

/-- The second loop of `bget`. -/
def unused (s : State D) : Option Buf :=
  DList.scan s.links.prev (fun b => (s.buf b).refcnt = 0 ∧ ¬ (s.buf b).dirty) (NBUF + 1)
    (s.links.prev none)

/-- `bget` under `bcache.lock`; without an unused buffer it panics. -/
def bget (s : State D) (n : ℕ) : Option (Buf × State D) :=
  match s.cached n with
  | some b => some (b, s.update b fun x => { x with refcnt := x.refcnt + 1 })
  | none =>
    match s.unused with
    | some b => some (b, s.update b fun x => { x with
        dev := ROOTDEV, blockno := n, valid := false, dirty := false, refcnt := 1 })
    | none => none

/-- `iderw` up to `sleep`: the buffer goes to the end of `idequeue`. -/
def iderw (s : State D) (b : Buf) : State D := { s with queue := s.queue ++ [b] }

/-- The owner has called `log_write` or `bwrite`. -/
def mark (s : State D) (b : Buf) : State D :=
  { s.update b fun x => { x with dirty := true, touched := false } with
    last := Function.update s.last (s.buf b).blockno (s.buf b).data }

/-- `ideintr`: the disk is done with the first buffer of the queue. -/
def ideintr (s : State D) : State D :=
  match s.queue with
  | [] => s
  | b :: queue =>
    let s' : State D := { s with queue := queue }
    if (s.buf b).dirty then
      (s'.update b fun x => { x with valid := true, dirty := false }).write (s.buf b).blockno
        (s.buf b).data
    else
      s'.update b fun x => { x with
        data := s.disk (s.buf b).blockno, valid := true, dirty := false }

/-- The end of `brelse`. -/
def release (s : State D) (b : Buf) : State D :=
  let s' := s.update b fun x => { x with refcnt := x.refcnt - 1 }
  { s' with
    links := if (s'.buf b).refcnt = 0 then DList.push (DList.unlink s.links b) b else s.links }

/-- The next step of an activity. -/
def go (s : State D) : Act → Option (State D)
  | .waiting b =>
    if (s.buf b).locked then none
    else some ((s.update b fun x => { x with locked := true }).become (.waiting b) (.reading b))
  | .reading b =>
    if (s.buf b).valid then some (s.become (.reading b) (.owns b))
    else some ((s.iderw b).become (.reading b) (.io b))
  | .io b =>
    if (s.buf b).valid ∧ ¬ (s.buf b).dirty then some (s.become (.io b) (.owns b)) else none
  | .releasing b => some ((s.release b).remove (.releasing b))
  | .owns _ => none

/-- The machine.  An owner that has changed the data marks it before it gives the buffer back. -/
def step (s : State D) : Event D → Option (State D)
  | .bread n => (s.bget n).map fun r => r.2.add (.waiting r.1)
  | .modify b d =>
    if .owns b ∈ s.acts then some (s.update b fun x => { x with data := d, touched := true })
    else none
  | .logWrite b => if .owns b ∈ s.acts then some (s.mark b) else none
  | .bwrite b =>
    if .owns b ∈ s.acts then some (((s.mark b).iderw b).become (.owns b) (.io b)) else none
  | .brelse b =>
    if .owns b ∈ s.acts ∧ ¬ (s.buf b).touched then
      some ((s.update b fun x => { x with locked := false }).become (.owns b) (.releasing b))
    else none
  | .go a => if a ∈ s.acts then s.go a else none
  | .ideintr => some s.ideintr

/-- The cache after `binit`, over a disk. -/
def init (disk : ℕ → D) (junk : D) : State D where
  buf := fun _ => ⟨0, 0, false, false, false, 0, junk, false⟩
  links := (List.finRange NBUF).foldl DList.push DList.empty
  disk := disk
  last := disk
  queue := []
  acts := 0

/-! ## What a step can do -/

/-- What `bget` can do. -/
inductive Gets (s : State D) (n : ℕ) : Buf → State D → Prop where
  | hit {b} (hc : s.cached n = some b) :
    Gets s n b (s.update b fun x => { x with refcnt := x.refcnt + 1 })
  | recycle {b} (hc : s.cached n = none) (hu : s.unused = some b) :
    Gets s n b (s.update b fun x => { x with
      dev := ROOTDEV, blockno := n, valid := false, dirty := false, refcnt := 1 })

lemma gets_of_bget {s s' : State D} {n : ℕ} {b : Buf} (h : s.bget n = some (b, s')) : Gets s n b s' := by
  unfold bget at h
  split at h
  · cases h
    exact .hit ‹_›
  · split at h
    · cases h
      exact .recycle ‹_› ‹_›
    · exact absurd h (by simp)

/-- The steps, with what allows them; `rest` are the activities that do not take part. -/
inductive Does (s : State D) : Event D → State D → Prop where
  | bread {n b s₁} (hget : Gets s n b s₁) : Does s (.bread n) (s₁.add (.waiting b))
  | modify {b d} (ha : .owns b ∈ s.acts) :
    Does s (.modify b d) (s.update b fun x => { x with data := d, touched := true })
  | logWrite {b} (ha : .owns b ∈ s.acts) : Does s (.logWrite b) (s.mark b)
  | bwrite {b rest} (ha : s.acts = .owns b ::ₘ rest) :
    Does s (.bwrite b) { s.mark b with queue := s.queue ++ [b], acts := .io b ::ₘ rest }
  | brelse {b rest} (ha : s.acts = .owns b ::ₘ rest) (ht : ¬ (s.buf b).touched) :
    Does s (.brelse b) { s.update b fun x => { x with locked := false } with
      acts := .releasing b ::ₘ rest }
  | acquire {b rest} (ha : s.acts = .waiting b ::ₘ rest) (hl : ¬ (s.buf b).locked) :
    Does s (.go (.waiting b)) { s.update b fun x => { x with locked := true } with
      acts := .reading b ::ₘ rest }
  | hit {b rest} (ha : s.acts = .reading b ::ₘ rest) (hv : (s.buf b).valid) :
    Does s (.go (.reading b)) { s with acts := .owns b ::ₘ rest }
  | request {b rest} (ha : s.acts = .reading b ::ₘ rest) (hv : ¬ (s.buf b).valid) :
    Does s (.go (.reading b)) { s with queue := s.queue ++ [b], acts := .io b ::ₘ rest }
  | done {b rest} (ha : s.acts = .io b ::ₘ rest) (hv : (s.buf b).valid) (hd : ¬ (s.buf b).dirty) :
    Does s (.go (.io b)) { s with acts := .owns b ::ₘ rest }
  | release {b rest} (ha : s.acts = .releasing b ::ₘ rest) :
    Does s (.go (.releasing b)) { s.release b with acts := rest }
  | idle (hq : s.queue = []) : Does s .ideintr s
  | wrote {b queue} (hq : s.queue = b :: queue) (hd : (s.buf b).dirty) :
    Does s .ideintr { (s.update b fun x => { x with valid := true, dirty := false }).write
      (s.buf b).blockno (s.buf b).data with queue := queue }
  | read {b queue} (hq : s.queue = b :: queue) (hd : ¬ (s.buf b).dirty) :
    Does s .ideintr { s.update b fun x => { x with
      data := s.disk (s.buf b).blockno, valid := true, dirty := false } with queue := queue }

variable {s s' : State D} {b : Buf}

/-- Of the activities, `become` changes one. -/
lemma become_eq {a a' : Act} {rest : Multiset Act} (h : s.acts = a ::ₘ rest) :
    s.become a a' = { s with acts := a' ::ₘ rest } := by
  simp [become, remove, add, h]

lemma does_of_go {a : Act} (ha : a ∈ s.acts) (h : s.go a = some s') : Does s (.go a) s' := by
  obtain ⟨rest, hrest⟩ := Multiset.exists_cons_of_mem ha
  cases a with
  | owns b => exact absurd h (by simp [go])
  | waiting b =>
    simp only [go] at h
    split_ifs at h with hl
    cases h
    rw [become_eq (by exact hrest)]
    exact .acquire hrest hl
  | reading b =>
    simp only [go] at h
    split_ifs at h with hv
    · cases h
      rw [become_eq (by exact hrest)]
      exact .hit hrest hv
    · cases h
      rw [become_eq (by exact hrest)]
      exact .request hrest hv
  | io b =>
    simp only [go] at h
    split_ifs at h with hv
    cases h
    rw [become_eq (by exact hrest)]
    exact .done hrest hv.1 hv.2
  | releasing b =>
    cases h
    have heq : (s.release b).remove (.releasing b) = { s.release b with acts := rest } := by
      simp [remove, release, update, hrest]
    rw [heq]
    exact .release hrest

lemma does_of_step {e : Event D} (h : s.step e = some s') : Does s e s' := by
  cases e with
  | bread n =>
    obtain ⟨⟨b, s1⟩, hget, rfl⟩ := Option.map_eq_some_iff.mp h
    exact .bread (gets_of_bget hget)
  | modify b d =>
    simp only [step] at h
    split_ifs at h with ha
    cases h
    exact .modify ha
  | logWrite b =>
    simp only [step] at h
    split_ifs at h with ha
    cases h
    exact .logWrite ha
  | bwrite b =>
    simp only [step] at h
    split_ifs at h with ha
    cases h
    obtain ⟨rest, hrest⟩ := Multiset.exists_cons_of_mem ha
    rw [become_eq (by exact hrest)]
    exact .bwrite hrest
  | brelse b =>
    simp only [step] at h
    split_ifs at h with ha
    cases h
    obtain ⟨rest, hrest⟩ := Multiset.exists_cons_of_mem ha.1
    rw [become_eq (by exact hrest)]
    exact .brelse hrest ha.2
  | go a =>
    simp only [step] at h
    split_ifs at h with ha
    exact does_of_go ha h
  | ideintr =>
    simp only [step, Option.some.injEq] at h
    unfold ideintr at h
    split at h
    · exact h ▸ .idle ‹_›
    · rename_i b queue hq
      dsimp only at h
      split_ifs at h with hd
      · exact h ▸ .wrote hq hd
      · exact h ▸ .read hq hd

end State

end Xv7.Bio
