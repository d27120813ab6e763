import Mathlib

/-!
# The inode cache

`iget`, `idup`, `ilock`, `iunlock`, `iput` and `ialloc` on the inode cache and the inodes of the
disk.  A step is what one process does between two points where it gives up a lock, so that the
others can come in between the test of `iput`, the count of the references, the release of the inode
on the disk, and the end of its own reference.  A reference to an inode is a handle; what its owner
does with it is an activity.  Of the fields of an inode only `type` and `nlink` matter here.
-/

namespace Xv7.Icache

/-- `NINODE`. -/
abbrev NINODE : ℕ := 50

instance : NeZero NINODE := ⟨by decide⟩

/-- An entry of `icache.inode`. -/
abbrev Slot := Fin NINODE

/-- A device and the number of an inode on it. -/
abbrev Id := ℕ × ℕ

/-- An inode on the disk; type 0 is a free inode. -/
structure Dinode where
  type : ℕ
  nlink : ℕ
  deriving DecidableEq, Repr

/-- `struct inode`. -/
structure Inode where
  id : Id
  ref : ℕ
  valid : Bool
  /-- `lock.locked`. -/
  locked : Bool
  /-- `type` and `nlink`. -/
  copy : Dinode
  /-- Which allocation of the inode was read from the disk. -/
  read : ℕ
  deriving DecidableEq, Repr

/-- What is being done with a handle, up to the point where the process goes on. -/
inductive Act where
  /-- Nothing. -/
  | held (p : Slot)
  /-- `ilock` has the lock. -/
  | loading (p : Slot)
  /-- Between `ilock` and `iunlock`. -/
  | locked (p : Slot)
  /-- `iput` was called. -/
  | put (p : Slot)
  /-- `iput` has the lock. -/
  | testing (p : Slot)
  /-- `ip->valid && ip->nlink == 0`. -/
  | counting (p : Slot)
  /-- `r == 1`: `itrunc`, and up to the end of `iupdate`. -/
  | freeing (p : Slot)
  /-- Before `ip->valid = 0`. -/
  | freed (p : Slot)
  /-- Before `releasesleep`. -/
  | unlocking (p : Slot)
  /-- Before `ip->ref--`. -/
  | dropping (p : Slot)
  /-- `ialloc` has marked the inode on the disk and goes on with `iget`. -/
  | allocating (i : Id)
  deriving DecidableEq, Repr

/-- The slot of the handle. -/
def Act.slot : Act → Option Slot
  | held p | loading p | locked p | put p | testing p | counting p | freeing p | freed p
  | unlocking p | dropping p => some p
  | allocating _ => none

/-- The activity has the lock of the inode. -/
def Act.HasLock : Act → Bool
  | loading _ | locked _ | testing _ | counting _ | freeing _ | freed _ | unlocking _ => true
  | held _ | put _ | dropping _ | allocating _ => false

/-- The cache, the inodes of the disk, how often each was allocated, and the activities. -/
structure State where
  inode : Slot → Inode
  disk : Id → Dinode
  born : Id → ℕ
  acts : Multiset Act

/-- What can happen. -/
inductive Event where
  /-- `iget` for a name or the root. -/
  | iget (i : Id)
  /-- `ialloc` finds a free inode and marks it. -/
  | ialloc (i : Id) (type : ℕ)
  | idup (p : Slot)
  /-- `ilock` gets the lock. -/
  | ilock (p : Slot)
  /-- The owner of the lock changes fields. -/
  | set (p : Slot) (d : Dinode)
  | iupdate (p : Slot)
  | iunlock (p : Slot)
  | iput (p : Slot)
  /-- An activity goes on by itself. -/
  | go (a : Act)
  deriving DecidableEq, Repr

namespace State

/-- Change one slot. -/
def modify (s : State) (p : Slot) (f : Inode → Inode) : State :=
  { s with inode := Function.update s.inode p (f (s.inode p)) }

/-- Write an inode of the disk. -/
def write (s : State) (i : Id) (d : Dinode) : State :=
  { s with disk := Function.update s.disk i d }

/-- One more activity. -/
def add (s : State) (a : Act) : State := { s with acts := a ::ₘ s.acts }

/-- An activity is over. -/
def remove (s : State) (a : Act) : State := { s with acts := s.acts.erase a }

/-- An activity goes on as another one. -/
def become (s : State) (a b : Act) : State := (s.remove a).add b

/-- The slot that holds the inode. -/
def cached (s : State) (i : Id) : Option Slot :=
  (List.finRange NINODE).find? fun p => 0 < (s.inode p).ref ∧ (s.inode p).id = i

/-- The first slot that nobody uses. -/
def empty (s : State) : Option Slot := (List.finRange NINODE).find? fun p => (s.inode p).ref = 0

/-- `iget`; without an empty slot it panics. -/
def iget (s : State) (i : Id) : Option (Slot × State) :=
  match s.cached i with
  | some p => some (p, s.modify p fun ip => { ip with ref := ip.ref + 1 })
  | none =>
    match s.empty with
    | some p => some (p, s.modify p fun ip => { ip with id := i, ref := 1, valid := false })
    | none => none

/-- `ip->valid == 0` in `ilock`: read the inode from the disk; it panics on a free one. -/
def load (s : State) (p : Slot) : Option State :=
  if (s.inode p).valid then some s
  else if (s.disk (s.inode p).id).type = 0 then none
  else some (s.modify p fun ip =>
    { ip with copy := s.disk ip.id, valid := true, read := s.born ip.id })

/-- `ip->type = 0; iupdate(ip)`. -/
def free (s : State) (p : Slot) : State :=
  (s.modify p fun ip => { ip with copy := { ip.copy with type := 0 } }).write (s.inode p).id
    { (s.inode p).copy with type := 0 }

/-- The next step of an activity. -/
def go (s : State) : Act → Option State
  | .loading p => (s.load p).map fun s => s.become (.loading p) (.locked p)
  | .put p =>
    if (s.inode p).locked then none
    else some ((s.modify p fun ip => { ip with locked := true }).become (.put p) (.testing p))
  | .testing p =>
    if (s.inode p).valid ∧ (s.inode p).copy.nlink = 0 then
      some (s.become (.testing p) (.counting p))
    else some (s.become (.testing p) (.unlocking p))
  | .counting p =>
    if (s.inode p).ref = 1 then some (s.become (.counting p) (.freeing p))
    else some (s.become (.counting p) (.unlocking p))
  | .freeing p => some ((s.free p).become (.freeing p) (.freed p))
  | .freed p =>
    some ((s.modify p fun ip => { ip with valid := false }).become (.freed p) (.unlocking p))
  | .unlocking p =>
    some ((s.modify p fun ip => { ip with locked := false }).become (.unlocking p) (.dropping p))
  | .dropping p =>
    some ((s.modify p fun ip => { ip with ref := ip.ref - 1 }).remove (.dropping p))
  | .allocating i => (s.iget i).map fun r => r.2.become (.allocating i) (.held r.1)
  | .held _ | .locked _ => none

/-- The machine.  The owner of the lock does not free the inode itself, and has called `iupdate`
before it unlocks. -/
def step (s : State) : Event → Option State
  | .iget i => (s.iget i).map fun r => r.2.add (.held r.1)
  | .ialloc i type =>
    if (s.disk i).type = 0 ∧ type ≠ 0 then
      some { (s.write i ⟨type, 0⟩).add (.allocating i) with
        born := Function.update s.born i (s.born i + 1) }
    else none
  | .idup p =>
    if .held p ∈ s.acts ∨ .locked p ∈ s.acts then
      some ((s.modify p fun ip => { ip with ref := ip.ref + 1 }).add (.held p))
    else none
  | .ilock p =>
    if .held p ∈ s.acts ∧ ¬ (s.inode p).locked then
      some ((s.modify p fun ip => { ip with locked := true }).become (.held p) (.loading p))
    else none
  | .set p d =>
    if .locked p ∈ s.acts ∧ d.type ≠ 0 then some (s.modify p fun ip => { ip with copy := d })
    else none
  | .iupdate p =>
    if .locked p ∈ s.acts then some (s.write (s.inode p).id (s.inode p).copy) else none
  | .iunlock p =>
    if .locked p ∈ s.acts ∧ s.disk (s.inode p).id = (s.inode p).copy then
      some ((s.modify p fun ip => { ip with locked := false }).become (.locked p) (.held p))
    else none
  | .iput p => if .held p ∈ s.acts then some (s.become (.held p) (.put p)) else none
  | .go a => if a ∈ s.acts then s.go a else none

/-- An empty cache over a disk. -/
def init (disk : Id → Dinode) : State where
  inode := fun _ => ⟨(0, 0), 0, false, false, ⟨0, 0⟩, 0⟩
  disk := disk
  born := fun _ => 0
  acts := 0

/-! ## What a step can do -/

/-- What `iget` can do. -/
inductive Gets (s : State) (i : Id) : Slot → State → Prop where
  | hit {p} (href : 0 < (s.inode p).ref) (hid : (s.inode p).id = i) :
    Gets s i p (s.modify p fun ip => { ip with ref := ip.ref + 1 })
  | miss {p} (hnone : ∀ q, 0 < (s.inode q).ref → (s.inode q).id ≠ i) (href : (s.inode p).ref = 0) :
    Gets s i p (s.modify p fun ip => { ip with id := i, ref := 1, valid := false })

lemma cached_eq_some {s : State} {i : Id} {p : Slot} (h : s.cached i = some p) :
    0 < (s.inode p).ref ∧ (s.inode p).id = i :=
  of_decide_eq_true (List.find?_some
    (p := fun p => decide (0 < (s.inode p).ref ∧ (s.inode p).id = i)) h)

lemma cached_eq_none {s : State} {i : Id} (h : s.cached i = none) (p : Slot)
    (href : 0 < (s.inode p).ref) : (s.inode p).id ≠ i := fun hid =>
  List.find?_eq_none.mp h p (List.mem_finRange p) (decide_eq_true ⟨href, hid⟩)

lemma empty_eq_some {s : State} {p : Slot} (h : s.empty = some p) : (s.inode p).ref = 0 :=
  of_decide_eq_true (List.find?_some (p := fun p => decide ((s.inode p).ref = 0)) h)

lemma gets_of_iget {s s' : State} {i : Id} {p : Slot} (h : s.iget i = some (p, s')) :
    Gets s i p s' := by
  unfold iget at h
  split at h
  · rename_i q hq
    cases h
    obtain ⟨href, hid⟩ := cached_eq_some hq
    exact .hit href hid
  · rename_i hnone
    split at h
    · rename_i q hq
      cases h
      exact .miss (cached_eq_none hnone) (empty_eq_some hq)
    · exact absurd h (by simp)

/-- The steps, with what allows them; `rest` are the activities that do not take part. -/
inductive Does (s : State) : Event → State → Prop where
  | iget {i p s₁} (hget : Gets s i p s₁) : Does s (.iget i) (s₁.add (.held p))
  | ialloc {i type} (hfree : (s.disk i).type = 0) (htype : type ≠ 0) :
    Does s (.ialloc i type) { (s.write i ⟨type, 0⟩).add (.allocating i) with
      born := Function.update s.born i (s.born i + 1) }
  | idup {p} (ha : .held p ∈ s.acts ∨ .locked p ∈ s.acts) :
    Does s (.idup p) ((s.modify p fun ip => { ip with ref := ip.ref + 1 }).add (.held p))
  | ilock {p rest} (ha : s.acts = .held p ::ₘ rest) (hl : ¬ (s.inode p).locked) :
    Does s (.ilock p) { s.modify p fun ip => { ip with locked := true } with
      acts := .loading p ::ₘ rest }
  | set {p d} (ha : .locked p ∈ s.acts) (hd : d.type ≠ 0) :
    Does s (.set p d) (s.modify p fun ip => { ip with copy := d })
  | iupdate {p} (ha : .locked p ∈ s.acts) :
    Does s (.iupdate p) (s.write (s.inode p).id (s.inode p).copy)
  | iunlock {p rest} (ha : s.acts = .locked p ::ₘ rest)
    (hd : s.disk (s.inode p).id = (s.inode p).copy) :
    Does s (.iunlock p) { s.modify p fun ip => { ip with locked := false } with
      acts := .held p ::ₘ rest }
  | iput {p rest} (ha : s.acts = .held p ::ₘ rest) :
    Does s (.iput p) { s with acts := .put p ::ₘ rest }
  | reuse {p rest} (ha : s.acts = .loading p ::ₘ rest) (hv : (s.inode p).valid) :
    Does s (.go (.loading p)) { s with acts := .locked p ::ₘ rest }
  | load {p rest} (ha : s.acts = .loading p ::ₘ rest) (hv : ¬ (s.inode p).valid)
    (hd : (s.disk (s.inode p).id).type ≠ 0) :
    Does s (.go (.loading p)) { s.modify p fun ip =>
      { ip with copy := s.disk ip.id, valid := true, read := s.born ip.id } with
        acts := .locked p ::ₘ rest }
  | put {p rest} (ha : s.acts = .put p ::ₘ rest) (hl : ¬ (s.inode p).locked) :
    Does s (.go (.put p)) { s.modify p fun ip => { ip with locked := true } with
      acts := .testing p ::ₘ rest }
  | linkless {p rest} (ha : s.acts = .testing p ::ₘ rest) (hv : (s.inode p).valid)
    (hn : (s.inode p).copy.nlink = 0) :
    Does s (.go (.testing p)) { s with acts := .counting p ::ₘ rest }
  | linked {p rest} (ha : s.acts = .testing p ::ₘ rest) :
    Does s (.go (.testing p)) { s with acts := .unlocking p ::ₘ rest }
  | alone {p rest} (ha : s.acts = .counting p ::ₘ rest) (hr : (s.inode p).ref = 1) :
    Does s (.go (.counting p)) { s with acts := .freeing p ::ₘ rest }
  | shared {p rest} (ha : s.acts = .counting p ::ₘ rest) :
    Does s (.go (.counting p)) { s with acts := .unlocking p ::ₘ rest }
  | free {p rest} (ha : s.acts = .freeing p ::ₘ rest) :
    Does s (.go (.freeing p)) { s.free p with acts := .freed p ::ₘ rest }
  | invalidate {p rest} (ha : s.acts = .freed p ::ₘ rest) :
    Does s (.go (.freed p)) { s.modify p fun ip => { ip with valid := false } with
      acts := .unlocking p ::ₘ rest }
  | unlock {p rest} (ha : s.acts = .unlocking p ::ₘ rest) :
    Does s (.go (.unlocking p)) { s.modify p fun ip => { ip with locked := false } with
      acts := .dropping p ::ₘ rest }
  | drop {p rest} (ha : s.acts = .dropping p ::ₘ rest) :
    Does s (.go (.dropping p)) { s.modify p fun ip => { ip with ref := ip.ref - 1 } with
      acts := rest }
  | allocated {i p s₁ rest} (ha : s.acts = .allocating i ::ₘ rest) (hget : Gets s i p s₁) :
    Does s (.go (.allocating i)) { s₁ with acts := .held p ::ₘ rest }

/-- `iget` leaves the activities alone. -/
lemma Gets.acts_eq {s s' : State} {i : Id} {p : Slot} (h : Gets s i p s') : s'.acts = s.acts := by
  cases h <;> rfl

/-- Of the activities, `become` changes one. -/
lemma become_eq {s : State} {a b : Act} {rest : Multiset Act} (h : s.acts = a ::ₘ rest) :
    s.become a b = { s with acts := b ::ₘ rest } := by
  simp [become, remove, add, h]

lemma does_of_go {s s' : State} {a : Act} (ha : a ∈ s.acts) (h : s.go a = some s') :
    Does s (.go a) s' := by
  obtain ⟨rest, hrest⟩ := Multiset.exists_cons_of_mem ha
  cases a with
  | held p | locked p => exact absurd h (by simp [go])
  | loading p =>
    simp only [go, load] at h
    split_ifs at h with hv hd
    · cases h
      dsimp only
      rw [become_eq (by exact hrest)]
      exact .reuse hrest hv
    · exact absurd h (by simp)
    · cases h
      dsimp only
      rw [become_eq (by exact hrest)]
      exact .load hrest hv hd
  | put p =>
    simp only [go] at h
    split_ifs at h with hl
    cases h
    rw [become_eq (by exact hrest)]
    exact .put hrest hl
  | testing p =>
    simp only [go] at h
    split_ifs at h with hv
    · cases h
      rw [become_eq (by exact hrest)]
      exact .linkless hrest hv.1 hv.2
    · cases h
      rw [become_eq (by exact hrest)]
      exact .linked hrest
  | counting p =>
    simp only [go] at h
    split_ifs at h with hr
    · cases h
      rw [become_eq (by exact hrest)]
      exact .alone hrest hr
    · cases h
      rw [become_eq (by exact hrest)]
      exact .shared hrest
  | freeing p =>
    cases h
    rw [become_eq (by exact hrest)]
    exact .free hrest
  | freed p =>
    cases h
    rw [become_eq (by exact hrest)]
    exact .invalidate hrest
  | unlocking p =>
    cases h
    rw [become_eq (by exact hrest)]
    exact .unlock hrest
  | dropping p =>
    cases h
    have heq : (s.modify p fun ip => { ip with ref := ip.ref - 1 }).remove (.dropping p) =
        { s.modify p fun ip => { ip with ref := ip.ref - 1 } with acts := rest } := by
      simp [remove, modify, hrest]
    rw [heq]
    exact .drop hrest
  | allocating i =>
    obtain ⟨⟨p, s1⟩, hget, rfl⟩ := Option.map_eq_some_iff.mp h
    have hget := gets_of_iget hget
    rw [become_eq (hget.acts_eq.trans hrest)]
    exact .allocated hrest hget

lemma does_of_step {s s' : State} {e : Event} (h : s.step e = some s') : Does s e s' := by
  cases e with
  | iget i =>
    obtain ⟨⟨p, s1⟩, hget, rfl⟩ := Option.map_eq_some_iff.mp h
    exact .iget (gets_of_iget hget)
  | ialloc i type =>
    simp only [step] at h
    split_ifs at h with hi
    cases h
    exact .ialloc hi.1 hi.2
  | idup p =>
    simp only [step] at h
    split_ifs at h with ha
    cases h
    exact .idup ha
  | ilock p =>
    simp only [step] at h
    split_ifs at h with ha
    cases h
    obtain ⟨rest, hrest⟩ := Multiset.exists_cons_of_mem ha.1
    rw [become_eq (by exact hrest)]
    exact .ilock hrest ha.2
  | set p d =>
    simp only [step] at h
    split_ifs at h with ha
    cases h
    exact .set ha.1 ha.2
  | iupdate p =>
    simp only [step] at h
    split_ifs at h with ha
    cases h
    exact .iupdate ha
  | iunlock p =>
    simp only [step] at h
    split_ifs at h with ha
    cases h
    obtain ⟨rest, hrest⟩ := Multiset.exists_cons_of_mem ha.1
    rw [become_eq (by exact hrest)]
    exact .iunlock hrest ha.2
  | iput p =>
    simp only [step] at h
    split_ifs at h with ha
    cases h
    obtain ⟨rest, hrest⟩ := Multiset.exists_cons_of_mem ha
    rw [become_eq (by exact hrest)]
    exact .iput hrest
  | go a =>
    simp only [step] at h
    split_ifs at h with ha
    exact does_of_go ha h

end State

end Xv7.Icache
