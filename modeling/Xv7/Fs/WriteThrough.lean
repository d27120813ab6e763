import Xv7.Fs.Inode
import Xv7.Icache.Model
import Xv7.Lib.Machine

/-!
# The metadata of inodes is not written through

The inode cache should agree with the inodes of the block layer at all times when no inode is locked.
A step is what the system calls do to one inode with its lock: each place that changes a field calls
`iupdate` right after it, except for the timestamps.  `readi` sets `atime` and never writes the inode,
and `writei` sets `mtime` and writes the inode only if the file grows.

`bmap` stores block numbers behind the eleven pointers of a cached inode, in the timestamps, if these
are zero; the events have the block numbers that `balloc` returns.
-/

namespace Xv7.WriteThrough

open Icache (NINODE Slot)

/-- The metadata of an inode. -/
structure Meta where
  type : BitVec 16
  major : BitVec 16
  minor : BitVec 16
  nlink : BitVec 16
  size : BitVec 32
  atime : BitVec 32
  mtime : BitVec 32
  deriving DecidableEq, Repr

namespace Meta

/-- Reading or writing `n` bytes at `off` maps one of the blocks from `lo` to `hi`. -/
def Maps (off n lo hi : ℕ) : Prop := 0 < n ∧ off / BSIZE < hi ∧ lo ≤ (off + n - 1) / BSIZE

instance (off n lo hi : ℕ) : Decidable (Maps off n lo hi) := inferInstanceAs (Decidable (_ ∧ _ ∧ _))

/-- The first block under the doubly indirect block. -/
abbrev DOUBLE : ℕ := NDIRECT + NINDIRECT

/-- The first block under the triply indirect block. -/
abbrev TRIPLE : ℕ := NDIRECT + NINDIRECT + NDINDIRECT

/-- What `bmap` does to the timestamps: `ip->addrs[NDIRECT + 1]` is `atime` and
`ip->addrs[NDIRECT + 2]` is `mtime`, and the blocks `a` and `b` are stored there if they are zero. -/
def bmap (m : Meta) (off n : ℕ) (a b : BitVec 32) : Meta :=
  { m with
    atime := if Maps off n DOUBLE TRIPLE ∧ m.atime = 0 then a else m.atime
    mtime := if Maps off n TRIPLE MAXFILE ∧ m.mtime = 0 then b else m.mtime }

/-- `off > ip->size || off + n < off`. -/
def OutOfRange (m : Meta) (off n : BitVec 32) : Prop := m.size < off ∨ off + n < off

instance (m : Meta) (off n : BitVec 32) : Decidable (m.OutOfRange off n) :=
  inferInstanceAs (Decidable (_ ∨ _))

/-- `readi` at the time `t`. -/
def readi (m : Meta) (t off n a b : BitVec 32) : Meta :=
  let m := { m with atime := t }
  if m.type.toNat = T_DEV then m
  else if m.OutOfRange off n then m
  else m.bmap off.toNat (if m.size < off + n then m.size - off else n).toNat a b

/-- `writei` comes to the blocks. -/
def Writes (m : Meta) (off n : BitVec 32) : Prop :=
  m.type.toNat ≠ T_DEV ∧ ¬ m.OutOfRange off n ∧ (off + n).toNat ≤ MAXFILE * BSIZE

instance (m : Meta) (off n : BitVec 32) : Decidable (m.Writes off n) :=
  inferInstanceAs (Decidable (_ ∧ _ ∧ _))

/-- `writei` makes the file longer. -/
def Grows (m : Meta) (off n : BitVec 32) : Prop := m.Writes off n ∧ 0 < n ∧ m.size < off + n

instance (m : Meta) (off n : BitVec 32) : Decidable (m.Grows off n) :=
  inferInstanceAs (Decidable (_ ∧ _ ∧ _))

/-- `writei` at the time `t`, up to `iupdate`. -/
def writei (m : Meta) (t off n a b : BitVec 32) : Meta :=
  let m := { m with mtime := t }
  if m.Writes off n then
    let m' := m.bmap off.toNat n.toNat a b
    if m.Grows off n then { m' with size := off + n } else m'
  else m

/-- `create` for a new inode. -/
def create (m : Meta) (major minor : BitVec 16) : Meta := { m with major, minor, nlink := 1 }

/-- `ip->nlink++`. -/
def addLink (m : Meta) : Meta := { m with nlink := m.nlink + 1 }

/-- `ip->nlink--`. -/
def dropLink (m : Meta) : Meta := { m with nlink := m.nlink - 1 }

/-- `sys_symlink` for a target of `len` bytes.  The array has 44 bytes, and the zero behind a target
that fills it is the first byte of `atime`. -/
def symlink (m : Meta) (len : ℕ) : Meta :=
  { m with
    size := BitVec.ofNat 32 (min len 44)
    atime := if 44 ≤ len then m.atime &&& ~~~ 0xff else m.atime }

/-- `itrunc`, and `ip->type = 0`.  The timestamps are cleared as pointers. -/
def free (m : Meta) : Meta := { m with type := 0, size := 0, atime := 0, mtime := 0 }

/-- What `ialloc` writes. -/
def fresh (type : BitVec 16) : Meta := ⟨type, 0, 0, 0, 0, 0, 0⟩

end Meta

/-- An entry of the inode cache. -/
structure Entry where
  inum : ℕ
  ref : ℕ
  valid : Bool
  locked : Bool
  info : Meta
  deriving DecidableEq, Repr

/-- The cache, and the inodes of the block layer. -/
structure State where
  inode : Slot → Entry
  dinode : ℕ → Meta

/-- What the calls do to a locked inode before `iupdate`. -/
inductive Change where
  | create (major minor : BitVec 16)
  | addLink
  | dropLink
  | symlink (len : ℕ)
  deriving DecidableEq, Repr

/-- The fields after a change. -/
def Change.apply (m : Meta) : Change → Meta
  | create major minor => m.create major minor
  | addLink => m.addLink
  | dropLink => m.dropLink
  | symlink len => m.symlink len

/-- What can happen. -/
inductive Event where
  | iget (inum : ℕ)
  /-- `ialloc` finds the free inode `inum`. -/
  | ialloc (inum : ℕ) (type : BitVec 16)
  | idup (i : Slot)
  | ilock (i : Slot)
  | iunlock (i : Slot)
  | iput (i : Slot)
  | readi (i : Slot) (t off n a b : BitVec 32)
  | writei (i : Slot) (t off n a b : BitVec 32)
  | change (i : Slot) (c : Change)
  deriving DecidableEq, Repr

namespace State

/-- Change an entry of the cache. -/
def setInode (s : State) (i : Slot) (ip : Entry) : State :=
  { s with inode := Function.update s.inode i ip }

/-- Change the fields of an entry. -/
def assign (s : State) (i : Slot) (m : Meta) : State := s.setInode i { s.inode i with info := m }

/-- Write an inode of the block layer. -/
def setDinode (s : State) (inum : ℕ) (m : Meta) : State :=
  { s with dinode := Function.update s.dinode inum m }

/-- `iupdate`. -/
def iupdate (s : State) (i : Slot) : State := s.setDinode (s.inode i).inum (s.inode i).info

/-- The entry that holds the inode. -/
def cached (s : State) (inum : ℕ) : Option Slot :=
  (List.finRange NINODE).find? fun i => 0 < (s.inode i).ref ∧ (s.inode i).inum = inum

/-- The first entry that nobody uses. -/
def empty (s : State) : Option Slot := (List.finRange NINODE).find? fun i => (s.inode i).ref = 0

/-- `iget`; without an empty entry it panics. -/
def iget (s : State) (inum : ℕ) : Option State :=
  match s.cached inum with
  | some i => some (s.setInode i { s.inode i with ref := (s.inode i).ref + 1 })
  | none => s.empty.map fun i => s.setInode i { s.inode i with inum, ref := 1, valid := false }

/-- `ilock`, with the lock: the inode is read if it was not; it panics on a free one. -/
def ilock (s : State) (i : Slot) : Option State :=
  let ip := s.inode i
  if ip.valid then some (s.setInode i { ip with locked := true })
  else if (s.dinode ip.inum).type = 0 then none
  else some (s.setInode i { ip with locked := true, valid := true, info := s.dinode ip.inum })

/-- `iput`, when nobody has the lock. -/
def iput (s : State) (i : Slot) : State :=
  let ip := s.inode i
  if ip.valid ∧ ip.info.nlink = 0 ∧ ip.ref = 1 then
    ((s.assign i ip.info.free).iupdate i).setInode i
      { ip with info := ip.info.free, valid := false, ref := 0 }
  else s.setInode i { ip with ref := ip.ref - 1 }

/-- A step. -/
def step (s : State) : Event → Option State
  | .iget inum => s.iget inum
  | .ialloc inum type =>
    if (s.dinode inum).type = 0 ∧ type ≠ 0 then (s.setDinode inum (.fresh type)).iget inum else none
  | .idup i =>
    if 0 < (s.inode i).ref then some (s.setInode i { s.inode i with ref := (s.inode i).ref + 1 })
    else none
  | .ilock i => if 0 < (s.inode i).ref ∧ (s.inode i).locked = false then s.ilock i else none
  | .iunlock i =>
    if (s.inode i).locked then some (s.setInode i { s.inode i with locked := false }) else none
  | .iput i => if 0 < (s.inode i).ref ∧ (s.inode i).locked = false then some (s.iput i) else none
  | .readi i t off n a b =>
    if (s.inode i).locked ∧ a ≠ 0 ∧ b ≠ 0 then some (s.assign i ((s.inode i).info.readi t off n a b))
    else none
  | .writei i t off n a b =>
    if (s.inode i).locked ∧ a ≠ 0 ∧ b ≠ 0 then
      let s' := s.assign i ((s.inode i).info.writei t off n a b)
      if (s.inode i).info.Grows off n then some (s'.iupdate i) else some s'
    else none
  | .change i c =>
    if (s.inode i).locked then some ((s.assign i (c.apply (s.inode i).info)).iupdate i) else none

/-- After boot no inode is cached. -/
def init (dinode : ℕ → Meta) : State where
  inode _ := ⟨0, 0, false, false, .fresh 0⟩
  dinode := dinode

end State

/-- Every valid entry agrees with the block layer. -/
def Agrees (s : State) : Prop :=
  ∀ i, 0 < (s.inode i).ref → (s.inode i).valid = true →
    (s.inode i).info = s.dinode (s.inode i).inum

/-- No inode is locked. -/
def Unlocked (s : State) : Prop := ∀ i, (s.inode i).locked = false

instance (s : State) : Decidable (Unlocked s) := inferInstanceAs (Decidable (∀ _, _))

/-- `readi` finds the time that is `atime` already, and `bmap` no timestamp to store to. -/
def Meta.ReadsInTime (m : Meta) (t off n : BitVec 32) : Prop :=
  t = m.atime ∧ (m.type.toNat ≠ T_DEV → ¬ m.OutOfRange off n →
    let len := (if m.size < off + n then m.size - off else n).toNat
    ¬ (Maps off.toNat len DOUBLE TRIPLE ∧ m.atime = 0) ∧
      ¬ (Maps off.toNat len TRIPLE MAXFILE ∧ m.mtime = 0))

/-- The same for `writei`. -/
def Meta.WritesInTime (m : Meta) (t off n : BitVec 32) : Prop :=
  t = m.mtime ∧ (m.Writes off n → ¬ (Maps off.toNat n.toNat DOUBLE TRIPLE ∧ m.atime = 0) ∧
    ¬ (Maps off.toNat n.toNat TRIPLE MAXFILE ∧ m.mtime = 0))

/-- An inode is read only at the time that is its `atime`, and written only so that the file grows or
at the time that is its `mtime`. -/
def InTime (s : State) : Event → Prop
  | .readi i t off n _ _ => (s.inode i).info.ReadsInTime t off n
  | .writei i t off n _ _ =>
    (s.inode i).info.Grows off n ∨ (s.inode i).info.WritesInTime t off n
  | _ => True

/-- The clock of the step is at zero. -/
def Event.AtZero : Event → Prop
  | .readi _ t _ _ _ _ | .writei _ t _ _ _ _ => t = 0
  | _ => False

/-! ## Steps that change nothing -/

section

variable {m : Meta} {t off n a b : BitVec 32}

lemma Meta.bmap_eq_self {off n : ℕ}
    (h : ¬ (Maps off n DOUBLE TRIPLE ∧ m.atime = 0) ∧ ¬ (Maps off n TRIPLE MAXFILE ∧ m.mtime = 0)) :
    m.bmap off n a b = m := by
  rw [Meta.bmap, if_neg h.1, if_neg h.2]

lemma Meta.readi_eq_self (h : m.ReadsInTime t off n) : m.readi t off n a b = m := by
  obtain ⟨rfl, hmap⟩ := h
  unfold Meta.readi
  simp only
  split_ifs with hdev hout hlen
  · rfl
  · rfl
  · have := hmap hdev hout
    simp only [if_pos hlen] at this
    exact Meta.bmap_eq_self this
  · have := hmap hdev hout
    simp only [if_neg hlen] at this
    exact Meta.bmap_eq_self this

lemma Meta.writei_eq_self (hgrows : ¬ m.Grows off n) (h : m.WritesInTime t off n) :
    m.writei t off n a b = m := by
  obtain ⟨rfl, hmap⟩ := h
  unfold Meta.writei
  simp only
  split_ifs with hwrites
  · exact Meta.bmap_eq_self (hmap hwrites)
  · rfl

/-- Away from time zero, `readi` that is not in time changes a timestamp. -/
lemma Meta.readi_ne_self (ht : t ≠ 0) (hb : b ≠ 0) (h : ¬ m.ReadsInTime t off n) :
    m.readi t off n a b ≠ m := by
  intro heq
  have hatime : (m.readi t off n a b).atime = t := by
    unfold Meta.readi
    simp only
    split_ifs
    · rfl
    · rfl
    · exact if_neg fun hzero => ht hzero.2
    · exact if_neg fun hzero => ht hzero.2
  have htime : t = m.atime := hatime.symm.trans (congrArg Meta.atime heq)
  subst htime
  refine h ⟨rfl, fun hdev hout => ⟨fun hzero => ht hzero.2, fun hzero => hb ?_⟩⟩
  have hmtime : (m.readi m.atime off n a b).mtime = m.mtime := congrArg Meta.mtime heq
  unfold Meta.readi at hmtime
  simp only [if_neg hdev] at hmtime
  rw [if_neg (by exact hout)] at hmtime
  have hset := hmtime
  simp only [Meta.bmap] at hset
  rw [if_pos hzero] at hset
  exact hset.trans hzero.2

/-- The same for `writei` that does not make the file longer. -/
lemma Meta.writei_ne_self (ht : t ≠ 0) (ha : a ≠ 0) (hgrows : ¬ m.Grows off n)
    (h : ¬ m.WritesInTime t off n) : m.writei t off n a b ≠ m := by
  intro heq
  have hgrows' : ¬ ({ m with mtime := t } : Meta).Grows off n := hgrows
  have hmtime : (m.writei t off n a b).mtime = t := by
    unfold Meta.writei
    simp only [if_neg hgrows']
    split_ifs
    · exact if_neg fun hzero => ht hzero.2
    · rfl
  have htime : t = m.mtime := hmtime.symm.trans (congrArg Meta.mtime heq)
  subst htime
  refine h ⟨rfl, fun hwrites => ⟨fun hzero => ha ?_, fun hzero => ht hzero.2⟩⟩
  have hatime : (m.writei m.mtime off n a b).atime = m.atime := congrArg Meta.atime heq
  unfold Meta.writei at hatime
  simp only [if_neg hgrows'] at hatime
  rw [if_pos (by exact hwrites)] at hatime
  simp only [Meta.bmap] at hatime
  rw [if_pos hzero] at hatime
  exact hatime.trans hzero.2

lemma Meta.type_writei : (m.writei t off n a b).type = m.type := by
  unfold Meta.writei
  simp only
  split_ifs <;> rfl

lemma Change.type_apply (c : Change) : (c.apply m).type = m.type := by
  cases c <;> rfl

end

/-! ## The invariant -/

/-- What is kept along a run in time. -/
structure Coherent (s : State) : Prop where
  /-- An inode is in one entry. -/
  unique : ∀ i j, 0 < (s.inode i).ref → 0 < (s.inode j).ref → (s.inode i).inum = (s.inode j).inum →
    i = j
  /-- The inode of a valid entry is allocated. -/
  typed : ∀ i, 0 < (s.inode i).ref → (s.inode i).valid = true → (s.inode i).info.type ≠ 0
  locked : ∀ i, (s.inode i).locked = true → 0 < (s.inode i).ref ∧ (s.inode i).valid = true
  agrees : Agrees s

section

variable {s s' : State} {i j : Slot} {m : Meta} {ip : Entry} {inum : ℕ} {e : Event}

lemma inode_setInode : (s.setInode i ip).inode j = if j = i then ip else s.inode j :=
  Function.update_apply ..

lemma dinode_setDinode {k : ℕ} : (s.setDinode inum m).dinode k = if k = inum then m else s.dinode k :=
  Function.update_apply ..

/-- An entry changes and still agrees. -/
lemma Coherent.setInode (h : Coherent s)
    (huse : 0 < ip.ref → (0 < (s.inode i).ref ∧ ip.inum = (s.inode i).inum) ∨
      ∀ j, 0 < (s.inode j).ref → (s.inode j).inum ≠ ip.inum)
    (htyped : 0 < ip.ref → ip.valid = true → ip.info.type ≠ 0)
    (hlocked : ip.locked = true → 0 < ip.ref ∧ ip.valid = true)
    (hagrees : 0 < ip.ref → ip.valid = true → ip.info = s.dinode ip.inum) :
    Coherent (s.setInode i ip) := by
  -- an entry that is in use has the inode of no other entry
  have hother : ∀ j, j ≠ i → 0 < ip.ref → 0 < (s.inode j).ref → ip.inum ≠ (s.inode j).inum := by
    intro j hj hip hsj heq
    rcases huse hip with ⟨hi, hinum⟩ | hnew
    · exact hj (h.unique j i hsj hi (heq.symm.trans hinum))
    · exact hnew j hsj heq.symm
  refine ⟨fun j k hj hk heq => ?_, fun j hj hv => ?_, fun j hl => ?_, fun j hj hv => ?_⟩
  · rw [inode_setInode] at hj hk heq
    rw [inode_setInode] at heq
    split_ifs at hj hk heq with h1 h2 h2
    · rw [h1, h2]
    · exact absurd heq (hother k h2 hj hk)
    · exact absurd heq.symm (hother j h1 hk hj)
    · exact h.unique j k hj hk heq
  · rw [inode_setInode] at hj hv ⊢
    split_ifs at hj hv ⊢
    · exact htyped hj hv
    · exact h.typed j hj hv
  · rw [inode_setInode] at hl ⊢
    split_ifs at hl ⊢
    · exact hlocked hl
    · exact h.locked j hl
  · rw [inode_setInode] at hj hv ⊢
    split_ifs at hj hv ⊢
    · exact hagrees hj hv
    · exact h.agrees j hj hv

/-- The references and the lock of an entry change. -/
lemma Coherent.setRef (h : Coherent s) {ref : ℕ} {locked : Bool} (href : 0 < ref → 0 < (s.inode i).ref)
    (hlocked : locked = true → 0 < ref ∧ (s.inode i).valid = true) :
    Coherent (s.setInode i { s.inode i with ref, locked }) :=
  h.setInode (fun hr => Or.inl ⟨href hr, rfl⟩) (fun hr hv => h.typed i (href hr) hv) hlocked
    fun hr hv => h.agrees i (href hr) hv

/-- The fields of a locked inode change, and are written. -/
lemma Coherent.update (h : Coherent s) (hl : (s.inode i).locked = true)
    (hm : m.type = (s.inode i).info.type) : Coherent ((s.assign i m).iupdate i) := by
  obtain ⟨href, hvalid⟩ := h.locked i hl
  have hself : ((s.assign i m).inode i) = { s.inode i with info := m } := Function.update_self ..
  have hinode : ∀ j, (((s.assign i m).iupdate i).inode j) =
      if j = i then { s.inode i with info := m } else s.inode j := fun j => inode_setInode
  have hdinode : ∀ k, (((s.assign i m).iupdate i).dinode k) =
      if k = (s.inode i).inum then m else s.dinode k := by
    intro k
    rw [State.iupdate, dinode_setDinode, hself]
    rfl
  refine ⟨fun j k hj hk heq => ?_, fun j hj hv => ?_, fun j hlj => ?_, fun j hj hv => ?_⟩
  · rw [hinode] at hj hk heq
    rw [hinode] at heq
    refine h.unique j k ?_ ?_ ?_
    · split_ifs at hj with h1
      · exact h1 ▸ hj
      · exact hj
    · split_ifs at hk with h1
      · exact h1 ▸ hk
      · exact hk
    · split_ifs at heq with h1 h2 h2
      · rw [h1, h2]
      · rw [h1]
        exact heq
      · rw [h2]
        exact heq
      · exact heq
  · rw [hinode] at hj hv ⊢
    split_ifs at hj hv ⊢
    · rw [hm]
      exact h.typed i href hvalid
    · exact h.typed j hj hv
  · rw [hinode] at hlj ⊢
    split_ifs at hlj ⊢
    · exact ⟨href, hvalid⟩
    · exact h.locked j hlj
  · rw [hinode] at hj hv ⊢
    rw [hdinode]
    split_ifs at hj hv ⊢ with h1 h2 h2
    · rfl
    · exact absurd rfl h2
    · exact absurd (h.unique j i hj href h2) h1
    · exact h.agrees j hj hv

/-- An inode that no valid entry holds is written. -/
lemma Coherent.setDinode (h : Coherent s)
    (hinum : ∀ i, 0 < (s.inode i).ref → (s.inode i).valid = true → (s.inode i).inum ≠ inum) :
    Coherent (s.setDinode inum m) where
  unique := h.unique
  typed := h.typed
  locked := h.locked
  agrees i hr hv := by
    rw [dinode_setDinode]
    exact (h.agrees i hr hv).trans (if_neg (hinum i hr hv)).symm

lemma cached_eq_none (h : s.cached inum = none) (hr : 0 < (s.inode j).ref) :
    (s.inode j).inum ≠ inum := by
  have := List.find?_eq_none.mp h j (List.mem_finRange j)
  simpa [hr] using this

lemma Coherent.iget (h : Coherent s) (hs' : s.iget inum = some s') : Coherent s' := by
  rw [State.iget] at hs'
  rcases hc : s.cached inum with _ | i
  · rw [hc] at hs'
    obtain ⟨i, hi, rfl⟩ := Option.map_eq_some_iff.mp hs'
    have hfree : (s.inode i).ref = 0 := by simpa using List.find?_some hi
    refine h.setInode (fun _ => Or.inr fun j hj => cached_eq_none hc hj) (fun _ hv => nomatch hv)
      (fun hl => ?_) fun _ hv => nomatch hv
    have hpos := (h.locked i hl).1
    omega
  · rw [hc, Option.some.injEq] at hs'
    subst hs'
    have hpos : 0 < (s.inode i).ref := (by simpa using List.find?_some hc : _ ∧ _).1
    exact h.setRef (fun _ => hpos) fun hl => ⟨Nat.succ_pos _, (h.locked i hl).2⟩

lemma Coherent.ilock (h : Coherent s) (hr : 0 < (s.inode i).ref) (hs' : s.ilock i = some s') :
    Coherent s' := by
  rw [State.ilock] at hs'
  split_ifs at hs' with hvalid htype <;> rw [Option.some.injEq] at hs' <;> subst hs'
  · exact h.setRef id fun _ => ⟨hr, hvalid⟩
  · exact h.setInode (fun _ => Or.inl ⟨hr, rfl⟩) (fun _ _ => htype) (fun _ => ⟨hr, rfl⟩) fun _ _ => rfl

lemma Coherent.iput (h : Coherent s) (hr : 0 < (s.inode i).ref) (hl : (s.inode i).locked = false) :
    Coherent (s.iput i) := by
  rw [State.iput]
  split_ifs with hfree
  · obtain ⟨hvalid, hnlink, hone⟩ := hfree
    -- the entry is given up first, and then no entry has the inode
    have hdrop : Coherent (s.setInode i { s.inode i with
        info := (s.inode i).info.free, valid := false, ref := 0 }) :=
      h.setInode (fun h0 => absurd h0 (lt_irrefl 0)) (fun h0 => absurd h0 (lt_irrefl 0))
        (fun hlock => by rw [hl] at hlock; exact nomatch hlock) fun h0 => absurd h0 (lt_irrefl 0)
    have hset := hdrop.setDinode (m := (s.inode i).info.free) fun j hj hv => by
      rw [inode_setInode] at hj ⊢
      by_cases hji : j = i
      · rw [if_pos hji] at hj
        exact absurd hj (lt_irrefl 0)
      · rw [if_neg hji] at hj ⊢
        exact fun heq => hji (h.unique j i hj hr heq)
    have heq : ((s.assign i (s.inode i).info.free).iupdate i).setInode i { s.inode i with
        info := (s.inode i).info.free, valid := false, ref := 0 } =
        (s.setInode i { s.inode i with info := (s.inode i).info.free, valid := false, ref := 0 }).setDinode
          (s.inode i).inum (s.inode i).info.free := by
      simp only [State.setInode, State.assign, State.iupdate, State.setDinode, Function.update_self,
        Function.update_idem]
    rw [heq]
    exact hset
  · refine h.setRef (fun _ => hr) fun hlock => ?_
    rw [hl] at hlock
    exact nomatch hlock

/-- A step in time keeps the invariant. -/
lemma Coherent.step (h : Coherent s) (htime : InTime s e) (hs' : s.step e = some s') : Coherent s' := by
  have hassign : ∀ i : Slot, s.assign i (s.inode i).info = s := fun i => by
    simp only [State.assign, State.setInode, Function.update_eq_self]
  cases e with
  | iget inum => exact h.iget hs'
  | ialloc inum type =>
    rw [State.step] at hs'
    split_ifs at hs' with hfree
    refine Coherent.iget (h.setDinode fun i hr hv heq => ?_) hs'
    have := h.typed i hr hv
    rw [h.agrees i hr hv, heq] at this
    exact this hfree.1
  | idup i =>
    rw [State.step] at hs'
    split_ifs at hs' with hr
    rw [Option.some.injEq] at hs'
    subst hs'
    exact h.setRef (fun _ => hr) fun hl => ⟨Nat.succ_pos _, (h.locked i hl).2⟩
  | ilock i =>
    rw [State.step] at hs'
    split_ifs at hs' with hr
    exact h.ilock hr.1 hs'
  | iunlock i =>
    rw [State.step] at hs'
    split_ifs at hs' with hl
    rw [Option.some.injEq] at hs'
    subst hs'
    exact h.setRef id fun hf => nomatch hf
  | iput i =>
    rw [State.step] at hs'
    split_ifs at hs' with hr
    rw [Option.some.injEq] at hs'
    exact hs' ▸ h.iput hr.1 hr.2
  | readi i t off n a b =>
    rw [State.step] at hs'
    split_ifs at hs' with hl
    rw [Option.some.injEq, Meta.readi_eq_self htime, hassign] at hs'
    exact hs' ▸ h
  | writei i t off n a b =>
    rw [State.step] at hs'
    simp only at hs'
    split_ifs at hs' with hl hgrows <;> rw [Option.some.injEq] at hs'
    · exact hs' ▸ h.update hl.1 Meta.type_writei
    · rw [Meta.writei_eq_self hgrows (htime.resolve_left hgrows), hassign] at hs'
      exact hs' ▸ h
  | change i c =>
    rw [State.step] at hs'
    split_ifs at hs' with hl
    rw [Option.some.injEq] at hs'
    exact hs' ▸ h.update hl (c.type_apply)

lemma coherent_init (dinode : ℕ → Meta) : Coherent (.init dinode) where
  unique _ _ h := absurd h (lt_irrefl 0)
  typed _ h := absurd h (lt_irrefl 0)
  locked _ h := nomatch h
  agrees _ h := absurd h (lt_irrefl 0)

/-! ## Steps that are not in time -/

/-- A step that is not in time leaves a valid entry that does not agree. -/
lemma Coherent.not_agrees (h : Coherent s) (htime : ¬ InTime s e) (hzero : ¬ e.AtZero)
    (hs' : s.step e = some s') : ¬ Agrees s' := by
  have hne : ∀ {i m}, (s.inode i).locked = true → m ≠ (s.inode i).info → ¬ Agrees (s.assign i m) := by
    intro i m hl hm hagrees
    obtain ⟨href, hvalid⟩ := h.locked i hl
    have hself : (s.assign i m).inode i = { s.inode i with info := m } := Function.update_self ..
    have := hagrees i (by rw [hself]; exact href) (by rw [hself]; exact hvalid)
    rw [hself] at this
    exact hm (this.trans (h.agrees i href hvalid).symm)
  cases e with
  | readi i t off n a b =>
    rw [State.step] at hs'
    split_ifs at hs' with hl
    rw [Option.some.injEq] at hs'
    exact hs' ▸ hne hl.1 (Meta.readi_ne_self hzero hl.2.2 htime)
  | writei i t off n a b =>
    rw [State.step] at hs'
    simp only at hs'
    split_ifs at hs' with hl hgrows
    · exact absurd (Or.inl hgrows) htime
    · rw [Option.some.injEq] at hs'
      exact hs' ▸ hne hl.1 (Meta.writei_ne_self hzero hl.2.1 hgrows fun hw => htime (Or.inr hw))
  | iget | ialloc | idup | ilock | iunlock | iput | change => exact absurd trivial htime

/-- All locks can be given up. -/
lemma exec_unlock (s : State) (is : List Slot) (his : is.Nodup) : ∃ tr,
    Machine.exec State.step s tr = some { s with
      inode := fun i => if i ∈ is then { s.inode i with locked := false } else s.inode i } := by
  induction is with
  | nil => exact ⟨[], by simp⟩
  | cons i is ih =>
    obtain ⟨tr, htr⟩ := ih (List.nodup_cons.mp his).2
    have hnot := (List.nodup_cons.mp his).1
    by_cases hl : (s.inode i).locked = true
    · refine ⟨tr ++ [.iunlock i], Machine.exec_concat_eq_some.mpr ⟨_, htr, ?_⟩⟩
      rw [State.step, if_pos (by simp [hnot, hl]), State.setInode]
      congr 2
      funext j
      rw [Function.update_apply]
      by_cases hj : j = i
      · simp [hj, hnot]
      · simp [hj]
    · refine ⟨tr, htr.trans ?_⟩
      congr 2
      funext j
      by_cases hj : j = i
      · subst hj
        have hfalse : (s.inode j).locked = false := by simpa using hl
        simp only [List.mem_cons, true_or, if_true, if_neg hnot]
        rw [← hfalse]
      · simp [hj]

/-- What disagrees still does when no inode is locked any more. -/
lemma exec_unlocked (h : ¬ Agrees s) :
    ∃ tr t, Machine.exec State.step s tr = some t ∧ Unlocked t ∧ ¬ Agrees t := by
  obtain ⟨tr, htr⟩ := exec_unlock s (List.finRange NINODE) (List.nodup_finRange NINODE)
  refine ⟨tr, _, htr, fun i => by simp, fun hagrees => h fun i hr hv => ?_⟩
  simpa [hr, hv] using hagrees i

end

/-- In every run in time the cache agrees with the block layer, in every state.  And the condition is
exact: as soon as a step is not in time (and the clock is not at zero), the run can be continued to a
state in which no inode is locked and an entry does not agree. -/
theorem agrees_of_inTime (dinode : ℕ → Meta) {tr : List Event} {s : State}
    (hrun : Machine.exec State.step (.init dinode) tr = some s)
    (htime : Machine.Meets State.step InTime (.init dinode) tr) :
    Agrees s ∧ ∀ e s', ¬ InTime s e → ¬ e.AtZero → s.step e = some s' →
      ∃ tr' t, Machine.exec State.step s' tr' = some t ∧ Unlocked t ∧ ¬ Agrees t := by
  have hinv : Coherent s :=
    Machine.exec_induction_of_meets (motive := fun _ s => Coherent s) (coherent_init dinode)
      (fun _ _ _ _ _ h htime hstep => h.step htime hstep) hrun htime
  exact ⟨hinv.agrees, fun e s' hnot hzero hs' => exec_unlocked (hinv.not_agrees hnot hzero hs')⟩

/-- A disk with one file of 5 bytes that was read and written at time 7. -/
def oneFile (inum : ℕ) : Meta := if inum = 1 then ⟨2, 0, 0, 1, 5, 7, 7⟩ else .fresh 0

/-- The file is opened, made longer at time 9, and closed. -/
theorem agrees_of_inTime_append : ∃ s,
    Machine.exec State.step (.init oneFile)
      [.iget 1, .ilock 0, .writei 0 9 5 1 1 1, .iunlock 0, .iput 0] = some s ∧ Agrees s := by
  have hmeets : Machine.Meets State.step InTime (.init oneFile)
      [.iget 1, .ilock 0, .writei 0 9 5 1 1 1, .iunlock 0, .iput 0] := by
    refine ⟨trivial, fun _ h₁ => ⟨trivial, fun _ h₂ => ⟨Or.inl ?_, fun _ _ => ⟨trivial, fun _ _ =>
      ⟨trivial, fun _ _ => trivial⟩⟩⟩⟩⟩
    cases h₁
    cases h₂
    decide +kernel
  exact ⟨_, rfl, (agrees_of_inTime _ rfl hmeets).1⟩

/-- The file is read at time 8. -/
theorem read_not_agrees : ∃ s,
    Machine.exec State.step (.init oneFile)
      [.iget 1, .ilock 0, .readi 0 8 0 1 1 1, .iunlock 0] = some s ∧ Unlocked s ∧ ¬ Agrees s := by
  refine ⟨_, rfl, by decide +kernel, fun hagrees => ?_⟩
  exact absurd (hagrees 0 (by decide +kernel) (by decide +kernel)) (by decide +kernel)

end Xv7.WriteThrough
