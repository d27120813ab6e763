import Xv7.Fs.Inode
import Xv7.Icache.Model
import Xv7.Lib.Activity
import Xv7.Lib.Machine

/-!
# Safety of the inode cache

An inode has one slot, the references of a slot are its handles, an inode is freed by the owner of
its only handle, and what is used after `ilock` was read after the inode was allocated.  All of it
rests on one condition: `iget` is called for inodes that have links.  An inode that is in a directory
and has no links, as `sys_symlink` leaves it, can be freed while another process looks it up.
-/

namespace Xv7.Icache

open State

variable {s s' : State} {e : Event} {a b : Act} {acts rest : Multiset Act} {p q : Slot} {i : Id}

/-- The activity relies on the inode being in use on the disk. -/
def Act.Needs : Act → Bool
  | held _ | loading _ | locked _ | put _ | testing _ | counting _ | freeing _ => true
  | freed _ | unlocking _ | dropping _ | allocating _ => false

/-- The number of handles to a slot. -/
abbrev uses (acts : Multiset Act) (p : Slot) : ℕ := Activity.uses Act.slot acts p

/-- The number of owners of the lock of a slot. -/
abbrev locks (acts : Multiset Act) (p : Slot) : ℕ := Activity.locks Act.slot Act.HasLock acts p

@[grind =] lemma modify_inode (s : State) (p q : Slot) (f : Inode → Inode) :
    (s.modify p f).inode q = if q = p then f (s.inode p) else s.inode q := by
  by_cases h : q = p
  · subst h
    simp [State.modify]
  · simp [State.modify, h]

@[grind =] lemma modify_disk (s : State) (p : Slot) (f : Inode → Inode) :
    (s.modify p f).disk = s.disk := rfl

@[grind =] lemma modify_born (s : State) (p : Slot) (f : Inode → Inode) :
    (s.modify p f).born = s.born := rfl

@[grind =] lemma modify_acts (s : State) (p : Slot) (f : Inode → Inode) :
    (s.modify p f).acts = s.acts := rfl

@[grind =] lemma write_inode (s : State) (i : Id) (d : Dinode) : (s.write i d).inode = s.inode := rfl

@[grind =] lemma write_disk (s : State) (i j : Id) (d : Dinode) :
    (s.write i d).disk j = if j = i then d else s.disk j :=
  Function.update_apply ..

@[grind =] lemma write_born (s : State) (i : Id) (d : Dinode) : (s.write i d).born = s.born := rfl

@[grind =] lemma write_acts (s : State) (i : Id) (d : Dinode) : (s.write i d).acts = s.acts := rfl

@[grind =] lemma free_inode (s : State) (p q : Slot) :
    (s.free p).inode q = if q = p then
      { s.inode p with copy := { (s.inode p).copy with type := 0 } } else s.inode q :=
  modify_inode s p q fun ip => { ip with copy := { ip.copy with type := 0 } }

@[grind =] lemma free_disk (s : State) (p : Slot) (j : Id) :
    (s.free p).disk j = if j = (s.inode p).id then { (s.inode p).copy with type := 0 }
      else s.disk j :=
  write_disk _ _ _ _

@[grind =] lemma free_born (s : State) (p : Slot) : (s.free p).born = s.born := rfl

/-- The counts of the cache are those of the activities. -/
structure Counts (s : State) : Prop where
  unique : ∀ p q, 0 < (s.inode p).ref → 0 < (s.inode q).ref → (s.inode p).id = (s.inode q).id →
    p = q
  ref : ∀ p, (s.inode p).ref = uses s.acts p
  lock : ∀ p, locks s.acts p = if (s.inode p).locked then 1 else 0

/-- What an activity knows about its inode. -/
structure Knows (s : State) : Prop where
  locked : ∀ p, .locked p ∈ s.acts → (s.inode p).valid
  counting : ∀ p, .counting p ∈ s.acts → (s.inode p).valid ∧ (s.inode p).copy.nlink = 0
  freeing : ∀ p, .freeing p ∈ s.acts → (s.inode p).valid ∧ (s.inode p).copy.nlink = 0 ∧
    (s.inode p).ref = 1
  freed : ∀ p, .freed p ∈ s.acts → (s.inode p).copy.nlink = 0
  needs : ∀ a ∈ s.acts, ∀ p, a.slot = some p → a.Needs → (s.disk (s.inode p).id).type ≠ 0

/-- What a copy says about the disk. -/
structure Copies (s : State) : Prop where
  loaded : ∀ p, 0 < (s.inode p).ref → (s.inode p).valid → .freed p ∉ s.acts →
    (s.inode p).copy.type ≠ 0 ∧ (s.inode p).read = s.born (s.inode p).id ∧
      (s.disk (s.inode p).id).type ≠ 0
  synced : ∀ p, 0 < (s.inode p).ref → (s.inode p).valid → .freed p ∉ s.acts →
    .locked p ∉ s.acts → s.disk (s.inode p).id = (s.inode p).copy
  linked : ∀ i, 0 < (s.disk i).nlink → (s.disk i).type ≠ 0

/-- An inode that `ialloc` has marked is not in use, except by the `iput` that has freed it. -/
structure Marks (s : State) : Prop where
  disk : ∀ i, .allocating i ∈ s.acts → (s.disk i).type ≠ 0 ∧ (s.disk i).nlink = 0
  unused : ∀ i, .allocating i ∈ s.acts → ∀ a ∈ s.acts, ∀ p, a.slot = some p →
    (s.inode p).id = i → ¬ a.Needs
  invalid : ∀ i, .allocating i ∈ s.acts → ∀ p, 0 < (s.inode p).ref → (s.inode p).id = i →
    (s.inode p).valid → .freed p ∈ s.acts
  once : ∀ i, s.acts.count (.allocating i) ≤ 1

/-- What is kept along a run. -/
structure Inv (s : State) : Prop where
  counts : Counts s
  knows : Knows s
  copies : Copies s
  marks : Marks s

/-! ### Exclusion -/

/-- Two activities with the lock of a slot are one. -/
lemma Counts.lock_excl (h : Counts s) (ha : a ∈ s.acts) (hb : b ∈ s.acts) (hap : a.slot = some p)
    (hbp : b.slot = some p) (hal : a.HasLock) (hbl : b.HasLock) : a = b :=
  Activity.eq_of_locks_le_one ((h.lock p).le.trans (by split_ifs <;> omega)) ha hb hap hbp hal hbl

/-- Two handles to a slot with one reference are one. -/
lemma Counts.ref_excl (h : Counts s) (ha : a ∈ s.acts) (hb : b ∈ s.acts) (hap : a.slot = some p)
    (hbp : b.slot = some p) (hp : (s.inode p).ref = 1) : a = b :=
  Activity.eq_of_uses_eq_one ((h.ref p).symm.trans hp) ha hb hap hbp

/-- A slot with a handle is in use. -/
lemma Counts.ref_pos (h : Counts s) (ha : a ∈ s.acts) (hap : a.slot = some p) :
    0 < (s.inode p).ref := by
  rw [h.ref p]
  exact Activity.uses_pos ha hap

/-- While a slot is locked, `iput` does not free its inode. -/
lemma Counts.not_mem_of_locked (h : Counts s) (ha : .locked p ∈ s.acts) :
    .counting p ∉ s.acts ∧ .freeing p ∉ s.acts ∧ .freed p ∉ s.acts := by
  refine ⟨fun hb => ?_, fun hb => ?_, fun hb => ?_⟩ <;>
    exact Act.noConfusion (h.lock_excl ha hb rfl rfl rfl rfl)

/-! ### Steps that change a lock at most -/

section Replace

variable {l : Bool}

lemma Counts.replace (h : Counts s) (ha : s.acts = a ::ₘ rest) (hslot : a.slot = some p)
    (hslot' : b.slot = some p)
    (hl : a.HasLock = b.HasLock ∧ l = (s.inode p).locked ∨
      (a.HasLock ∨ ¬ (s.inode p).locked) ∧ l = b.HasLock) :
    Counts { s.modify p fun ip => { ip with locked := l } with acts := b ::ₘ rest } := by
  obtain ⟨h1, h2, h3⟩ := h
  rw [ha] at h2 h3
  refine ⟨by grind, by grind, fun q => ?_⟩
  refine (Activity.locks_replace h3 hslot hslot' hl q).trans ?_
  rw [modify_inode]
  by_cases hq : q = p <;> simp only [hq, if_true, if_false]

lemma Knows.replace (h : Knows s) (ha : s.acts = a ::ₘ rest) (hslot : a.slot = some p)
    (hslot' : b.slot = some p) (hneeds : b.Needs → a.Needs) (hfreed' : b ≠ .freed p)
    (hlocked : b = .locked p → (s.inode p).valid)
    (hcounting : b = .counting p → (s.inode p).valid ∧ (s.inode p).copy.nlink = 0)
    (hfreeing : b = .freeing p → (s.inode p).valid ∧ (s.inode p).copy.nlink = 0 ∧
      (s.inode p).ref = 1) :
    Knows { s.modify p fun ip => { ip with locked := l } with acts := b ::ₘ rest } := by
  obtain ⟨h1, h2, h3, h4, h5⟩ := h
  have hneed := h5 a (by simp [ha]) p hslot
  have hrest : ∀ {c}, c ∈ rest → c ∈ s.acts := fun hc => by simp [ha, hc]
  constructor <;> grind [Act.slot]

lemma Copies.replace (h : Copies s) (ha : s.acts = a ::ₘ rest) (hslot : a.slot = some p)
    (hfreed : a ≠ .freed p)
    (hsync : a = .locked p → s.disk (s.inode p).id = (s.inode p).copy) :
    Copies { s.modify p fun ip => { ip with locked := l } with acts := b ::ₘ rest } := by
  obtain ⟨h1, h2, h3⟩ := h
  refine ⟨?_, ?_, h3⟩ <;> grind [Act.slot]

lemma Marks.replace (h : Marks s) (ha : s.acts = a ::ₘ rest) (hslot : a.slot = some p)
    (hslot' : b.slot = some p) (hneeds : b.Needs → a.Needs) (hfreed : a ≠ .freed p) :
    Marks { s.modify p fun ip => { ip with locked := l } with acts := b ::ₘ rest } := by
  obtain ⟨h1, h2, h3, h4⟩ := h
  have hunused := fun i hi => h2 i hi a (by simp [ha]) p hslot
  constructor <;> grind [Act.slot, Multiset.count_cons]

/-- An activity goes on as another one on the same slot, and at most the lock changes. -/
lemma Inv.replace (h : Inv s) (ha : s.acts = a ::ₘ rest) (hslot : a.slot = some p)
    (hslot' : b.slot = some p)
    (hl : a.HasLock = b.HasLock ∧ l = (s.inode p).locked ∨
      (a.HasLock ∨ ¬ (s.inode p).locked) ∧ l = b.HasLock)
    (hneeds : b.Needs → a.Needs) (hfreed : a ≠ .freed p) (hfreed' : b ≠ .freed p)
    (hsync : a = .locked p → s.disk (s.inode p).id = (s.inode p).copy)
    (hlocked : b = .locked p → (s.inode p).valid)
    (hcounting : b = .counting p → (s.inode p).valid ∧ (s.inode p).copy.nlink = 0)
    (hfreeing : b = .freeing p → (s.inode p).valid ∧ (s.inode p).copy.nlink = 0 ∧
      (s.inode p).ref = 1) :
    Inv { s.modify p fun ip => { ip with locked := l } with acts := b ::ₘ rest } :=
  ⟨h.counts.replace ha hslot hslot' hl,
    h.knows.replace ha hslot hslot' hneeds hfreed' hlocked hcounting hfreeing,
    h.copies.replace ha hslot hfreed hsync, h.marks.replace ha hslot hslot' hneeds hfreed⟩

end Replace

/-! ### The other steps -/

/-- One more handle to a slot that has one, unless `iput` is freeing the inode. -/
lemma Inv.another (h : Inv s) (hpos : 0 < (s.inode p).ref)
    (hdisk : (s.disk (s.inode p).id).type ≠ 0) (hmark : .allocating (s.inode p).id ∉ s.acts)
    (hfree : .freeing p ∉ s.acts) :
    Inv ((s.modify p fun ip => { ip with ref := ip.ref + 1 }).add (.held p)) := by
  obtain ⟨⟨h1, h2, h3⟩, ⟨h4, h5, h6, h7, h8⟩, ⟨h9, h10, h11⟩, h12, h13, h14, h15⟩ := h
  unfold State.add
  refine ⟨⟨?_, ?_, ?_⟩, ?_, ⟨?_, ?_, h11⟩, ?_⟩
  · clear h2 h3 h4 h5 h6 h7 h8 h9 h10 h12 h13 h14 h15
    grind
  · grind [Act.slot]
  · grind [Act.slot, Act.HasLock]
  · clear h1 h2 h3 h9 h10 h12 h13 h14 h15
    constructor <;> grind [Act.slot]
  · grind
  · grind
  · clear h1 h2 h3 h4 h5 h6 h7 h9 h10
    constructor <;> grind [Act.slot, Multiset.count_cons]

/-- The first handle to an inode. -/
lemma Inv.first (h : Inv s) (hnone : ∀ q, 0 < (s.inode q).ref → (s.inode q).id ≠ i)
    (href : (s.inode p).ref = 0) (hdisk : (s.disk i).type ≠ 0) (hmark : .allocating i ∉ s.acts) :
    Inv ((s.modify p fun ip => { ip with id := i, ref := 1, valid := false }).add (.held p)) := by
  have hno : ∀ a ∈ s.acts, a.slot ≠ some p := fun a ha hap => by
    have := h.counts.ref_pos ha hap
    omega
  obtain ⟨⟨h1, h2, h3⟩, ⟨h4, h5, h6, h7, h8⟩, ⟨h9, h10, h11⟩, h12, h13, h14, h15⟩ := h
  have h4' := hno (.locked p)
  have h5' := hno (.counting p)
  have h6' := hno (.freeing p)
  have h7' := hno (.freed p)
  unfold State.add
  refine ⟨⟨?_, ?_, ?_⟩, ?_, ⟨?_, ?_, h11⟩, ?_⟩
  · clear h2 h3 h4 h5 h6 h7 h8 h9 h10 h12 h13 h14 h15
    grind
  · grind [Act.slot]
  · grind [Act.slot, Act.HasLock]
  · clear h1 h2 h3 h9 h10 h12 h13 h14 h15
    constructor <;> grind [Act.slot]
  · grind
  · grind
  · clear h1 h2 h3 h4 h5 h6 h7 h9 h10
    constructor <;> grind [Act.slot, Multiset.count_cons]

lemma Inv.set (h : Inv s) (ha : .locked p ∈ s.acts) {d : Dinode} (hd : d.type ≠ 0) :
    Inv (s.modify p fun ip => { ip with copy := d }) := by
  obtain ⟨hc, hf, hd⟩ := h.counts.not_mem_of_locked ha
  obtain ⟨⟨h1, h2, h3⟩, ⟨h4, h5, h6, h7, h8⟩, ⟨h9, h10, h11⟩, h12, h13, h14, h15⟩ := h
  refine ⟨⟨?_, ?_, ?_⟩, ⟨?_, ?_, ?_, ?_, ?_⟩, ⟨?_, ?_, h11⟩, ⟨h12, ?_, ?_, h15⟩⟩ <;> grind

lemma Inv.iupdate (h : Inv s) (ha : .locked p ∈ s.acts) :
    Inv (s.write (s.inode p).id (s.inode p).copy) := by
  have hfreed := (h.counts.not_mem_of_locked ha).2.2
  have hpos := h.counts.ref_pos ha rfl
  have hload := h.copies.loaded p hpos (h.knows.locked p ha) hfreed
  obtain ⟨⟨h1, h2, h3⟩, ⟨h4, h5, h6, h7, h8⟩, ⟨h9, h10, h11⟩, h12, h13, h14, h15⟩ := h
  have hnot : .allocating (s.inode p).id ∉ s.acts := fun hi => h13 _ hi _ ha p rfl rfl rfl
  refine ⟨⟨h1, h2, h3⟩, ⟨h4, h5, h6, h7, ?_⟩, ⟨?_, ?_, ?_⟩, ⟨?_, h13, h14, h15⟩⟩ <;> grind

lemma Inv.ialloc (h : Inv s) (hfree : (s.disk i).type = 0) {type : ℕ} (htype : type ≠ 0) :
    Inv { (s.write i ⟨type, 0⟩).add (.allocating i) with
      born := Function.update s.born i (s.born i + 1) } := by
  obtain ⟨⟨h1, h2, h3⟩, ⟨h4, h5, h6, h7, h8⟩, ⟨h9, h10, h11⟩, h12, h13, h14, h15⟩ := h
  have hmark : .allocating i ∉ s.acts := fun hi => (h12 i hi).1 hfree
  have hcount := Multiset.count_eq_zero.mpr hmark
  unfold State.add
  refine ⟨⟨h1, ?_, ?_⟩, ⟨?_, ?_, ?_, ?_, ?_⟩, ⟨?_, ?_, ?_⟩, ⟨?_, ?_, ?_, ?_⟩⟩
  · exact fun p => (h2 p).trans (by simp [Activity.uses_cons, Act.slot, State.write])
  · exact fun p => Eq.trans (by simp [Activity.locks_cons, Act.slot, State.write]) (h3 p)
  · grind
  · grind
  · grind
  · grind
  · grind [Act.slot]
  · grind [Function.update_apply]
  · grind
  · grind
  · grind
  · grind [Act.slot]
  · grind
  · grind [Multiset.count_cons]

lemma Inv.load (h : Inv s) (ha : s.acts = .loading p ::ₘ rest)
    (hdisk : (s.disk (s.inode p).id).type ≠ 0) :
    Inv { s.modify p fun ip =>
      { ip with copy := s.disk ip.id, valid := true, read := s.born ip.id } with
        acts := .locked p ::ₘ rest } := by
  have hmem : .loading p ∈ s.acts := by simp [ha]
  have hexcl : ∀ {b}, b ∈ s.acts → b.slot = some p → b.HasLock → .loading p = b :=
    fun hb hbp hbl => h.counts.lock_excl hmem hb rfl hbp rfl hbl
  have hc : .counting p ∉ s.acts := fun hb => Act.noConfusion (hexcl hb rfl rfl)
  have hf : .freeing p ∉ s.acts := fun hb => Act.noConfusion (hexcl hb rfl rfl)
  have hd : .freed p ∉ s.acts := fun hb => Act.noConfusion (hexcl hb rfl rfl)
  have hmark : .allocating (s.inode p).id ∉ s.acts := fun hi =>
    h.marks.unused _ hi _ hmem p rfl rfl rfl
  obtain ⟨⟨h1, h2, h3⟩, ⟨h4, h5, h6, h7, h8⟩, ⟨h9, h10, h11⟩, h12, h13, h14, h15⟩ := h
  rw [ha] at h2 h3 h4 h5 h6 h7 h8 h9 h10 h12 h13 h14 h15 hc hf hd hmark
  refine ⟨⟨?_, ?_, ?_⟩, ⟨?_, ?_, ?_, ?_, ?_⟩, ⟨?_, ?_, ?_⟩, ⟨?_, ?_, ?_, ?_⟩⟩
  · clear h2 h3 h4 h5 h6 h7 h8 h9 h10 h12 h13 h14 h15
    grind
  · grind [Act.slot]
  · grind [Act.slot, Act.HasLock]
  · grind
  · grind
  · grind
  · grind
  · grind [Act.slot, Act.Needs]
  · grind
  · grind
  · exact h11
  · grind
  · grind [Act.slot, Act.Needs]
  · grind
  · grind [Multiset.count_cons]

lemma Inv.free (h : Inv s) (ha : s.acts = .freeing p ::ₘ rest) :
    Inv { s.free p with acts := .freed p ::ₘ rest } := by
  have hmem : .freeing p ∈ s.acts := by simp [ha]
  obtain ⟨hv, hn, href⟩ := h.knows.freeing p hmem
  have hslot : ∀ b ∈ rest, b.slot ≠ some p := by
    intro b hb hbp
    have hpos : 0 < uses rest p := Activity.uses_pos hb hbp
    have huses := (h.counts.ref p).symm.trans href
    rw [ha] at huses
    simp only [uses, Activity.uses_cons, Act.slot, if_true] at huses hpos
    omega
  have hmark : .allocating (s.inode p).id ∉ s.acts := fun hi =>
    h.marks.unused _ hi _ hmem p rfl rfl rfl
  have hpos := fun q b hb hbq => h.counts.ref_pos (a := b) (p := q) hb hbq
  obtain ⟨⟨h1, h2, h3⟩, ⟨h4, h5, h6, h7, h8⟩, ⟨h9, h10, h11⟩, h12, h13, h14, h15⟩ := h
  have hother : ∀ q, q ≠ p → 0 < (s.inode q).ref → (s.inode q).id ≠ (s.inode p).id := by grind
  rw [ha] at h2 h3 h4 h5 h6 h7 h8 h9 h10 h12 h13 h14 h15 hmark
  refine ⟨⟨?_, ?_, ?_⟩, ⟨?_, ?_, ?_, ?_, ?_⟩, ⟨?_, ?_, ?_⟩, ⟨?_, ?_, ?_, ?_⟩⟩
  · clear h2 h3 h4 h5 h6 h7 h8 h9 h10 h12 h13 h14 h15
    grind
  · grind [Act.slot]
  · grind [Act.slot, Act.HasLock]
  · grind
  · grind
  · grind
  · grind
  · grind [Act.slot, Act.Needs]
  · grind
  · grind
  · grind
  · grind
  · grind [Act.slot, Act.Needs]
  · grind
  · grind [Multiset.count_cons]

lemma Inv.invalidate (h : Inv s) (ha : s.acts = .freed p ::ₘ rest) :
    Inv { s.modify p fun ip => { ip with valid := false } with acts := .unlocking p ::ₘ rest } := by
  have hmem : .freed p ∈ s.acts := by simp [ha]
  have hexcl : ∀ {b}, b ∈ s.acts → b.slot = some p → b.HasLock → .freed p = b :=
    fun hb hbp hbl => h.counts.lock_excl hmem hb rfl hbp rfl hbl
  have hl : .locked p ∉ s.acts := fun hb => Act.noConfusion (hexcl hb rfl rfl)
  have hc : .counting p ∉ s.acts := fun hb => Act.noConfusion (hexcl hb rfl rfl)
  have hf : .freeing p ∉ s.acts := fun hb => Act.noConfusion (hexcl hb rfl rfl)
  obtain ⟨⟨h1, h2, h3⟩, ⟨h4, h5, h6, h7, h8⟩, ⟨h9, h10, h11⟩, h12, h13, h14, h15⟩ := h
  rw [ha] at h2 h3 h4 h5 h6 h7 h8 h9 h10 h12 h13 h14 h15 hc hf hl
  refine ⟨⟨?_, ?_, ?_⟩, ⟨?_, ?_, ?_, ?_, ?_⟩, ⟨?_, ?_, ?_⟩, ⟨?_, ?_, ?_, ?_⟩⟩
  · clear h2 h3 h4 h5 h6 h7 h8 h9 h10 h12 h13 h14 h15
    grind
  · grind [Act.slot]
  · grind [Act.slot, Act.HasLock]
  · grind
  · grind
  · grind
  · grind
  · grind [Act.slot, Act.Needs]
  · grind
  · grind
  · exact h11
  · grind
  · grind [Act.slot, Act.Needs]
  · grind
  · grind [Multiset.count_cons]

lemma Inv.drop (h : Inv s) (ha : s.acts = .dropping p ::ₘ rest) :
    Inv { s.modify p fun ip => { ip with ref := ip.ref - 1 } with acts := rest } := by
  have hmem : .dropping p ∈ s.acts := by simp [ha]
  have hpos := h.counts.ref_pos hmem rfl
  have hf : .freeing p ∉ s.acts := fun hb =>
    Act.noConfusion (h.counts.ref_excl hmem hb rfl rfl (h.knows.freeing p hb).2.2)
  obtain ⟨⟨h1, h2, h3⟩, ⟨h4, h5, h6, h7, h8⟩, ⟨h9, h10, h11⟩, h12, h13, h14, h15⟩ := h
  rw [ha] at h2 h3 h4 h5 h6 h7 h8 h9 h10 h12 h13 h14 h15 hf
  refine ⟨⟨?_, ?_, ?_⟩, ⟨?_, ?_, ?_, ?_, ?_⟩, ⟨?_, ?_, ?_⟩, ⟨?_, ?_, ?_, ?_⟩⟩
  · clear h2 h3 h4 h5 h6 h7 h8 h9 h10 h12 h13 h14 h15
    grind
  · grind [Act.slot]
  · grind [Act.slot, Act.HasLock]
  · grind
  · grind
  · grind
  · grind
  · grind
  · grind
  · grind
  · exact h11
  · grind
  · grind
  · grind
  · grind [Multiset.count_cons]

/-- The end of an `ialloc`, without the handle that it gets. -/
lemma Inv.dismiss (h : Inv s) (ha : s.acts = .allocating i ::ₘ rest) :
    Inv { s with acts := rest } := by
  obtain ⟨⟨h1, h2, h3⟩, ⟨h4, h5, h6, h7, h8⟩, ⟨h9, h10, h11⟩, h12, h13, h14, h15⟩ := h
  rw [ha] at h2 h3 h4 h5 h6 h7 h8 h9 h10 h12 h13 h14 h15
  refine ⟨⟨h1, ?_, ?_⟩, ⟨?_, ?_, ?_, ?_, ?_⟩, ⟨?_, ?_, h11⟩, ⟨?_, ?_, ?_, ?_⟩⟩
  · grind [Act.slot]
  · grind [Act.slot]
  · grind
  · grind
  · grind
  · grind
  · grind
  · grind
  · grind
  · grind
  · grind
  · grind
  · grind [Multiset.count_cons]

/-- `iget` of an inode that is in use on the disk and is not being freed or allocated. -/
lemma Inv.gets (h : Inv s) (hget : Gets s i p s') (hdisk : (s.disk i).type ≠ 0)
    (hmark : .allocating i ∉ s.acts)
    (hfree : ∀ q, 0 < (s.inode q).ref → (s.inode q).id = i → .freeing q ∉ s.acts) :
    Inv (s'.add (.held p)) := by
  cases hget with
  | hit href hid =>
    subst hid
    exact h.another href hdisk hmark (hfree p href rfl)
  | miss hnone href => exact h.first hnone href hdisk hmark

/-! ## Runs -/

/-- The number of links of an inode: in the cache if it was read, else on the disk. -/
def State.nlink (s : State) (i : Id) : ℕ :=
  match s.cached i with
  | some p => if (s.inode p).valid then (s.inode p).copy.nlink else (s.disk i).nlink
  | none => (s.disk i).nlink

/-- `iget` finds an inode that has links, or one that the caller has locked already. -/
def Counted (s : State) : Event → Prop
  | .iget i => 0 < s.nlink i ∨ ∃ p, .locked p ∈ s.acts ∧ (s.inode p).id = i
  | _ => True

instance (s : State) (e : Event) : Decidable (Counted s e) := by
  unfold Counted
  split <;> infer_instance

/-- An inode with links is in use on the disk, and neither freed nor allocated. -/
lemma Inv.of_nlink (h : Inv s) (hn : 0 < s.nlink i) :
    (s.disk i).type ≠ 0 ∧ .allocating i ∉ s.acts ∧
      ∀ q, 0 < (s.inode q).ref → (s.inode q).id = i → .freeing q ∉ s.acts := by
  unfold State.nlink at hn
  split at hn
  · rename_i p hp
    obtain ⟨href, rfl⟩ := cached_eq_some hp
    have hsame : ∀ q, 0 < (s.inode q).ref → (s.inode q).id = (s.inode p).id → q = p :=
      fun q hq hid => h.counts.unique q p hq href hid
    split_ifs at hn with hv
    · have hfreed : .freed p ∉ s.acts := fun hm => by
        have := h.knows.freed p hm
        omega
      refine ⟨(h.copies.loaded p href hv hfreed).2.2,
        fun hm => hfreed (h.marks.invalid _ hm p href rfl hv), fun q hq hid hm => ?_⟩
      have := (h.knows.freeing q hm).2.1
      rw [hsame q hq hid] at this
      omega
    · refine ⟨h.copies.linked _ hn, fun hm => ?_, fun q hq hid hm => ?_⟩
      · have := (h.marks.disk _ hm).2
        omega
      · exact hv (hsame q hq hid ▸ (h.knows.freeing q hm).1)
  · rename_i hnone
    refine ⟨h.copies.linked _ hn, fun hm => ?_, fun q hq hid hm =>
      cached_eq_none hnone q hq hid⟩
    have := (h.marks.disk _ hm).2
    omega

lemma Inv.iget (h : Inv s) (hC : Counted s (.iget i)) (hget : Gets s i p s') :
    Inv (s'.add (.held p)) := by
  rcases hC with hn | ⟨q, hq, rfl⟩
  · obtain ⟨hdisk, hmark, hfree⟩ := h.of_nlink hn
    exact h.gets hget hdisk hmark hfree
  · refine h.gets hget (h.knows.needs _ hq q rfl rfl)
      (fun hm => h.marks.unused _ hm _ hq q rfl rfl rfl) fun r hr hid hm => ?_
    obtain rfl := h.counts.unique r q hr (h.counts.ref_pos hq rfl) hid
    exact (h.counts.not_mem_of_locked hq).2.1 hm

/-- `iget` at the end of `ialloc`. -/
lemma Inv.allocated (h : Inv s) (ha : s.acts = .allocating i ::ₘ rest) (hget : Gets s i p s') :
    Inv { s' with acts := .held p ::ₘ rest } := by
  have hmem : .allocating i ∈ s.acts := by simp [ha]
  have hdisk := (h.marks.disk i hmem).1
  have hmark : .allocating i ∉ rest := fun hm => by
    have := h.marks.once i
    rw [ha, Multiset.count_cons_self] at this
    have := Multiset.count_pos.mpr hm
    omega
  have hfree : ∀ q, 0 < (s.inode q).ref → (s.inode q).id = i → .freeing q ∉ rest :=
    fun q _ hid hm => h.marks.unused i hmem (.freeing q) (by simp [ha, hm]) q rfl hid rfl
  have hd := h.dismiss ha
  cases hget with
  | hit href hid => exact hd.gets (.hit href hid) hdisk hmark hfree
  | miss hnone href => exact hd.gets (.miss hnone href) hdisk hmark hfree

lemma Inv.step (h : Inv s) (hC : Counted s e) (hstep : s.step e = some s') : Inv s' := by
  have hsame : ∀ p acts, ({ s with acts := acts } : State) =
      { s.modify p fun ip => { ip with locked := (s.inode p).locked } with acts := acts } := by
    intro p acts
    simp [State.modify]
  cases does_of_step hstep with
  | iget hget => exact h.iget hC hget
  | ialloc hfree htype => exact h.ialloc hfree htype
  | @idup p ha =>
    obtain ⟨a, ha, hap, hn, hne⟩ : ∃ a ∈ s.acts, a.slot = some p ∧ a.Needs ∧ a ≠ .freeing p := by
      rcases ha with ha | ha
      · exact ⟨_, ha, rfl, rfl, (by simp)⟩
      · exact ⟨_, ha, rfl, rfl, (by simp)⟩
    refine h.another (h.counts.ref_pos ha hap) (h.knows.needs a ha p hap hn)
      (fun hm => h.marks.unused _ hm a ha p hap rfl hn) fun hm => ?_
    exact hne (h.counts.ref_excl ha hm hap rfl (h.knows.freeing p hm).2.2)
  | ilock ha hl | put ha hl =>
    exact h.replace ha rfl rfl (.inr ⟨.inr hl, rfl⟩) (fun _ => rfl) (by simp) (by simp) (by simp)
      (by simp) (by simp) (by simp)
  | set ha hd => exact h.set ha hd
  | iupdate ha => exact h.iupdate ha
  | iunlock ha hd =>
    exact h.replace ha rfl rfl (.inr ⟨.inl rfl, rfl⟩) (fun _ => rfl) (by simp) (by simp)
      (fun _ => hd) (by simp) (by simp) (by simp)
  | @iput p rest ha =>
    rw [hsame p]
    exact h.replace ha rfl rfl (.inl ⟨rfl, rfl⟩) (fun _ => rfl) (by simp) (by simp) (by simp)
      (by simp) (by simp) (by simp)
  | @reuse p rest ha hv =>
    rw [hsame p]
    exact h.replace ha rfl rfl (.inl ⟨rfl, rfl⟩) (fun _ => rfl) (by simp) (by simp) (by simp)
      (fun _ => hv) (by simp) (by simp)
  | load ha hv hd => exact h.load ha hd
  | @linkless p rest ha hv hn =>
    rw [hsame p]
    exact h.replace ha rfl rfl (.inl ⟨rfl, rfl⟩) (fun _ => rfl) (by simp) (by simp) (by simp)
      (by simp) (fun _ => ⟨hv, hn⟩) (by simp)
  | @linked p rest ha | @shared p rest ha =>
    rw [hsame p]
    exact h.replace ha rfl rfl (.inl ⟨rfl, rfl⟩) (by simp [Act.Needs]) (by simp) (by simp) (by simp)
      (by simp) (by simp) (by simp)
  | @alone p rest ha hr =>
    rw [hsame p]
    obtain ⟨hv, hn⟩ := h.knows.counting p (by simp [ha])
    exact h.replace ha rfl rfl (.inl ⟨rfl, rfl⟩) (fun _ => rfl) (by simp) (by simp) (by simp)
      (by simp) (by simp) (fun _ => ⟨hv, hn, hr⟩)
  | free ha => exact h.free ha
  | invalidate ha => exact h.invalidate ha
  | unlock ha =>
    exact h.replace ha rfl rfl (.inr ⟨.inl rfl, rfl⟩) (by simp [Act.Needs]) (by simp) (by simp)
      (by simp) (by simp) (by simp) (by simp)
  | drop ha => exact h.drop ha
  | allocated ha hget => exact h.allocated ha hget

lemma inv_init {disk : Id → Dinode} (hdisk : ∀ i, 0 < (disk i).nlink → (disk i).type ≠ 0) :
    Inv (init disk) := by
  refine ⟨⟨?_, ?_, ?_⟩, ⟨?_, ?_, ?_, ?_, ?_⟩, ⟨?_, ?_, hdisk⟩, ⟨?_, ?_, ?_, ?_⟩⟩ <;>
    simp [init, Activity.uses, Activity.locks]

/-- What the cache promises in a state. -/
structure Safe (s : State) : Prop where
  /-- No inode has two slots. -/
  unique : ∀ p q, 0 < (s.inode p).ref → 0 < (s.inode q).ref → (s.inode p).id = (s.inode q).id →
    p = q
  /-- The references are the handles. -/
  ref : ∀ p, (s.inode p).ref = uses s.acts p
  /-- An inode that is truncated has no links, and one handle. -/
  truncated : ∀ p, .freeing p ∈ s.acts → (s.inode p).copy.nlink = 0 ∧
    (s.disk (s.inode p).id).nlink = 0 ∧ uses s.acts p = 1
  /-- The copy of an inode that is locked was read after the last `ialloc` of the inode. -/
  reloaded : ∀ p, .locked p ∈ s.acts → (s.inode p).valid ∧
    (s.inode p).read = s.born (s.inode p).id ∧ (s.inode p).copy.type ≠ 0
  /-- `ilock` does not find a free inode. -/
  loading : ∀ p, .loading p ∈ s.acts → (s.disk (s.inode p).id).type ≠ 0

lemma Inv.safe (h : Inv s) : Safe s := by
  refine ⟨h.counts.unique, h.counts.ref, fun p hp => ?_, fun p hp => ?_,
    fun p hp => h.knows.needs _ hp p rfl rfl⟩
  · obtain ⟨hv, hn, href⟩ := h.knows.freeing p hp
    have hpos := h.counts.ref_pos hp rfl
    have hsync := h.copies.synced p hpos hv
      (fun hm => Act.noConfusion (h.counts.lock_excl hp hm rfl rfl rfl rfl))
      (fun hm => Act.noConfusion (h.counts.lock_excl hp hm rfl rfl rfl rfl))
    exact ⟨hn, hsync ▸ hn, h.counts.ref p ▸ href⟩
  · have hload := h.copies.loaded p (h.counts.ref_pos hp rfl) (h.knows.locked p hp)
      (h.counts.not_mem_of_locked hp).2.2
    exact ⟨h.knows.locked p hp, hload.2.1, hload.1⟩

/-- The type of an inode on the disk is cleared by `iput` only. -/
lemma Inv.cleared (h : Inv s) (hstep : s.step e = some s') (hi : (s.disk i).type ≠ 0)
    (hi' : (s'.disk i).type = 0) : ∃ p, e = .go (.freeing p) ∧ .freeing p ∈ s.acts ∧
      (s.inode p).id = i := by
  cases does_of_step hstep with
  | iget hget =>
    cases hget <;> exact absurd hi' hi
  | ialloc hfree htype =>
    simp only [State.add, write_disk] at hi'
    split_ifs at hi' with hj
    · exact absurd hi' htype
    · exact absurd hi' hi
  | @iupdate p ha =>
    rw [write_disk] at hi'
    split_ifs at hi' with hj
    · exact absurd hi' (h.safe.reloaded p ha).2.2
    · exact absurd hi' hi
  | @free p rest ha =>
    refine ⟨p, rfl, by simp [ha], ?_⟩
    by_contra hne
    rw [free_disk, if_neg (Ne.symm hne)] at hi'
    exact hi hi'
  | allocated ha hget =>
    cases hget <;> exact absurd hi' hi
  | _ => exact absurd hi' hi

/-- In every run over a disk on which free inodes have no links, whose calls of `iget` are for
inodes with links, or for one that is locked: the cache is safe in every state, and the type of an
inode is cleared by an `iput` that has its only handle. -/
theorem icache_safe {disk : Id → Dinode} (hdisk : ∀ i, 0 < (disk i).nlink → (disk i).type ≠ 0)
    {tr : List Event} (hrun : Machine.exec State.step (init disk) tr = some s)
    (hC : Machine.Meets State.step Counted (init disk) tr) :
    Safe s ∧ ∀ e s' i, s.step e = some s' → (s.disk i).type ≠ 0 → (s'.disk i).type = 0 →
      ∃ p, e = .go (.freeing p) ∧ .freeing p ∈ s.acts ∧ (s.inode p).id = i := by
  have hinv : Inv s := Machine.exec_induction_of_meets (motive := fun _ s => Inv s)
    (inv_init hdisk) (fun _ _ _ _ _ ih hC hstep => ih.step hC hstep) hrun hC
  exact ⟨hinv.safe, fun e s' i hstep hi hi' => hinv.cleared hstep hi hi'⟩

/-- A disk with one inode in use. -/
def oneInode (d : Dinode) : Id → Dinode := fun i => if i = (1, 5) then d else ⟨0, 0⟩

/-- A file is unlinked while it is locked and freed by `iput`; before the reference of the `iput` is
dropped, the inode is allocated again, and its new owner locks it. -/
def unlinkReuse : List Event :=
  [.iget (1, 5), .ilock 0, .go (.loading 0), .set 0 ⟨T_FILE, 0⟩, .iupdate 0, .iunlock 0, .iput 0,
    .go (.put 0), .go (.testing 0), .go (.counting 0), .go (.freeing 0), .ialloc (1, 5) T_FILE,
    .go (.freed 0), .go (.allocating (1, 5)), .go (.unlocking 0), .ilock 0, .go (.loading 0),
    .go (.dropping 0)]

theorem icache_safe_unlinkReuse : ∃ s,
    Machine.exec State.step (init (oneInode ⟨T_FILE, 1⟩)) unlinkReuse = some s ∧
      Machine.Meets State.step Counted (init (oneInode ⟨T_FILE, 1⟩)) unlinkReuse ∧
      (s.inode 0).ref = 1 ∧ Safe s := by
  obtain ⟨s, hs, href⟩ : ∃ s, Machine.exec State.step (init (oneInode ⟨T_FILE, 1⟩)) unlinkReuse =
      some s ∧ (s.inode 0).ref = 1 := Option.map_eq_some_iff.mp (by decide +kernel)
  have hC : Machine.Meets State.step Counted (init (oneInode ⟨T_FILE, 1⟩)) unlinkReuse := by
    decide +kernel
  refine ⟨s, hs, hC, href, (icache_safe (fun i hi => ?_) hs hC).1⟩
  unfold oneInode at hi ⊢
  split_ifs at hi ⊢
  · decide
  · exact absurd hi (by decide)

/-- A symbolic link, as `sys_symlink` leaves it: in a directory, but without links.  One process
is done with it and counts its references; another looks up the name before the inode is freed. -/
def symlinkRace : List Event :=
  [.iget (1, 5), .ilock 0, .go (.loading 0), .iunlock 0, .iput 0, .go (.put 0), .go (.testing 0),
    .go (.counting 0), .iget (1, 5)]

/-- The inode is truncated and its type cleared while the other process has a handle. -/
theorem not_safe_symlink : ∃ s s',
    Machine.exec State.step (init (oneInode ⟨T_SYMLINK, 0⟩)) symlinkRace = some s ∧
      s.step (.go (.freeing 0)) = some s' ∧ (s.inode 0).ref = 2 ∧
      (s.disk (1, 5)).type = T_SYMLINK ∧ (s'.disk (1, 5)).type = 0 ∧ .held 0 ∈ s'.acts ∧
      ¬ Safe s := by
  obtain ⟨s, hs, hfacts⟩ := Option.map_eq_some_iff.mp (show (Machine.exec State.step
      (init (oneInode ⟨T_SYMLINK, 0⟩)) symlinkRace).map (fun s => decide (.freeing 0 ∈ s.acts ∧
        uses s.acts 0 = 2 ∧ (s.inode 0).ref = 2 ∧ (s.disk (1, 5)).type = T_SYMLINK ∧
        ∃ s' ∈ s.step (.go (.freeing 0)), (s'.disk (1, 5)).type = 0 ∧ .held 0 ∈ s'.acts)) =
      some true by decide +kernel)
  obtain ⟨hfree, huses, href, htype, s', hs', htype', hheld⟩ := of_decide_eq_true hfacts
  refine ⟨s, s', hs, hs', href, htype, htype', hheld, fun hsafe => ?_⟩
  have := (hsafe.truncated 0 hfree).2.2
  omega

end Xv7.Icache
