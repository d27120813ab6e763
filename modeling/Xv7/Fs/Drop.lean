import Xv7.Fs.Timestamps

/-!
# Dropping a symbolic link

`sys_symlink` leaves the link count at 0 and keeps the text in the block pointers, so `iput` frees
the blocks whose numbers the text spells.
-/

namespace Xv7

open Fallible (bind_eq_ok)

variable {sb : Superblock} {d d' : Disk} {inum l a b : ℕ} {target : List UInt8} {valid : Bool} {ref : ℕ}

/-- The inode that `sys_symlink` makes, as `ilock` loads it: the text lies in the block pointers. -/
def linkInode (target : List UInt8) : CachedInode where
  type := T_SYMLINK
  major := 0
  minor := 0
  nlink := 0
  size := min target.length (4 * (NDIRECT + 1))
  addrs i := Bytes.leNat (fun k => target.getD k 0) (4 * i) 4
  atime := 0
  mtime := 0

/-- `iput` of an inode with `ref` references; `itrunc` clears the pointers. -/
def iput (sb : Superblock) (inum : ℕ) (ip : CachedInode) (valid : Bool) (ref : ℕ) (d : Disk) :
    Except FsPanic Disk :=
  if valid ∧ ip.nlink = 0 ∧ ref = 1 then do
    let r ← freeSlots sb ip.slots d
    .ok (storeInode sb inum { ip with type := 0, size := 0, addrs := fun _ => 0 } r.2)
  else .ok d

lemma bfree_clear (h : bfree sb d a = .ok d') (hb : bit sb d b = false) : bit sb d' b = false := by
  unfold bfree at h
  split_ifs at h
  cases h
  rw [bit_clearBit, hb, Bool.and_false]

lemma freeTree_clear (h : freeTree sb l a d = .ok d') (hb : bit sb d b = false) :
    bit sb d' b = false := by
  induction l generalizing a d d' with
  | zero =>
    unfold freeTree at h
    split_ifs at h
    · cases h
      exact hb
    · exact bfree_clear h hb
  | succ l ih =>
    unfold freeTree at h
    split_ifs at h
    · cases h
      exact hb
    · obtain ⟨d1, hfold, hfree⟩ := bind_eq_ok.mp h
      exact bfree_clear hfree
        (Fallible.foldlM_keeps (P := fun d => bit sb d b = false) ih hfold hb)

/-- The block that the first pointer names is freed, and no later step takes it again. -/
lemma freeSlots_first {slots slots' : Slots} (h : freeSlots sb slots d = .ok (slots', d'))
    (h0 : slots 0 ≠ 0) : bit sb d (slots 0) = true ∧ bit sb d' (slots 0) = false := by
  rw [freeSlots, List.finRange_succ, List.foldlM_cons] at h
  obtain ⟨r, hfirst, hrest⟩ := bind_eq_ok.mp h
  obtain ⟨d1, htree, hr⟩ := bind_eq_ok.mp hfirst
  have hfree : bfree sb d (slots 0) = .ok d1 := (if_neg h0).symm.trans htree
  unfold bfree at hfree
  split_ifs at hfree with hbit
  cases hfree
  cases hr
  refine ⟨Bool.of_not_eq_false hbit, Fallible.foldlM_keeps (P := fun r => bit sb r.2 (slots 0) = false)
    (fun hslot hb => ?_) hrest (by simp [bit_clearBit])⟩
  obtain ⟨d2, htree, hr⟩ := bind_eq_ok.mp hslot
  cases hr
  exact freeTree_clear htree hb

/-- There is nothing to free below pointers that are zero. -/
lemma freeSlots_zero : freeSlots sb (fun _ => 0) d = .ok (fun _ => 0, d) := by
  have hslot : ∀ s, freeSlot sb (fun _ => 0, d) s = .ok (fun _ => 0, d) := fun s => by
    have htree : freeTree sb (slotLevel s) 0 d = .ok d := by
      cases slotLevel s <;> exact if_pos rfl
    refine bind_eq_ok.mpr ⟨d, htree, ?_⟩
    rw [Function.update_eq_self_iff.mpr rfl]
  unfold freeSlots
  induction List.finRange (NDIRECT + 3) with
  | nil => rfl
  | cons s ss ih => exact bind_eq_ok.mpr ⟨_, hslot s, ih⟩

lemma linkInode_slot_ne (hstr : 0 ∉ target) (hne : target ≠ []) : (linkInode target).slots 0 ≠ 0 := by
  obtain ⟨c, t, rfl⟩ := List.exists_cons_of_ne_nil hne
  have hc : c ≠ 0 := fun h => hstr (by simp [h])
  have hpos : 0 < c.toNat := Nat.pos_of_ne_zero fun h => hc (UInt8.toNat_inj.mp h)
  exact Nat.ne_of_gt (hpos.trans_le (Nat.le_add_right _ _))

/-- A disk on which the first 98 blocks are in use. -/
def usedDisk : Disk := markUsed mkfsSuperblock (fun _ _ => 0) 98

/-- A link to `a` frees block 97. -/
example : bit mkfsSuperblock usedDisk 97 = true ∧
    (iput mkfsSuperblock 2 (linkInode [97]) true 1 usedDisk).toOption.map
      (bit mkfsSuperblock · 97) = some false := by decide +kernel

end Xv7
