import Xv7.Fs.Bitmap
import Xv7.Lib.PtrStore

/-!
# The block map of an inode

`bmap` and the freeing loops of `itrunc`, over the thirteen pointer slots of an inode: ten direct
pointers, and one each to a singly, a doubly and a triply indirect block.  The code treats the
levels one by one; they are one recursion on the level, and the blocks that a slot reaches are a
tree of pointers of that height.
-/

namespace Xv7

open Function (update update_eq_self update_of_ne update_self)
open Fallible

/-- The pointers of an inode. -/
abbrev Slots : Type := Fin (NDIRECT + 3) → ℕ

/-- The number of indirect blocks on the way from a slot to a block of the file. -/
def slotLevel (s : Fin (NDIRECT + 3)) : ℕ := s - (NDIRECT - 1)

/-- The first block of the file that is reached from a slot. -/
def slotBase (s : Fin (NDIRECT + 3)) : ℕ :=
  if s.val ≤ NDIRECT then s
  else if s.val = NDIRECT + 1 then NDIRECT + NINDIRECT
  else NDIRECT + NINDIRECT + NDINDIRECT

/-! ## The code -/

/-- One level of `bmap`: the entry of an indirect block, allocated if necessary. -/
def bmapEntry (sb : Superblock) (d : Disk) (addr idx : ℕ) : Except FsPanic (ℕ × Disk) :=
  if Bytes.word (d addr) idx = 0 then do
    let (c, d) ← balloc sb d
    .ok (c, Function.update d addr (Bytes.setWord (d addr) idx c))
  else .ok (Bytes.word (d addr) idx, d)

/-- The levels of `bmap` below the block `addr`. -/
def bmapWalk (sb : Superblock) : ℕ → ℕ → ℕ → Disk → Except FsPanic (ℕ × Disk)
  | 0, addr, _, d => .ok (addr, d)
  | l + 1, addr, bn, d => do
    let (next, d) ← bmapEntry sb d addr (bn / NINDIRECT ^ l)
    bmapWalk sb l next (bn % NINDIRECT ^ l) d

/-- `if ((addr = ip->addrs[s]) == 0) ip->addrs[s] = addr = balloc(ip->dev)`. -/
def bmapSlot (sb : Superblock) (slots : Slots) (s : Fin (NDIRECT + 3)) (d : Disk) :
    Except FsPanic (ℕ × Slots × Disk) :=
  if slots s = 0 then do
    let (c, d) ← balloc sb d
    .ok (c, Function.update slots s c, d)
  else .ok (slots s, slots, d)

/-- The range tests of `bmap`: the slot of block `bn` of the file and the index below the slot. -/
def locate (bn : ℕ) : Option (Fin (NDIRECT + 3) × ℕ) :=
  if h : bn < NDIRECT then some (⟨bn, Nat.lt_add_right 3 h⟩, 0)
  else if bn - NDIRECT < NINDIRECT then some (⟨NDIRECT, by decide⟩, bn - NDIRECT)
  else if bn - NDIRECT - NINDIRECT < NDINDIRECT then
    some (⟨NDIRECT + 1, by decide⟩, bn - NDIRECT - NINDIRECT)
  else if bn - NDIRECT - NINDIRECT - NDINDIRECT < NTINDIRECT then
    some (⟨NDIRECT + 2, by decide⟩, bn - NDIRECT - NINDIRECT - NDINDIRECT)
  else none

/-- `bmap`: the disk block of block `bn` of the file, allocated if necessary. -/
def bmap (sb : Superblock) (slots : Slots) (bn : ℕ) (d : Disk) :
    Except FsPanic (ℕ × Slots × Disk) :=
  match locate bn with
  | some (s, i) => do
    let (addr, slots, d) ← bmapSlot sb slots s d
    let (addr, d) ← bmapWalk sb (slotLevel s) addr i d
    .ok (addr, slots, d)
  | none => .error .outOfRange

/-- The loops of `itrunc` below one pointer: free the blocks that it reaches, then its own. -/
def freeTree (sb : Superblock) : ℕ → ℕ → Disk → Except FsPanic Disk
  | 0, a, d => if a = 0 then .ok d else bfree sb d a
  | l + 1, a, d =>
    if a = 0 then .ok d
    else do
      let d ← (List.range NINDIRECT).foldlM (fun d j => freeTree sb l (Bytes.word (d a) j) d) d
      bfree sb d a

/-- The part of `itrunc` for one slot, which is cleared when its blocks are free. -/
def freeSlot (sb : Superblock) (r : Slots × Disk) (s : Fin (NDIRECT + 3)) :
    Except FsPanic (Slots × Disk) := do
  let d ← freeTree sb (slotLevel s) (r.1 s) r.2
  .ok (Function.update r.1 s 0, d)

/-- The part of `itrunc` that frees blocks, slot after slot. -/
def freeSlots (sb : Superblock) (slots : Slots) (d : Disk) : Except FsPanic (Slots × Disk) :=
  (List.finRange (NDIRECT + 3)).foldlM (freeSlot sb) (slots, d)

/-! ## The blocks of a file -/

/-- The blocks that the slots reach, data and indirect. -/
def blocks (d : Disk) (slots : Slots) : List ℕ :=
  (List.finRange (NDIRECT + 3)).flatMap fun s => ptrs.tree d (slotLevel s) (slots s)

/-- The indirect blocks that the slots reach. -/
def indirects (d : Disk) (slots : Slots) : List ℕ :=
  (List.finRange (NDIRECT + 3)).flatMap fun s => ptrs.inner d (slotLevel s) (slots s)

/-- The disk block of block `bn` of the file, or zero. -/
def blockOf (d : Disk) (slots : Slots) (bn : ℕ) : ℕ :=
  match locate bn with
  | some (s, i) => ptrs.leaf d (slotLevel s) (slots s) i
  | none => 0

/-- The number of blocks that are missing for the first `n` blocks of the file. -/
def missing (d : Disk) (slots : Slots) (n : ℕ) : ℕ :=
  ∑ s, ptrs.need d (slotLevel s) (slots s) (min (n - slotBase s) (NINDIRECT ^ slotLevel s))

/-- The four kinds of slots. -/
lemma slot_cases (s : Fin (NDIRECT + 3)) :
    (s.val < NDIRECT ∧ slotBase s = s ∧ NINDIRECT ^ slotLevel s = 1) ∨
    (s.val = NDIRECT ∧ slotBase s = NDIRECT ∧ NINDIRECT ^ slotLevel s = NINDIRECT) ∨
    (s.val = NDIRECT + 1 ∧ slotBase s = NDIRECT + NINDIRECT ∧
      NINDIRECT ^ slotLevel s = NDINDIRECT) ∨
    (s.val = NDIRECT + 2 ∧ slotBase s = NDIRECT + NINDIRECT + NDINDIRECT ∧
      NINDIRECT ^ slotLevel s = NTINDIRECT) := by
  revert s
  decide

/-- Where `bmap` finds a block of the file. -/
lemma locate_eq_some {bn i : ℕ} {s : Fin (NDIRECT + 3)} :
    locate bn = some (s, i) ↔ bn = slotBase s + i ∧ i < NINDIRECT ^ slotLevel s := by
  have hs := slot_cases s
  generalize NINDIRECT ^ slotLevel s = m at hs ⊢
  unfold locate
  split_ifs
  case neg => simp only [false_iff]; omega
  all_goals simp only [Option.some.injEq, Prod.mk.injEq, Fin.ext_iff]; omega

/-- Every block below the maximum has a place. -/
lemma exists_locate {bn : ℕ} (h : bn < MAXFILE) : ∃ s i, locate bn = some (s, i) := by
  have h0 : MAXFILE = NDIRECT + NINDIRECT + NDINDIRECT + NTINDIRECT := rfl
  unfold locate
  split_ifs <;> first | exact ⟨_, _, rfl⟩ | (exfalso; omega)

lemma locate_lt {bn i : ℕ} {s : Fin (NDIRECT + 3)} (h : locate bn = some (s, i)) :
    bn < MAXFILE := by
  have h0 : MAXFILE = NDIRECT + NINDIRECT + NDINDIRECT + NTINDIRECT := rfl
  unfold locate at h
  split_ifs at h <;> omega

variable {sb : Superblock} {d d' d1 : Disk} {used : List ℕ}

lemma Alloc.not_inBitmap (h : Alloc sb d used) {b : ℕ} (hb : b ∈ used) : ¬ sb.InBitmap b :=
  (h.data b hb).not_inBitmap

lemma Superblock.IsData.ne_zero {b : ℕ} (hb : sb.IsData b) : b ≠ 0 := by
  have := hb.1
  have hpos : 0 < sb.dataStart := Nat.succ_pos _
  omega

/-! ## The whole block map -/

/-- The block map `slots'` on the disk `d'` is the map `slots` on `d` with the blocks `new` added
on the way to block `bn` of the file. -/
structure MapExtends (M : ℕ → Prop) (d d' : Disk) (slots slots' : Slots) (bn : ℕ)
    (new : List ℕ) : Prop where
  /-- The blocks of the file. -/
  perm : (blocks d' slots').Perm (new ++ blocks d slots)
  /-- Only new blocks can have become indirect blocks. -/
  sub : indirects d' slots' ⊆ new ++ indirects d slots
  /-- The other blocks of the file stay where they are. -/
  keep : ∀ k, k ≠ bn → blockOf d' slots' k = blockOf d slots k
  /-- So does block `bn` if it was mapped. -/
  same : blockOf d slots bn ≠ 0 → blockOf d' slots' bn = blockOf d slots bn
  /-- The blocks of the disk that changed. -/
  frame : ∀ b, ¬ M b → b ∉ indirects d slots → b ∉ new → d' b = d b
  /-- What is missing for the first blocks of the file. -/
  need : ∀ n, bn < n → missing d' slots' n + new.length = missing d slots n

lemma indirects_subset_blocks {slots : Slots} : indirects d slots ⊆ blocks d slots := by
  intro b hb
  obtain ⟨s, hs, hb⟩ := List.mem_flatMap.mp hb
  exact List.mem_flatMap.mpr ⟨s, hs, PtrTree.inner_subset_tree hb⟩

lemma tree_subset_blocks {slots : Slots} (s : Fin (NDIRECT + 3)) :
    ptrs.tree d (slotLevel s) (slots s) ⊆ blocks d slots := fun _ hb =>
  List.mem_flatMap.mpr ⟨s, List.mem_finRange s, hb⟩

/-- A slot that is not null holds a block of the file. -/
lemma slot_mem_blocks {slots : Slots} {s : Fin (NDIRECT + 3)} (h : slots s ≠ 0) :
    slots s ∈ blocks d slots :=
  tree_subset_blocks s (PtrTree.mem_tree_self h)

lemma inner_subset_indirects {slots : Slots} (s : Fin (NDIRECT + 3)) :
    ptrs.inner d (slotLevel s) (slots s) ⊆ indirects d slots := fun _ hb =>
  List.mem_flatMap.mpr ⟨s, List.mem_finRange s, hb⟩

/-- The blocks of a file: those of one slot and those of the others. -/
lemma blocks_perm_slot {slots : Slots} (s : Fin (NDIRECT + 3)) :
    (blocks d slots).Perm (ptrs.tree d (slotLevel s) (slots s) ++
      ((List.finRange (NDIRECT + 3)).erase s).flatMap fun t =>
        ptrs.tree d (slotLevel t) (slots t)) :=
  (List.perm_cons_erase (List.mem_finRange s)).flatMap_right _

lemma mem_finRange_erase {s t : Fin (NDIRECT + 3)} :
    t ∈ (List.finRange (NDIRECT + 3)).erase s ↔ t ≠ s := by
  rw [(List.nodup_finRange _).mem_erase_iff]
  simp

/-- The slots of a file reach different blocks. -/
lemma disjoint_slot {slots : Slots} (hnd : (blocks d slots).Nodup) (s : Fin (NDIRECT + 3)) :
    (ptrs.tree d (slotLevel s) (slots s)).Nodup ∧ ∀ t, t ≠ s →
      List.Disjoint (ptrs.tree d (slotLevel s) (slots s)) (ptrs.tree d (slotLevel t) (slots t)) := by
  rw [(blocks_perm_slot s).nodup_iff, List.nodup_append'] at hnd
  refine ⟨hnd.1, fun t ht b hb hb' => hnd.2.2 hb ?_⟩
  exact List.mem_flatMap.mpr ⟨t, mem_finRange_erase.mpr ht, hb'⟩

variable {M : ℕ → Prop} {slots slots' slots1 : Slots} {bn : ℕ}

lemma blockOf_of_locate {s : Fin (NDIRECT + 3)} {i : ℕ} (h : locate bn = some (s, i)) :
    blockOf d slots bn = ptrs.leaf d (slotLevel s) (slots s) i := by
  rw [blockOf, h]

/-- The first blocks of a file stand in the inode. -/
lemma blockOf_direct (i : Fin NDIRECT) : blockOf d slots i = slots (i.castAdd 3) := by
  rw [blockOf, locate, dif_pos i.isLt]
  have hlevel : slotLevel (i.castAdd 3) = 0 := by
    revert i
    decide
  change ptrs.leaf d (slotLevel (i.castAdd 3)) _ _ = _
  rw [hlevel]
  rfl

/-- The place of a mapped block. -/
lemma exists_of_blockOf_ne_zero (h : blockOf d slots bn ≠ 0) :
    ∃ s i, locate bn = some (s, i) ∧ i < NINDIRECT ^ slotLevel s ∧
      blockOf d slots bn = ptrs.leaf d (slotLevel s) (slots s) i := by
  cases hloc : locate bn with
  | none => simp [blockOf, hloc] at h
  | some r =>
    obtain ⟨s, i⟩ := r
    exact ⟨s, i, rfl, (locate_eq_some.mp hloc).2, blockOf_of_locate hloc⟩

/-- A mapped block is one of the blocks of the file. -/
lemma blockOf_mem_tree {s : Fin (NDIRECT + 3)} {i : ℕ} (h : blockOf d slots bn ≠ 0)
    (hloc : locate bn = some (s, i)) :
    blockOf d slots bn ∈ ptrs.tree d (slotLevel s) (slots s) := by
  rw [blockOf_of_locate hloc] at h ⊢
  exact PtrTree.leaf_mem_tree (locate_eq_some.mp hloc).2 h

lemma blockOf_mem_blocks (h : blockOf d slots bn ≠ 0) : blockOf d slots bn ∈ blocks d slots := by
  obtain ⟨s, i, hloc, -, -⟩ := exists_of_blockOf_ne_zero h
  exact tree_subset_blocks s (blockOf_mem_tree h hloc)

/-- A mapped block is not an indirect block. -/
lemma blockOf_notMem_indirects (hnd : (blocks d slots).Nodup) (h : blockOf d slots bn ≠ 0) :
    blockOf d slots bn ∉ indirects d slots := by
  obtain ⟨s, i, hloc, hi, heq⟩ := exists_of_blockOf_ne_zero h
  obtain ⟨hs, hdisj⟩ := disjoint_slot hnd s
  intro hin
  obtain ⟨t, -, ht⟩ := List.mem_flatMap.mp hin
  by_cases hts : t = s
  · subst hts
    rw [heq] at h ht
    exact PtrTree.leaf_notMem_inner hs hi h ht
  · exact hdisj t hts (blockOf_mem_tree h hloc) (PtrTree.inner_subset_tree ht)

/-- Different blocks of the file are different blocks of the disk. -/
lemma blockOf_inj {k : ℕ} (hnd : (blocks d slots).Nodup) (h : blockOf d slots bn ≠ 0)
    (heq : blockOf d slots bn = blockOf d slots k) : bn = k := by
  obtain ⟨s, i, hloc, hi, hleaf⟩ := exists_of_blockOf_ne_zero h
  have hk := h
  rw [heq] at hk
  obtain ⟨t, j, hloc', hj, hleaf'⟩ := exists_of_blockOf_ne_zero hk
  obtain ⟨hs, hdisj⟩ := disjoint_slot hnd s
  by_cases hts : t = s
  · subst hts
    have hij : i = j := PtrTree.leaf_inj hs hi hj (hleaf ▸ h) (by rw [← hleaf, ← hleaf', heq])
    have h1 := (locate_eq_some.mp hloc).1
    have h2 := (locate_eq_some.mp hloc').1
    omega
  · have hmem := blockOf_mem_tree hk hloc'
    rw [← heq] at hmem
    exact absurd hmem (hdisj t hts (blockOf_mem_tree h hloc))

section Congr

variable (hd : ∀ b ∈ indirects d slots, d' b = d b)

include hd

/-- The blocks of a file depend on the contents of its indirect blocks only. -/
lemma blocks_congr : blocks d' slots = blocks d slots :=
  List.flatMap_congr fun s _ => PtrTree.tree_congr fun b hb => hd b (inner_subset_indirects s hb)

lemma blockOf_congr (bn : ℕ) : blockOf d' slots bn = blockOf d slots bn := by
  unfold blockOf
  cases hloc : locate bn with
  | none => rfl
  | some r =>
    have hi : r.2 < ptrs.fan ^ slotLevel r.1 := (locate_eq_some.mp hloc).2
    exact PtrTree.leaf_congr hi fun b hb => hd b (inner_subset_indirects r.1 hb)

lemma missing_congr (n : ℕ) : missing d' slots n = missing d slots n :=
  Finset.sum_congr rfl fun s _ => PtrTree.need_congr _
    fun b hb => hd b (inner_subset_indirects s hb)

end Congr

/-- An empty map misses the same blocks on every disk. -/
lemma missing_null (d d' : Disk) (n : ℕ) :
    missing d (fun _ => 0) n = missing d' (fun _ => 0) n :=
  Finset.sum_congr rfl fun _ _ => PtrTree.need_null _

/-- Nothing is missing for blocks that are mapped. -/
lemma missing_eq_zero {n : ℕ} (h : ∀ bn, bn < n → blockOf d slots bn ≠ 0) :
    missing d slots n = 0 := by
  refine Finset.sum_eq_zero fun s _ => PtrTree.need_eq_zero (min_le_right _ _) fun i hi => ?_
  have hloc : locate (slotBase s + i) = some (s, i) :=
    locate_eq_some.mpr ⟨rfl, hi.trans_le (min_le_right _ _)⟩
  have hne := h (slotBase s + i) (by omega)
  rwa [blockOf_of_locate hloc] at hne

/-- An empty map reaches nothing. -/
lemma blocks_zero : blocks d (fun _ => 0) = [] :=
  List.flatMap_eq_nil_iff.mpr fun _ _ => PtrTree.tree_null

/-- What is added below one slot is added to the map. -/
lemma MapExtends.of_slot {s : Fin (NDIRECT + 3)} {i : ℕ} {new : List ℕ}
    (hloc : locate bn = some (s, i)) (hslots : ∀ t, t ≠ s → slots' t = slots t)
    (hnd : (blocks d slots).Nodup) (hM : ∀ b ∈ blocks d slots, ¬ M b)
    (hnew : ∀ b ∈ new, b ∉ blocks d slots)
    (h : ptrs.Extends M d d' (slotLevel s) (slots s) (slots' s) i new) :
    MapExtends M d d' slots slots' bn new := by
  obtain ⟨hbn, hi⟩ := locate_eq_some.mp hloc
  obtain ⟨-, hdisj⟩ := disjoint_slot hnd s
  -- the other slots are not touched
  have hoff : ∀ t, t ≠ s → ∀ b ∈ ptrs.inner d (slotLevel t) (slots t), d' b = d b := by
    intro t ht b hb
    have hbt := PtrTree.inner_subset_tree hb
    have hbt' := tree_subset_blocks t hbt
    exact h.frame b (hM b hbt') (fun hin => hdisj t ht (PtrTree.inner_subset_tree hin) hbt)
      fun hin => hnew b hin hbt'
  refine ⟨?_, ?_, fun k hk => ?_, ?_, fun b hb hin hbn => ?_, fun n hn => ?_⟩
  · have hothers : (((List.finRange (NDIRECT + 3)).erase s).flatMap fun t =>
        ptrs.tree d' (slotLevel t) (slots' t)) = ((List.finRange (NDIRECT + 3)).erase s).flatMap
        fun t => ptrs.tree d (slotLevel t) (slots t) := by
      refine List.flatMap_congr fun t ht => ?_
      have ht := mem_finRange_erase.mp ht
      rw [hslots t ht]
      exact PtrTree.tree_congr (hoff t ht)
    refine (blocks_perm_slot s).trans ?_
    rw [hothers]
    refine (h.tree.append_right _).trans ?_
    rw [List.append_assoc]
    exact (blocks_perm_slot s).symm.append_left new
  · intro b hb
    obtain ⟨t, -, hb⟩ := List.mem_flatMap.mp hb
    by_cases ht : t = s
    · subst ht
      rcases List.mem_append.mp (h.inner hb) with hb | hb
      · exact List.mem_append_left _ hb
      · exact List.mem_append_right _ (inner_subset_indirects t hb)
    · rw [hslots t ht, PtrTree.inner_congr (hoff t ht)] at hb
      exact List.mem_append_right _ (inner_subset_indirects t hb)
  · unfold blockOf
    cases hk' : locate k with
    | none => rfl
    | some r =>
      obtain ⟨t, j⟩ := r
      obtain ⟨hkt, hj⟩ := locate_eq_some.mp hk'
      by_cases ht : t = s
      · subst ht
        exact h.keep j hj fun hji => hk (by omega)
      · simp only [hslots t ht]
        exact PtrTree.leaf_congr hj (hoff t ht)
  · unfold blockOf
    rw [hloc]
    exact h.same
  · exact h.frame b hb (fun hin' => hin (inner_subset_indirects s hin')) hbn
  · unfold missing
    rw [← Finset.add_sum_erase _ _ (Finset.mem_univ s),
      ← Finset.add_sum_erase _ _ (Finset.mem_univ s)]
    have hslot := h.need (min (n - slotBase s) (NINDIRECT ^ slotLevel s)) (by omega)
      (min_le_right _ _)
    have hrest : ∀ t ∈ Finset.univ.erase s,
        ptrs.need d' (slotLevel t) (slots' t) (min (n - slotBase t) (NINDIRECT ^ slotLevel t)) =
          ptrs.need d (slotLevel t) (slots t)
            (min (n - slotBase t) (NINDIRECT ^ slotLevel t)) := by
      intro t ht
      have ht := Finset.ne_of_mem_erase ht
      rw [hslots t ht]
      exact PtrTree.need_congr _ (hoff t ht)
    rw [Finset.sum_congr rfl hrest]
    omega

/-- A map within a list of blocks stays within it, with the new blocks added. -/
lemma MapExtends.within {new : List ℕ} (h : MapExtends M d d' slots slots' bn new)
    (hnew : (new ++ used).Nodup) (hnd : (blocks d slots).Nodup) (hsub : blocks d slots ⊆ used) :
    (blocks d' slots').Nodup ∧ blocks d' slots' ⊆ new ++ used :=
  PtrTree.within_of_perm h.perm hnew hnd hsub

/-! ## Mapping a block in a store -/

section Store

universe u v

variable {S : Type u} {ε : Type v}

/-- Map block `bn` of a file in a store, allocating what is missing; `e` is the error for a block
that is out of range. -/
def mapBlock (st : PtrStore ptrs S ε) (e : ε) (slots : Slots) (bn : ℕ) (t : S) :
    Except ε (ℕ × Slots × S) :=
  match locate bn with
  | some (s, i) => do
    let (addr, a, t) ← st.reach (slotLevel s) (slots s) i t
    .ok (addr, Function.update slots s a, t)
  | none => .error e

variable {st : PtrStore ptrs S ε} {e : ε} {Inv : S → List ℕ → Prop} {cap : ℕ} {t t' : S}
  (hst : st.Lawful M Inv cap) (h : Inv t used) (hnd : (blocks (st.disk t) slots).Nodup)
  (hsub : blocks (st.disk t) slots ⊆ used)

include hst h hnd hsub

/-- The block is mapped, and what was missing on the way is added. -/
lemma mapBlock_spec {addr : ℕ} (hb : mapBlock st e slots bn t = .ok (addr, slots', t')) :
    ∃ new, MapExtends M (st.disk t) (st.disk t') slots slots' bn new ∧ Inv t' (new ++ used) ∧
      blockOf (st.disk t') slots' bn = addr ∧ addr ≠ 0 ∧
      (blockOf (st.disk t) slots bn = 0 → st.disk t' addr = st.blank) := by
  unfold mapBlock at hb
  cases hloc : locate bn with
  | none => simp [hloc] at hb
  | some r =>
    obtain ⟨s, i⟩ := r
    rw [hloc] at hb
    obtain ⟨⟨leaf, a, t1⟩, hr, hb⟩ := bind_eq_ok.mp hb
    simp only [Except.ok.injEq, Prod.mk.injEq] at hb
    obtain ⟨rfl, rfl, rfl⟩ := hb
    obtain ⟨new, hext, h', hleaf, hne, hblank⟩ := hst.reach_spec h (locate_eq_some.mp hloc).2
      (disjoint_slot hnd s).1 (fun b hb => hsub (tree_subset_blocks s hb)) hr
    refine ⟨new, MapExtends.of_slot hloc (fun t ht => update_of_ne ht _ _) hnd
      (fun b hb => hst.apart h (hsub hb)) (fun b hb hin => ?_) ?_, h', ?_, hne, fun h0 => hblank ?_⟩
    · exact (List.nodup_append'.mp (hst.nodup h')).2.2 hb (hsub hin)
    · rwa [update_self]
    · rw [blockOf_of_locate hloc, update_self]
      exact hleaf
    · rwa [blockOf_of_locate hloc] at h0

/-- The block can be mapped when there is room for what is missing. -/
lemma mapBlock_ok {n : ℕ} (hbn : bn < n) (hn : n ≤ MAXFILE)
    (hroom : missing (st.disk t) slots n + used.length ≤ cap) :
    ∃ addr slots' t', mapBlock st e slots bn t = .ok (addr, slots', t') := by
  obtain ⟨s, i, hloc⟩ := exists_locate (hbn.trans_le hn)
  obtain ⟨hbase, hi⟩ := locate_eq_some.mp hloc
  have hterm : ptrs.need (st.disk t) (slotLevel s) (slots s)
      (min (n - slotBase s) (NINDIRECT ^ slotLevel s)) ≤ missing (st.disk t) slots n :=
    Finset.single_le_sum (f := fun s => ptrs.need (st.disk t) (slotLevel s) (slots s)
      (min (n - slotBase s) (NINDIRECT ^ slotLevel s))) (fun _ _ => Nat.zero_le _)
      (Finset.mem_univ s)
  obtain ⟨leaf, a, t', hr⟩ := hst.reach_ok h hi (disjoint_slot hnd s).1
    (fun b hb => hsub (tree_subset_blocks s hb)) (lt_min (by omega) hi) (min_le_right _ _)
    (le_trans (Nat.add_le_add_right hterm _) hroom)
  refine ⟨leaf, update slots s a, t', ?_⟩
  rw [mapBlock, hloc]
  exact bind_eq_ok.mpr ⟨_, hr, rfl⟩

end Store

/-! ## `bmap` -/

/-- The disk with the block allocator of the kernel. -/
def kernelStore (sb : Superblock) : PtrStore ptrs Disk FsPanic where
  disk := fun d => d
  set := fun d b x => Function.update d b x
  setPtr := Bytes.setWord
  alloc := balloc sb
  blank := fun _ => 0

lemma kernelStore_lawful (hL : sb.Layout) :
    (kernelStore sb).Lawful sb.InBitmap (Alloc sb) (sb.size - sb.dataStart) where
  nodup := fun h => h.nodup
  apart := fun h hb => h.not_inBitmap hb
  disk_set := fun _ _ _ => rfl
  inv_set := fun h ha => h.congr fun b hb => by
    refine update_of_ne ?_ _ _
    rintro rfl
    exact h.not_inBitmap ha hb
  ptr_setPtr_of_ne := fun hne => Bytes.word_setWord_of_ne hne
  alloc_fresh := fun h hb => ⟨(balloc_spec h hb).1, (balloc_spec h hb).2.1.ne_zero⟩
  alloc_inv := fun h hb => (balloc_spec h hb).2.2.1
  ptr_blank := Bytes.word_zero
  alloc_blank := fun h hb => (balloc_spec h hb).2.2.2.1
  alloc_frame := fun h hb hM hbc => (balloc_spec h hb).2.2.2.2 _ hM hbc
  alloc_ptr := fun h hb hi => by
    refine Bytes.word_setWord_same ?_ ((balloc_spec h hb).2.1.2.trans hL.small)
    have h1 : ptrs.fan = 128 := rfl
    have h2 : BSIZE = 512 := rfl
    omega
  alloc_ok := fun h hroom => balloc_eq_ok h hroom

/-- The levels of `bmap` are the walk down a pointer tree. -/
lemma bmapWalk_eq_walk (l a i : ℕ) (d : Disk) :
    bmapWalk sb l a i d = (kernelStore sb).walk l a i d := by
  induction l generalizing a i d with
  | zero => rfl
  | succ l ih =>
    have hentry : bmapEntry sb d a (i / NINDIRECT ^ l) =
      (kernelStore sb).entry a (i / ptrs.fan ^ l) d := rfl
    rw [bmapWalk, PtrStore.walk, hentry]
    congr 1
    funext r
    exact ih r.1 _ r.2

/-- `bmap` maps a block in the store of the kernel. -/
lemma bmap_eq_mapBlock : bmap sb slots bn d = mapBlock (kernelStore sb) .outOfRange slots bn d := by
  unfold bmap mapBlock
  cases locate bn with
  | none => rfl
  | some r =>
    obtain ⟨s, i⟩ := r
    simp only [PtrStore.reach, PtrStore.root, bmapSlot, bmapWalk_eq_walk]
    split_ifs with hs
    · show (balloc sb d >>= _) >>= _ = _
      cases hb : balloc sb d with
      | error e => simp [kernelStore, hb, bind, Except.bind]
      | ok q =>
        simp only [kernelStore, hb, ok_bind]
        cases PtrStore.walk _ (slotLevel s) q.1 i q.2 <;> rfl
    · simp only [ok_bind]
      cases (kernelStore sb).walk (slotLevel s) (slots s) i d with
      | error e => rfl
      | ok q =>
        simp only [ok_bind, update_eq_self]

section Bmap

variable (hL : sb.Layout) (h : Alloc sb d used) (hnd : (blocks d slots).Nodup)
  (hsub : blocks d slots ⊆ used)

include hL h hnd hsub

/-- `bmap` maps the block, and adds what was missing on the way. -/
lemma bmap_spec {addr : ℕ} (hb : bmap sb slots bn d = .ok (addr, slots', d')) :
    ∃ new, MapExtends sb.InBitmap d d' slots slots' bn new ∧ Alloc sb d' (new ++ used) ∧
      blockOf d' slots' bn = addr ∧ addr ≠ 0 := by
  obtain ⟨new, hext, h', haddr, hne, -⟩ :=
    mapBlock_spec (kernelStore_lawful hL) h hnd hsub (bmap_eq_mapBlock.symm.trans hb)
  exact ⟨new, hext, h', haddr, hne⟩

end Bmap

/-- The walk to a leaf that is there allocates nothing. -/
lemma bmapWalk_of_leaf {l a i : ℕ} (h : ptrs.leaf d l a i ≠ 0) :
    bmapWalk sb l a i d = .ok (ptrs.leaf d l a i, d) := by
  induction l generalizing a i with
  | zero => rfl
  | succ l ih =>
    have ha : a ≠ 0 := fun ha => h (by rw [ha, PtrTree.leaf_null])
    rw [PtrTree.leaf_succ ha] at h ⊢
    have hptr : Bytes.word (d a) (i / NINDIRECT ^ l) ≠ 0 := fun h0 => h (by
      have h0 : ptrs.ptr (d a) (i / ptrs.fan ^ l) = 0 := h0
      rw [h0, PtrTree.leaf_null])
    rw [bmapWalk, bmapEntry, if_neg hptr]
    exact ih h

/-- `bmap` of a mapped block finds it and changes nothing. -/
lemma bmap_of_blockOf (h : blockOf d slots bn ≠ 0) :
    bmap sb slots bn d = .ok (blockOf d slots bn, slots, d) := by
  obtain ⟨s, i, hloc, -, hleaf⟩ := exists_of_blockOf_ne_zero h
  rw [hleaf] at h ⊢
  have hs : slots s ≠ 0 := fun hs => h (by rw [hs, PtrTree.leaf_null])
  simp only [bmap, hloc, bmapSlot, if_neg hs, bind, Except.bind, bmapWalk_of_leaf h]

/-- `bmap` panics only because the disk is full or the block is out of range. -/
lemma bmap_failsWithin : FailsWithin FsPanic.IsUnmapped (bmap sb slots bn d) := by
  have hballoc : ∀ d, FailsWithin FsPanic.IsUnmapped (balloc sb d) := by
    intro d
    unfold balloc
    split
    · exact FailsWithin.ok _
    · exact FailsWithin.error (Or.inl rfl)
  have hentry : ∀ d a i, FailsWithin FsPanic.IsUnmapped (bmapEntry sb d a i) := by
    intro d a i
    unfold bmapEntry
    split_ifs
    · exact (hballoc d).bind fun _ _ => FailsWithin.ok _
    · exact FailsWithin.ok _
  have hwalk : ∀ l a i d, FailsWithin FsPanic.IsUnmapped (bmapWalk sb l a i d) := by
    intro l
    induction l with
    | zero => exact fun a i d => FailsWithin.ok _
    | succ l ih => exact fun a i d => (hentry _ _ _).bind fun _ _ => ih _ _ _
  have hslot : ∀ s, FailsWithin FsPanic.IsUnmapped (bmapSlot sb slots s d) := by
    intro s
    unfold bmapSlot
    split_ifs
    · exact (hballoc d).bind fun _ _ => FailsWithin.ok _
    · exact FailsWithin.ok _
  unfold bmap
  split
  · exact (hslot _).bind fun _ _ => (hwalk _ _ _ _).bind fun _ _ => FailsWithin.ok _
  · exact FailsWithin.error (Or.inr rfl)

/-! ## The freeing loops of `itrunc` -/

/-- `bfree` on a disk that agrees with `d₀` outside the free map. -/
lemma bfree_agree {d0 : Disk} {c : ℕ} (hd : ∀ b, ¬ sb.InBitmap b → d b = d0 b)
    (h : Alloc sb d (c :: used)) :
    ∃ d', bfree sb d c = .ok d' ∧ Alloc sb d' used ∧ ∀ b, ¬ sb.InBitmap b → d' b = d0 b := by
  obtain ⟨d', hf, h', hframe⟩ := bfree_spec h
  exact ⟨d', hf, h', fun b hb => (hframe b hb).trans (hd b hb)⟩

/-- The loops below a pointer free its blocks, and change nothing outside the free map.  The
blocks are those of a disk `d₀` that agrees with the current one outside the free map. -/
lemma freeTree_spec {d0 : Disk} {l a : ℕ} (hd : ∀ b, ¬ sb.InBitmap b → d b = d0 b)
    (h : Alloc sb d (ptrs.tree d0 l a ++ used)) :
    ∃ d', freeTree sb l a d = .ok d' ∧ Alloc sb d' used ∧
      ∀ b, ¬ sb.InBitmap b → d' b = d0 b := by
  induction l generalizing a d used with
  | zero =>
    by_cases ha : a = 0
    · subst ha
      rw [PtrTree.tree_null] at h
      exact ⟨d, if_pos rfl, h, hd⟩
    · rw [PtrTree.tree, if_neg ha] at h
      rw [freeTree, if_neg ha]
      exact bfree_agree hd h
  | succ l ih =>
    by_cases ha : a = 0
    · subst ha
      rw [PtrTree.tree_null] at h
      exact ⟨d, if_pos rfl, h, hd⟩
    rw [PtrTree.tree_succ ha] at h
    have hmem := h.not_inBitmap List.mem_cons_self
    -- the loop over the entries of the block, from any point on
    have hloop : ∀ (js : List ℕ) (d : Disk), (∀ b, ¬ sb.InBitmap b → d b = d0 b) →
        Alloc sb d (js.flatMap (fun j => ptrs.tree d0 l (Bytes.word (d0 a) j)) ++ (a :: used)) →
        ∃ d', js.foldlM (fun d j => freeTree sb l (Bytes.word (d a) j) d) d = .ok d' ∧
          Alloc sb d' (a :: used) ∧ ∀ b, ¬ sb.InBitmap b → d' b = d0 b := by
      intro js
      induction js with
      | nil => exact fun d hd h => ⟨d, rfl, h, hd⟩
      | cons j js ihjs =>
        intro d hd h
        rw [List.flatMap_cons, List.append_assoc] at h
        obtain ⟨d1, hf, h1, hd1⟩ := ih hd h
        obtain ⟨d2, hfs, h2, hd2⟩ := ihjs d1 hd1 h1
        refine ⟨d2, ?_, h2, hd2⟩
        rw [List.foldlM_cons, hd a hmem, hf]
        exact hfs
    obtain ⟨d1, hfold, h1, hd1⟩ := hloop (List.range NINDIRECT) d hd (h.perm List.perm_middle.symm)
    obtain ⟨d', hf, h', hd'⟩ := bfree_agree hd1 h1
    refine ⟨d', ?_, h', hd'⟩
    rw [freeTree, if_neg ha, hfold]
    exact hf

/-- `itrunc` frees the blocks of all slots and clears the slots. -/
lemma freeSlots_spec (h : Alloc sb d (blocks d slots ++ used)) :
    ∃ d', freeSlots sb slots d = .ok (fun _ => 0, d') ∧ Alloc sb d' used ∧
      ∀ b, ¬ sb.InBitmap b → d' b = d b := by
  -- the loop over the slots that are still to come
  have hloop : ∀ (ss : List (Fin (NDIRECT + 3))) (cur : Slots) (d1 : Disk), ss.Nodup →
      (∀ s ∈ ss, cur s = slots s) → (∀ s ∉ ss, cur s = 0) →
      (∀ b, ¬ sb.InBitmap b → d1 b = d b) →
      Alloc sb d1 (ss.flatMap (fun s => ptrs.tree d (slotLevel s) (slots s)) ++ used) →
      ∃ d', ss.foldlM (freeSlot sb) (cur, d1) = .ok (fun _ => 0, d') ∧ Alloc sb d' used ∧
        ∀ b, ¬ sb.InBitmap b → d' b = d b := by
    intro ss
    induction ss with
    | nil =>
      intro cur d1 _ _ hcur hd h
      exact ⟨d1, by rw [funext fun s => hcur s (by simp)]; rfl, h, hd⟩
    | cons s ss ih =>
      intro cur d1 hnd htodo hdone hd h
      obtain ⟨hs, hnd⟩ := List.nodup_cons.mp hnd
      rw [List.flatMap_cons, List.append_assoc] at h
      obtain ⟨d2, hf, h2, hd2⟩ := freeTree_spec hd h
      obtain ⟨d', hfs, h', hd'⟩ := ih (update cur s 0) d2 hnd
        (fun t ht => by
          have hts : t ≠ s := fun heq => hs (heq ▸ ht)
          rw [update_of_ne hts, htodo t (List.mem_cons_of_mem _ ht)])
        (fun t ht => by
          by_cases hts : t = s
          · rw [hts, update_self]
          · rw [update_of_ne hts, hdone t (by simp [hts, ht])]) hd2 h2
      have hstep : freeSlot sb (cur, d1) s = .ok (update cur s 0, d2) := by
        simp only [freeSlot, htodo s List.mem_cons_self, hf]
        rfl
      refine ⟨d', ?_, h', hd'⟩
      rw [List.foldlM_cons, hstep]
      exact hfs
  exact hloop (List.finRange (NDIRECT + 3)) slots d (List.nodup_finRange _) (fun _ _ => rfl)
    (fun s hs => absurd (List.mem_finRange s) hs) (fun _ _ => rfl) h

end Xv7
