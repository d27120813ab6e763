import Xv7.Fs.Layout

/-!
# The block allocator

`balloc` and `bfree`, over the contents of the disk as `bread` returns them.  `Alloc sb d used`
says that the free map of the disk `d` marks exactly the metadata and the blocks listed in `used`;
`balloc` adds a block to the list and `bfree` takes one out.
-/

namespace Xv7

open Function (update update_of_ne update_self)

/-! ## Bits of a free-map block -/

/-- `1 << (bi % 8)`. -/
def bitMask (bi : ℕ) : UInt8 := 1 <<< UInt8.ofNat (bi % 8)

/-- `bp->data[bi / 8] & m`. -/
def getBit (blk : Block) (bi : ℕ) : Bool := (Bytes.rd blk (bi / 8) &&& bitMask bi) != 0

/-- `bp->data[bi / 8] |= m`. -/
def setBit (blk : Block) (bi : ℕ) : Block :=
  Bytes.patch blk (bi / 8) 1 fun _ => Bytes.rd blk (bi / 8) ||| bitMask bi

/-- `bp->data[bi / 8] &= ~m`. -/
def clearBit (blk : Block) (bi : ℕ) : Block :=
  Bytes.patch blk (bi / 8) 1 fun _ => Bytes.rd blk (bi / 8) &&& ~~~ bitMask bi

lemma bitMask_toNat (bi : ℕ) : (bitMask bi).toNat = 2 ^ (bi % 8) := by
  have h : ∀ k : Fin 8, ((1 : UInt8) <<< UInt8.ofNat k).toNat = 2 ^ (k : ℕ) := by decide
  exact h ⟨bi % 8, Nat.mod_lt _ (by decide)⟩

/-- The test of a bit by its mask. -/
lemma mask_ne_zero (x : UInt8) (bi : ℕ) :
    ((x &&& bitMask bi) != 0) = x.toNat.testBit (bi % 8) := by
  have hz : (x &&& bitMask bi) = 0 ↔ x.toNat.testBit (bi % 8) = false := by
    rw [← UInt8.toNat_inj, UInt8.toNat_and, bitMask_toNat, Nat.and_two_pow]
    cases x.toNat.testBit (bi % 8) <;> simp
  rw [Bool.eq_iff_iff, bne_iff_ne, Ne, hz, Bool.not_eq_false]

lemma testBit_or_mask (x : UInt8) (bi k : ℕ) :
    (x ||| bitMask bi).toNat.testBit k = (decide (k = bi % 8) || x.toNat.testBit k) := by
  rw [UInt8.toNat_or, bitMask_toNat, Nat.testBit_or, Nat.testBit_two_pow, Bool.or_comm]
  simp [eq_comm]

lemma testBit_and_not_mask (x : UInt8) (bi : ℕ) {k : ℕ} (hk : k < 8) :
    (x &&& ~~~ bitMask bi).toNat.testBit k = (!decide (k = bi % 8) && x.toNat.testBit k) := by
  have hnot : (~~~ bitMask bi).toNat = 2 ^ 8 - (2 ^ (bi % 8) + 1) := by
    rw [UInt8.toNat_not, bitMask_toNat, Nat.add_comm, ← Nat.sub_sub]
    rfl
  have hlt : 2 ^ (bi % 8) < 2 ^ 8 := Nat.pow_lt_pow_right (by decide) (Nat.mod_lt _ (by decide))
  rw [UInt8.toNat_and, hnot, Nat.testBit_and, Nat.testBit_two_pow_sub_succ hlt,
    Nat.testBit_two_pow, Bool.and_comm]
  simp [hk, eq_comm]

/-- Reading a bit after setting one. -/
lemma getBit_setBit {blk : Block} {bi bj : ℕ} (hi : bi < BPB) :
    getBit (setBit blk bi) bj = (decide (bj = bi) || getBit blk bj) := by
  unfold getBit setBit
  rw [mask_ne_zero, mask_ne_zero]
  by_cases h : bj / 8 = bi / 8
  · have hmod : bj % 8 = bi % 8 ↔ bj = bi := by omega
    have hlt : bj / 8 < BSIZE := by
      rw [h]
      exact Nat.div_lt_of_lt_mul hi
    rw [Bytes.rd_patch_of_mem (by omega) (by omega) hlt, h, testBit_or_mask]
    simp only [hmod]
  · have hne : bj ≠ bi := fun heq => h (heq ▸ rfl)
    rw [Bytes.rd_patch_of_notMem (by omega), decide_eq_false hne, Bool.false_or]

/-- Reading a bit after clearing one. -/
lemma getBit_clearBit {blk : Block} {bi bj : ℕ} (hi : bi < BPB) :
    getBit (clearBit blk bi) bj = (!decide (bj = bi) && getBit blk bj) := by
  unfold getBit clearBit
  rw [mask_ne_zero, mask_ne_zero]
  by_cases h : bj / 8 = bi / 8
  · have hmod : bj % 8 = bi % 8 ↔ bj = bi := by omega
    have hlt : bj / 8 < BSIZE := by
      rw [h]
      exact Nat.div_lt_of_lt_mul hi
    rw [Bytes.rd_patch_of_mem (by omega) (by omega) hlt, h,
      testBit_and_not_mask _ _ (Nat.mod_lt _ (by decide))]
    simp only [hmod]
  · have hne : bj ≠ bi := fun heq => h (heq ▸ rfl)
    rw [Bytes.rd_patch_of_notMem (by omega), decide_eq_false hne, Bool.not_false, Bool.true_and]

/-! ## The code -/

/-- The bit of a block in the free map. -/
def bit (sb : Superblock) (d : Disk) (b : ℕ) : Bool := getBit (d (sb.bblock b)) (b % BPB)

/-- `bzero`. -/
def bzero (d : Disk) (bno : ℕ) : Disk := Function.update d bno fun _ => 0

/-- The inner loop of `balloc`: the first free block whose bit lies in the free-map block of
`b`. -/
def ballocScan (sb : Superblock) (d : Disk) (b : ℕ) : Option ℕ :=
  ((List.range BPB).find? fun bi =>
    decide (b + bi < sb.size) && !getBit (d (sb.bblock b)) bi).map (b + ·)

/-- `balloc`: allocate a zeroed disk block. -/
def balloc (sb : Superblock) (d : Disk) : Except FsPanic (ℕ × Disk) :=
  match ((List.range ((sb.size + BPB - 1) / BPB)).map (· * BPB)).findSome? (ballocScan sb d) with
  | some b =>
    let d := Function.update d (sb.bblock b) (setBit (d (sb.bblock b)) (b % BPB))
    .ok (b, bzero d b)
  | none => .error .outOfBlocks

/-- `bfree`: free a disk block. -/
def bfree (sb : Superblock) (d : Disk) (b : ℕ) : Except FsPanic Disk :=
  if getBit (d (sb.bblock b)) (b % BPB) = false then .error .freeingFreeBlock
  else .ok (Function.update d (sb.bblock b) (clearBit (d (sb.bblock b)) (b % BPB)))

variable {sb : Superblock} {d d' : Disk} {used : List ℕ} {b c : ℕ}

/-! ## The bits after a change -/

lemma bblock_mod_inj (h : sb.bblock b = sb.bblock c) : b % BPB = c % BPB ↔ b = c := by
  unfold Superblock.bblock at h
  have hb := Nat.div_add_mod b BPB
  have hc := Nat.div_add_mod c BPB
  have hdiv : b / BPB = c / BPB := by omega
  constructor
  · intro hmod
    rw [← hb, ← hc, hdiv, hmod]
  · intro heq
    rw [heq]

lemma bit_setBit (b c : ℕ) :
    bit sb (update d (sb.bblock c) (setBit (d (sb.bblock c)) (c % BPB))) b =
      (decide (b = c) || bit sb d b) := by
  unfold bit
  by_cases h : sb.bblock b = sb.bblock c
  · rw [h, update_self, getBit_setBit (Nat.mod_lt _ (by decide))]
    simp only [bblock_mod_inj h]
  · have hne : b ≠ c := fun heq => h (heq ▸ rfl)
    rw [update_of_ne h, decide_eq_false hne, Bool.false_or]

lemma bit_clearBit (b c : ℕ) :
    bit sb (update d (sb.bblock c) (clearBit (d (sb.bblock c)) (c % BPB))) b =
      (!decide (b = c) && bit sb d b) := by
  unfold bit
  by_cases h : sb.bblock b = sb.bblock c
  · rw [h, update_self, getBit_clearBit (Nat.mod_lt _ (by decide))]
    simp only [bblock_mod_inj h]
  · have hne : b ≠ c := fun heq => h (heq ▸ rfl)
    rw [update_of_ne h, decide_eq_false hne, Bool.not_false, Bool.true_and]

lemma getBit_zero (bi : ℕ) : getBit (fun _ => 0) bi = false := by
  simp [getBit, Bytes.rd]

/-- The bits of a disk of zeroes are clear. -/
lemma bit_zero (b : ℕ) : bit sb (fun _ _ => 0) b = false := getBit_zero _

/-- Mark the first `n` blocks as in use. -/
def markUsed (sb : Superblock) (d : Disk) (n : ℕ) : Disk :=
  (List.range n).foldl
    (fun d b => Function.update d (sb.bblock b) (setBit (d (sb.bblock b)) (b % BPB))) d

lemma bit_markUsed (n b : ℕ) :
    bit sb (markUsed sb d n) b = (decide (b < n) || bit sb d b) := by
  induction n with
  | zero => simp [markUsed]
  | succ n ih =>
    rw [markUsed, List.range_succ, List.foldl_concat, ← markUsed, bit_setBit, ih, ← Bool.or_assoc]
    congr 1
    rw [Bool.eq_iff_iff]
    simp only [Bool.or_eq_true, decide_eq_true_eq]
    omega

lemma markUsed_of_lt (hb : b < sb.bmapstart) (n : ℕ) : markUsed sb d n b = d b := by
  induction n with
  | zero => rfl
  | succ n ih =>
    have hne : b ≠ sb.bblock n := Nat.ne_of_lt (hb.trans_le (Nat.le_add_left _ _))
    rw [markUsed, List.range_succ, List.foldl_concat, update_of_ne hne]
    exact ih

/-- The free map depends on its own blocks only. -/
lemma bit_congr (h : ∀ b, sb.InBitmap b → d' b = d b) (hb : b < sb.size) :
    bit sb d' b = bit sb d b := by
  rw [bit, bit, h _ (Superblock.inBitmap_bblock hb)]

/-! ## The invariant of the allocator -/

/-- The free map marks the metadata and the blocks in `used`, which are different data blocks. -/
structure Alloc (sb : Superblock) (d : Disk) (used : List ℕ) : Prop where
  /-- No block is listed twice. -/
  nodup : used.Nodup
  /-- The listed blocks are data blocks. -/
  data : ∀ b ∈ used, sb.IsData b
  /-- The bits of the free map. -/
  bits : ∀ b, b < sb.size → (bit sb d b = true ↔ b < sb.dataStart ∨ b ∈ used)

lemma Alloc.perm {used' : List ℕ} (h : Alloc sb d used) (hp : used.Perm used') :
    Alloc sb d used' :=
  ⟨hp.nodup_iff.mp h.nodup, fun b hb => h.data b (hp.mem_iff.mpr hb), fun b hb => by
    rw [h.bits b hb, hp.mem_iff]⟩

/-- The allocator is concerned with the free map only. -/
lemma Alloc.congr (h : Alloc sb d used) (hd : ∀ b, sb.InBitmap b → d' b = d b) :
    Alloc sb d' used :=
  ⟨h.nodup, h.data, fun b hb => by rw [bit_congr hd hb, h.bits b hb]⟩

/-- There are no more blocks in use than data blocks. -/
lemma Alloc.length_le (h : Alloc sb d used) : used.length ≤ sb.size - sb.dataStart := by
  have hsub : used ⊆ List.range' sb.dataStart (sb.size - sb.dataStart) := by
    intro b hb
    have hdata := h.data b hb
    rw [List.mem_range'_1]
    exact ⟨hdata.1, by have := hdata.2; omega⟩
  have := (List.subperm_of_subset h.nodup hsub).length_le
  rwa [List.length_range'] at this

/-- A disk on which only the metadata are in use. -/
lemma alloc_markUsed : Alloc sb (markUsed sb (fun _ _ => 0) sb.dataStart) [] :=
  ⟨List.nodup_nil, by simp, fun b _ => by simp [bit_markUsed, bit_zero]⟩

/-- The scan finds a free block of the file system, if there is one. -/
lemma ballocScan_spec :
    (∀ b, ((List.range ((sb.size + BPB - 1) / BPB)).map (· * BPB)).findSome?
      (ballocScan sb d) = some b → b < sb.size ∧ bit sb d b = false) ∧
    (((List.range ((sb.size + BPB - 1) / BPB)).map (· * BPB)).findSome?
      (ballocScan sb d) = none → ∀ b, b < sb.size → bit sb d b = true) := by
  have hsplit : ∀ i bi, bi < BPB → sb.bblock (i * BPB) = sb.bblock (i * BPB + bi) ∧
      (i * BPB + bi) % BPB = bi := by
    intro i bi hbi
    have hdiv : (i * BPB + bi) / BPB = i := by
      rw [Nat.mul_comm, Nat.mul_add_div (by decide), Nat.div_eq_of_lt hbi, Nat.add_zero]
    rw [Superblock.bblock, Superblock.bblock, hdiv, Nat.mul_div_cancel _ (by decide)]
    exact ⟨rfl, by rw [Nat.add_comm, Nat.add_mul_mod_self_right, Nat.mod_eq_of_lt hbi]⟩
  constructor
  · intro b hb
    obtain ⟨base, hbase, hscan⟩ := List.exists_of_findSome?_eq_some hb
    obtain ⟨i, -, rfl⟩ := List.mem_map.mp hbase
    obtain ⟨bi, hfind, rfl⟩ := Option.map_eq_some_iff.mp hscan
    have hbi := List.mem_range.mp (List.mem_of_find?_eq_some hfind)
    have hp := List.find?_some hfind
    simp only [Bool.and_eq_true, decide_eq_true_eq, Bool.not_eq_true'] at hp
    obtain ⟨hblk, hmod⟩ := hsplit i bi hbi
    refine ⟨hp.1, ?_⟩
    rw [bit, hmod, ← hblk]
    exact hp.2
  · intro hnone b hb
    rw [List.findSome?_eq_none_iff] at hnone
    have hlt : b / BPB < (sb.size + BPB - 1) / BPB := by
      have hB : BPB = 4096 := rfl
      rw [hB]
      omega
    have hbase := hnone (b / BPB * BPB) (List.mem_map.mpr ⟨_, List.mem_range.mpr hlt, rfl⟩)
    rw [ballocScan, Option.map_eq_none_iff, List.find?_eq_none] at hbase
    have hbit := hbase (b % BPB) (List.mem_range.mpr (Nat.mod_lt _ (by decide)))
    have hsum : b / BPB * BPB + b % BPB = b := Nat.div_add_mod' b BPB
    obtain ⟨hblk, -⟩ := hsplit (b / BPB) (b % BPB) (Nat.mod_lt _ (by decide))
    rw [hsum] at hblk
    rw [hsum, hblk] at hbit
    simpa [hb, bit] using hbit

/-- `balloc` hands out a free data block, zeroed and marked. -/
lemma balloc_spec (h : Alloc sb d used) (hb : balloc sb d = .ok (c, d')) :
    c ∉ used ∧ sb.IsData c ∧ Alloc sb d' (c :: used) ∧ d' c = (fun _ => 0) ∧
      ∀ b, ¬ sb.InBitmap b → b ≠ c → d' b = d b := by
  unfold balloc at hb
  split at hb
  case h_2 => simp at hb
  case h_1 b hscan =>
    simp only [Except.ok.injEq, Prod.mk.injEq] at hb
    obtain ⟨rfl, rfl⟩ := hb
    obtain ⟨hlt, hfree⟩ := ballocScan_spec.1 b hscan
    have hbit : ¬ (b < sb.dataStart ∨ b ∈ used) := fun hin => by
      rw [(h.bits b hlt).mpr hin] at hfree
      simp at hfree
    rw [not_or, Nat.not_lt] at hbit
    have hdata : sb.IsData b := ⟨hbit.1, hlt⟩
    refine ⟨hbit.2, hdata, ⟨List.nodup_cons.mpr ⟨hbit.2, h.nodup⟩, ?_, fun c hc => ?_⟩, ?_,
      fun c hc hcb => ?_⟩
    · intro c hc
      rcases List.mem_cons.mp hc with rfl | hc
      · exact hdata
      · exact h.data c hc
    · have hzero : ∀ d : Disk, ∀ c, sb.InBitmap c → bzero d b c = d c := by
        intro d c hc
        have hcb : c ≠ b := by
          rintro rfl
          exact hdata.not_inBitmap hc
        exact update_of_ne hcb _ _
      rw [bit_congr (hzero _) hc, bit_setBit, Bool.or_eq_true, decide_eq_true_eq, h.bits c hc,
        List.mem_cons]
      tauto
    · exact update_self _ _ _
    · have hcb' : c ≠ sb.bblock b := by
        rintro rfl
        exact hc (Superblock.inBitmap_bblock hlt)
      rw [bzero, update_of_ne hcb, update_of_ne hcb']

/-- `balloc` panics only when no data block is free. -/
lemma balloc_eq_ok (h : Alloc sb d used) (hfree : used.length < sb.size - sb.dataStart) :
    ∃ c d', balloc sb d = .ok (c, d') := by
  unfold balloc
  split
  case h_1 b _ => exact ⟨_, _, rfl⟩
  case h_2 hnone =>
    exfalso
    have hall := ballocScan_spec.2 hnone
    have hsub : Finset.Ico sb.dataStart sb.size ⊆ used.toFinset := by
      intro b hb
      rw [Finset.mem_Ico] at hb
      rw [List.mem_toFinset]
      exact ((h.bits b hb.2).mp (hall b hb.2)).resolve_left (Nat.not_lt.mpr hb.1)
    have hcard := Finset.card_le_card hsub
    rw [Nat.card_Ico] at hcard
    have := List.toFinset_card_le used
    omega

/-- `bfree` of a block in use succeeds and clears its bit. -/
lemma bfree_spec (h : Alloc sb d (c :: used)) :
    ∃ d', bfree sb d c = .ok d' ∧ Alloc sb d' used ∧ ∀ b, ¬ sb.InBitmap b → d' b = d b := by
  obtain ⟨hc, hnd⟩ := List.nodup_cons.mp h.nodup
  have hdata := h.data c List.mem_cons_self
  have hset : bit sb d c = true := (h.bits c hdata.2).mpr (Or.inr List.mem_cons_self)
  refine ⟨_, if_neg (by rw [← bit, hset]; simp), ⟨hnd, fun b hb => ?_, fun b hb => ?_⟩,
    fun b hb => ?_⟩
  · exact h.data b (List.mem_cons_of_mem _ hb)
  · rw [bit_clearBit, Bool.and_eq_true, h.bits b hb, List.mem_cons]
    have hmeta : b < sb.dataStart → b ≠ c := fun hlt heq => by
      have := hdata.1
      omega
    by_cases hbc : b = c
    · subst hbc
      have := hdata.1
      simp [hc]
      omega
    · simp [hbc]
  · have hbc : b ≠ sb.bblock c := by
      rintro rfl
      exact hb (Superblock.inBitmap_bblock hdata.2)
    exact update_of_ne hbc _ _

end Xv7
