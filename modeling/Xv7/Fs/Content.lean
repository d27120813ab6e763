import Xv7.Fs.Inode

/-!
# The contents of a file

What the loops of `readi` and `writei` do to the bytes of a file.  `Writes` describes the effect
of a write to a range of positions, and two writes to adjacent ranges compose to one; the loop of
`writei` is then a chain of such steps, one for each block.
-/

namespace Xv7

open Fallible

/-- Byte `k` of a file; a block that is not mapped reads as zeroes. -/
def fileByte (d : Disk) (slots : Slots) (k : ℕ) : UInt8 :=
  if blockOf d slots (k / BSIZE) = 0 then 0
  else Bytes.rd (d (blockOf d slots (k / BSIZE))) (k % BSIZE)

/-- The contents of a file. -/
def contents (d : Disk) (ip : Inode) : List UInt8 :=
  (List.range ip.size).map (fileByte d ip.addrs)

/-- Every block below the size of the file is mapped. -/
def NoHoles (d : Disk) (ip : Inode) : Prop :=
  ∀ k, k < ip.size → blockOf d ip.addrs (k / BSIZE) ≠ 0

instance (d : Disk) (ip : Inode) : Decidable (NoHoles d ip) :=
  inferInstanceAs (Decidable (∀ k, k < ip.size → blockOf d ip.addrs (k / BSIZE) ≠ 0))

variable {sb : Superblock} {d d' d1 : Disk} {slots slots' slots1 : Slots} {used : List ℕ}

@[simp] lemma length_contents (d : Disk) (ip : Inode) : (contents d ip).length = ip.size := by
  simp [contents]

/-- A byte of a mapped block. -/
lemma fileByte_of_ne {k : ℕ} (h : blockOf d slots (k / BSIZE) ≠ 0) :
    fileByte d slots k = Bytes.rd (d (blockOf d slots (k / BSIZE))) (k % BSIZE) :=
  if_neg h

/-- The bytes of a file depend on its own blocks only. -/
lemma fileByte_congr (hd : ∀ b ∈ blocks d slots, d' b = d b) (k : ℕ) :
    fileByte d' slots k = fileByte d slots k := by
  have hblk := blockOf_congr (fun b hb => hd b (indirects_subset_blocks hb)) (k / BSIZE)
  unfold fileByte
  rw [hblk]
  split_ifs with h
  · rfl
  · rw [hd _ (blockOf_mem_blocks h)]

/-! ## The effect of a write -/

/-- The file is written with the bytes `g` at the positions from `lo` to `hi`; the blocks `new`
are allocated for it.  The blocks in `M` may change in any way. -/
structure Writes (M : ℕ → Prop) (d d' : Disk) (slots slots' : Slots) (lo hi : ℕ)
    (g : ℕ → UInt8) (new : List ℕ) : Prop where
  /-- The blocks of the file. -/
  perm : (blocks d' slots').Perm (new ++ blocks d slots)
  /-- A block that was mapped stays where it is. -/
  keep : ∀ bn, blockOf d slots bn ≠ 0 → blockOf d' slots' bn = blockOf d slots bn
  /-- No block is mapped that is not written to. -/
  still : ∀ bn, (∀ k, lo ≤ k → k < hi → k / BSIZE ≠ bn) →
    blockOf d' slots' bn = blockOf d slots bn
  /-- The blocks of the disk that changed. -/
  frame : ∀ b, ¬ M b → b ∉ blocks d slots → b ∉ new → d' b = d b
  /-- The bytes that were written. -/
  inside : ∀ k, lo ≤ k → k < hi →
    blockOf d' slots' (k / BSIZE) ≠ 0 ∧ fileByte d' slots' k = g k
  /-- The other bytes; a block that is allocated for the write holds zeroes. -/
  outside : ∀ k, k < lo ∨ hi ≤ k → fileByte d' slots' k = fileByte d slots k
  /-- What is missing for the first blocks of the file. -/
  need : ∀ n, hi ≤ n * BSIZE → missing d' slots' n + new.length = missing d slots n

variable {M : ℕ → Prop} {lo mid hi : ℕ} {g : ℕ → UInt8}

/-- Nothing is written to an empty range. -/
lemma Writes.refl : Writes M d d slots slots lo lo g [] where
  perm := List.Perm.refl _
  keep := fun _ _ => rfl
  still := fun _ _ => rfl
  frame := fun _ _ _ _ => rfl
  inside := fun _ h h' => absurd h' (Nat.not_lt.mpr h)
  outside := fun _ _ => rfl
  need := fun _ _ => Nat.add_zero _

/-- Writes to adjacent ranges compose. -/
lemma Writes.trans {new new' : List ℕ} (hle : lo ≤ mid) (hle' : mid ≤ hi)
    (h : Writes M d d1 slots slots1 lo mid g new) (h' : Writes M d1 d' slots1 slots' mid hi g new') :
    Writes M d d' slots slots' lo hi g (new' ++ new) where
  perm := by
    refine h'.perm.trans ?_
    rw [List.append_assoc]
    exact h.perm.append_left new'
  keep := fun bn hne => by
    have hbn := h.keep bn hne
    exact (h'.keep bn (hbn ▸ hne)).trans hbn
  still := fun bn hbn =>
    (h'.still bn fun k hk hk' => hbn k (hle.trans hk) hk').trans
      (h.still bn fun k hk hk' => hbn k hk (hk'.trans_le hle'))
  frame := fun b hb hin hnew => by
    rw [List.mem_append, not_or] at hnew
    have hin' : b ∉ blocks d1 slots1 := fun hb' =>
      (List.mem_append.mp (h.perm.mem_iff.mp hb')).elim hnew.2 hin
    exact (h'.frame b hb hin' hnew.1).trans (h.frame b hb hin hnew.2)
  inside := fun k hlo hhi => by
    by_cases hk : k < mid
    · obtain ⟨hne, hg⟩ := h.inside k hlo hk
      exact ⟨(h'.keep _ hne) ▸ hne, (h'.outside k (Or.inl hk)).trans hg⟩
    · exact h'.inside k (Nat.not_lt.mp hk) hhi
  outside := fun k hk => (h'.outside k (by omega)).trans (h.outside k (by omega))
  need := fun n hn => by
    have h1 := h.need n (hle'.trans hn)
    have h2 := h'.need n hn
    rw [List.length_append]
    omega

/-- Only the bytes in the range matter. -/
lemma Writes.congr {g' : ℕ → UInt8} {new : List ℕ} (h : Writes M d d' slots slots' lo hi g new)
    (hg : ∀ k, lo ≤ k → k < hi → g k = g' k) : Writes M d d' slots slots' lo hi g' new := by
  refine { h with inside := fun k hlo hhi => ?_ }
  obtain ⟨hne, hk⟩ := h.inside k hlo hhi
  exact ⟨hne, hk.trans (hg k hlo hhi)⟩

/-- A file within a list of blocks stays within it, with the new blocks added. -/
lemma Writes.within {new : List ℕ} (h : Writes M d d' slots slots' lo hi g new)
    (hnew : (new ++ used).Nodup) (hnd : (blocks d slots).Nodup) (hsub : blocks d slots ⊆ used) :
    (blocks d' slots').Nodup ∧ blocks d' slots' ⊆ new ++ used :=
  PtrTree.within_of_perm h.perm hnew hnd hsub

/-- A write at the end of a file adds the blocks of the new size. -/
lemma Writes.mapped {size len : ℕ} {new : List ℕ}
    (h : Writes M d d' slots slots' size (size + len) g new)
    (hmap : ∀ bn, blockOf d slots bn ≠ 0 ↔ bn < blocksFor size) (bn : ℕ) :
    blockOf d' slots' bn ≠ 0 ↔ bn < blocksFor (size + len) := by
  have hB : BSIZE = 512 := rfl
  rw [lt_blocksFor]
  constructor
  · intro hne
    by_contra hge
    have hold : blockOf d slots bn ≠ 0 := by
      rw [← h.still bn fun k _ hk => by rw [hB] at hge ⊢; omega]
      exact hne
    have := lt_blocksFor.mp ((hmap bn).mp hold)
    omega
  · intro hlt
    by_cases hold : bn < blocksFor size
    · have hne := (hmap bn).mpr hold
      rw [h.keep bn hne]
      exact hne
    · rw [lt_blocksFor] at hold
      have hin := (h.inside (bn * BSIZE) (by omega) hlt).1
      rwa [Nat.mul_div_cancel _ (by decide)] at hin

/-- A write at the end of a file appends to its contents. -/
lemma Writes.contents_append {ip : Inode} {p : List UInt8} {new : List ℕ}
    (h : Writes M d d' ip.addrs slots' ip.size (ip.size + p.length)
      (fun k => p.getD (k - ip.size) 0) new) :
    contents d' { ip with addrs := slots', size := ip.size + p.length } = contents d ip ++ p := by
  refine List.ext_getElem ?_ fun k hk hk' => ?_
  · simp
  · simp only [length_contents] at hk
    rw [List.getElem_append]
    simp only [contents, List.getElem_map, List.getElem_range, List.length_map, List.length_range]
    split_ifs with hlt
    · exact h.outside k (Or.inl hlt)
    · rw [(h.inside k (by omega) hk).2, List.getD_eq_getElem?_getD,
        List.getElem?_eq_getElem (by omega), Option.getD_some]

/-! ## Writing in a store -/

section Store

universe u v

variable {S : Type u} {ε : Type v}

/-- Write bytes to one block of a file. -/
def putChunk (st : PtrStore ptrs S ε) (e : ε) (slots : Slots) (off : ℕ) (chunk : List UInt8)
    (t : S) : Except ε (Slots × S) := do
  let (addr, slots, t) ← mapBlock st e slots (off / BSIZE) t
  .ok (slots, st.set t addr
    (Bytes.patch (st.disk t addr) (off % BSIZE) chunk.length fun k => chunk.getD k 0))

/-- Write bytes to a file, block by block. -/
def putLoop (st : PtrStore ptrs S ε) (e : ε) : ℕ → Slots → ℕ → List UInt8 → S →
    Except ε (Slots × S)
  | 0, slots, _, _, t => .ok (slots, t)
  | fuel + 1, slots, off, src, t =>
    if src = [] then .ok (slots, t)
    else do
      let m := min src.length (BSIZE - off % BSIZE)
      let (slots, t) ← putChunk st e slots off (src.take m) t
      putLoop st e fuel slots (off + m) (src.drop m) t

variable {st : PtrStore ptrs S ε} {e : ε} {Inv : S → List ℕ → Prop} {cap : ℕ} {t t' : S}
  (hst : st.Lawful M Inv cap) (hblank : st.blank = fun _ => 0) (h : Inv t used)
  (hnd : (blocks (st.disk t) slots).Nodup) (hsub : blocks (st.disk t) slots ⊆ used)

include hst hblank h hnd hsub

/-- The effect of a write to one block. -/
lemma putChunk_spec {off : ℕ} {chunk : List UInt8} (hne : chunk ≠ [])
    (hlen : off % BSIZE + chunk.length ≤ BSIZE)
    (hw : putChunk st e slots off chunk t = .ok (slots', t')) :
    ∃ new, Writes M (st.disk t) (st.disk t') slots slots' off (off + chunk.length)
      (fun k => chunk.getD (k - off) 0) new ∧ Inv t' (new ++ used) := by
  have hpos : 0 < chunk.length := List.length_pos_iff.mpr hne
  have hB : BSIZE = 512 := rfl
  obtain ⟨⟨addr, slots1, t1⟩, hb, hw⟩ := bind_eq_ok.mp hw
  simp only [Except.ok.injEq, Prod.mk.injEq] at hw
  obtain ⟨rfl, rfl⟩ := hw
  obtain ⟨new, hext, hinv, haddr, hne0, hnew0⟩ := mapBlock_spec hst h hnd hsub hb
  obtain ⟨hnd1, hsub1⟩ := hext.within (hst.nodup hinv) hnd hsub
  have hmapped : blockOf (st.disk t1) slots1 (off / BSIZE) ≠ 0 := haddr.symm ▸ hne0
  have hmem : addr ∈ blocks (st.disk t1) slots1 := haddr ▸ blockOf_mem_blocks hmapped
  refine ⟨new, ?_, hst.inv_set hinv (hsub1 hmem)⟩
  rw [hst.disk_set]
  generalize hd1 : st.disk t1 = d1 at hext haddr hnd1 hmapped hmem hnew0
  generalize hd2 : Function.update d1 addr (Bytes.patch (d1 addr) (off % BSIZE) chunk.length
    fun k => chunk.getD k 0) = d2
  have hother : ∀ b, b ≠ addr → d2 b = d1 b := fun b hb => by
    rw [← hd2, Function.update_of_ne hb]
  have hself : d2 addr = Bytes.patch (d1 addr) (off % BSIZE) chunk.length
      fun k => chunk.getD k 0 := by
    rw [← hd2, Function.update_self]
  -- the data block is not an indirect block, so that the map is as it was
  have hind : ∀ b ∈ indirects d1 slots1, d2 b = d1 b := fun b hb => hother b fun heq =>
    blockOf_notMem_indirects hnd1 hmapped (by rwa [haddr, ← heq])
  have hkeep : ∀ bn, blockOf (st.disk t) slots bn ≠ 0 →
      blockOf d1 slots1 bn = blockOf (st.disk t) slots bn := by
    intro bn hbn
    by_cases hk : bn = off / BSIZE
    · subst hk
      exact hext.same hbn
    · exact hext.keep bn hk
  refine ⟨?_, fun bn hbn => ?_, fun bn hbn => ?_, fun b hb hin hnew => ?_, fun k hlo hhi => ?_,
    fun k hk => ?_, fun n hn => ?_⟩
  · rw [blocks_congr hind]
    exact hext.perm
  · rw [blockOf_congr hind]
    exact hkeep bn hbn
  · rw [blockOf_congr hind]
    exact hext.keep bn (hbn off le_rfl (by omega)).symm
  · have hba : b ≠ addr := by
      rintro rfl
      exact (List.mem_append.mp (hext.perm.mem_iff.mp hmem)).elim hnew hin
    rw [hother b hba]
    exact hext.frame b hb (fun hb' => hin (indirects_subset_blocks hb')) hnew
  · have hdiv : k / BSIZE = off / BSIZE := by
      rw [hB] at hlen ⊢
      omega
    have hblk : blockOf d2 slots1 (k / BSIZE) = addr := by
      rw [blockOf_congr hind, hdiv, haddr]
    refine ⟨hblk.symm ▸ hne0, ?_⟩
    have hkmod : k % BSIZE = off % BSIZE + (k - off) := by
      rw [hB] at hlen hdiv ⊢
      omega
    rw [fileByte_of_ne (hblk.symm ▸ hne0), hblk, hself, hkmod,
      Bytes.rd_patch_of_mem (by omega) (by omega) (by omega), Nat.add_sub_cancel_left]
  · by_cases hbn : blockOf (st.disk t) slots (k / BSIZE) = 0
    · -- a hole, or the block that is allocated for the write
      have hold : fileByte (st.disk t) slots k = 0 := if_pos hbn
      rw [hold]
      by_cases hk' : k / BSIZE = off / BSIZE
      · have hzero := hnew0 (hk' ▸ hbn)
        have hblk : blockOf d2 slots1 (k / BSIZE) = addr := by
          rw [blockOf_congr hind, hk', haddr]
        rw [fileByte_of_ne (hblk.symm ▸ hne0), hblk, hself, Bytes.rd_patch_of_notMem (by
          rw [hB] at hlen hk' ⊢
          omega), hzero, hblank]
        simp [Bytes.rd]
      · refine if_pos ?_
        rw [blockOf_congr hind, hext.keep _ hk']
        exact hbn
    · have hblk : blockOf d2 slots1 (k / BSIZE) = blockOf (st.disk t) slots (k / BSIZE) := by
        rw [blockOf_congr hind]
        exact hkeep _ hbn
      have hmem' := blockOf_mem_blocks hbn
      have hold : d1 (blockOf (st.disk t) slots (k / BSIZE)) =
          st.disk t (blockOf (st.disk t) slots (k / BSIZE)) := by
        refine hext.frame _ (hst.apart h (hsub hmem')) (blockOf_notMem_indirects hnd hbn) ?_
        exact fun hin => (List.nodup_append'.mp (hst.nodup hinv)).2.2 hin (hsub hmem')
      rw [fileByte_of_ne (hblk.symm ▸ hbn), fileByte_of_ne hbn, hblk]
      by_cases hk' : k / BSIZE = off / BSIZE
      · -- the same block, but not the bytes that are copied
        have heq : blockOf (st.disk t) slots (k / BSIZE) = addr := by
          rw [← hkeep _ hbn, hk', haddr]
        rw [← hold, heq, hself]
        refine Bytes.rd_patch_of_notMem ?_
        rw [hB] at hlen hk' ⊢
        omega
      · have hba : blockOf (st.disk t) slots (k / BSIZE) ≠ addr := fun heq => hk' (by
          refine blockOf_inj hnd1 ?_ ?_
          · rw [hkeep _ hbn]
            exact hbn
          · rw [hkeep _ hbn, haddr, heq])
        rw [hother _ hba, hold]
  · rw [missing_congr hind]
    refine hext.need n ?_
    rw [hB] at hn ⊢
    omega

omit hblank in
/-- A write to one block succeeds when there is room for what is missing. -/
lemma putChunk_ok {off n : ℕ} (chunk : List UInt8) (hoff : off < n * BSIZE) (hn : n ≤ MAXFILE)
    (hroom : missing (st.disk t) slots n + used.length ≤ cap) :
    ∃ slots' t', putChunk st e slots off chunk t = .ok (slots', t') := by
  obtain ⟨addr, slots1, t1, hb⟩ := mapBlock_ok (e := e) hst h hnd hsub (Nat.div_lt_of_lt_mul
    (by rwa [Nat.mul_comm] at hoff)) hn hroom
  exact ⟨slots1, _, by rw [putChunk, hb]; rfl⟩

/-- The loop writes the bytes of `src` from `off` on. -/
lemma putLoop_spec {fuel off : ℕ} {src : List UInt8} (hfuel : src.length ≤ fuel)
    (hw : putLoop st e fuel slots off src t = .ok (slots', t')) :
    ∃ new, Writes M (st.disk t) (st.disk t') slots slots' off (off + src.length)
      (fun k => src.getD (k - off) 0) new ∧ Inv t' (new ++ used) := by
  induction fuel generalizing slots off src t used with
  | zero =>
    simp only [putLoop, Except.ok.injEq, Prod.mk.injEq] at hw
    obtain ⟨rfl, rfl⟩ := hw
    rw [Nat.le_zero.mp hfuel]
    exact ⟨[], Writes.refl, h⟩
  | succ fuel ih =>
    by_cases hsrc : src = []
    · rw [putLoop, if_pos hsrc] at hw
      simp only [Except.ok.injEq, Prod.mk.injEq] at hw
      obtain ⟨rfl, rfl⟩ := hw
      subst hsrc
      exact ⟨[], Writes.refl, h⟩
    rw [putLoop, if_neg hsrc] at hw
    have hpos : 0 < src.length := List.length_pos_iff.mpr hsrc
    have hmod : off % BSIZE < BSIZE := Nat.mod_lt _ (by decide)
    generalize hm : min src.length (BSIZE - off % BSIZE) = m at hw
    have htake : (src.take m).length = m := by
      rw [List.length_take]
      omega
    obtain ⟨⟨slots1, t1⟩, hc, hw⟩ := bind_eq_ok.mp hw
    obtain ⟨new1, hw1, h1⟩ := putChunk_spec hst hblank h hnd hsub (fun hnil => by
      rw [hnil, List.length_nil] at htake
      omega) (by omega) hc
    obtain ⟨hnd1, hsub1⟩ := hw1.within (hst.nodup h1) hnd hsub
    obtain ⟨new2, hw2, h2⟩ := ih h1 hnd1 hsub1 (by rw [List.length_drop]; omega) hw
    rw [htake] at hw1
    rw [List.length_drop, show off + m + (src.length - m) = off + src.length by omega] at hw2
    refine ⟨new2 ++ new1, Writes.trans (Nat.le_add_right off m) (by omega)
      (hw1.congr fun k hk hk' => ?_) (hw2.congr fun k hk hk' => ?_), by
      rw [List.append_assoc]; exact h2⟩
    · rw [List.getD_eq_getElem?_getD, List.getD_eq_getElem?_getD,
        List.getElem?_take_of_lt (by omega)]
    · rw [List.getD_eq_getElem?_getD, List.getD_eq_getElem?_getD, List.getElem?_drop,
        show m + (k - (off + m)) = k - off by omega]

/-- The loop succeeds when there is room for what is missing. -/
lemma putLoop_ok (fuel : ℕ) {off n : ℕ} {src : List UInt8} (hoff : off + src.length ≤ n * BSIZE)
    (hn : n ≤ MAXFILE) (hroom : missing (st.disk t) slots n + used.length ≤ cap) :
    ∃ slots' t', putLoop st e fuel slots off src t = .ok (slots', t') := by
  induction fuel generalizing slots off src t used with
  | zero => exact ⟨slots, t, rfl⟩
  | succ fuel ih =>
    rw [putLoop]
    split_ifs with hsrc
    · exact ⟨slots, t, rfl⟩
    have hpos : 0 < src.length := List.length_pos_iff.mpr hsrc
    have hmod : off % BSIZE < BSIZE := Nat.mod_lt _ (by decide)
    generalize hm : min src.length (BSIZE - off % BSIZE) = m
    have htake : (src.take m).length = m := by
      rw [List.length_take]
      omega
    obtain ⟨slots1, t1, hc⟩ := putChunk_ok (e := e) hst h hnd hsub (src.take m)
      (show off < n * BSIZE by omega) hn hroom
    obtain ⟨new1, hw1, h1⟩ := putChunk_spec hst hblank h hnd hsub (fun hnil => by
      rw [hnil, List.length_nil] at htake
      omega) (by omega) hc
    obtain ⟨hnd1, hsub1⟩ := hw1.within (hst.nodup h1) hnd hsub
    have hneed := hw1.need n (by omega)
    have hrest : off + m + (src.drop m).length ≤ n * BSIZE := by
      rw [List.length_drop]
      omega
    obtain ⟨slots', t', hrest⟩ := ih h1 hnd1 hsub1 hrest (by rw [List.length_append]; omega)
    exact ⟨slots', t', bind_eq_ok.mpr ⟨_, hc, hrest⟩⟩

end Store

/-! ## The loop of `writei` -/

/-- The loop of `writei` writes in the store of the kernel. -/
lemma writeLoop_eq_putLoop (fuel off : ℕ) (src : List UInt8) :
    writeLoop sb fuel slots off src d =
      putLoop (kernelStore sb) .outOfRange fuel slots off src d := by
  induction fuel generalizing slots off src d with
  | zero => rfl
  | succ fuel ih =>
    have hchunk : ∀ chunk, writeChunk sb slots off chunk d =
        putChunk (kernelStore sb) .outOfRange slots off chunk d := fun chunk => by
      rw [writeChunk, bmap_eq_mapBlock]
      rfl
    simp only [writeLoop, putLoop, hchunk, ih]

section WriteLoop

variable (hL : sb.Layout) (h : Alloc sb d used) (hnd : (blocks d slots).Nodup)
  (hsub : blocks d slots ⊆ used)

include hL h hnd hsub

/-- The loop writes the bytes of `src` from `off` on. -/
lemma writeLoop_spec {fuel off : ℕ} {src : List UInt8} (hfuel : src.length ≤ fuel)
    (hw : writeLoop sb fuel slots off src d = .ok (slots', d')) :
    ∃ new, Writes sb.InBitmap d d' slots slots' off (off + src.length)
      (fun k => src.getD (k - off) 0) new ∧ Alloc sb d' (new ++ used) :=
  putLoop_spec (kernelStore_lawful hL) rfl h hnd hsub hfuel
    ((writeLoop_eq_putLoop fuel off src).symm.trans hw)

/-- The loop succeeds when the missing blocks are free. -/
lemma writeLoop_ok (fuel : ℕ) {off n : ℕ} {src : List UInt8} (hoff : off + src.length ≤ n * BSIZE)
    (hn : n ≤ MAXFILE) (hfree : missing d slots n + used.length ≤ sb.size - sb.dataStart) :
    ∃ slots' d', writeLoop sb fuel slots off src d = .ok (slots', d') := by
  rw [writeLoop_eq_putLoop]
  exact putLoop_ok (kernelStore_lawful hL) rfl h hnd hsub fuel hoff hn hfree

end WriteLoop

/-! ## The loop of `readi` -/

/-- The loop reads the bytes of mapped blocks, and changes nothing. -/
lemma readLoop_eq {fuel off n : ℕ} (hfuel : n ≤ fuel)
    (hmap : ∀ k, off ≤ k → k < off + n → blockOf d slots (k / BSIZE) ≠ 0) :
    readLoop sb fuel slots off n d =
      .ok ((List.range n).map fun k => fileByte d slots (off + k), slots, d) := by
  induction fuel generalizing off n with
  | zero =>
    rw [Nat.le_zero.mp hfuel]
    rfl
  | succ fuel ih =>
    rw [readLoop]
    split_ifs with hn0
    · rw [hn0]
      rfl
    have hmod : off % BSIZE < BSIZE := Nat.mod_lt _ (by decide)
    have hblk : blockOf d slots (off / BSIZE) ≠ 0 := hmap off le_rfl (by omega)
    simp only [bmap_of_blockOf hblk, bind, Except.bind]
    generalize hm : min n (BSIZE - off % BSIZE) = m
    have hrest := ih (show n - m ≤ fuel by omega) fun k (hk : off + m ≤ k) hk' =>
      hmap k (by omega) (by omega)
    simp only [hrest, Except.ok.injEq, Prod.mk.injEq, and_true]
    have hhead : ((List.range m).map fun k =>
        Bytes.rd (d (blockOf d slots (off / BSIZE))) (off % BSIZE + k)) =
        (List.range m).map fun k => fileByte d slots (off + k) := by
      refine List.map_congr_left fun k hk => ?_
      have hk := List.mem_range.mp hk
      have hB : BSIZE = 512 := rfl
      have hdiv : (off + k) / BSIZE = off / BSIZE := by
        rw [hB] at hm ⊢
        omega
      have hmod' : (off + k) % BSIZE = off % BSIZE + k := by
        rw [hB] at hm ⊢
        omega
      rw [fileByte_of_ne (hdiv.symm ▸ hblk), hdiv, hmod']
    have hsum : n = m + (n - m) := by omega
    rw [hhead, hsum, List.range_add, List.map_append, List.map_map, ← hsum]
    simp only [Function.comp_def, Nat.add_assoc]

/-- `readi` returns the bytes of the contents from `off` on, at most `n` of them. -/
lemma readi_eq {env : Env} {ip : Inode} {off n : ℕ} (hfile : ip.type = T_FILE)
    (hfull : NoHoles d ip) (hoff : off ≤ ip.size) (hwrap : off + n < 2 ^ 32) :
    readi env sb ip off n d = .ok ((min n (ip.size - off) : ℕ),
      ((contents d ip).drop off).take n, { ip with atime := env.curtime }, d) := by
  have hdev : ip.type ≠ T_DEV := by
    rw [hfile]
    decide
  have hmin : (if ip.size < off + n then ip.size - off else n) = min n (ip.size - off) := by
    split_ifs <;> omega
  simp only [readi, if_neg hdev, Nat.mod_eq_of_lt hwrap]
  rw [if_neg (by omega), hmin, readLoop_eq le_rfl fun k _ hk => hfull k (by omega)]
  have hbytes : ((List.range (min n (ip.size - off))).map fun k => fileByte d ip.addrs (off + k)) =
      ((contents d ip).drop off).take n := by
    refine List.ext_getElem ?_ fun k hk hk' => ?_
    · simp
    · simp [contents]
  rw [hbytes]
  rfl

end Xv7
