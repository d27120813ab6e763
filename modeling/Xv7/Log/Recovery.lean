import Xv7.Log.Basic

/-!
# What recovery makes of a disk

`durable sb d` is the disk `d` with the transaction that its header records carried out.  The
loop of `install_trans` computes it (`recoverFromLog_home`), and it is the part of the disk that
the steps of `commit` and of the recovery itself preserve: an installed block is installed again
with the same contents, and erasing the header after the last block loses nothing.
-/

namespace Xv7.Log

open Function (update update_of_ne update_self)
open Updates

variable {sb : Superblock}

/-- The header stored on the disk. -/
def header (sb : Superblock) (d : Disk) : List ℕ := decodeHead (d sb.logstart)

/-- The updates recorded in the log blocks for the header `lh`. -/
def logged (sb : Superblock) (lh : List ℕ) (d : Disk) : List (ℕ × Block) :=
  lh.zipIdx.map fun e => (e.1, d (sb.logstart + e.2 + 1))

/-- The disk with the transaction in its log carried out. -/
def durable (sb : Superblock) (d : Disk) : Disk := applyUpdates (logged sb (header sb d) d) d

/-- The two disks agree outside the log area. -/
def Home (sb : Superblock) (d d' : Disk) : Prop := ∀ b, ¬ sb.InLog b → d b = d' b

/-- A header that fits the log area and its block, and names blocks outside the log area. -/
structure HeaderOk (sb : Superblock) (lh : List ℕ) : Prop where
  /-- Every entry has a log block. -/
  fits : lh.length ≤ sb.nlog - 1
  /-- The header fits its block. -/
  small : lh.length ≤ LOGSIZE
  /-- The entries are block numbers outside the log area. -/
  home : ∀ b ∈ lh, b < 2 ^ 32 ∧ ¬ sb.InLog b

lemma HeaderOk.nil : HeaderOk sb [] := ⟨by simp, by simp, by simp⟩

/-- The log block of an entry lies in the log area. -/
lemma HeaderOk.inLog {lh : List ℕ} (h : HeaderOk sb lh) {i : ℕ} (hi : i < lh.length) :
    sb.InLog (sb.logstart + i + 1) := by
  have := h.fits
  exact Or.inr ⟨by omega, by omega⟩

/-- An entry is never a block of the log area. -/
lemma HeaderOk.notInLog_getD {lh : List ℕ} (h : HeaderOk sb lh) {i : ℕ} (hi : i < lh.length) :
    ¬ sb.InLog (lh.getD i 0) := by
  have hmem : lh.getD i 0 ∈ lh := by
    rw [List.getD_eq_getElem _ _ hi]
    exact List.getElem_mem hi
  exact (h.home _ hmem).2

@[simp] lemma logged_keys (lh : List ℕ) (d : Disk) : (logged sb lh d).map Prod.fst = lh := by
  simp [logged, Function.comp_def]

@[simp] lemma logged_length (lh : List ℕ) (d : Disk) : (logged sb lh d).length = lh.length := by
  simp [logged]

/-- The recorded updates depend only on the log blocks. -/
lemma logged_congr {lh : List ℕ} {d d' : Disk}
    (h : ∀ i, i < lh.length → d (sb.logstart + i + 1) = d' (sb.logstart + i + 1)) :
    logged sb lh d = logged sb lh d' := by
  apply List.map_congr_left
  intro e he
  rw [h e.2 (by simpa using List.snd_lt_of_mem_zipIdx he)]

/-- Taking one more recorded update. -/
lemma logged_take_succ {lh : List ℕ} {d : Disk} {t : ℕ} (ht : t < lh.length) :
    (logged sb lh d).take (t + 1) =
      (logged sb lh d).take t ++ [(lh.getD t 0, d (sb.logstart + t + 1))] := by
  rw [List.take_add_one]
  congr 1
  simp [logged, ht]

/-- A write outside the log area does not touch the header. -/
lemma header_update_home {d : Disk} {b : ℕ} {v : Block} (hb : ¬ sb.InLog b) :
    header sb (update d b v) = header sb d := by
  have hne : sb.logstart ≠ b := fun h => hb (Or.inl h.symm)
  rw [header, header, update_of_ne hne]

/-- A write of a log block does not touch the header. -/
lemma header_update_logBlock {d : Disk} {t : ℕ} {v : Block} :
    header sb (update d (sb.logstart + t + 1) v) = header sb d := by
  rw [header, header, update_of_ne (by omega)]

/-- The header reads back as it was written. -/
lemma header_update_encodeHead {d : Disk} {blk : Block} {lh : List ℕ} (h : HeaderOk sb lh) :
    header sb (update d sb.logstart (encodeHead blk lh)) = lh := by
  have hlen : lh.length < 127 := lt_of_le_of_lt h.small (by decide)
  rw [header, update_self, decodeHead_encodeHead hlen fun b hb => (h.home b hb).1]

/-- Writing the header leaves the recorded updates alone. -/
lemma logged_update_header {lh : List ℕ} {d : Disk} {v : Block} :
    logged sb lh (update d sb.logstart v) = logged sb lh d :=
  logged_congr fun i _ => update_of_ne (by omega) _ _

/-- With an empty header there is nothing to carry out. -/
lemma durable_of_header_nil {d : Disk} (h : header sb d = []) : durable sb d = d := by
  simp [durable, h, logged]

/-! ## The loop of `install_trans` -/

/-- In `install_trans`, the first `t` blocks being installed: the in-memory header is the one on
the disk, the blocks still to come are the only dirty ones, and outside the log area the disk is
some disk with the first `t` recorded updates. -/
structure Installing (sb : Superblock) (s : Store) (t : ℕ) : Prop where
  /-- The loop counter. -/
  le : t ≤ s.lh.length
  /-- The in-memory header is the one on the disk. -/
  head : s.lh = header sb s.disk
  /-- Only blocks still to be installed are dirty. -/
  dirty : ∀ b, s.Dirty b → b ∈ s.lh.drop t
  /-- What has been installed so far. -/
  disk : ∃ D, Home sb s.disk (applyUpdates ((logged sb s.lh s.disk).take t) D)

/-- Clean buffers agree with the disk while blocks are installed, those of the log in
particular. -/
lemma Installing.view_logBlock {s : Store} {t : ℕ} (h : Installing sb s t) (hc : s.Coherent)
    (hok : HeaderOk sb s.lh) {i : ℕ} (hi : i < s.lh.length) :
    s.view (sb.logstart + i + 1) = s.disk (sb.logstart + i + 1) := by
  refine Store.view_eq_disk hc fun hd => ?_
  have hmem := List.mem_of_mem_drop (h.dirty _ hd)
  exact (hok.home _ hmem).2 (hok.inLog hi)

/-- Installing one block leaves the recorded updates alone. -/
lemma logged_installBlock {s : Store} (hok : HeaderOk sb s.lh) {t : ℕ}
    (ht : t < s.lh.length) :
    logged sb s.lh (s.installBlock sb t).disk = logged sb s.lh s.disk := by
  refine logged_congr fun i hi => ?_
  rw [Store.installBlock_disk, update_of_ne]
  intro h
  exact hok.notInLog_getD ht (h ▸ hok.inLog hi)

/-- One turn of the loop. -/
lemma Installing.step {s : Store} {t : ℕ} (h : Installing sb s t) (hc : s.Coherent)
    (hok : HeaderOk sb s.lh) (ht : t < s.lh.length) :
    Installing sb (s.installBlock sb t) (t + 1) := by
  have hlh : (s.installBlock sb t).lh = s.lh := rfl
  have hview := h.view_logBlock hc hok ht
  obtain ⟨D, hD⟩ := h.disk
  refine ⟨by rw [hlh]; omega, ?_, ?_, D, ?_⟩
  · rw [hlh, Store.installBlock_disk, header_update_home (hok.notInLog_getD ht)]
    exact h.head
  · intro b hb
    rw [Store.installBlock, Store.bwrite_dirty, Store.bread_dirty, Store.bread_dirty] at hb
    have hmem := h.dirty b hb.2
    rw [List.drop_eq_getElem_cons ht, List.mem_cons] at hmem
    rcases hmem with rfl | hmem
    · exact absurd (List.getD_eq_getElem _ _ ht).symm hb.1
    · exact hmem
  · intro b hb
    rw [hlh, logged_installBlock hok ht, Store.installBlock_disk, logged_take_succ ht,
      applyUpdates_concat, hview]
    by_cases hbt : b = s.lh.getD t 0
    · subst hbt
      simp
    · rw [update_of_ne hbt, update_of_ne hbt]
      exact hD b hb

/-- Installing a block does not change what recovery makes of the disk. -/
lemma Installing.durable_step {s : Store} {t : ℕ} (h : Installing sb s t)
    (hok : HeaderOk sb s.lh) (ht : t < s.lh.length) :
    Home sb (durable sb (s.installBlock sb t).disk) (durable sb s.disk) := by
  intro b _
  have hhead : header sb (s.installBlock sb t).disk = s.lh := by
    rw [Store.installBlock_disk, header_update_home (hok.notInLog_getD ht)]
    exact h.head.symm
  rw [durable, hhead, logged_installBlock hok ht, durable, ← h.head]
  refine applyUpdates_congr ?_
  by_cases hbt : b = s.lh.getD t 0
  · left
    rw [logged_keys, hbt, List.getD_eq_getElem _ _ ht]
    exact List.getElem_mem ht
  · right
    rw [Store.installBlock_disk, update_of_ne hbt]

/-- After the last block the disk is the one that recovery would make of it. -/
lemma Installing.disk_eq_durable {s : Store} {t : ℕ} (h : Installing sb s t)
    (ht : s.lh.length ≤ t) : Home sb s.disk (durable sb s.disk) := by
  intro b hb
  obtain ⟨D, hD⟩ := h.disk
  have htake : (logged sb s.lh s.disk).take t = logged sb s.lh s.disk :=
    List.take_of_length_le (by simpa using ht)
  rw [htake] at hD
  have h1 : durable sb s.disk b =
      applyUpdates (logged sb s.lh s.disk) (applyUpdates (logged sb s.lh s.disk) D) b := by
    rw [durable, ← h.head]
    exact applyUpdates_congr (Or.inr (hD b hb))
  rw [h1, applyUpdates_idem]
  exact hD b hb

/-- After the last block nothing is dirty. -/
lemma Installing.not_dirty {s : Store} {t : ℕ} (h : Installing sb s t)
    (ht : s.lh.length ≤ t) (b : ℕ) : ¬ s.Dirty b := by
  intro hb
  have := h.dirty b hb
  rw [List.drop_of_length_le ht] at this
  simp at this

/-! ## Erasing the header -/

lemma header_clearHead (s : Store) : header sb (s.clearHead sb).disk = [] := by
  rw [Store.clearHead_disk]
  exact header_update_encodeHead HeaderOk.nil

lemma home_clearHead (s : Store) : Home sb (s.clearHead sb).disk s.disk := by
  intro b hb
  rw [Store.clearHead_disk, update_of_ne fun h => hb (Or.inl h)]

lemma not_dirty_clearHead {s : Store} (h : ∀ b, ¬ s.Dirty b) (b : ℕ) :
    ¬ (s.clearHead sb).Dirty b := by
  intro hb
  rw [Store.clearHead, Store.writeHead, Store.bwrite_dirty, Store.bread_dirty] at hb
  exact h b hb.2

lemma coherent_clearHead {s : Store} (h : s.Coherent) : (s.clearHead sb).Coherent := by
  have h' : { s with lh := [] }.Coherent := h
  exact (h'.bread _).bwrite _ _

lemma coherent_installBlock {s : Store} (h : s.Coherent) (t : ℕ) :
    (s.installBlock sb t).Coherent :=
  ((h.bread _).bread _).bwrite _ _

/-! ## The whole recovery -/

lemma coherent_init (d : Disk) : (Store.init d).Coherent := by
  intro b buf hb
  simp [Store.init] at hb

lemma not_dirty_init (d : Disk) (b : ℕ) : ¬ (Store.init d).Dirty b := by
  rintro ⟨buf, hb, -⟩
  simp [Store.init] at hb

/-- `read_head` on a machine without dirty buffers starts the loop. -/
lemma installing_readHead {s : Store} (hc : s.Coherent) (hd : ∀ b, ¬ s.Dirty b) :
    Installing sb (s.readHead sb) 0 := by
  have hlh : (s.readHead sb).lh = header sb s.disk := by
    simp [Store.readHead, header, Store.view_eq_disk hc (hd _)]
  refine ⟨Nat.zero_le _, hlh, fun b hb => ?_, s.disk, fun b _ => ?_⟩
  · exact absurd ((Store.bread_dirty s sb.logstart b).mp hb) (hd b)
  · rfl

/-- The loop, run over the first `k` entries. -/
lemma installing_foldl {s : Store} (h : Installing sb s 0) (hc : s.Coherent)
    (hok : HeaderOk sb s.lh) {k : ℕ} (hk : k ≤ s.lh.length) :
    let s' := (List.range k).foldl (fun s t => s.installBlock sb t) s
    Installing sb s' k ∧ s'.Coherent ∧ s'.lh = s.lh ∧
      Home sb (durable sb s'.disk) (durable sb s.disk) := by
  induction k with
  | zero => exact ⟨h, hc, rfl, fun _ _ => rfl⟩
  | succ k ih =>
    obtain ⟨hI, hC, hlh, hD⟩ := ih (by omega)
    rw [List.range_succ, List.foldl_append, List.foldl_cons, List.foldl_nil]
    have hok' := hlh.symm ▸ hok
    have hk' : k < ((List.range k).foldl (fun s t => s.installBlock sb t) s).lh.length := by
      rw [hlh]
      omega
    exact ⟨hI.step hC hok' hk', coherent_installBlock hC k, hlh, fun b hb =>
      (hI.durable_step hok' hk' b hb).trans (hD b hb)⟩

/-- Outside the log area `recover_from_log` carries out the transaction in the log. -/
lemma recoverFromLog_home {d : Disk} (hok : HeaderOk sb (header sb d)) :
    Home sb (recoverFromLog sb d) (durable sb d) := by
  have hI : Installing sb ((Store.init d).readHead sb) 0 :=
    installing_readHead (coherent_init d) (not_dirty_init d)
  have hC : ((Store.init d).readHead sb).Coherent := (coherent_init d).bread _
  have hok' : HeaderOk sb ((Store.init d).readHead sb).lh := hI.head.symm ▸ hok
  obtain ⟨hI', -, hlh, hD⟩ := installing_foldl hI hC hok' le_rfl
  intro b hb
  rw [recoverFromLog, home_clearHead _ b hb, Store.installTrans]
  exact (hI'.disk_eq_durable (by rw [hlh]) b hb).trans (hD b hb)

end Xv7.Log
