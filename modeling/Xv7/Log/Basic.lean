import Xv7.Log.Model
import Xv7.Lib.Updates

/-!
# Elementary facts about the logging layer

The header block reads back as it was written, and each operation of the buffer cache is
described by its effect on the disk and on the contents that `bread` returns (`view`).  A buffer
is *coherent* when it is dirty or agrees with the disk; every operation of `commit` and of the
recovery keeps that.
-/

namespace Xv7.Log

open Updates

/-! ## The header block -/

/-- Storing the entries of a header, seen word by word. -/
private lemma word_foldl_setWord (l : List (ℕ × ℕ)) (blk : Block) (i : ℕ)
    (hnd : (l.map Prod.snd).Nodup) (hlt : ∀ e ∈ l, e.1 < 2 ^ 32 ∧ e.2 + 1 < 128) :
    (∀ v, (v, i) ∈ l →
      Bytes.word (l.foldl (fun blk e => Bytes.setWord blk (e.2 + 1) e.1) blk) (i + 1) = v) ∧
    (∀ j, (∀ e ∈ l, e.2 + 1 ≠ j) →
      Bytes.word (l.foldl (fun blk e => Bytes.setWord blk (e.2 + 1) e.1) blk) j =
        Bytes.word blk j) := by
  induction l generalizing blk with
  | nil => simp
  | cons e l ih =>
    rw [List.map_cons, List.nodup_cons] at hnd
    have hl : ∀ e ∈ l, e.1 < 2 ^ 32 ∧ e.2 + 1 < 128 := fun e he =>
      hlt e (List.mem_cons_of_mem _ he)
    obtain ⟨hin, hout⟩ := ih (Bytes.setWord blk (e.2 + 1) e.1) hnd.2 hl
    refine ⟨fun v hv => ?_, fun j hj => ?_⟩
    · rw [List.foldl_cons]
      rcases List.mem_cons.mp hv with rfl | hv
      · have hfresh : ∀ e' ∈ l, e'.2 + 1 ≠ i + 1 := by
          intro e' he' heq
          exact hnd.1 (List.mem_map.mpr ⟨e', he', by simpa using heq⟩)
        have hb := hlt (v, i) List.mem_cons_self
        rw [hout (i + 1) hfresh]
        exact Bytes.word_setWord_same (by have := hb.2; simp only [BSIZE] at *; omega) hb.1
      · exact hin v hv
    · rw [List.foldl_cons, hout j fun e' he' => hj e' (List.mem_cons_of_mem _ he')]
      exact Bytes.word_setWord_of_ne (Ne.symm (hj e List.mem_cons_self))

/-- A header that fits its block reads back as it was written. -/
lemma decodeHead_encodeHead {blk : Block} {lh : List ℕ} (hlen : lh.length < 127)
    (hlt : ∀ b ∈ lh, b < 2 ^ 32) : decodeHead (encodeHead blk lh) = lh := by
  have hnd : (lh.zipIdx.map Prod.snd).Nodup := by
    rw [List.zipIdx_map_snd]
    exact List.nodup_range'
  have hzip : ∀ e ∈ lh.zipIdx, e.1 < 2 ^ 32 ∧ e.2 + 1 < 128 := by
    intro e he
    have h1 := List.snd_lt_of_mem_zipIdx he
    have h2 := hlt e.1 (List.fst_mem_of_mem_zipIdx he)
    exact ⟨h2, by omega⟩
  have hn : Bytes.word (encodeHead blk lh) 0 = lh.length := by
    have h := (word_foldl_setWord lh.zipIdx (Bytes.setWord blk 0 lh.length) 0 hnd hzip).2 0
      (fun e _ => by omega)
    rw [encodeHead, h]
    exact Bytes.word_setWord_same (by decide) (by omega)
  rw [decodeHead, hn, if_pos (by omega)]
  refine List.ext_getElem (by simp) fun i hi hi' => ?_
  have hmem : (lh[i], i) ∈ lh.zipIdx := by
    rw [List.mk_mem_zipIdx_iff_getElem?]
    simp [hi']
  have h := (word_foldl_setWord lh.zipIdx (Bytes.setWord blk 0 lh.length) i hnd hzip).1 _ hmem
  simpa [encodeHead] using h

/-! ## The buffer cache -/

namespace Store

/-- Every clean buffer agrees with the disk. -/
def Coherent (s : Store) : Prop :=
  ∀ b buf, s.cache.lookup b = some buf → buf.dirty = false → buf.data = s.disk b

/-- The buffer of the block is dirty. -/
def Dirty (s : Store) (b : ℕ) : Prop := ∃ buf, s.cache.lookup b = some buf ∧ buf.dirty = true

lemma view_eq_disk {s : Store} (h : s.Coherent) {b : ℕ} (hb : ¬ s.Dirty b) :
    s.view b = s.disk b := by
  unfold view
  cases hc : s.cache.lookup b with
  | none => rfl
  | some buf =>
    have hd : buf.dirty = false := by
      by_contra hd
      exact hb ⟨buf, hc, by simpa using hd⟩
    exact h b buf hc hd

/-! ### `bread` -/

@[simp] lemma bread_disk (s : Store) (b : ℕ) : (s.bread b).disk = s.disk := rfl
@[simp] lemma bread_lh (s : Store) (b : ℕ) : (s.bread b).lh = s.lh := rfl

/-- The buffers after `bread`. -/
lemma bread_lookup (s : Store) (b c : ℕ) :
    (s.bread b).cache.lookup c =
      if c = b then some ((s.cache.lookup b).getD ⟨s.disk b, false⟩) else s.cache.lookup c := by
  unfold bread
  cases hb : s.cache.lookup b with
  | none =>
    by_cases hc : c = b
    · subst hc
      simp
    · simp [hc]
  | some buf =>
    by_cases hc : c = b
    · subst hc
      simp [hb]
    · simp [hc]

/-- `bread` does not change what any block contains. -/
@[simp] lemma bread_view (s : Store) (b c : ℕ) : (s.bread b).view c = s.view c := by
  unfold view
  rw [bread_lookup, bread_disk]
  by_cases hc : c = b
  · subst hc
    cases s.cache.lookup c <;> simp
  · simp [hc]

/-- `bread` brings in clean buffers only. -/
@[simp] lemma bread_dirty (s : Store) (b c : ℕ) : (s.bread b).Dirty c ↔ s.Dirty c := by
  unfold Dirty
  rw [bread_lookup]
  by_cases hc : c = b
  · subst hc
    cases s.cache.lookup c <;> simp
  · simp [hc]

lemma Coherent.bread {s : Store} (h : s.Coherent) (b : ℕ) : (s.bread b).Coherent := by
  intro c buf hc hd
  rw [bread_lookup] at hc
  rw [bread_disk]
  by_cases hcb : c = b
  · subst hcb
    rw [if_pos rfl, Option.some.injEq] at hc
    cases hl : s.cache.lookup c with
    | none =>
      rw [hl] at hc
      exact hc ▸ rfl
    | some buf' =>
      rw [hl, Option.getD_some] at hc
      exact h c buf (hc ▸ hl) hd
  · rw [if_neg hcb] at hc
    exact h c buf hc hd

/-! ### `bwrite` -/

/-- The contents of the blocks after `bwrite`. -/
lemma bwrite_view (s : Store) (b : ℕ) (v : Block) (c : ℕ) :
    (s.bwrite b v).view c = if c = b then v else s.view c := by
  unfold view bwrite
  by_cases hc : c = b
  · subst hc
    simp
  · simp [hc, AList.lookup_insert_ne hc]

/-- `bwrite` cleans the buffer that it writes. -/
lemma bwrite_dirty (s : Store) (b : ℕ) (v : Block) (c : ℕ) :
    (s.bwrite b v).Dirty c ↔ c ≠ b ∧ s.Dirty c := by
  unfold Dirty bwrite
  by_cases hc : c = b
  · subst hc
    simp
  · simp [hc, AList.lookup_insert_ne hc]

lemma Coherent.bwrite {s : Store} (h : s.Coherent) (b : ℕ) (v : Block) :
    (s.bwrite b v).Coherent := by
  intro c buf hc hd
  unfold Store.bwrite at hc ⊢
  by_cases hcb : c = b
  · subst hcb
    simp only [AList.lookup_insert, Option.some.injEq] at hc
    simp [← hc]
  · simp only [AList.lookup_insert_ne hcb] at hc
    simpa [Function.update_of_ne hcb] using h c buf hc hd

/-! ### The disk writes of `commit` and of the recovery -/

/-- Writing a log block. -/
lemma writeLogBlock_disk (sb : Superblock) (s : Store) (tail : ℕ) :
    (s.writeLogBlock sb tail).disk =
      Function.update s.disk (sb.logstart + tail + 1) (s.view (s.lh.getD tail 0)) := by
  simp [writeLogBlock, bwrite]

/-- Writing a home block. -/
lemma installBlock_disk (sb : Superblock) (s : Store) (tail : ℕ) :
    (s.installBlock sb tail).disk =
      Function.update s.disk (s.lh.getD tail 0) (s.view (sb.logstart + tail + 1)) := by
  simp [installBlock, bwrite]

/-- Writing the header. -/
lemma writeHead_disk (sb : Superblock) (s : Store) :
    (s.writeHead sb).disk =
      Function.update s.disk sb.logstart (encodeHead (s.view sb.logstart) s.lh) := by
  simp [writeHead, bwrite]

/-- Erasing the header. -/
lemma clearHead_disk (sb : Superblock) (s : Store) :
    (s.clearHead sb).disk =
      Function.update s.disk sb.logstart (encodeHead (s.view sb.logstart) []) := by
  rw [clearHead, writeHead_disk]
  rfl

end Store

end Xv7.Log
