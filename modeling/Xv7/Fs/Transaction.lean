import Xv7.Fs.File
import Xv7.Lib.PtrLog

/-!
# The blocks that a write logs

`filewrite` makes one transaction of at most 4096 bytes after the other.  Here the disk is kept together
with the blocks that were passed to `log_write`: those of the free map and the new blocks that `balloc`
logs, the indirect blocks in which `bmap` sets a pointer, the data blocks, and the block of the inode.

In a transaction `bmap` is called for nine blocks of the file in a row at most.  The indirect blocks on
the way to a block of the file depend on the number of the block divided by `NINDIRECT`, so that there
are two such ways, of three indirect blocks at most.
-/

namespace Xv7

open Fallible

/-! ## The code -/

/-- The disk and the blocks passed to `log_write` so far. -/
def logStore (sb : Superblock) : PtrStore ptrs (Disk × List ℕ) FsPanic where
  disk := Prod.fst
  set := fun t b x => (Function.update t.1 b x, t.2 ++ [b])
  setPtr := Bytes.setWord
  -- the block of the free map, and the new block in `bzero`
  alloc := fun t => (balloc sb t.1).map fun r => (r.1, r.2, t.2 ++ [sb.bblock r.1, r.1])
  blank := fun _ => 0

/-- `writei`, with the blocks that it passes to `log_write`. -/
def writeiLogged (env : Env) (sb : Superblock) (inum : ℕ) (ip : Inode) (src : List UInt8) (off : ℕ)
    (d : Disk) : Except FsPanic (ℤ × Inode × Disk × List ℕ) :=
  let n := src.length
  let ip := { ip with mtime := env.curtime }
  if ip.type = T_DEV then
    match if ip.major < NDEV then env.devWrite ip.major else none with
    | some write => .ok (write src, ip, d, [])
    | none => .ok (-1, ip, d, [])
  else if ip.size < off ∨ (off + n) % 2 ^ 32 < off then .ok (-1, ip, d, [])
  else if MAXFILE * BSIZE < (off + n) % 2 ^ 32 then .ok (-1, ip, d, [])
  else do
    let (slots, d, logged) ← putLoop (logStore sb) .outOfRange n ip.addrs off src (d, [])
    let ip := { ip with addrs := slots }
    if 0 < n ∧ ip.size < off + n then
      let ip := { ip with size := off + n }
      .ok (n, ip, iupdate sb inum ip d, logged ++ [sb.iblock inum])
    else .ok (n, ip, d, logged)

/-- The transactions of the loop of `filewrite`: for each of them, the blocks passed to `log_write`
between its `begin_op` and its `end_op`. -/
def transactions (sb : Superblock) : ℕ → (ℕ → Env) → Fs → File → List UInt8 → List (List ℕ)
  | 0, _, _, _, _ => []
  | fuel + 1, env, s, f, src =>
    if src = [] then []
    else
      let chunk := src.take MAXWRITE
      match ilock sb s f.inum with
      | .error _ => []
      | .ok (ip, s) =>
        match writeiLogged (env 0) sb f.inum ip chunk f.off s.disk with
        | .error _ => []
        | .ok (r, ip, d, logged) =>
          let s := s.put f.inum ip d
          let f := if 0 < r then { f with off := (f.off + r.toNat) % 2 ^ 32 } else f
          if r < 0 ∨ r ≠ chunk.length then [logged]
          else logged :: transactions sb fuel (fun k => env (k + 1)) s f (src.drop chunk.length)

/-! ## The disk without the log -/

variable {sb : Superblock} {d d' : Disk} {slots slots' : Slots} {bn : ℕ}

lemma logStore_forgets (sb : Superblock) : PtrStore.Forgets (logStore sb) (kernelStore sb) Prod.fst where
  disk := fun _ => rfl
  set := fun _ _ _ => rfl
  setPtr := rfl
  alloc := fun t => by
    show balloc sb t.1 = ((balloc sb t.1).map _).map _
    cases balloc sb t.1 <;> rfl

lemma mapBlock_logStore (sb : Superblock) (e : FsPanic) (slots : Slots) (bn : ℕ) (t : Disk × List ℕ) :
    mapBlock (kernelStore sb) e slots bn t.1 =
      (mapBlock (logStore sb) e slots bn t).map (Prod.map id (Prod.map id Prod.fst)) := by
  unfold mapBlock
  cases locate bn with
  | none => rfl
  | some r =>
    show (kernelStore sb).reach _ _ _ t.1 >>= _ = Except.map _ ((logStore sb).reach _ _ _ t >>= _)
    rw [(logStore_forgets sb).reach]
    cases (logStore sb).reach (slotLevel r.1) (slots r.1) r.2 t <;> rfl

lemma putLoop_logStore (sb : Superblock) (e : FsPanic) (fuel : ℕ) (slots : Slots) (off : ℕ) (src : List UInt8)
    (t : Disk × List ℕ) :
    putLoop (kernelStore sb) e fuel slots off src t.1 =
      (putLoop (logStore sb) e fuel slots off src t).map (Prod.map id Prod.fst) := by
  induction fuel generalizing slots off src t with
  | zero => rfl
  | succ fuel ih =>
    unfold putLoop
    split_ifs
    · rfl
    have hchunk : ∀ chunk, putChunk (kernelStore sb) e slots off chunk t.1 =
        (putChunk (logStore sb) e slots off chunk t).map (Prod.map id Prod.fst) := by
      intro chunk
      rw [putChunk, putChunk, mapBlock_logStore]
      cases mapBlock (logStore sb) e slots (off / BSIZE) t <;> rfl
    dsimp only
    rw [hchunk]
    cases putChunk (logStore sb) e slots off
      (src.take (min src.length (BSIZE - off % BSIZE))) t with
    | error e => rfl
    | ok r => exact ih _ _ _ _

/-- Without the log, this is `writei`. -/
lemma writei_eq_writeiLogged (env : Env) (inum : ℕ) (ip : Inode) (src : List UInt8) (off : ℕ) :
    writei env sb inum ip src off d =
      (writeiLogged env sb inum ip src off d).map fun r => (r.1, r.2.1, r.2.2.1) := by
  have hloop := putLoop_logStore sb .outOfRange src.length ip.addrs off src (d, [])
  rw [← writeLoop_eq_putLoop] at hloop
  simp only [writei, writeiLogged, hloop]
  cases putLoop (logStore sb) .outOfRange src.length ip.addrs off src (d, []) with
  | error e => split_ifs <;> first | rfl | (cases env.devWrite ip.major <;> rfl)
  | ok r => split_ifs <;> first | rfl | (cases env.devWrite ip.major <;> rfl)

/-! ## The way to a block of the file -/

/-- The blocks on the way to block `bn` of the file, which is the last one. -/
def pathOf (d : Disk) (slots : Slots) (bn : ℕ) : List ℕ :=
  match locate bn with
  | some (s, i) => ptrs.path d (slotLevel s) (slots s) i
  | none => []

/-- The indirect blocks among them. -/
def trunk (d : Disk) (slots : Slots) (bn : ℕ) : List ℕ :=
  match locate bn with
  | some (s, i) =>
    if slotLevel s = 0 then [] else ptrs.path d (slotLevel s - 1) (slots s) (i / NINDIRECT)
  | none => []

/-- The last block on the way. -/
def tip (d : Disk) (slots : Slots) (bn : ℕ) : ℕ := (pathOf d slots bn).getLastD 0

lemma slotLevel_le (s : Fin (NDIRECT + 3)) : slotLevel s ≤ 3 := by
  revert s
  decide

lemma length_trunk_le (d : Disk) (slots : Slots) (bn : ℕ) : (trunk d slots bn).length ≤ 3 := by
  unfold trunk
  split
  · rename_i s i _
    split_ifs with h
    · simp
    · have := slotLevel_le s
      rw [PtrTree.length_path]
      omega
  · simp

lemma mem_pathOf {b : ℕ} (hb : b ∈ pathOf d slots bn) : b ∈ trunk d slots bn ∨ b = tip d slots bn := by
  unfold tip
  unfold pathOf at hb ⊢
  unfold trunk
  cases hloc : locate bn with
  | none => simp [hloc] at hb
  | some r =>
    obtain ⟨s, i⟩ := r
    simp only [hloc] at hb ⊢
    cases hl : slotLevel s with
    | zero =>
      rw [hl] at hb
      exact .inr (by simpa [PtrTree.path] using hb)
    | succ l =>
      rw [hl] at hb
      obtain ⟨x, hx⟩ := PtrTree.exists_path_succ (σ := ptrs) d l (slots s) i
      rw [hx] at hb ⊢
      simpa [ptrs] using hb

/-- The places of two blocks below the same last indirect block. -/
lemma locate_of_div_eq {k i : ℕ} {s : Fin (NDIRECT + 3)} (hbn : NDIRECT ≤ bn) (hk : NDIRECT ≤ k)
    (h : (bn - NDIRECT) / NINDIRECT = (k - NDIRECT) / NINDIRECT) (hloc : locate bn = some (s, i)) :
    ∃ j, locate k = some (s, j) ∧ j / NINDIRECT = i / NINDIRECT := by
  obtain ⟨hbase, hi⟩ := locate_eq_some.mp hloc
  have hs := slot_cases s
  have hsize := @locate_eq_some k (k - slotBase s) s
  generalize NINDIRECT ^ slotLevel s = m at hs hi hsize
  simp only [NDIRECT, NINDIRECT, NDINDIRECT, NTINDIRECT, BSIZE] at hbn hk h hs ⊢
  exact ⟨k - slotBase s, hsize.mpr ⟨by omega, by omega⟩, by omega⟩

/-- The indirect blocks on the way depend on the number of the block divided by `NINDIRECT`. -/
lemma trunk_eq {k : ℕ} (hbn : NDIRECT ≤ bn) (hk : NDIRECT ≤ k)
    (h : (bn - NDIRECT) / NINDIRECT = (k - NDIRECT) / NINDIRECT) :
    trunk d slots bn = trunk d slots k := by
  unfold trunk
  cases hloc : locate bn with
  | some r =>
    obtain ⟨j, hj, hdiv⟩ := locate_of_div_eq hbn hk h hloc
    simp only [hj, hdiv]
  | none =>
    cases hloc' : locate k with
    | none => rfl
    | some r =>
      obtain ⟨j, hj, -⟩ := locate_of_div_eq hk hbn h.symm hloc'
      simp [hj] at hloc

/-- There are none on the way to a direct block. -/
lemma trunk_direct (hbn : bn < NDIRECT) : trunk d slots bn = [] := by
  have hlevel : ∀ i : Fin NDIRECT, slotLevel (i.castAdd 3) = 0 := by decide
  unfold trunk locate
  rw [dif_pos hbn]
  exact if_pos (hlevel ⟨bn, hbn⟩)

/-- Among nine blocks of the file in a row there are two ways. -/
lemma trunk_cases {b0 : ℕ} (hlo : b0 ≤ bn) (hhi : bn ≤ b0 + 8) :
    trunk d slots bn = [] ∨ trunk d slots bn = trunk d slots (max b0 NDIRECT) ∨
      trunk d slots bn = trunk d slots (b0 + 8) := by
  rcases Nat.lt_or_ge bn NDIRECT with hbn | hbn
  · exact .inl (trunk_direct hbn)
  · right
    by_cases hdiv : (bn - NDIRECT) / NINDIRECT = (max b0 NDIRECT - NDIRECT) / NINDIRECT
    · exact .inl (trunk_eq hbn (le_max_right _ _) hdiv)
    · refine .inr (trunk_eq hbn (by omega) ?_)
      simp only [NDIRECT, NINDIRECT, BSIZE] at hdiv hbn ⊢
      omega

/-! ## What is kept and what is logged -/

/-- The blocks that are mapped stay so, and are reached on the same way. -/
def Keeps (d d' : Disk) (slots slots' : Slots) : Prop :=
  ∀ bn, blockOf d slots bn ≠ 0 → blockOf d' slots' bn ≠ 0 ∧ pathOf d' slots' bn = pathOf d slots bn

lemma Keeps.refl : Keeps d d slots slots := fun _ h => ⟨h, rfl⟩

lemma Keeps.trans {d1 : Disk} {slots1 : Slots} (h : Keeps d d1 slots slots1)
    (h' : Keeps d1 d' slots1 slots') : Keeps d d' slots slots' := fun bn hbn => by
  obtain ⟨hne, hpath⟩ := h bn hbn
  obtain ⟨hne', hpath'⟩ := h' bn hne
  exact ⟨hne', hpath'.trans hpath⟩

/-- A way is kept where its pointers are. -/
lemma pathOf_eq_of_kept (hd : ∀ b ∈ indirects d slots, ptrs.Kept d d' b)
    (hslots : ∀ s, slots s ≠ 0 → slots' s = slots s) (hbn : blockOf d slots bn ≠ 0) :
    pathOf d' slots' bn = pathOf d slots bn := by
  obtain ⟨s, i, hloc, hi, hleaf⟩ := exists_of_blockOf_ne_zero hbn
  have hs : slots s ≠ 0 := fun h0 => hbn (by rw [hleaf, h0, PtrTree.leaf_null])
  simp only [pathOf, hloc, hslots s hs]
  exact PtrTree.path_eq_of_kept (fun b hb => hd b (inner_subset_indirects s hb)) hi (hleaf ▸ hbn)

/-- A mapped block is on its way. -/
lemma blockOf_mem_pathOf (hbn : blockOf d slots bn ≠ 0) : blockOf d slots bn ∈ pathOf d slots bn := by
  obtain ⟨s, i, hloc, hi, hleaf⟩ := exists_of_blockOf_ne_zero hbn
  rw [hleaf] at hbn ⊢
  simp only [pathOf, hloc]
  exact PtrTree.leaf_mem_path hbn

section Store

universe u v

variable {S : Type u} {ε : Type v} {st : PtrStore ptrs S ε} {e : ε} {M N : ℕ → Prop}
  {Inv : S → List ℕ → Prop} {cap : ℕ} {log : S → List ℕ} {t t' : S} {used : List ℕ}
  (hst : st.Lawful M Inv cap) (hlog : st.Logs log N) (h : Inv t used)
  (hnd : (blocks (st.disk t) slots).Nodup) (hsub : blocks (st.disk t) slots ⊆ used)

include hst hlog h hnd hsub

/-- Mapping a block logs blocks on the way to it. -/
lemma mapBlock_logged {addr : ℕ} (hb : mapBlock st e slots bn t = .ok (addr, slots', t')) :
    Keeps (st.disk t) (st.disk t') slots slots' ∧
      ∃ l, log t' = log t ++ l ∧ ∀ b ∈ l, N b ∨ b ∈ pathOf (st.disk t') slots' bn := by
  obtain ⟨new, hext, -, -, -, -⟩ := mapBlock_spec hst h hnd hsub hb
  unfold mapBlock at hb
  cases hloc : locate bn with
  | none => simp [hloc] at hb
  | some r =>
    obtain ⟨s, i⟩ := r
    rw [hloc] at hb
    obtain ⟨⟨leaf, a, t1⟩, hr, hb⟩ := bind_eq_ok.mp hb
    simp only [Except.ok.injEq, Prod.mk.injEq] at hb
    obtain ⟨rfl, rfl, rfl⟩ := hb
    obtain ⟨hwrote, hroot⟩ := hst.reach_wrote hlog h (locate_eq_some.mp hloc).2
      (disjoint_slot hnd s).1 (fun b hb => hsub (tree_subset_blocks s hb)) hr
    refine ⟨fun k hk => ⟨?_, pathOf_eq_of_kept (fun b hb => ?_) (fun s' hs' => ?_) hk⟩, ?_⟩
    · by_cases hkb : k = bn
      · subst hkb
        rwa [hext.same hk]
      · rwa [hext.keep k hkb]
    · exact hwrote.kept b (hsub (indirects_subset_blocks hb))
    · rcases eq_or_ne s' s with rfl | hne
      · rw [Function.update_self, hroot hs']
      · rw [Function.update_of_ne hne]
    · have hpath : pathOf (st.disk t1) (Function.update slots s a) bn =
          ptrs.path (st.disk t1) (slotLevel s) a i := by
        simp only [pathOf, hloc, Function.update_self]
      rw [hpath]
      exact hwrote.logged

/-- So does writing to it. -/
lemma putChunk_logged {off : ℕ} {chunk : List UInt8}
    (hw : putChunk st e slots off chunk t = .ok (slots', t')) :
    Keeps (st.disk t) (st.disk t') slots slots' ∧
      ∃ l, log t' = log t ++ l ∧ blockOf (st.disk t') slots' (off / BSIZE) ≠ 0 ∧
        ∀ b ∈ l, N b ∨ b ∈ pathOf (st.disk t') slots' (off / BSIZE) := by
  obtain ⟨⟨addr, slots1, t1⟩, hb, hw⟩ := bind_eq_ok.mp hw
  simp only [Except.ok.injEq, Prod.mk.injEq] at hw
  obtain ⟨rfl, rfl⟩ := hw
  obtain ⟨new, hext, hinv, haddr, hne0, -⟩ := mapBlock_spec hst h hnd hsub hb
  obtain ⟨hkeeps, l, hl, hmem⟩ := mapBlock_logged hst hlog h hnd hsub hb
  obtain ⟨hnd1, -⟩ := hext.within (hst.nodup hinv) hnd hsub
  have hmapped : blockOf (st.disk t1) slots1 (off / BSIZE) ≠ 0 := haddr.symm ▸ hne0
  rw [hst.disk_set, hlog.log_set]
  generalize Bytes.patch (st.disk t1 addr) (off % BSIZE) chunk.length (fun k => chunk.getD k 0) = x
  -- the data block is not an indirect block
  have hind : ∀ b ∈ indirects (st.disk t1) slots1,
      Function.update (st.disk t1) addr x b = st.disk t1 b := fun b hb =>
    Function.update_of_ne (fun heq => blockOf_notMem_indirects hnd1 hmapped
      (by rwa [haddr, ← heq])) _ _
  have hset : Keeps (st.disk t1) (Function.update (st.disk t1) addr x) slots1 slots1 :=
    fun bn hbn => ⟨by rwa [blockOf_congr hind],
      pathOf_eq_of_kept (fun b hb => .of_eq (hind b hb)) (fun _ _ => rfl) hbn⟩
  obtain ⟨hmapped', hpath⟩ := hset _ hmapped
  refine ⟨hkeeps.trans hset, l ++ [addr], by rw [hl, List.append_assoc], hmapped', fun b hb => ?_⟩
  rw [hpath]
  rcases List.mem_append.mp hb with hb | hb
  · exact hmem b hb
  · right
    rw [List.mem_singleton.mp hb, ← haddr]
    exact blockOf_mem_pathOf hmapped

/-- Writing to a file logs blocks on the way to the blocks that are written. -/
lemma putLoop_logged (hblank : st.blank = fun _ => 0) {fuel off : ℕ} {src : List UInt8}
    (hw : putLoop st e fuel slots off src t = .ok (slots', t')) :
    Keeps (st.disk t) (st.disk t') slots slots' ∧
      ∃ l, log t' = log t ++ l ∧ ∀ b ∈ l, N b ∨ ∃ bn, off / BSIZE ≤ bn ∧
        bn * BSIZE < off + src.length ∧ b ∈ pathOf (st.disk t') slots' bn := by
  induction fuel generalizing slots off src t used with
  | zero =>
    simp only [putLoop, Except.ok.injEq, Prod.mk.injEq] at hw
    obtain ⟨rfl, rfl⟩ := hw
    exact ⟨.refl, [], by simp, by simp⟩
  | succ fuel ih =>
    by_cases hsrc : src = []
    · simp only [putLoop, if_pos hsrc, Except.ok.injEq, Prod.mk.injEq] at hw
      obtain ⟨rfl, rfl⟩ := hw
      exact ⟨.refl, [], by simp, by simp⟩
    rw [putLoop, if_neg hsrc] at hw
    have hpos : 0 < src.length := List.length_pos_iff.mpr hsrc
    have hmod : off % BSIZE < BSIZE := Nat.mod_lt _ (by decide)
    have hdiv := Nat.div_add_mod' off BSIZE
    generalize hm : min src.length (BSIZE - off % BSIZE) = m at hw
    have hlen : (src.take m).length = m := by
      rw [List.length_take]
      omega
    obtain ⟨⟨slots1, t1⟩, hc, hw⟩ := bind_eq_ok.mp hw
    obtain ⟨new, hwr, h1⟩ := putChunk_spec hst hblank h hnd hsub
      (List.ne_nil_of_length_pos (by omega)) (by omega) hc
    obtain ⟨hnd1, hsub1⟩ := hwr.within (hst.nodup h1) hnd hsub
    obtain ⟨hkeeps, l, hl, hmapped, hmem⟩ := putChunk_logged hst hlog h hnd hsub hc
    obtain ⟨hkeeps', l', hl', hmem'⟩ := ih h1 hnd1 hsub1 hw
    refine ⟨hkeeps.trans hkeeps', l ++ l', by rw [hl', hl, List.append_assoc], fun b hb => ?_⟩
    rcases List.mem_append.mp hb with hb | hb
    · refine (hmem b hb).imp_right fun hb => ⟨off / BSIZE, le_rfl, by omega, ?_⟩
      rwa [(hkeeps' _ hmapped).2]
    · refine (hmem' b hb).imp_right ?_
      rintro ⟨bn, hlo, hhi, hb⟩
      rw [List.length_drop] at hhi
      exact ⟨bn, (Nat.div_le_div_right (Nat.le_add_right off m)).trans hlo, by omega, hb⟩

end Store

/-! ## The bound -/

lemma logStore_alloc {t t' : Disk × List ℕ} {c : ℕ} (ht : (logStore sb).alloc t = .ok (c, t')) :
    balloc sb t.1 = .ok (c, t'.1) ∧ t'.2 = t.2 ++ [sb.bblock c, c] := by
  change (balloc sb t.1).map _ = _ at ht
  cases hb : balloc sb t.1 with
  | error e => simp [hb, Except.map] at ht
  | ok r =>
    simp only [hb, Except.map, Except.ok.injEq, Prod.mk.injEq] at ht
    obtain ⟨rfl, rfl⟩ := ht
    exact ⟨rfl, rfl⟩

lemma logStore_lawful (hL : sb.Layout) : (logStore sb).Lawful sb.InBitmap
    (fun t used => Alloc sb t.1 used) (sb.size - sb.dataStart) := by
  have hK := kernelStore_lawful hL
  refine ⟨hK.nodup, hK.apart, fun _ _ _ => rfl, hK.inv_set, hK.ptr_setPtr_of_ne,
    fun h ht => hK.alloc_fresh h (logStore_alloc ht).1,
    fun h ht => hK.alloc_inv h (logStore_alloc ht).1, hK.ptr_blank,
    fun h ht => hK.alloc_blank h (logStore_alloc ht).1,
    fun h ht => hK.alloc_frame h (logStore_alloc ht).1,
    fun h ht => hK.alloc_ptr h (logStore_alloc ht).1, fun {t used} h hroom => ?_⟩
  obtain ⟨c, d, hb⟩ := hK.alloc_ok h hroom
  have hb : balloc sb t.1 = .ok (c, d) := hb
  exact ⟨c, (d, t.2 ++ [sb.bblock c, c]), by simp only [logStore, hb, Except.map]⟩

/-- A block that is allocated lies in the file system. -/
lemma balloc_lt {c : ℕ} (hb : balloc sb d = .ok (c, d')) : c < sb.size := by
  unfold balloc at hb
  split at hb
  case h_2 => simp at hb
  case h_1 b hscan =>
    simp only [Except.ok.injEq, Prod.mk.injEq] at hb
    exact hb.1 ▸ (ballocScan_spec.1 b hscan).1

lemma logStore_logs (sb : Superblock) : (logStore sb).Logs Prod.snd sb.InBitmap where
  log_set := fun _ _ _ => rfl
  log_alloc := fun {t c t'} ht => by
    obtain ⟨hb, hlog⟩ := logStore_alloc ht
    refine ⟨sb.bblock c, ⟨Nat.le_add_left _ _, ?_⟩, hlog⟩
    have hlt : c < sb.size := balloc_lt hb
    have hdiv : c / BPB ≤ sb.size / BPB := Nat.div_le_div_right hlt.le
    unfold Superblock.bblock Superblock.dataStart
    omega

/-- The blocks that a transaction can log, for nine blocks of the file from `b₀` on. -/
def coverBlocks (sb : Superblock) (d : Disk) (slots : Slots) (inum b₀ : ℕ) : List ℕ :=
  List.range' sb.bmapstart 3 ++ (List.range' b₀ 9).map (tip d slots) ++
    trunk d slots (max b₀ NDIRECT) ++ trunk d slots (b₀ + 8) ++ [sb.iblock inum]

lemma length_cover_lt (sb : Superblock) (d : Disk) (slots : Slots) (inum b0 : ℕ) :
    (coverBlocks sb d slots inum b0).length < MAXOPBLOCKS := by
  have h1 := length_trunk_le d slots (max b0 NDIRECT)
  have h2 := length_trunk_le d slots (b0 + 8)
  simp only [coverBlocks, List.length_append, List.length_range', List.length_map, List.length_singleton,
    MAXOPBLOCKS]
  omega

lemma mem_cover {inum b0 b : ℕ} (hbits : sb.dataStart ≤ sb.bmapstart + 3)
    (hb : sb.InBitmap b ∨ ∃ bn, b0 ≤ bn ∧ bn ≤ b0 + 8 ∧ b ∈ pathOf d slots bn) :
    b ∈ coverBlocks sb d slots inum b0 := by
  simp only [coverBlocks, List.mem_append, List.mem_map, List.mem_range'_1, List.mem_singleton]
  rcases hb with ⟨hlo, hhi⟩ | ⟨bn, hlo, hhi, hb⟩
  · exact .inl (.inl (.inl (.inl ⟨hlo, by omega⟩)))
  · rcases mem_pathOf hb with hb | rfl
    · rcases @trunk_cases d slots bn b0 hlo hhi with htrunk | htrunk | htrunk
      · simp [htrunk] at hb
      · exact .inl (.inl (.inr (htrunk ▸ hb)))
      · exact .inl (.inr (htrunk ▸ hb))
    · exact .inl (.inl (.inl (.inr ⟨bn, ⟨hlo, by omega⟩, rfl⟩)))

/-- `writei` logs nothing, or what its loop logs, and perhaps the block of the inode. -/
lemma writeiLogged_cases {env : Env} {inum off : ℕ} {ip ip' : Inode} {src : List UInt8} {r : ℤ}
    {logged : List ℕ} (hw : writeiLogged env sb inum ip src off d = .ok (r, ip', d', logged)) :
    logged = [] ∨ ∃ slots d1 l, putLoop (logStore sb) .outOfRange src.length ip.addrs off src (d, []) =
      .ok (slots, d1, l) ∧ logged ⊆ l ++ [sb.iblock inum] := by
  have hinj : ∀ {r' : ℤ} {ip1 : Inode} {d1 : Disk} {l : List ℕ},
      (Except.ok (r', ip1, d1, l) : Except FsPanic _) = .ok (r, ip', d', logged) → logged = l := by
    intro r' ip1 d1 l h
    simp only [Except.ok.injEq, Prod.mk.injEq] at h
    exact h.2.2.2.symm
  simp only [writeiLogged] at hw
  split at hw
  · split at hw <;> exact .inl (hinj hw)
  split at hw
  · exact .inl (hinj hw)
  split at hw
  · exact .inl (hinj hw)
  right
  cases hloop : putLoop (logStore sb) .outOfRange src.length ip.addrs off src (d, []) with
  | error e => simp [hloop, bind, Except.bind] at hw
  | ok q =>
    refine ⟨q.1, q.2.1, q.2.2, rfl, ?_⟩
    simp only [hloop, bind, Except.bind] at hw
    split at hw
    · rw [hinj hw]
      exact List.Subset.refl _
    · rw [hinj hw]
      exact List.subset_append_left _ _

/-- A transaction logs fewer than `MAXOPBLOCKS` blocks. -/
lemma writeiLogged_card_lt {env : Env} {inum off : ℕ} {ip ip' : Inode} {src : List UInt8} {r : ℤ}
    {logged used : List ℕ} (hL : sb.Layout) (hbits : sb.dataStart ≤ sb.bmapstart + 3)
    (h : Alloc sb d used) (hnd : (blocks d ip.addrs).Nodup) (hsub : blocks d ip.addrs ⊆ used)
    (hlen : src.length ≤ MAXWRITE)
    (hw : writeiLogged env sb inum ip src off d = .ok (r, ip', d', logged)) :
    logged.toFinset.card < MAXOPBLOCKS := by
  rcases writeiLogged_cases hw with rfl | ⟨slots, d1, l, hloop, hlogged⟩
  · decide
  obtain ⟨-, l', hl, hmem⟩ :=
    putLoop_logged (t := (d, [])) (logStore_lawful hL) (logStore_logs sb) h hnd hsub rfl hloop
  obtain rfl : l = l' := hl
  have hsubset : logged.toFinset ⊆ (coverBlocks sb d1 slots inum (off / BSIZE)).toFinset := by
    intro b hb
    rw [List.mem_toFinset] at hb ⊢
    rcases List.mem_append.mp (hlogged hb) with hb | hb
    · refine mem_cover hbits ((hmem b hb).imp_right ?_)
      rintro ⟨bn, hlo, hhi, hb⟩
      -- the blocks that are written lie in nine blocks of the file
      refine ⟨bn, hlo, ?_, hb⟩
      simp only [BSIZE, MAXWRITE, MAXOPBLOCKS] at hhi hlen ⊢
      omega
    · simp [coverBlocks, List.mem_singleton.mp hb]
  calc logged.toFinset.card ≤ _ := Finset.card_le_card hsubset
    _ ≤ _ := List.toFinset_card_le _
    _ < MAXOPBLOCKS := length_cover_lt _ _ _ _ _

/-- Every transaction of `filewrite` on a regular file of a sound file system, at any offset and for any
bytes, logs at most `MAXOPBLOCKS` different blocks. -/
theorem transactions_fit (hL : sb.Layout) (hbits : sb.dataStart ≤ sb.bmapstart + 3) (fuel : ℕ)
    (env : ℕ → Env) (s : Fs) (f : File) (src : List UInt8) (hs : Ownership HasMap sb s)
    (hc : Coherent sb s) (hi : f.inum ∈ inums sb) (hfile : (s.inode sb f.inum).type = T_FILE) :
    ∀ logged ∈ transactions sb fuel env s f src, logged.toFinset.card ≤ MAXOPBLOCKS := by
  have h0 : ¬ HasMap 0 := by decide
  have hown : Owns HasMap sb s := ⟨(ownership_iff_alloc hL).mp hs, hc⟩
  clear hs hc
  induction fuel generalizing env s f src with
  | zero => simp [transactions]
  | succ fuel ih =>
    have hmap : HasMap (s.inode sb f.inum).type := .inl hfile
    have htype : (s.inode sb f.inum).type ≠ 0 := fun hz => h0 (hz ▸ hmap)
    have halloc := hown.alloc_owned hi hmap
    intro logged hmem
    simp only [transactions, ilock_eq htype, Fs.put_disk, Fs.put_put] at hmem
    split at hmem
    · simp at hmem
    cases hw : writeiLogged (env 0) sb f.inum (s.inode sb f.inum) (src.take MAXWRITE) f.off s.disk with
    | error e => simp [hw] at hmem
    | ok q =>
      obtain ⟨r, ip, d, l⟩ := q
      have hcard : l.toFinset.card ≤ MAXOPBLOCKS :=
        (writeiLogged_card_lt hL hbits halloc (List.nodup_append'.mp halloc.nodup).1
          (List.subset_append_left _ _) (List.length_take_le _ _) hw).le
      have hw' : writei (env 0) sb f.inum (s.inode sb f.inum) (src.take MAXWRITE) f.off s.disk =
          .ok (r, ip, d) := by
        rw [writei_eq_writeiLogged, hw]
        rfl
      simp only [hw] at hmem
      split_ifs at hmem
      · rwa [List.mem_singleton.mp hmem]
      all_goals
        rcases List.mem_cons.mp hmem with rfl | hmem
        · exact hcard
        · refine ih _ _ _ _ ?_ ?_ (owns_writei hL h0 hown hi hmap hw').1 logged hmem
          · exact hi
          · have htype' : ip.type = (s.inode sb f.inum).type := by
              rcases writei_cases hw' with ⟨rfl, _⟩ | ⟨_, _, _, ⟨rfl, _⟩ | ⟨rfl, _⟩⟩ <;> rfl
            show ((s.put f.inum ip d).inode sb f.inum).type = T_FILE
            rw [Fs.inode_put_self, htype', hfile]

set_option maxRecDepth 20000 in
theorem transactions_fit_emptyFile : ∃ s, Ownership HasMap mkfsSuperblock s ∧
    transactions mkfsSuperblock 3 quietEnv s (startFile false) [7, 8, 9] = [[91, 94, 94, 62]] ∧
    ∀ logged ∈ transactions mkfsSuperblock 3 quietEnv s (startFile false) [7, 8, 9],
      logged.toFinset.card ≤ MAXOPBLOCKS := by
  have h0 : ¬ HasMap 0 := by decide
  have h := owns_freshFs layout_mkfsSuperblock h0
  obtain ⟨s, hs, hfile, hlogged⟩ : ∃ s ∈ Machine.exec (blockStep mkfsSuperblock)
      (freshFs mkfsSuperblock) [.ialloc T_FILE], (s.inode mkfsSuperblock 1).type = T_FILE ∧
      transactions mkfsSuperblock 3 quietEnv s (startFile false) [7, 8, 9] = [[91, 94, 94, 62]] := by
    decide +kernel
  have hown := owns_exec layout_mkfsSuperblock h0 h hs (by decide +kernel)
  have hs' := (ownership_iff_alloc layout_mkfsSuperblock).mpr hown.alloc
  exact ⟨s, hs', hlogged, transactions_fit layout_mkfsSuperblock (by decide) 3 quietEnv s
    (startFile false) _ hs' hown.coherent (by decide +kernel) hfile⟩

end Xv7
