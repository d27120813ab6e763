import Xv7.Fs.Dirent
import Xv7.Fs.File
import Xv7.Fs.Timestamps

/-!
# Directories

`dirlookup`, `dirlink` and the part of `sys_unlink` that clears an entry, over the inode as it is
in memory: the two last pointers that `bmap` uses are the times of the inode.  As long as a
directory needs neither of them, it is a finite map from names to inode numbers, kept in slots.
-/

namespace Xv7

open SlotMap (clear find free free_le put)
open Fallible

/-! ## The code -/

namespace CachedInode

/-- The inode after a change of the words from `ip->addrs` on. -/
def withSlots (ip : CachedInode) (slots : Slots) : CachedInode :=
  { ip with
    addrs := fun i => slots (i.castLE addrs_le)
    atime := slots ⟨NDIRECT + 1, dind_lt⟩
    mtime := slots ⟨NDIRECT + 2, tind_lt⟩ }

/-- `readi`. -/
def readi (env : Env) (sb : Superblock) (ip : CachedInode) (off n : ℕ) (d : Disk) :
    Except FsPanic (ℤ × List UInt8 × CachedInode × Disk) :=
  let ip := { ip with atime := env.curtime }
  if ip.type = T_DEV then
    match if ip.major < NDEV then env.devRead ip.major else none with
    | some read => .ok ((read n).1, (read n).2, ip, d)
    | none => .ok (-1, [], ip, d)
  else if ip.size < off ∨ (off + n) % 2 ^ 32 < off then .ok (-1, [], ip, d)
  else do
    let n := if ip.size < (off + n) % 2 ^ 32 then ip.size - off else n
    let (bytes, slots, d) ← readLoop sb n ip.slots off n d
    .ok (n, bytes, ip.withSlots slots, d)

/-- `writei`. -/
def writei (env : Env) (sb : Superblock) (inum : ℕ) (ip : CachedInode) (src : List UInt8)
    (off : ℕ) (d : Disk) : Except FsPanic (ℤ × CachedInode × Disk) :=
  let n := src.length
  let ip := { ip with mtime := env.curtime }
  if ip.type = T_DEV then
    match if ip.major < NDEV then env.devWrite ip.major else none with
    | some write => .ok (write src, ip, d)
    | none => .ok (-1, ip, d)
  else if ip.size < off ∨ (off + n) % 2 ^ 32 < off then .ok (-1, ip, d)
  else if MAXFILE * BSIZE < (off + n) % 2 ^ 32 then .ok (-1, ip, d)
  else do
    let (slots, d) ← writeLoop sb n ip.slots off src d
    let ip := ip.withSlots slots
    if 0 < n ∧ ip.size < off + n then
      let ip := { ip with size := off + n }
      .ok (n, ip, storeInode sb inum ip d)
    else .ok (n, ip, d)

end CachedInode

/-- The entry in the bytes that were read. -/
def readDirent (bytes : List UInt8) : Dirent := getDirent (fun k => bytes.getD k 0) 0

/-- The loop of `dirlookup`: the inode number and the offset of the entry.  `env k` is the
environment of the call number `k` of `readi`. -/
def dirlookupLoop (sb : Superblock) (name : List UInt8) : ℕ → (ℕ → Env) → ℕ → CachedInode → Disk →
    Except FsPanic (Option (ℕ × ℕ) × CachedInode × Disk)
  | 0, _, _, dp, d => .ok (none, dp, d)
  | fuel + 1, env, off, dp, d =>
    if off < dp.size then do
      let (r, bytes, dp, d) ← dp.readi (env 0) sb off DIRENTSIZE d
      let de := readDirent bytes
      if r ≠ DIRENTSIZE then .error .dirlookupRead
      else if de.inum ≠ 0 ∧ namecmp name de.name = 0 then .ok (some (de.inum, off), dp, d)
      else dirlookupLoop sb name fuel (fun k => env (k + 1)) (off + DIRENTSIZE) dp d
    else .ok (none, dp, d)

/-- `dirlookup`. -/
def dirlookup (env : ℕ → Env) (sb : Superblock) (dp : CachedInode) (name : List UInt8) (d : Disk) :
    Except FsPanic (Option (ℕ × ℕ) × CachedInode × Disk) :=
  if dp.type ≠ T_DIR then .error .dirlookupNotDir
  else dirlookupLoop sb name (dp.size + 1) env 0 dp d

/-- The loop of `dirlink`: the offset of an empty entry, or of the end. -/
def emptyLoop (sb : Superblock) : ℕ → (ℕ → Env) → ℕ → CachedInode → Disk →
    Except FsPanic (ℕ × CachedInode × Disk)
  | 0, _, off, dp, d => .ok (off, dp, d)
  | fuel + 1, env, off, dp, d =>
    if off < dp.size then do
      let (r, bytes, dp, d) ← dp.readi (env 0) sb off DIRENTSIZE d
      if r ≠ DIRENTSIZE then .error .dirlinkRead
      else if (readDirent bytes).inum = 0 then .ok (off, dp, d)
      else emptyLoop sb fuel (fun k => env (k + 1)) (off + DIRENTSIZE) dp d
    else .ok (off, dp, d)

/-- `dirlink`.  The calls of `readi` in the first loop and those in the second are numbered
separately. -/
def dirlink (env : ℕ → ℕ → Env) (sb : Superblock) (dinum : ℕ) (dp : CachedInode)
    (name : List UInt8) (inum : ℕ) (d : Disk) : Except FsPanic (ℤ × CachedInode × Disk) := do
  let (found, dp, d) ← dirlookup (env 0) sb dp name d
  if found.isSome then .ok (-1, dp, d)
  else do
    let (off, dp, d) ← emptyLoop sb (dp.size + 1) (env 1) 0 dp d
    let (r, dp, d) ← dp.writei (env 2 0) sb dinum (Dirent.mk inum (strncpy DIRSIZ name)).bytes off d
    if r ≠ DIRENTSIZE then .error .dirlink else .ok (0, dp, d)

/-- The part of `sys_unlink` that clears an entry. -/
def clearEntry (env : Env) (sb : Superblock) (dinum : ℕ) (dp : CachedInode) (off : ℕ) (d : Disk) :
    Except FsPanic (CachedInode × Disk) := do
  let (r, dp, d) ← dp.writei env sb dinum (List.replicate DIRENTSIZE 0) off d
  if r ≠ DIRENTSIZE then .error .unlinkWritei else .ok (dp, d)

/-! ## The pointers of a small file -/

/-- The bytes that a file can have without the last two pointers. -/
abbrev SMALL : ℕ := (NDIRECT + NINDIRECT) * BSIZE

variable {sb : Superblock} {d d' : Disk} {ip dp : CachedInode} {slots slots' slots₀ : Slots}

lemma CachedInode.withSlots_slots (ip : CachedInode) : ip.withSlots ip.slots = ip := by
  obtain ⟨haddrs, hatime, hmtime⟩ := CachedInode.slots_eq_iff.mp (rfl : ip.slots = ip.slots)
  simp only [CachedInode.withSlots, ← haddrs, ← hatime, ← hmtime]

/-- A small file is found through the pointers that are its own. -/
lemma locate_small {bn i : ℕ} {s : Fin (NDIRECT + 3)} (hbn : bn < NDIRECT + NINDIRECT)
    (h : locate bn = some (s, i)) : s.val < NDIRECT + 1 := by
  have := (locate_eq_some.mp h).1
  rcases slot_cases s with hs | hs | hs | hs <;> omega

lemma CachedInode.slots_eq_dinode {s : Fin (NDIRECT + 3)} (hs : s.val < NDIRECT + 1) :
    ip.slots s = ip.dinode.addrs s := by
  simp only [CachedInode.slots, CachedInode.dinode, dif_pos hs]

/-- Two lists of pointers that agree on those of a small file. -/
def Agree (slots slots₀ : Slots) : Prop := ∀ s : Fin (NDIRECT + 3), s.val < NDIRECT + 1 →
  slots s = slots₀ s

lemma Agree.refl (slots : Slots) : Agree slots slots := fun _ _ => rfl

lemma Agree.symm (h : Agree slots slots₀) : Agree slots₀ slots := fun s hs => (h s hs).symm

lemma Agree.blockOf_eq (h : Agree slots slots₀) {bn : ℕ} (hbn : bn < NDIRECT + NINDIRECT) :
    blockOf d slots bn = blockOf d slots₀ bn := by
  unfold blockOf
  rcases hloc : locate bn with _ | ⟨s, i⟩
  · rfl
  · simp only [h s (locate_small hbn hloc)]

/-- `bmap` on a small file does the same to pointers that agree. -/
lemma Agree.bmap_eq (h : Agree slots slots₀) {bn a : ℕ} (hbn : bn < NDIRECT + NINDIRECT)
    {slots0' : Slots} (hb : bmap sb slots₀ bn d = .ok (a, slots0', d')) :
    ∃ slots', bmap sb slots bn d = .ok (a, slots', d') ∧ Agree slots' slots0' ∧
      ∀ s : Fin (NDIRECT + 3), NDIRECT + 1 ≤ s.val → slots' s = slots s := by
  unfold bmap at hb ⊢
  rcases hloc : locate bn with _ | ⟨s, i⟩
  · simp [hloc] at hb
  simp only [hloc] at hb ⊢
  have hs := locate_small hbn hloc
  obtain ⟨⟨a1, slots1, d1⟩, hslot, hb⟩ := bind_eq_ok.mp hb
  obtain ⟨⟨a2, d2⟩, hwalk, hb⟩ := bind_eq_ok.mp hb
  simp only [Except.ok.injEq, Prod.mk.injEq] at hb
  obtain ⟨rfl, rfl, rfl⟩ := hb
  have hslot' : ∃ slots', bmapSlot sb slots s d = .ok (a1, slots', d1) ∧ Agree slots' slots1 ∧
      ∀ t : Fin (NDIRECT + 3), NDIRECT + 1 ≤ t.val → slots' t = slots t := by
    unfold bmapSlot at hslot ⊢
    rw [h s hs]
    split_ifs at hslot ⊢ with h0
    · obtain ⟨⟨c, d3⟩, hc, hslot⟩ := bind_eq_ok.mp hslot
      simp only [Except.ok.injEq, Prod.mk.injEq] at hslot
      obtain ⟨rfl, rfl, rfl⟩ := hslot
      refine ⟨Function.update slots s c, by rw [hc]; rfl, fun t ht => ?_, fun t ht => ?_⟩
      · by_cases hts : t = s
        · rw [hts, Function.update_self, Function.update_self]
        · rw [Function.update_of_ne hts, Function.update_of_ne hts, h t ht]
      · refine Function.update_of_ne ?_ _ _
        rintro rfl
        omega
    · simp only [Except.ok.injEq, Prod.mk.injEq] at hslot
      obtain ⟨rfl, rfl, rfl⟩ := hslot
      exact ⟨slots, rfl, h, fun _ _ => rfl⟩
  obtain ⟨slots', hslot', hagree, hrest⟩ := hslot'
  exact ⟨slots', by rw [hslot', ok_bind, hwalk]; rfl, hagree, hrest⟩

/-- The loop of `writei` on a small file does the same to pointers that agree. -/
lemma Agree.writeLoop_eq (h : Agree slots slots₀) {fuel off : ℕ} {src : List UInt8}
    (hoff : off + src.length ≤ SMALL) {slots0' : Slots}
    (hw : writeLoop sb fuel slots₀ off src d = .ok (slots0', d')) :
    ∃ slots', writeLoop sb fuel slots off src d = .ok (slots', d') ∧ Agree slots' slots0' ∧
      ∀ s : Fin (NDIRECT + 3), NDIRECT + 1 ≤ s.val → slots' s = slots s := by
  induction fuel generalizing slots slots₀ off src d with
  | zero =>
    simp only [writeLoop, Except.ok.injEq, Prod.mk.injEq] at hw
    obtain ⟨rfl, rfl⟩ := hw
    exact ⟨slots, rfl, h, fun _ _ => rfl⟩
  | succ fuel ih =>
    rw [writeLoop] at hw
    by_cases hsrc : src = []
    · rw [if_pos hsrc, Except.ok.injEq, Prod.mk.injEq] at hw
      obtain ⟨rfl, rfl⟩ := hw
      exact ⟨slots, by rw [writeLoop, if_pos hsrc], h, fun _ _ => rfl⟩
    rw [if_neg hsrc] at hw
    have hpos := List.length_pos_iff.mpr hsrc
    have hB : BSIZE = 512 := rfl
    have hS : SMALL = (NDIRECT + NINDIRECT) * 512 := rfl
    have hbn : off / BSIZE < NDIRECT + NINDIRECT := by
      rw [hB]
      omega
    obtain ⟨⟨slots1, d1⟩, hchunk, hw⟩ := bind_eq_ok.mp hw
    obtain ⟨⟨a, slots2, d2⟩, hb, hchunk⟩ := bind_eq_ok.mp hchunk
    simp only [Except.ok.injEq, Prod.mk.injEq] at hchunk
    obtain ⟨rfl, rfl⟩ := hchunk
    obtain ⟨slots3, hb', hagree, hrest⟩ := h.bmap_eq hbn hb
    obtain ⟨slots', hw', hagree', hrest'⟩ := ih hagree
      (by rw [List.length_drop]; omega) hw
    refine ⟨slots', ?_, hagree', fun s hs => (hrest' s hs).trans (hrest s hs)⟩
    rw [writeLoop, if_neg hsrc]
    exact bind_eq_ok.mpr ⟨_, bind_eq_ok.mpr ⟨_, hb', rfl⟩, hw'⟩

/-! ## The entries after a write -/

/-- An entry in the middle of a directory is replaced. -/
lemma dirents_splice_of_lt {data : List UInt8} {de : Dirent} {i : ℕ} (h : de.Fits)
    (hi : i < data.length / DIRENTSIZE) :
    dirents (splice data (DIRENTSIZE * i) de.bytes) = (dirents data).set i de := by
  have hE : DIRENTSIZE = 16 := rfl
  have hbytes := h.length_bytes
  have hle := lt_div_direntsize.mp hi
  have hlen : (splice data (DIRENTSIZE * i) de.bytes).length = data.length := by
    rw [length_splice (by omega), hbytes]
    omega
  have hget : ∀ k, (splice data (DIRENTSIZE * i) de.bytes).getD k 0 =
      if DIRENTSIZE * i ≤ k ∧ k < DIRENTSIZE * i + DIRENTSIZE
      then de.bytes.getD (k - DIRENTSIZE * i) 0 else data.getD k 0 := by
    intro k
    have htake : (data.take (DIRENTSIZE * i)).length = DIRENTSIZE * i := by
      rw [List.length_take]
      omega
    simp only [List.getD_eq_getElem?_getD, splice, List.append_assoc]
    by_cases h1 : k < DIRENTSIZE * i
    · rw [List.getElem?_append_left (by omega), List.getElem?_take_of_lt h1,
        if_neg (by omega)]
    · rw [List.getElem?_append_right (by omega), htake]
      by_cases h2 : k < DIRENTSIZE * i + DIRENTSIZE
      · rw [List.getElem?_append_left (by omega), if_pos (by omega)]
      · rw [List.getElem?_append_right (by omega), List.getElem?_drop, if_neg (by omega)]
        congr 2
        omega
  refine List.ext_getElem? fun j => ?_
  by_cases hj : j < data.length / DIRENTSIZE
  · rw [getElem?_dirents (by rwa [hlen])]
    by_cases hij : j = i
    · subst hij
      rw [List.getElem?_set_self (by simpa using hj)]
      refine congrArg some (getDirent_of_bytes h fun k hk => ?_)
      rw [hget, if_pos (by omega), Nat.add_sub_cancel_left]
    · rw [List.getElem?_set_ne (Ne.symm hij), getElem?_dirents hj]
      refine congrArg some (getDirent_congr fun k hk => ?_)
      rw [hget, if_neg]
      rw [hE] at hk ⊢
      omega
  · rw [List.getElem?_eq_none (by rw [length_dirents, hlen]; omega),
      List.getElem?_eq_none (by rw [List.length_set, length_dirents]; omega)]

/-- The slots of a directory. -/
def entries (d : Disk) (dp : CachedInode) : List (Option (List UInt8 × ℕ)) :=
  (dirents (contents d dp.dinode)).map Dirent.slot

@[simp] lemma length_entries (d : Disk) (dp : CachedInode) :
    (entries d dp).length = dp.size / DIRENTSIZE := by
  simp [entries, CachedInode.dinode]

/-- What is read at the place of an entry. -/
lemma readDirent_eq {i : ℕ} (hi : i < dp.size / DIRENTSIZE) :
    (entries d dp)[i]? = some (readDirent (((contents d dp.dinode).drop (DIRENTSIZE * i)).take
      DIRENTSIZE)).slot := by
  have hE : DIRENTSIZE = 16 := rfl
  have hlen : (contents d dp.dinode).length = dp.size := by simp [CachedInode.dinode]
  rw [entries, List.getElem?_map, getElem?_dirents (by rwa [hlen]), Option.map_some]
  refine congrArg (fun de => some (Dirent.slot de)) (getDirent_congr fun k hk => ?_)
  simp only [List.getD_eq_getElem?_getD, Nat.zero_add]
  rw [List.getElem?_take_of_lt hk, List.getElem?_drop]

/-! ## Directories -/

/-- A directory that needs neither of the last two pointers: it has no holes and no block of
others, and no two live entries have the same name. -/
structure IsDir (sb : Superblock) (others : List ℕ) (dp : CachedInode) (d : Disk) : Prop where
  type : dp.type = T_DIR
  alloc : Alloc sb d (blocks d dp.dinode.addrs ++ others)
  full : NoHoles d dp.dinode
  whole : dp.size % DIRENTSIZE = 0
  small : dp.size ≤ SMALL
  unique : SlotMap.Unique (entries d dp)

variable {others : List ℕ}

/-- The time of the last access does not matter. -/
lemma IsDir.touch (h : IsDir sb others dp d) (t : ℕ) : IsDir sb others { dp with atime := t } d :=
  ⟨h.type, h.alloc, h.full, h.whole, h.small, h.unique⟩

/-- `readi` of an entry whose block is mapped. -/
lemma CachedInode.readi_entry (sb : Superblock) (htype : dp.type = T_DIR)
    (hsmall : dp.size ≤ SMALL) (env : Env)
    {i : ℕ} (hi : i < dp.size / DIRENTSIZE)
    (hmap : ∀ k, k < DIRENTSIZE → blockOf d dp.dinode.addrs ((DIRENTSIZE * i + k) / BSIZE) ≠ 0) :
    dp.readi env sb (DIRENTSIZE * i) DIRENTSIZE d = .ok ((DIRENTSIZE : ℕ),
      ((contents d dp.dinode).drop (DIRENTSIZE * i)).take DIRENTSIZE,
      { dp with atime := env.curtime }, d) := by
  have hE : DIRENTSIZE = 16 := rfl
  have hS : SMALL = 138 * 512 := rfl
  have hB : BSIZE = 512 := rfl
  have hN : NDIRECT + NINDIRECT = 138 := rfl
  have hle : DIRENTSIZE * i + DIRENTSIZE ≤ dp.size := lt_div_direntsize.mp hi
  have hdev : dp.type ≠ T_DEV := by
    rw [htype]
    decide
  have hagree : Agree ({ dp with atime := env.curtime } : CachedInode).slots dp.dinode.addrs :=
    fun s hs => CachedInode.slots_eq_dinode hs
  have hbn : ∀ k, k < dp.size → k / BSIZE < NDIRECT + NINDIRECT := by
    intro k hk
    rw [hB, hN]
    omega
  have hblk : ∀ k, k < dp.size → blockOf d ({ dp with atime := env.curtime } : CachedInode).slots
      (k / BSIZE) = blockOf d dp.dinode.addrs (k / BSIZE) := fun k hk =>
    hagree.blockOf_eq (hbn k hk)
  have hmod : (DIRENTSIZE * i + DIRENTSIZE) % 2 ^ 32 = DIRENTSIZE * i + DIRENTSIZE :=
    Nat.mod_eq_of_lt (by omega)
  simp only [CachedInode.readi, if_neg hdev, hmod]
  rw [if_neg (by omega), if_neg (by omega), readLoop_eq le_rfl fun k hk hk' => ?_, ok_bind]
  · rw [CachedInode.withSlots_slots]
    have hbytes : ((List.range DIRENTSIZE).map fun k => fileByte d
        ({ dp with atime := env.curtime } : CachedInode).slots (DIRENTSIZE * i + k)) =
        ((contents d dp.dinode).drop (DIRENTSIZE * i)).take DIRENTSIZE := by
      refine List.ext_getElem ?_ fun k hk hk' => ?_
      · simp [CachedInode.dinode]
        omega
      · rw [List.length_map, List.length_range] at hk
        simp only [List.getElem_map, List.getElem_range, List.getElem_take, List.getElem_drop,
          contents, fileByte, hblk _ (by omega : DIRENTSIZE * i + k < dp.size)]
    rw [hbytes]
  · rw [hblk k (by omega)]
    have := hmap (k - DIRENTSIZE * i) (by omega)
    rwa [Nat.add_sub_cancel' hk] at this

lemma IsDir.readi_eq (h : IsDir sb others dp d) (env : Env) {i : ℕ}
    (hi : i < dp.size / DIRENTSIZE) :
    dp.readi env sb (DIRENTSIZE * i) DIRENTSIZE d = .ok ((DIRENTSIZE : ℕ),
      ((contents d dp.dinode).drop (DIRENTSIZE * i)).take DIRENTSIZE,
      { dp with atime := env.curtime }, d) := by
  refine CachedInode.readi_entry _ h.type h.small env hi fun k hk => h.full _ ?_
  have := lt_div_direntsize.mp hi
  simp only [CachedInode.dinode]
  omega

/-! ## `dirlookup` -/

section Step

variable {name : List UInt8} {fuel i : ℕ} {env : ℕ → Env} {t : ℕ}
  (hi : i < dp.size / DIRENTSIZE)
  (hread : dp.readi (env 0) sb (DIRENTSIZE * i) DIRENTSIZE d = .ok ((DIRENTSIZE : ℕ),
    ((contents d dp.dinode).drop (DIRENTSIZE * i)).take DIRENTSIZE, { dp with atime := t }, d))

include hi hread

/-- A round of the loop at an entry with the name. -/
lemma dirlookupLoop_hit {v : ℕ} (hslot : (entries d dp)[i]? = some (some (cut name, v))) :
    dirlookupLoop sb name (fuel + 1) env (DIRENTSIZE * i) dp d =
      .ok (some (v, DIRENTSIZE * i), { dp with atime := t }, d) := by
  have hE : DIRENTSIZE = 16 := rfl
  have hle := lt_div_direntsize.mp hi
  rw [readDirent_eq hi, Option.some.injEq, Dirent.slot] at hslot
  split_ifs at hslot with h0
  rw [Option.some.injEq, Prod.mk.injEq] at hslot
  rw [dirlookupLoop, if_pos (by omega), hread, ok_bind]
  simp only [ne_eq, not_true_eq_false, if_false]
  rw [if_pos ⟨h0, namecmp_eq_zero.mpr hslot.1.symm⟩, hslot.2]

/-- A round of the loop at another entry. -/
lemma dirlookupLoop_miss (hslot : ∀ v, (entries d dp)[i]? ≠ some (some (cut name, v))) :
    dirlookupLoop sb name (fuel + 1) env (DIRENTSIZE * i) dp d =
      dirlookupLoop sb name fuel (fun k => env (k + 1)) (DIRENTSIZE * (i + 1))
        { dp with atime := t } d := by
  have hE : DIRENTSIZE = 16 := rfl
  have hle := lt_div_direntsize.mp hi
  rw [dirlookupLoop, if_pos (by omega), hread, ok_bind]
  simp only [ne_eq, not_true_eq_false, if_false]
  rw [if_neg, Nat.mul_succ]
  rintro ⟨h0, hcmp⟩
  have hget := readDirent_eq (d := d) hi
  rw [Dirent.slot, if_neg h0, ← namecmp_eq_zero.mp hcmp] at hget
  exact hslot _ hget

end Step

/-- The loop of `dirlookup` finds the first slot with the name. -/
lemma IsDir.dirlookupLoop_eq (h : IsDir sb others dp d) (name : List UInt8) {fuel i : ℕ}
    (env : ℕ → Env) (hfuel : dp.size / DIRENTSIZE < fuel + i) (hi : i ≤ dp.size / DIRENTSIZE)
    (hskip : ∀ j v, j < i → (entries d dp)[j]? ≠ some (some (cut name, v))) :
    ∃ t, dirlookupLoop sb name fuel env (DIRENTSIZE * i) dp d =
      .ok ((find (cut name) (entries d dp)).map
        (fun r => (r.1, DIRENTSIZE * r.2)), { dp with atime := t }, d) := by
  have hE : DIRENTSIZE = 16 := rfl
  have hwhole := h.whole
  induction fuel generalizing i env dp with
  | zero => omega
  | succ fuel ih =>
    by_cases hlt : i < dp.size / DIRENTSIZE
    · have hread := h.readi_eq (env 0) hlt
      by_cases hslot : ∃ v, (entries d dp)[i]? = some (some (cut name, v))
      · obtain ⟨v, hv⟩ := hslot
        rw [dirlookupLoop_hit hlt hread hv,
          SlotMap.find_eq_some.mpr ⟨hv, fun j hj w => hskip j w hj⟩]
        exact ⟨_, rfl⟩
      · rw [not_exists] at hslot
        obtain ⟨t, ht⟩ := ih (h.touch (env 0).curtime) (fun k => env (k + 1)) (i := i + 1)
          (by simp only; omega) (by simp only; omega)
          (fun j v hj => by
            rcases Nat.lt_succ_iff_lt_or_eq.mp hj with hj | rfl
            · exact hskip j v hj
            · exact hslot v) hwhole
        exact ⟨t, (dirlookupLoop_miss hlt hread hslot).trans ht⟩
    · refine ⟨dp.atime, ?_⟩
      have hge : ¬ DIRENTSIZE * i < dp.size := by
        rw [hE] at hlt hwhole ⊢
        omega
      have hnone : find (cut name) (entries d dp) = none := by
        refine SlotMap.find_eq_none.mpr fun j v hget => hskip j v ?_ hget
        have := (List.getElem?_eq_some_iff.mp hget).1
        rw [length_entries] at this
        omega
      rw [dirlookupLoop, if_neg hge, hnone]
      rfl

/-- The result of `dirlookup` at any time. -/
def Finds (sb : Superblock) (dp : CachedInode) (d : Disk) (name : List UInt8)
    (r : Option (ℕ × ℕ)) : Prop :=
  ∀ env, ∃ t, dirlookup env sb dp name d = .ok (r, { dp with atime := t }, d)

/-- `dirlookup` finds the name in the map. -/
lemma IsDir.finds (h : IsDir sb others dp d) (name : List UInt8) :
    Finds sb dp d name ((find (cut name) (entries d dp)).map
      fun r => (r.1, DIRENTSIZE * r.2)) := by
  intro env
  have hle : dp.size / DIRENTSIZE ≤ dp.size := Nat.div_le_self _ _
  obtain ⟨t, ht⟩ := h.dirlookupLoop_eq name env
    (show dp.size / DIRENTSIZE < dp.size + 1 + 0 by omega) (Nat.zero_le _) fun j v hj => absurd hj (Nat.not_lt_zero j)
  refine ⟨t, ?_⟩
  rw [dirlookup, if_neg (not_not.mpr h.type)]
  simpa using ht

lemma Finds.unique {name : List UInt8} {r r' : Option (ℕ × ℕ)} (h : Finds sb dp d name r)
    (h' : Finds sb dp d name r') : r = r' := by
  obtain ⟨t, ht⟩ := h fun _ => ⟨0, fun _ => none, fun _ => none⟩
  obtain ⟨t', ht'⟩ := h' fun _ => ⟨0, fun _ => none, fun _ => none⟩
  rw [ht, Except.ok.injEq, Prod.mk.injEq] at ht'
  exact ht'.1

/-! ## Looking for an empty entry -/

lemma IsDir.emptyLoop_eq (h : IsDir sb others dp d) {fuel i : ℕ} (env : ℕ → Env)
    (hfuel : dp.size / DIRENTSIZE < fuel + i) (hi : i ≤ dp.size / DIRENTSIZE) :
    ∃ t, emptyLoop sb fuel env (DIRENTSIZE * i) dp d =
      .ok (DIRENTSIZE * (i + free ((entries d dp).drop i)), { dp with atime := t }, d) := by
  have hE : DIRENTSIZE = 16 := rfl
  have hwhole := h.whole
  induction fuel generalizing i env dp with
  | zero => omega
  | succ fuel ih =>
    rw [emptyLoop]
    by_cases hlt : i < dp.size / DIRENTSIZE
    · have hslot := readDirent_eq (d := d) hlt
      have hdrop := List.drop_eq_getElem_cons (l := entries d dp) (i := i) (by simpa using hlt)
      rw [List.getElem?_eq_getElem (by simpa using hlt), Option.some.injEq] at hslot
      rw [hslot] at hdrop
      have hle := lt_div_direntsize.mp hlt
      rw [if_pos (by omega), h.readi_eq (env 0) hlt, ok_bind]
      simp only [ne_eq, not_true_eq_false, if_false]
      generalize readDirent (((contents d dp.dinode).drop (DIRENTSIZE * i)).take DIRENTSIZE) = de
        at hdrop ⊢
      obtain ⟨t, ht⟩ := ih (h.touch (env 0).curtime) (fun k => env (k + 1)) (i := i + 1)
        (by simp only; omega) (by simp only; omega) hwhole
      have hentries : entries d { dp with atime := (env 0).curtime } = entries d dp := rfl
      rw [hentries, Nat.mul_add, Nat.mul_one] at ht
      rw [hdrop, free, List.findIdx_cons]
      by_cases h0 : de.inum = 0
      · exact ⟨(env 0).curtime, by rw [if_pos h0, Dirent.slot, if_pos h0]; rfl⟩
      · refine ⟨t, ?_⟩
        rw [if_neg h0, ht, Dirent.slot, if_neg h0, free]
        simp only [Option.isNone_some, cond_false, Nat.add_assoc, Nat.add_comm 1]
    · refine ⟨dp.atime, ?_⟩
      have hge : ¬ DIRENTSIZE * i < dp.size := by
        rw [hE] at hlt hwhole ⊢
        omega
      rw [if_neg hge, List.drop_eq_nil_of_le (by rw [length_entries]; omega)]
      rfl

/-! ## Writing an entry -/

/-- The pointers of a small file after its loop has run. -/
lemma CachedInode.dinode_withSlots {slots₀ : Slots} (ip : CachedInode) (h : Agree slots slots₀)
    (h0 : ∀ s : Fin (NDIRECT + 3), NDIRECT + 1 ≤ s.val → slots₀ s = 0) :
    (ip.withSlots slots).dinode.addrs = slots₀ := by
  funext s
  simp only [CachedInode.dinode, CachedInode.withSlots]
  split_ifs with hs
  · exact h s hs
  · exact (h0 s (Nat.le_of_not_lt hs)).symm

/-- The loop has run on the pointers of the file if the call succeeds. -/
lemma IsDir.loop_of_writei {dinum : ℕ} (h : IsDir sb others dp d) {env : Env} {src : List UInt8} {off : ℕ}
    (hsrc : src.length = DIRENTSIZE) (hoff : off ≤ dp.size) (hsmall : off + DIRENTSIZE ≤ SMALL)
    {r : ℤ × CachedInode × Disk} (hw : dp.writei env sb dinum src off d = .ok r) :
    ∃ slots₀ d1, writeLoop sb src.length dp.dinode.addrs off src d = .ok (slots₀, d1) := by
  have hE : DIRENTSIZE = 16 := rfl
  have hS : SMALL = 138 * 512 := rfl
  have hM : MAXFILE * BSIZE = 2113674 * 512 := rfl
  have hdev : dp.type ≠ T_DEV := by
    rw [h.type]
    decide
  have hmod : (off + src.length) % 2 ^ 32 = off + src.length := Nat.mod_eq_of_lt (by omega)
  simp only [CachedInode.writei, if_neg hdev, hmod] at hw
  rw [if_neg (by omega), if_neg (by omega)] at hw
  obtain ⟨⟨slots, d1⟩, hloop, -⟩ := bind_eq_ok.mp hw
  have hagree : Agree ({ dp with mtime := env.curtime } : CachedInode).slots dp.dinode.addrs :=
    fun s hs => CachedInode.slots_eq_dinode hs
  obtain ⟨slots₀, hloop0, -, -⟩ := hagree.symm.writeLoop_eq (by omega) hloop
  exact ⟨slots₀, d1, hloop0⟩

/-- The loop runs if the missing blocks are free. -/
lemma IsDir.loop_of_room (hL : sb.Layout) (h : IsDir sb others dp d) {src : List UInt8} {off : ℕ}
    (hsrc : src.length = DIRENTSIZE) (hsmall : off + DIRENTSIZE ≤ SMALL)
    (hroom : missing d dp.dinode.addrs (blocksFor (off + DIRENTSIZE)) +
      (blocks d dp.dinode.addrs ++ others).length ≤ sb.size - sb.dataStart) :
    ∃ slots₀ d1, writeLoop sb src.length dp.dinode.addrs off src d = .ok (slots₀, d1) := by
  have hsub : blocks d dp.dinode.addrs ⊆ blocks d dp.dinode.addrs ++ others :=
    List.subset_append_left _ _
  refine writeLoop_ok hL h.alloc (List.nodup_append'.mp h.alloc.nodup).1 hsub src.length
    (n := blocksFor (off + DIRENTSIZE)) ?_ ?_ hroom
  · rw [hsrc]
    exact blocksFor_le.mp le_rfl
  · exact blocksFor_le.mpr (hsmall.trans (by decide))

/-- An entry that is there can be overwritten. -/
lemma IsDir.room_of_lt (h : IsDir sb others dp d) {off : ℕ} (hoff : off + DIRENTSIZE ≤ dp.size) :
    missing d dp.dinode.addrs (blocksFor (off + DIRENTSIZE)) +
      (blocks d dp.dinode.addrs ++ others).length ≤ sb.size - sb.dataStart := by
  have hmiss : missing d dp.dinode.addrs (blocksFor (off + DIRENTSIZE)) = 0 := by
    refine missing_eq_zero fun bn hbn => ?_
    have hlt : bn * BSIZE < dp.size := (lt_blocksFor.mp hbn).trans_le hoff
    have := h.full (bn * BSIZE) hlt
    rwa [Nat.mul_div_cancel _ (by decide)] at this
  rw [hmiss, Nat.zero_add]
  exact h.alloc.length_le

section Write

variable (hL : sb.Layout) {dinum : ℕ} (hi : dinum ∈ inums sb)

include hL hi

/-- What is left of `writei` of an entry, once the loop has run on the pointers of the file. -/
lemma IsDir.writei_of_loop (h : IsDir sb others dp d) (env : Env) {src : List UInt8} {off : ℕ}
    (hsrc : src.length = DIRENTSIZE) (hoff : off ≤ dp.size) (hsmall : off + DIRENTSIZE ≤ SMALL)
    {slots₀ : Slots} {d1 : Disk}
    (hloop : writeLoop sb src.length dp.dinode.addrs off src d = .ok (slots₀, d1)) :
    ∃ dp' d', dp.writei env sb dinum src off d = .ok ((DIRENTSIZE : ℕ), dp', d') ∧
      dp'.type = dp.type ∧ dp'.size = max dp.size (off + DIRENTSIZE) ∧ NoHoles d' dp'.dinode ∧
      Alloc sb d' (blocks d' dp'.dinode.addrs ++ others) ∧
      contents d' dp'.dinode = splice (contents d dp.dinode) off src ∧
      ∀ b ∈ others, d' b = d b := by
  have hE : DIRENTSIZE = 16 := rfl
  have hS : SMALL = 138 * 512 := rfl
  have hM : MAXFILE * BSIZE = 2113674 * 512 := rfl
  have hdev : dp.type ≠ T_DEV := by
    rw [h.type]
    decide
  have hnd := (List.nodup_append'.mp h.alloc.nodup).1
  obtain ⟨new, hwr, halloc⟩ := writeLoop_spec hL h.alloc hnd (List.subset_append_left _ _) le_rfl
    hloop
  -- the loop runs on the pointers in memory
  have hagree : Agree ({ dp with mtime := env.curtime } : CachedInode).slots dp.dinode.addrs :=
    fun s hs => CachedInode.slots_eq_dinode hs
  obtain ⟨slots', hloop', hagree', -⟩ := hagree.writeLoop_eq (by omega) hloop
  obtain ⟨slots1, hself, -, hzero⟩ := (Agree.refl dp.dinode.addrs).writeLoop_eq (by omega) hloop
  rw [hloop, Except.ok.injEq, Prod.mk.injEq] at hself
  obtain ⟨rfl, -⟩ := hself
  have hzero' : ∀ s : Fin (NDIRECT + 3), NDIRECT + 1 ≤ s.val → slots₀ s = 0 := fun s hs =>
    (hzero s hs).trans (dif_neg (Nat.not_lt.mpr hs))
  have haddrs := ({ dp with mtime := env.curtime } : CachedInode).dinode_withSlots hagree' hzero'
  have hmod : (off + src.length) % 2 ^ 32 = off + src.length := Nat.mod_eq_of_lt (by omega)
  -- the result of the call
  obtain ⟨dp', d', hw, htype, haddrs', hsize, hd⟩ : ∃ dp' d',
      dp.writei env sb dinum src off d = .ok ((DIRENTSIZE : ℕ), dp', d') ∧ dp'.type = dp.type ∧
      dp'.dinode.addrs = slots₀ ∧ dp'.size = max dp.size (off + DIRENTSIZE) ∧
      ∀ b, b ≠ sb.iblock dinum → d' b = d1 b := by
    simp only [CachedInode.writei, if_neg hdev, hmod]
    rw [if_neg (by omega), if_neg (by omega), hloop', ok_bind, hsrc]
    have htype2 : (({ dp with mtime := env.curtime } : CachedInode).withSlots slots').type =
      dp.type := rfl
    have hsize2 : (({ dp with mtime := env.curtime } : CachedInode).withSlots slots').size =
      dp.size := rfl
    generalize ({ dp with mtime := env.curtime } : CachedInode).withSlots slots' = ip2
      at haddrs htype2 hsize2 ⊢
    split_ifs with hgrow
    · refine ⟨{ ip2 with size := off + DIRENTSIZE }, _, rfl, htype2, haddrs, ?_,
        fun b hb => Function.update_of_ne hb _ _⟩
      simp only
      omega
    · exact ⟨ip2, d1, rfl, htype2, haddrs, by omega, fun _ _ => rfl⟩
  have hperm : (new ++ (blocks d dp.dinode.addrs ++ others)).Perm (blocks d1 slots₀ ++ others) := by
    rw [← List.append_assoc]
    exact (hwr.perm.append_right _).symm
  have halloc1 := halloc.perm hperm
  obtain ⟨hbit, hndata⟩ := hL.iblock_apart hi
  have hblocks : ∀ b ∈ blocks d1 slots₀, d' b = d1 b := by
    intro b hb
    refine hd b ?_
    rintro rfl
    exact hndata (halloc1.data _ (List.mem_append_left _ hb))
  have hind : ∀ b ∈ indirects d1 slots₀, d' b = d1 b := fun b hb =>
    hblocks b (indirects_subset_blocks hb)
  refine ⟨dp', d', hw, htype, hsize, fun k hk => ?_, ?_, ?_, fun b hb => ?_⟩
  · rw [haddrs', blockOf_congr hind]
    have hk' : k < max dp.size (off + DIRENTSIZE) := hsize ▸ hk
    by_cases hin : off ≤ k ∧ k < off + src.length
    · exact (hwr.inside k hin.1 hin.2).1
    · have hne := h.full k (by simp only [CachedInode.dinode]; omega)
      rwa [hwr.keep _ hne]
  · rw [haddrs', blocks_congr hind]
    refine halloc1.congr fun b hb => hd b ?_
    rintro rfl
    exact hbit hb
  · have hsize' : dp'.dinode.size = max dp.dinode.size (off + src.length) := by
      rw [hsrc]
      exact hsize
    unfold contents
    rw [haddrs', hsize']
    refine map_range_splice hoff (fun k hk hk' => ?_) fun k _ hout => ?_
    · exact (fileByte_congr hblocks k).trans (hwr.inside k hk hk').2
    · exact (fileByte_congr hblocks k).trans (hwr.outside k hout)
  · have hdata := h.alloc.data b (List.mem_append_right _ hb)
    rw [hd b (by rintro rfl; exact hndata hdata)]
    refine hwr.frame b (h.alloc.not_inBitmap (List.mem_append_right _ hb))
      (fun hin => (List.nodup_append'.mp h.alloc.nodup).2.2 hin hb) fun hnew => ?_
    exact (List.nodup_append'.mp halloc.nodup).2.2 hnew (List.mem_append_right _ hb)

end Write

/-- A new entry fills the first empty slot. -/
lemma entries_put (hwhole : dp.size % DIRENTSIZE = 0) {dp' : CachedInode} {name : List UInt8}
    {inum : ℕ} (h0 : 0 < inum) (hlt : inum < 2 ^ 16)
    (h : contents d' dp'.dinode = splice (contents d dp.dinode)
      (DIRENTSIZE * free (entries d dp)) (Dirent.mk inum (strncpy DIRSIZ name)).bytes) :
    entries d' dp' = put (entries d dp) (cut name) inum := by
  have hlen : (contents d dp.dinode).length = dp.size := by simp [CachedInode.dinode]
  have hfits : (Dirent.mk inum (strncpy DIRSIZ name)).Fits := ⟨hlt, length_strncpy _ _⟩
  have hslot : (Dirent.mk inum (strncpy DIRSIZ name)).slot = some (cut name, inum) := by
    rw [Dirent.slot, if_neg h0.ne', cut_strncpy]
  have hle : free (entries d dp) ≤ (entries d dp).length := free_le
  rw [length_entries] at hle
  rw [entries, h, put]
  split_ifs with hfree
  · rw [length_entries] at hfree
    rw [dirents_splice_of_lt hfits (by rwa [hlen]), List.map_set, hslot, ← entries]
  · rw [length_entries] at hfree
    have hE : DIRENTSIZE = 16 := rfl
    have hend : DIRENTSIZE * free (entries d dp) = (contents d dp.dinode).length := by
      rw [hlen]
      rw [hE] at hwhole hle hfree ⊢
      omega
    rw [hend, splice, List.take_length, List.drop_eq_nil_of_le (Nat.le_add_right _ _),
      List.append_nil, dirents_append (by rw [hlen, hwhole]) hfits, List.map_append, ← entries]
    simp [hslot]

/-- An entry of zeroes empties the slot. -/
lemma entries_clear {dp' : CachedInode} {i : ℕ} (hi : i < dp.size / DIRENTSIZE)
    (h : contents d' dp'.dinode = splice (contents d dp.dinode) (DIRENTSIZE * i)
      (List.replicate DIRENTSIZE 0)) :
    entries d' dp' = clear (entries d dp) i := by
  have hlen : (contents d dp.dinode).length = dp.size := by simp [CachedInode.dinode]
  have hbytes : List.replicate DIRENTSIZE 0 = (Dirent.mk 0 (List.replicate DIRSIZ 0)).bytes := by
    decide
  rw [entries, h, hbytes, dirents_splice_of_lt ⟨by decide, by simp⟩ (by rwa [hlen]), List.map_set,
    ← entries]
  rfl

/-! ## The operations of the map -/

/-- There is an empty slot, or the directory can grow. -/
def HasRoom (sb : Superblock) (others : List ℕ) (dp : CachedInode) (d : Disk) : Prop :=
  SlotMap.free (entries d dp) < (entries d dp).length ∨
    dp.size + DIRENTSIZE ≤ SMALL ∧ missing d dp.dinode.addrs (blocksFor (dp.size + DIRENTSIZE)) +
      (blocks d dp.dinode.addrs ++ others).length ≤ sb.size - sb.dataStart

/-- There is an empty slot, or the directory stays small when it grows. -/
def StaysSmall (dp : CachedInode) (d : Disk) : Prop :=
  SlotMap.free (entries d dp) < (entries d dp).length ∨ dp.size + DIRENTSIZE ≤ SMALL

section Ops

variable {dinum : ℕ} {name : List UInt8} {inum : ℕ} {dp' : CachedInode}

/-- A name that is present is not added again. -/
lemma IsDir.dirlink_present (h : IsDir sb others dp d) {r : ℕ × ℕ}
    (hname : find (cut name) (entries d dp) = some r) (env : ℕ → ℕ → Env) :
    ∃ t, dirlink env sb dinum dp name inum d = .ok (-1, { dp with atime := t }, d) := by
  obtain ⟨t, ht⟩ := h.finds name (env 0)
  refine ⟨t, ?_⟩
  rw [dirlink, ht, ok_bind, hname]
  rfl

/-- The call of `writei` that adds a name. -/
lemma IsDir.dirlink_eq (h : IsDir sb others dp d)
    (hname : find (cut name) (entries d dp) = none) (env : ℕ → ℕ → Env) :
    ∃ t, dirlink env sb dinum dp name inum d = (do
      let (r, dp, d) ← ({ dp with atime := t } : CachedInode).writei (env 2 0) sb dinum
        (Dirent.mk inum (strncpy DIRSIZ name)).bytes (DIRENTSIZE * free (entries d dp)) d
      if r ≠ DIRENTSIZE then .error .dirlink else .ok (0, dp, d)) := by
  obtain ⟨t, ht⟩ := h.finds name (env 0)
  have hle : dp.size / DIRENTSIZE ≤ dp.size := Nat.div_le_self _ _
  obtain ⟨t', ht'⟩ := (h.touch t).emptyLoop_eq (env 1)
    (show dp.size / DIRENTSIZE < dp.size + 1 + 0 by omega) (Nat.zero_le _)
  refine ⟨t', ?_⟩
  rw [dirlink, ht, ok_bind, hname]
  simp only [Option.map_none, Option.isSome_none, Bool.false_eq_true, if_false]
  simp only [Nat.mul_zero, List.drop_zero, Nat.zero_add] at ht'
  rw [ht', ok_bind]
  rfl

lemma off_le (d : Disk) (dp : CachedInode) :
    DIRENTSIZE * free (entries d dp) ≤ dp.size := by
  have hle : free (entries d dp) ≤ (entries d dp).length := free_le
  have hE : DIRENTSIZE = 16 := rfl
  rw [length_entries, hE] at hle
  rw [hE]
  omega

lemma IsDir.off_small (h : IsDir sb others dp d) (hsmall : StaysSmall dp d) :
    DIRENTSIZE * free (entries d dp) + DIRENTSIZE ≤ SMALL := by
  have hle := off_le d dp
  rcases hsmall with hlt | hlt
  · rw [length_entries] at hlt
    exact (lt_div_direntsize.mp hlt).trans h.small
  · omega

variable (hL : sb.Layout) (hi : dinum ∈ inums sb)

include hL hi

/-- A name that is not present is added to the map. -/
lemma IsDir.dirlink_absent (h : IsDir sb others dp d) (h0 : 0 < inum) (hlt : inum < 2 ^ 16)
    (hname : find (cut name) (entries d dp) = none) {env : ℕ → ℕ → Env}
    (hsmall : StaysSmall dp d) {r : ℤ}
    (hcall : dirlink env sb dinum dp name inum d = .ok (r, dp', d')) :
    r = 0 ∧ IsDir sb others dp' d' ∧
      entries d' dp' = put (entries d dp) (cut name) inum ∧ ∀ b ∈ others, d' b = d b := by
  obtain ⟨t, ht⟩ := h.dirlink_eq hname env
  rw [ht] at hcall
  obtain ⟨⟨r1, dp1, d1⟩, hw, hcall⟩ := bind_eq_ok.mp hcall
  have hfits : (Dirent.mk inum (strncpy DIRSIZ name)).Fits := ⟨hlt, length_strncpy _ _⟩
  have hsmall' := h.off_small hsmall
  obtain ⟨slots₀, d2, hloop⟩ := (h.touch t).loop_of_writei hfits.length_bytes (off_le d dp) hsmall' hw
  obtain ⟨dp2, d3, hw', htype, hsize, hfull, halloc, hcont, hothers⟩ :=
    (h.touch t).writei_of_loop hL hi (env 2 0) hfits.length_bytes (off_le d dp) hsmall' hloop
  rw [hw, Except.ok.injEq, Prod.mk.injEq, Prod.mk.injEq] at hw'
  obtain ⟨rfl, rfl, rfl⟩ := hw'
  simp only [ne_eq, not_true_eq_false, if_false, Except.ok.injEq, Prod.mk.injEq] at hcall
  obtain ⟨rfl, rfl, rfl⟩ := hcall
  have hentries := entries_put h.whole h0 hlt hcont
  refine ⟨rfl, ⟨htype.trans h.type, halloc, hfull, ?_, ?_, ?_⟩, hentries, hothers⟩
  · have hE : DIRENTSIZE = 16 := rfl
    have hwhole := h.whole
    rw [hsize]
    simp only [hE] at hwhole ⊢
    rcases max_choice dp.size (16 * free (entries d dp) + 16) with hm | hm <;> rw [hm]
    · exact hwhole
    · omega
  · rw [hsize]
    exact max_le h.small hsmall'
  · rw [hentries]
    exact h.unique.put hname

/-- `dirlink` returns when there is room. -/
lemma IsDir.dirlink_ok (h : IsDir sb others dp d) (hlt : inum < 2 ^ 16)
    (hname : find (cut name) (entries d dp) = none) (env : ℕ → ℕ → Env)
    (hroom : HasRoom sb others dp d) :
    ∃ dp' d', dirlink env sb dinum dp name inum d = .ok (0, dp', d') := by
  obtain ⟨t, ht⟩ := h.dirlink_eq hname env
  have hfits : (Dirent.mk inum (strncpy DIRSIZ name)).Fits := ⟨hlt, length_strncpy _ _⟩
  have hsmall : StaysSmall dp d := hroom.imp_right And.left
  have hsmall' := h.off_small hsmall
  have hfree : missing d dp.dinode.addrs
      (blocksFor (DIRENTSIZE * free (entries d dp) + DIRENTSIZE)) +
        (blocks d dp.dinode.addrs ++ others).length ≤ sb.size - sb.dataStart := by
    by_cases hlt' : free (entries d dp) < (entries d dp).length
    · rw [length_entries] at hlt'
      exact h.room_of_lt (lt_div_direntsize.mp hlt')
    · have hend : DIRENTSIZE * free (entries d dp) = dp.size := by
        have hwhole := h.whole
        have hle : free (entries d dp) ≤ (entries d dp).length := free_le
        have hE : DIRENTSIZE = 16 := rfl
        rw [length_entries] at hle hlt'
        rw [hE] at hwhole hle hlt' ⊢
        omega
      rw [hend]
      exact (hroom.resolve_left hlt').2
  obtain ⟨slots₀, d2, hloop⟩ := (h.touch t).loop_of_room hL hfits.length_bytes hsmall' hfree
  obtain ⟨dp', d', hw, -⟩ :=
    (h.touch t).writei_of_loop hL hi (env 2 0) hfits.length_bytes (off_le d dp) hsmall' hloop
  refine ⟨dp', d', ?_⟩
  rw [ht]
  exact bind_eq_ok.mpr ⟨_, hw, if_neg (by simp)⟩

/-- The entry of a name is cleared. -/
lemma IsDir.clearEntry_ok (h : IsDir sb others dp d) {v i : ℕ}
    (hname : find (cut name) (entries d dp) = some (v, i)) (env : Env) :
    ∃ dp' d', clearEntry env sb dinum dp (DIRENTSIZE * i) d = .ok (dp', d') ∧
      IsDir sb others dp' d' ∧ entries d' dp' = clear (entries d dp) i ∧
      ∀ b ∈ others, d' b = d b := by
  have hget := (SlotMap.find_eq_some.mp hname).1
  have hlt : i < dp.size / DIRENTSIZE := by
    rw [← length_entries d]
    exact (List.getElem?_eq_some_iff.mp hget).1
  have hle := lt_div_direntsize.mp hlt
  have hsrc : (List.replicate DIRENTSIZE (0 : UInt8)).length = DIRENTSIZE := List.length_replicate
  have hsmall := hle.trans h.small
  obtain ⟨slots₀, d2, hloop⟩ := h.loop_of_room hL hsrc hsmall (h.room_of_lt hle)
  obtain ⟨dp', d', hw, htype, hsize, hfull, halloc, hcont, hothers⟩ :=
    h.writei_of_loop hL hi env hsrc ((Nat.le_add_right _ _).trans hle) hsmall hloop
  have hentries := entries_clear hlt hcont
  rw [Nat.max_eq_left hle] at hsize
  refine ⟨dp', d', bind_eq_ok.mpr ⟨_, hw, if_neg (by simp)⟩, ⟨htype.trans h.type, halloc, hfull,
    hsize ▸ h.whole, hsize ▸ h.small, ?_⟩, hentries, hothers⟩
  rw [hentries]
  exact h.unique.clear i

end Ops

/-! ## Sequences of operations -/

/-- The operations that change the entries of a directory. -/
inductive DirOp where
  /-- `dirlink`. -/
  | link (env : ℕ → ℕ → Env) (name : List UInt8) (inum : ℕ)
  /-- The lookup of a name in `sys_unlink`, and the clearing of its entry. -/
  | unlink (env : ℕ → Env) (now : Env) (name : List UInt8)

/-- The effect of an operation on the directory and the disk. -/
def DirOp.run (sb : Superblock) (dinum : ℕ) (s : CachedInode × Disk) :
    DirOp → Except FsPanic (CachedInode × Disk)
  | link env name inum => do
    let (_, dp, d) ← dirlink env sb dinum s.1 name inum s.2
    .ok (dp, d)
  | unlink env now name => do
    let (found, dp, d) ← dirlookup env sb s.1 name s.2
    match found with
    | some (_, off) => clearEntry now sb dinum dp off d
    | none => .ok (dp, d)

/-- The operations as a machine, which stops at a call of `panic`. -/
def dirStep (sb : Superblock) (dinum : ℕ) (s : CachedInode × Disk) (op : DirOp) :
    Option (CachedInode × Disk) := (op.run sb dinum s).toOption

/-- A new entry has an inode number of 16 bits, and the directory stays small. -/
def DirOp.Fits (s : CachedInode × Disk) : DirOp → Prop
  | link _ name inum => 0 < inum ∧ inum < 2 ^ 16 ∧
      (SlotMap.find (cut name) (entries s.2 s.1) = none → StaysSmall s.1 s.2)
  | unlink _ _ _ => True

section Run

variable {dinum : ℕ} (hL : sb.Layout) (hi : dinum ∈ inums sb)

include hL hi

/-- An operation keeps the directory. -/
lemma IsDir.step (h : IsDir sb others dp d) {op : DirOp} (hop : op.Fits (dp, d))
    {s : CachedInode × Disk} (hs : dirStep sb dinum (dp, d) op = some s) :
    IsDir sb others s.1 s.2 := by
  have hrun : op.run sb dinum (dp, d) = .ok s := by
    unfold dirStep at hs
    cases hr : op.run sb dinum (dp, d) with
    | error e => simp [hr, Except.toOption] at hs
    | ok s' => rw [hr] at hs; exact congrArg _ (Option.some.inj hs)
  cases op with
  | link env name inum =>
    obtain ⟨h0, hlt, hsmall⟩ := hop
    obtain ⟨⟨r, dp', d'⟩, hcall, hrun⟩ := bind_eq_ok.mp hrun
    obtain rfl := Except.ok.inj hrun
    rcases hname : find (cut name) (entries d dp) with _ | r'
    · exact (h.dirlink_absent hL hi h0 hlt hname (hsmall hname) hcall).2.1
    · obtain ⟨t, ht⟩ := h.dirlink_present hname env
      rw [ht, Except.ok.injEq, Prod.mk.injEq, Prod.mk.injEq] at hcall
      obtain ⟨-, rfl, rfl⟩ := hcall
      exact h.touch t
  | unlink env now name =>
    obtain ⟨t, ht⟩ := h.finds name env
    obtain ⟨⟨found, dp', d'⟩, hcall, hrun⟩ := bind_eq_ok.mp hrun
    rw [ht, Except.ok.injEq, Prod.mk.injEq, Prod.mk.injEq] at hcall
    obtain ⟨rfl, rfl, rfl⟩ := hcall
    rcases hname : find (cut name) (entries d dp) with _ | ⟨v, i⟩
    · rw [hname] at hrun
      obtain rfl := Except.ok.inj hrun
      exact h.touch t
    · rw [hname] at hrun
      obtain ⟨dp', d', hclear, h', -⟩ := (h.touch t).clearEntry_ok hL hi hname now
      obtain rfl := Except.ok.inj (hclear.symm.trans hrun)
      exact h'

end Run

/-- A directory without entries. -/
def emptyDir : CachedInode := ⟨T_DIR, 0, 0, 1, 0, fun _ => 0, 0, 0⟩

/-- The name `a` is linked. -/
def linkOps : List DirOp := [.link (fun _ => quietEnv) [97] 5]

lemma linkOps_fits {step : CachedInode × Disk → DirOp → Option (CachedInode × Disk)} (d : Disk) :
    Machine.Meets step DirOp.Fits (emptyDir, d) linkOps :=
  ⟨⟨by decide, by decide, fun _ => Or.inr (by decide : 0 + DIRENTSIZE ≤ SMALL)⟩, fun _ _ => trivial⟩

/-- A file system with one data block. -/
def oneBlock : Superblock := ⟨5, 2, 0, 2, 2, 3⟩

/-- The data block is in use. -/
def fullDisk : Disk := markUsed oneBlock (fun _ _ => 0) 5

end Xv7
