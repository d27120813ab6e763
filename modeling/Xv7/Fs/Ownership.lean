import Xv7.Fs.Content
import Xv7.Lib.Machine

/-!
# Who owns a block

The inodes whose type is in a class `own` own the blocks that their pointers reach.  The operations
that allocate and free blocks keep three facts: a block is reached through one slot only, no reached
block is metadata, and the free map marks the metadata and the reached blocks.
-/

namespace Xv7

open Fallible

/-! ## Ownership -/

section Defs

variable (own : ℕ → Prop) [DecidablePred own] (sb : Superblock)

/-- The blocks that an inode owns: those that its slots reach, if it is of an owning type. -/
def Fs.owned (s : Fs) (inum : ℕ) : List ℕ :=
  if own (s.inode sb inum).type then blocks s.disk (s.inode sb inum).addrs else []

/-- The blocks in use, listed once for each slot that points to them. -/
def Fs.used (s : Fs) : List ℕ := (inums sb).flatMap (s.owned own sb)

/-- The blocks in use by other inodes. -/
def Fs.others (s : Fs) (inum : ℕ) : List ℕ := ((inums sb).erase inum).flatMap (s.owned own sb)

/-- The ownership of the blocks. -/
structure Ownership (s : Fs) : Prop where
  /-- A block is reached through one slot only. -/
  once : (s.used own sb).Nodup
  /-- The blocks that are reached are blocks of the file system, and not metadata. -/
  data : ∀ b ∈ s.used own sb, ¬ sb.IsMeta b ∧ b < sb.size
  /-- The free map marks the metadata and the blocks that are reached. -/
  bits : ∀ b, b < sb.size → (bit sb s.disk b = true ↔ sb.IsMeta b ∨ b ∈ s.used own sb)

/-- The cache is write-through for the type: a cached inode is allocated on the disk too. -/
def Coherent (s : Fs) : Prop :=
  ∀ inum ∈ inums sb, ∀ ip, s.icache inum = some ip →
    ip.type ≠ 0 ∧ (dinode sb s.disk inum).type = ip.type

end Defs

/-! ## The operations -/

/-- The operations that allocate or free blocks and inodes. -/
inductive BlockOp where
  /-- `bmap`, as `readi` calls it. -/
  | bmap (inum bn : ℕ)
  /-- `writei`. -/
  | writei (env : Env) (inum off : ℕ) (src : List UInt8)
  /-- `itrunc`. -/
  | itrunc (inum : ℕ)
  /-- `ialloc`. -/
  | ialloc (type : ℕ)

/-- An operation on a locked inode. -/
def BlockOp.run (sb : Superblock) (s : Fs) : BlockOp → Except FsPanic Fs
  | .bmap inum bn => do
    let (ip, s) ← ilock sb s inum
    let (_, slots, d) ← Xv7.bmap sb ip.addrs bn s.disk
    .ok (s.put inum { ip with addrs := slots } d)
  | .writei env inum off src => do
    let (ip, s) ← ilock sb s inum
    let (_, ip, d) ← Xv7.writei env sb inum ip src off s.disk
    .ok (s.put inum ip d)
  | .itrunc inum => do
    let (ip, s) ← ilock sb s inum
    let (ip, d) ← Xv7.itrunc sb inum ip s.disk
    .ok (s.put inum ip d)
  | .ialloc type => do
    let (_, d) ← Xv7.ialloc sb s.disk type
    .ok { s with disk := d }

/-- The operation is on an inode of an owning type. -/
def BlockOp.Targets (own : ℕ → Prop) (sb : Superblock) (s : Fs) : BlockOp → Prop
  | .bmap inum _ => inum ∈ inums sb ∧ own (s.inode sb inum).type
  | .writei _ inum _ _ => inum ∈ inums sb ∧ own (s.inode sb inum).type
  | .itrunc inum => inum ∈ inums sb ∧ own (s.inode sb inum).type
  | .ialloc _ => True

instance (own : ℕ → Prop) [DecidablePred own] (sb : Superblock) (s : Fs) :
    DecidablePred (BlockOp.Targets own sb s)
  | .bmap inum _ =>
    inferInstanceAs (Decidable (inum ∈ inums sb ∧ own (s.inode sb inum).type))
  | .writei _ inum _ _ =>
    inferInstanceAs (Decidable (inum ∈ inums sb ∧ own (s.inode sb inum).type))
  | .itrunc inum => inferInstanceAs (Decidable (inum ∈ inums sb ∧ own (s.inode sb inum).type))
  | .ialloc _ => .isTrue trivial

/-- The operations as a machine, which stops at a call of `panic`. -/
def blockStep (sb : Superblock) (s : Fs) (op : BlockOp) : Option Fs := (op.run sb s).toOption

variable {own : ℕ → Prop} [DecidablePred own] {sb : Superblock} {s s' : Fs} {inum : ℕ}

/-! ## Changing one inode -/

lemma mem_inums : inum ∈ inums sb ↔ 1 ≤ inum ∧ inum < sb.ninodes := by
  rw [inums, List.mem_range'_1]
  omega

lemma nodup_inums : (inums sb).Nodup := List.nodup_range'

lemma mem_others {b : ℕ} :
    b ∈ s.others own sb inum ↔ ∃ j ∈ inums sb, j ≠ inum ∧ b ∈ s.owned own sb j := by
  simp only [Fs.others, List.mem_flatMap, nodup_inums.mem_erase_iff]
  exact ⟨fun ⟨j, ⟨hne, hj⟩, hb⟩ => ⟨j, hj, hne, hb⟩, fun ⟨j, hj, hne, hb⟩ => ⟨j, ⟨hne, hj⟩, hb⟩⟩

/-- The blocks in use are those of one inode and those of the others. -/
lemma used_perm (hi : inum ∈ inums sb) :
    (s.used own sb).Perm (s.owned own sb inum ++ s.others own sb inum) :=
  (List.perm_cons_erase hi).flatMap_right _

/-- The three facts are those of the block allocator. -/
lemma ownership_iff_alloc (hL : sb.Layout) :
    Ownership own sb s ↔ Alloc sb s.disk (s.used own sb) := by
  constructor
  · intro h
    refine ⟨h.once, fun b hb => ?_, fun b hb => ?_⟩
    · obtain ⟨hmeta, hlt⟩ := h.data b hb
      rw [hL.isMeta_iff] at hmeta
      exact ⟨Nat.not_lt.mp hmeta, hlt⟩
    · rw [h.bits b hb, hL.isMeta_iff]
  · intro h
    refine ⟨h.nodup, fun b hb => ?_, fun b hb => ?_⟩
    · rw [hL.isMeta_iff]
      exact ⟨Nat.not_lt.mpr (h.data b hb).1, (h.data b hb).2⟩
    · rw [h.bits b hb, hL.isMeta_iff]

/-- The type of an inode is the same on the disk and in the cache. -/
lemma Coherent.dinode_type (hc : Coherent sb s) (hi : inum ∈ inums sb) :
    (dinode sb s.disk inum).type = (s.inode sb inum).type := by
  cases hip : s.icache inum with
  | none => simp [Fs.inode, hip]
  | some ip => simp [Fs.inode, hip, (hc inum hi ip hip).2]

/-- An inode block is not a block that an allocator deals with. -/
lemma Superblock.Layout.iblock_apart (hL : sb.Layout) (hi : inum ∈ inums sb) :
    ¬ sb.InBitmap (sb.iblock inum) ∧ ¬ sb.IsData (sb.iblock inum) := by
  have hlt := hL.iblock_lt (mem_inums.mp hi).2
  have hle : sb.bmapstart ≤ sb.dataStart := (Nat.le_add_right _ _).trans (Nat.le_succ _)
  exact ⟨fun h => absurd h.1 (by omega), fun h => absurd h.1 (by omega)⟩

/-- What the block operations keep. -/
structure Owns (own : ℕ → Prop) [DecidablePred own] (sb : Superblock) (s : Fs) : Prop where
  alloc : Alloc sb s.disk (s.used own sb)
  coherent : Coherent sb s

/-- The inodes other than one, and the blocks that they own, are unchanged. -/
structure SameOthers (own : ℕ → Prop) [DecidablePred own] (sb : Superblock) (s s' : Fs)
    (inum : ℕ) : Prop where
  inode : ∀ j ∈ inums sb, j ≠ inum → s'.inode sb j = s.inode sb j
  disk : ∀ b ∈ s.others own sb inum, s'.disk b = s.disk b

lemma mem_others_of_blocks {j b : ℕ} (hj : j ∈ inums sb) (hne : j ≠ inum)
    (hown : own (s.inode sb j).type) (hb : b ∈ blocks s.disk (s.inode sb j).addrs) :
    b ∈ s.others own sb inum :=
  mem_others.mpr ⟨j, hj, hne, by rwa [Fs.owned, if_pos hown]⟩

lemma SameOthers.owned_eq (h : SameOthers own sb s s' inum) {j : ℕ} (hj : j ∈ inums sb)
    (hne : j ≠ inum) : s'.owned own sb j = s.owned own sb j := by
  unfold Fs.owned
  rw [h.inode j hj hne]
  split_ifs with hown
  · exact blocks_congr fun b hb =>
      h.disk b (mem_others_of_blocks hj hne hown (indirects_subset_blocks hb))
  · rfl

lemma SameOthers.others_eq (h : SameOthers own sb s s' inum) :
    s'.others own sb inum = s.others own sb inum := by
  refine List.flatMap_congr fun j hj => ?_
  rw [nodup_inums.mem_erase_iff] at hj
  exact h.owned_eq hj.2 hj.1

lemma SameOthers.trans {s1 : Fs} (h : SameOthers own sb s s1 inum)
    (h' : SameOthers own sb s1 s' inum) : SameOthers own sb s s' inum :=
  ⟨fun j hj hne => (h'.inode j hj hne).trans (h.inode j hj hne),
    fun b hb => (h'.disk b (h.others_eq.symm ▸ hb)).trans (h.disk b hb)⟩

/-- The contents of the other inodes are unchanged. -/
lemma SameOthers.contents_eq (h : SameOthers own sb s s' inum) {j : ℕ} (hj : j ∈ inums sb)
    (hne : j ≠ inum) (hown : own (s.inode sb j).type) :
    contents s'.disk (s'.inode sb j) = contents s.disk (s.inode sb j) := by
  rw [h.inode j hj hne]
  exact List.map_congr_left fun k _ =>
    fileByte_congr (fun b hb => h.disk b (mem_others_of_blocks hj hne hown hb)) k

section Put

variable (hL : sb.Layout) (h : Owns own sb s) (hi : inum ∈ inums sb)

include h hi

/-- The blocks of the inode and those of the others. -/
lemma Owns.alloc_owned (hown : own (s.inode sb inum).type) :
    Alloc sb s.disk (blocks s.disk (s.inode sb inum).addrs ++ s.others own sb inum) := by
  have := h.alloc.perm (used_perm hi)
  rwa [Fs.owned, if_pos hown] at this

include hL

/-- An operation that changes an inode, its blocks and the free map leaves the others alone. -/
lemma Owns.put (hown : own (s.inode sb inum).type) (h0 : ¬ own 0) (ip : Inode) (d : Disk)
    (htype : ip.type = (s.inode sb inum).type)
    (hframe : ∀ b, ¬ sb.InBitmap b → b ∉ blocks s.disk (s.inode sb inum).addrs →
      b ∉ blocks d ip.addrs → d b = s.disk b)
    (halloc : Alloc sb d (blocks d ip.addrs ++ s.others own sb inum)) :
    Owns own sb (s.put inum ip d) ∧ SameOthers own sb s (s.put inum ip d) inum := by
  have hold := h.alloc_owned hi hown
  -- the inode blocks and the blocks of the other inodes are not touched
  have hdata : ∀ b, ¬ sb.IsData b → b ∉ blocks s.disk (s.inode sb inum).addrs ∧
      b ∉ blocks d ip.addrs := fun b hb =>
    ⟨fun hin => hb (hold.data b (List.mem_append_left _ hin)),
      fun hin => hb (halloc.data b (List.mem_append_left _ hin))⟩
  have hdinode : ∀ j ∈ inums sb, dinode sb d j = dinode sb s.disk j := by
    intro j hj
    obtain ⟨hbit, hndata⟩ := hL.iblock_apart hj
    rw [dinode, dinode, hframe _ hbit (hdata _ hndata).1 (hdata _ hndata).2]
  have hothers : ∀ b ∈ s.others own sb inum, d b = s.disk b := fun b hb =>
    hframe b (hold.not_inBitmap (List.mem_append_right _ hb))
      (fun hin => (List.nodup_append'.mp hold.nodup).2.2 hin hb)
      fun hin => (List.nodup_append'.mp halloc.nodup).2.2 hin hb
  have hsame : SameOthers own sb s (s.put inum ip d) inum :=
    ⟨fun j hj hne => Fs.inode_put_of_ne hne s ip (hdinode j hj), hothers⟩
  refine ⟨⟨?_, fun j hj ip' hip' => ?_⟩, hsame⟩
  · refine Alloc.perm ?_ (used_perm hi).symm
    rw [hsame.others_eq, Fs.owned, Fs.inode_put_self, htype, if_pos hown]
    exact halloc
  · simp only [Fs.put_disk, hdinode j hj]
    by_cases hne : j = inum
    · subst hne
      rw [Fs.put_icache_self, Option.some.injEq] at hip'
      subst hip'
      rw [htype, h.coherent.dinode_type hj]
      exact ⟨fun hz => h0 (hz ▸ hown), rfl⟩
    · rw [Fs.put_icache_of_ne hne] at hip'
      exact h.coherent j hj ip' hip'

/-- An operation that adds blocks to an inode. -/
lemma Owns.grow (hown : own (s.inode sb inum).type) (h0 : ¬ own 0) (ip : Inode) (d : Disk)
    (new : List ℕ) (htype : ip.type = (s.inode sb inum).type)
    (hperm : (blocks d ip.addrs).Perm (new ++ blocks s.disk (s.inode sb inum).addrs))
    (hframe : ∀ b, ¬ sb.InBitmap b → b ∉ blocks s.disk (s.inode sb inum).addrs → b ∉ new →
      d b = s.disk b)
    (halloc : Alloc sb d
      (new ++ (blocks s.disk (s.inode sb inum).addrs ++ s.others own sb inum))) :
    Owns own sb (s.put inum ip d) ∧ SameOthers own sb s (s.put inum ip d) inum := by
  refine h.put hL hi hown h0 ip d htype (fun b hb hin hin' => hframe b hb hin fun hnew => ?_) ?_
  · exact hin' (hperm.mem_iff.mpr (List.mem_append_left _ hnew))
  · rw [← List.append_assoc] at halloc
    exact halloc.perm (hperm.append_right _).symm

end Put

/-- A change to the inode block of one inode that leaves its blocks and the other inodes alone. -/
lemma Owns.of_iblock (hL : sb.Layout) (h : Owns own sb s) (hi : inum ∈ inums sb)
    (hd : ∀ b, b ≠ sb.iblock inum → s'.disk b = s.disk b)
    (hinode : ∀ j ∈ inums sb, j ≠ inum → s'.inode sb j = s.inode sb j)
    (hmine : s'.owned own sb inum = s.owned own sb inum) (hc : Coherent sb s') :
    Owns own sb s' ∧ SameOthers own sb s s' inum := by
  obtain ⟨hbit, hndata⟩ := hL.iblock_apart hi
  have hsame : SameOthers own sb s s' inum := by
    refine ⟨hinode, fun b hb => hd b ?_⟩
    rintro rfl
    exact hndata (h.alloc.data _ ((used_perm hi).mem_iff.mpr (List.mem_append_right _ hb)))
  have howned : ∀ j ∈ inums sb, s'.owned own sb j = s.owned own sb j := by
    intro j hj
    by_cases hne : j = inum
    · rw [hne, hmine]
    · exact hsame.owned_eq hj hne
  refine ⟨⟨?_, hc⟩, hsame⟩
  rw [Fs.used, List.flatMap_congr howned]
  refine h.alloc.congr fun b hb => hd b ?_
  rintro rfl
  exact hbit hb

/-- `iupdate` of a cached inode changes no ownership. -/
lemma owns_iupdate (hL : sb.Layout) (hi : inum ∈ inums sb) {ip : Inode} {d : Disk}
    (hp : Owns own sb (s.put inum ip d)) :
    Owns own sb (s.put inum ip (iupdate sb inum ip d)) ∧
      SameOthers own sb (s.put inum ip d) (s.put inum ip (iupdate sb inum ip d)) inum := by
  obtain ⟨-, hndata⟩ := hL.iblock_apart hi
  have hcached := Fs.put_icache_self s inum ip d
  obtain ⟨hne0, htype⟩ := hp.coherent inum hi ip hcached
  have hd : ∀ b, b ≠ sb.iblock inum → iupdate sb inum ip d b = d b := fun b hb =>
    Function.update_of_ne hb _ _
  have hdj : ∀ j, j ≠ inum → dinode sb (iupdate sb inum ip d) j = dinode sb d j := fun j hj =>
    dinode_setDinode_of_ne le_rfl hj
  refine hp.of_iblock hL hi hd (fun j _ hne => ?_) ?_ fun j hj ip' hip' => ?_
  · simp only [Fs.inode, Fs.put_icache_of_ne hne, Fs.put_disk, hdj j hne]
  · simp only [Fs.owned, Fs.inode_put_self, Fs.put_disk]
    split_ifs with hown
    · refine blocks_congr fun b hb => hd b ?_
      rintro rfl
      refine hndata (hp.alloc.data _ (List.mem_flatMap.mpr ⟨inum, hi, ?_⟩))
      rw [Fs.owned, Fs.inode_put_self, if_pos hown]
      exact indirects_subset_blocks hb
    · rfl
  · by_cases hne : j = inum
    · subst hne
      obtain rfl : ip = ip' := Option.some.inj (hcached.symm.trans hip')
      exact ⟨hne0, dinode_setDinode_type le_rfl (htype ▸ (dinode_fits _ _).type)⟩
    · obtain ⟨h1, h2⟩ := hp.coherent j hj ip' hip'
      exact ⟨h1, (congrArg Inode.type (hdj j hne)).trans h2⟩

/-! ## The operations keep the ownership -/

section Ops

variable (hL : sb.Layout) (h0 : ¬ own 0) (h : Owns own sb s) (hi : inum ∈ inums sb)
  (hown : own (s.inode sb inum).type)

include hL h0 h hi hown

lemma owns_bmap {bn addr : ℕ} {slots : Slots} {d : Disk}
    (hb : bmap sb (s.inode sb inum).addrs bn s.disk = .ok (addr, slots, d)) :
    Owns own sb (s.put inum { s.inode sb inum with addrs := slots } d) ∧
      SameOthers own sb s (s.put inum { s.inode sb inum with addrs := slots } d) inum := by
  have hold := h.alloc_owned hi hown
  obtain ⟨new, hext, halloc, -, -⟩ := bmap_spec hL hold (List.nodup_append'.mp hold.nodup).1
    (List.subset_append_left _ _) hb
  exact h.grow hL hi hown h0 _ d new rfl hext.perm
    (fun b hb hin => hext.frame b hb fun hin' => hin (indirects_subset_blocks hin')) halloc

lemma owns_writei {env : Env} {off : ℕ} {src : List UInt8} {r : ℤ} {ip : Inode} {d : Disk}
    (hw : writei env sb inum (s.inode sb inum) src off s.disk = .ok (r, ip, d)) :
    Owns own sb (s.put inum ip d) ∧ SameOthers own sb s (s.put inum ip d) inum := by
  have hold := h.alloc_owned hi hown
  rcases writei_cases hw with ⟨rfl, rfl⟩ | ⟨slots, d1, hl, hcases⟩
  · exact h.grow hL hi hown h0 _ _ [] rfl (List.Perm.refl _) (fun _ _ _ _ => rfl) hold
  · obtain ⟨new, hwr, halloc⟩ := writeLoop_spec hL hold (List.nodup_append'.mp hold.nodup).1
      (List.subset_append_left _ _) le_rfl hl
    have hgrow : ∀ ip : Inode, ip.type = (s.inode sb inum).type → ip.addrs = slots →
        Owns own sb (s.put inum ip d1) ∧ SameOthers own sb s (s.put inum ip d1) inum := by
      rintro ip htype rfl
      exact h.grow hL hi hown h0 ip d1 new htype hwr.perm hwr.frame halloc
    rcases hcases with ⟨rfl, rfl⟩ | ⟨rfl, rfl⟩
    · exact hgrow _ rfl rfl
    · obtain ⟨hp, hsame⟩ := hgrow { s.inode sb inum with
        mtime := env.curtime, addrs := slots, size := off + src.length } rfl rfl
      obtain ⟨hp', hsame'⟩ := owns_iupdate hL hi hp
      exact ⟨hp', hsame.trans hsame'⟩

/-- `itrunc` succeeds and frees exactly the blocks that the inode reached. -/
lemma owns_itrunc : ∃ ip d, itrunc sb inum (s.inode sb inum) s.disk = .ok (ip, d) ∧
    (Owns own sb (s.put inum ip d) ∧ SameOthers own sb s (s.put inum ip d) inum) ∧
    ip.addrs = (fun _ => 0) ∧
    ∀ b, b < sb.size → (bit sb d b = true ↔
      bit sb s.disk b = true ∧ b ∉ blocks s.disk (s.inode sb inum).addrs) := by
  have hold := h.alloc_owned hi hown
  obtain ⟨d1, hf, halloc, hframe⟩ := freeSlots_spec hold
  obtain ⟨hbit, -⟩ := hL.iblock_apart hi
  have hput := h.put hL hi hown h0 { s.inode sb inum with addrs := fun _ => 0, size := 0 } d1 rfl
    (fun b hb _ _ => hframe b hb) (by rw [blocks_zero]; exact halloc)
  obtain ⟨hp, hsame⟩ := owns_iupdate hL hi hput.1
  refine ⟨_, _, by rw [itrunc, hf]; rfl, ⟨hp, hput.2.trans hsame⟩, rfl, fun b hb => ?_⟩
  have hbits : bit sb (iupdate sb inum { s.inode sb inum with addrs := fun _ => 0, size := 0 } d1) b
      = bit sb d1 b := by
    refine bit_congr (fun c hc => Function.update_of_ne ?_ _ _) hb
    rintro rfl
    exact hbit hc
  rw [hbits, halloc.bits b hb, hold.bits b hb, List.mem_append]
  -- a block of the inode is neither metadata nor a block of another inode
  have hmine : b ∈ blocks s.disk (s.inode sb inum).addrs →
      ¬ (b < sb.dataStart ∨ b ∈ s.others own sb inum) := by
    rintro hin (hlt | hin')
    · exact absurd (hold.data b (List.mem_append_left _ hin)).1 (Nat.not_le.mpr hlt)
    · exact (List.nodup_append'.mp hold.nodup).2.2 hin hin'
  tauto

end Ops

/-- `ialloc` gives out an inode that owns nothing. -/
lemma owns_ialloc (hL : sb.Layout) (h0 : ¬ own 0) (h : Owns own sb s) {type : ℕ} {d : Disk}
    (ha : ialloc sb s.disk type = .ok (inum, d)) :
    Owns own sb { s with disk := d } ∧ SameOthers own sb s { s with disk := d } inum := by
  unfold ialloc at ha
  split at ha
  case h_2 => simp at ha
  case h_1 k hfind =>
    simp only [Except.ok.injEq, Prod.mk.injEq] at ha
    obtain ⟨rfl, rfl⟩ := ha
    have hk := List.mem_of_find?_eq_some hfind
    have hfree : (dinode sb s.disk k).type = 0 := by simpa using List.find?_some hfind
    -- a free inode is not in the cache
    have hcache : s.icache k = none := by
      cases hip : s.icache k with
      | none => rfl
      | some ip =>
        obtain ⟨hne, heq⟩ := h.coherent k hk ip hip
        exact absurd (heq.symm.trans hfree) hne
    generalize hnew : (⟨type % 2 ^ 16, 0, 0, 0, 0, fun _ => 0, 0, 0⟩ : Inode) = blank
    have hdj : ∀ j, j ≠ k →
        dinode sb (setDinode sb (NDIRECT + 3) s.disk k blank) j = dinode sb s.disk j :=
      fun j hj => dinode_setDinode_of_ne le_rfl hj
    refine h.of_iblock hL hk (fun b hb => Function.update_of_ne hb _ _) (fun j _ hne => ?_) ?_
      fun j hj ip hip => ?_
    · simp only [Fs.inode, hdj j hne]
    · have hzero : (dinode sb (setDinode sb (NDIRECT + 3) s.disk k blank) k).addrs =
          fun _ => 0 := by
        funext i
        rw [dinode_setDinode_addrs le_rfl (by simp [← hnew]) i.isLt, ← hnew]
      simp only [Fs.owned, Fs.inode, hcache, Option.getD_none, hzero, blocks_zero, ite_self,
        hfree, if_neg h0]
    · have hjk : j ≠ k := by
        rintro rfl
        simp [hcache] at hip
      obtain ⟨h1, h2⟩ := h.coherent j hj ip hip
      exact ⟨h1, (congrArg Inode.type (hdj j hjk)).trans h2⟩

/-! ## Runs of the operations -/

/-- An operation keeps the ownership, and changes the blocks of one inode at most. -/
lemma BlockOp.run_spec (hL : sb.Layout) (h0 : ¬ own 0) (h : Owns own sb s) {op : BlockOp}
    (ht : op.Targets own sb s) (hr : op.run sb s = .ok s') :
    Owns own sb s' ∧ ∃ inum, SameOthers own sb s s' inum := by
  have htype : ∀ inum, own (s.inode sb inum).type → (s.inode sb inum).type ≠ 0 :=
    fun inum hown hz => h0 (hz ▸ hown)
  cases op with
  | bmap inum bn =>
    obtain ⟨hi, hown⟩ := ht
    simp only [BlockOp.run, ilock_eq (htype inum hown), Fallible.bind_eq_ok, Except.ok.injEq] at hr
    obtain ⟨_, rfl, ⟨addr, slots, d⟩, hb, rfl⟩ := hr
    rw [Fs.put_put]
    exact (owns_bmap hL h0 h hi hown hb).imp_right fun hsame => ⟨inum, hsame⟩
  | writei env inum off src =>
    obtain ⟨hi, hown⟩ := ht
    simp only [BlockOp.run, ilock_eq (htype inum hown), Fallible.bind_eq_ok, Except.ok.injEq] at hr
    obtain ⟨_, rfl, ⟨r, ip, d⟩, hw, rfl⟩ := hr
    rw [Fs.put_put]
    exact (owns_writei hL h0 h hi hown hw).imp_right fun hsame => ⟨inum, hsame⟩
  | itrunc inum =>
    obtain ⟨hi, hown⟩ := ht
    simp only [BlockOp.run, ilock_eq (htype inum hown), Fallible.bind_eq_ok, Except.ok.injEq] at hr
    obtain ⟨_, rfl, ⟨ip, d⟩, hit, rfl⟩ := hr
    obtain ⟨ip', d', hit', hspec, -⟩ := owns_itrunc hL h0 h hi hown
    obtain ⟨rfl, rfl⟩ := Prod.mk.inj (Except.ok.inj (hit.symm.trans hit'))
    rw [Fs.put_put]
    exact hspec.imp_right fun hsame => ⟨inum, hsame⟩
  | ialloc type =>
    simp only [BlockOp.run, Fallible.bind_eq_ok, Except.ok.injEq] at hr
    obtain ⟨⟨inum, d⟩, ha, rfl⟩ := hr
    exact (owns_ialloc hL h0 h ha).imp_right fun hsame => ⟨inum, hsame⟩

/-- An operation panics only because there are no blocks or inodes left, or because a block is out
of range. -/
lemma BlockOp.run_failsWithin (hL : sb.Layout) (h0 : ¬ own 0) (h : Owns own sb s) {op : BlockOp}
    (ht : op.Targets own sb s) :
    FailsWithin (fun e => e.IsUnmapped ∨ e = .noInodes) (op.run sb s) := by
  have htype : ∀ inum, own (s.inode sb inum).type → (s.inode sb inum).type ≠ 0 :=
    fun inum hown hz => h0 (hz ▸ hown)
  cases op with
  | bmap inum bn =>
    simp only [BlockOp.run, ilock_eq (htype inum ht.2), ok_bind]
    exact FailsWithin.bind (fun e he => Or.inl (bmap_failsWithin e he)) fun _ _ => FailsWithin.ok _
  | writei env inum off src =>
    simp only [BlockOp.run, ilock_eq (htype inum ht.2), ok_bind]
    exact FailsWithin.bind (fun e he => Or.inl (writei_failsWithin e he))
      fun _ _ => FailsWithin.ok _
  | itrunc inum =>
    obtain ⟨ip, d, hit, -⟩ := owns_itrunc hL h0 h ht.1 ht.2
    simp only [BlockOp.run, ilock_eq (htype inum ht.2), ok_bind]
    refine FailsWithin.bind (fun e he => ?_) fun _ _ => FailsWithin.ok _
    simp only [Fs.put_disk, hit] at he
    exact nomatch he
  | ialloc type =>
    refine FailsWithin.bind ?_ fun _ _ => FailsWithin.ok _
    unfold Xv7.ialloc
    split
    · exact FailsWithin.ok _
    · exact FailsWithin.error (Or.inr rfl)

/-- A block that an inode gains by an operation was not in use. -/
lemma Owns.gain (h : Owns own sb s) (h' : Owns own sb s') (hsame : SameOthers own sb s s' inum)
    {j b : ℕ} (hj : j ∈ inums sb) (hb : b ∈ s'.owned own sb j) (hnot : b ∉ s.owned own sb j) :
    bit sb s.disk b = false ∧ b ∉ s.used own sb := by
  have hjn : j = inum := by
    by_contra hne
    exact hnot (hsame.owned_eq hj hne ▸ hb)
  subst hjn
  have hin : b ∈ s'.used own sb := List.mem_flatMap.mpr ⟨j, hj, hb⟩
  have hunused : b ∉ s.used own sb := by
    intro hu
    -- another inode would own the block before and after
    have hrest := (List.mem_append.mp ((used_perm hj).mem_iff.mp hu)).resolve_left hnot
    rw [← hsame.others_eq] at hrest
    have hnd := h'.alloc.nodup
    rw [(used_perm hj).nodup_iff] at hnd
    exact (List.nodup_append'.mp hnd).2.2 hb hrest
  have hdata := h'.alloc.data b hin
  refine ⟨Bool.eq_false_iff.mpr fun hset => ?_, hunused⟩
  rcases (h.alloc.bits b hdata.2).mp hset with hlt | hu
  · exact absurd hdata.1 (Nat.not_le.mpr hlt)
  · exact hunused hu

/-- What the operations keep holds in every state of a run. -/
lemma owns_exec (hL : sb.Layout) (h0 : ¬ own 0) {ops : List BlockOp} (h : Owns own sb s)
    (hrun : Machine.exec (blockStep sb) s ops = some s')
    (hops : Machine.Meets (blockStep sb) (BlockOp.Targets own sb) s ops) : Owns own sb s' := by
  refine Machine.exec_induction_of_meets (motive := fun _ s => Owns own sb s) h
    (fun tr s op s' _ h ht hstep => ?_) hrun hops
  refine (BlockOp.run_spec hL h0 h ht ?_).1
  unfold blockStep at hstep
  cases hr : op.run sb s with
  | error e => simp [hr, Except.toOption] at hstep
  | ok t => simpa [hr, Except.toOption] using hstep

/-- Every run of block operations keeps the ownership; in every state that is reached, `balloc`
hands out a block that is not in use, no operation frees a free block, what an inode gains was
free, and `itrunc` frees exactly the blocks that the inode reached. -/
theorem ownership_exec (hL : sb.Layout) (h0 : ¬ own 0) {ops : List BlockOp}
    (hs : Ownership own sb s) (hc : Coherent sb s)
    (hrun : Machine.exec (blockStep sb) s ops = some s')
    (hops : Machine.Meets (blockStep sb) (BlockOp.Targets own sb) s ops) :
    Ownership own sb s' ∧ Coherent sb s' ∧
    (∀ c d, balloc sb s'.disk = .ok (c, d) →
      bit sb s'.disk c = false ∧ ¬ sb.IsMeta c ∧ c ∉ s'.used own sb) ∧
    (∀ op : BlockOp, op.Targets own sb s' → op.run sb s' ≠ .error .freeingFreeBlock) ∧
    (∀ (op : BlockOp) s'', op.Targets own sb s' → op.run sb s' = .ok s'' → ∀ j ∈ inums sb,
      ∀ b ∈ s''.owned own sb j, b ∉ s'.owned own sb j →
        bit sb s'.disk b = false ∧ b ∉ s'.used own sb) ∧
    (∀ inum ∈ inums sb, own (s'.inode sb inum).type →
      ∃ s'', (BlockOp.itrunc inum).run sb s' = .ok s'' ∧ s''.owned own sb inum = [] ∧
        ∀ b, b < sb.size → (bit sb s''.disk b = true ↔
          bit sb s'.disk b = true ∧ b ∉ blocks s'.disk (s'.inode sb inum).addrs)) := by
  have h : Owns own sb s' :=
    owns_exec hL h0 ⟨(ownership_iff_alloc hL).mp hs, hc⟩ hrun hops
  refine ⟨(ownership_iff_alloc hL).mpr h.alloc, h.coherent, fun c d hb => ?_, fun op ht he => ?_,
    fun op s'' ht hr j hj b hb hnot => ?_, fun inum hi hown => ?_⟩
  · obtain ⟨hfresh, hdata, -, -, -⟩ := balloc_spec h.alloc hb
    have hmeta : ¬ c < sb.dataStart := Nat.not_lt.mpr hdata.1
    refine ⟨Bool.eq_false_iff.mpr fun hset => ?_, by rwa [hL.isMeta_iff], hfresh⟩
    exact ((h.alloc.bits c hdata.2).mp hset).elim hmeta hfresh
  · have := BlockOp.run_failsWithin hL h0 h ht _ he
    simp [FsPanic.IsUnmapped] at this
  · obtain ⟨h'', inum, hsame⟩ := BlockOp.run_spec hL h0 h ht hr
    exact h.gain h'' hsame hj hb hnot
  · obtain ⟨ip, d, hit, -, haddrs, hbits⟩ := owns_itrunc hL h0 h hi hown
    have htype : (s'.inode sb inum).type ≠ 0 := fun hz => h0 (hz ▸ hown)
    refine ⟨s'.put inum ip d, ?_, ?_, hbits⟩
    · simp only [BlockOp.run, ilock_eq htype, ok_bind, Fs.put_disk, hit, Fs.put_put]
    · rw [Fs.owned, Fs.inode_put_self, haddrs, blocks_zero, ite_self]

/-- The types of the inodes whose contents are blocks. -/
def HasMap (type : ℕ) : Prop := type = T_FILE ∨ type = T_DIR

instance : DecidablePred HasMap := fun type =>
  inferInstanceAs (Decidable (type = T_FILE ∨ type = T_DIR))

/-- A file system without inodes. -/
def freshFs (sb : Superblock) : Fs := ⟨markUsed sb (fun _ _ => 0) sb.dataStart, fun _ => none⟩

lemma owns_freshFs (hL : sb.Layout) (h0 : ¬ own 0) : Owns own sb (freshFs sb) := by
  refine ⟨?_, fun inum _ ip hip => nomatch hip⟩
  have hnone : (freshFs sb).used own sb = [] := by
    refine List.flatMap_eq_nil_iff.mpr fun j hj => if_neg ?_
    have hblk : (freshFs sb).disk (sb.iblock j) = fun _ => 0 :=
      markUsed_of_lt (hL.iblock_lt (mem_inums.mp hj).2) _
    have htype : ((freshFs sb).inode sb j).type = 0 := by
      show (getDinode ((freshFs sb).disk (sb.iblock j)) (j % IPB)).type = 0
      rw [hblk]
      exact Bytes.getNum_zero _ _
    rwa [htype]
  rw [hnone]
  exact alloc_markUsed

/-- A file is created, written and truncated. -/
def truncateOps : List BlockOp :=
  [.ialloc T_FILE, .writei ⟨0, fun _ => none, fun _ => none⟩ 1 0 [1, 2, 3], .itrunc 1]

set_option maxRecDepth 20000 in
theorem ownership_exec_truncateOps :
    ∃ s', Machine.exec (blockStep mkfsSuperblock) (freshFs mkfsSuperblock) truncateOps = some s' ∧
      Ownership HasMap mkfsSuperblock s' := by
  have h0 : ¬ HasMap 0 := by decide
  have h := owns_freshFs layout_mkfsSuperblock h0
  obtain ⟨s', hs'⟩ := Option.isSome_iff_exists.mp (show (Machine.exec (blockStep mkfsSuperblock)
    (freshFs mkfsSuperblock) truncateOps).isSome = true by decide +kernel)
  exact ⟨s', hs', (ownership_exec layout_mkfsSuperblock h0
    ((ownership_iff_alloc layout_mkfsSuperblock).mpr h.alloc) h.coherent hs' (by decide +kernel)).1⟩

end Xv7
