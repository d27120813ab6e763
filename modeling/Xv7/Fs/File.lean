import Xv7.Fs.Ownership

/-!
# Writing to an open file

`filewrite` splits a write into transactions of at most 4096 bytes.  Each transaction splices its
bytes into the contents of the file, and the splices of adjacent pieces compose.
-/

namespace Xv7

open Fallible

/-! ## The code -/

/-- The type of an open file. -/
inductive FdType where
  | none
  | pipe
  | inode
  deriving DecidableEq, Repr

/-- The fields of `struct file` that `filewrite` uses. -/
structure File where
  type : FdType
  writable : Bool
  /-- The inode of the file. -/
  inum : ℕ
  off : ℕ
  /-- `flags & F_APPEND`. -/
  append : Bool

/-- The number of bytes of one transaction. -/
abbrev MAXWRITE : ℕ := (MAXOPBLOCKS - 1 - 1 - 2) / 2 * 512

/-- The loop of `filewrite`, with the number of bytes written.  `env k` is the environment of the
transaction number `k` from here. -/
def filewriteLoop (sb : Superblock) : ℕ → (ℕ → Env) → Fs → File → List UInt8 →
    Except FsPanic (ℕ × File × Fs)
  | 0, _, s, f, _ => .ok (0, f, s)
  | fuel + 1, env, s, f, src =>
    if src = [] then .ok (0, f, s)
    else do
      let chunk := src.take MAXWRITE
      let (ip, s) ← ilock sb s f.inum
      let (r, ip, d) ← writei (env 0) sb f.inum ip chunk f.off s.disk
      let s := s.put f.inum ip d
      let f := if 0 < r then { f with off := (f.off + r.toNat) % 2 ^ 32 } else f
      if r < 0 then .ok (0, f, s)
      else if r ≠ chunk.length then .error .shortWrite
      else do
        let (i, f, s) ← filewriteLoop sb fuel (fun k => env (k + 1)) s f (src.drop chunk.length)
        .ok (chunk.length + i, f, s)

/-- `filewrite`.  The inode of an open file has been read, so that its size is known. -/
def filewrite (pipewrite : List UInt8 → ℤ) (sb : Superblock) (env : ℕ → Env) (s : Fs) (f : File)
    (src : List UInt8) : Except FsPanic (ℤ × File × Fs) :=
  let f := if f.append then { f with off := (s.inode sb f.inum).size } else f
  if f.writable = false then .ok (-1, f, s)
  else
    match f.type with
    | .pipe => .ok (pipewrite src, f, s)
    | .inode => do
      let (i, f, s) ← filewriteLoop sb src.length env s f src
      .ok (if i = src.length then src.length else -1, f, s)
    | .none => .error .filewrite

/-! ## Splices -/

/-- The list with `data` written over it from position `off` on. -/
def splice {α : Type*} (old : List α) (off : ℕ) (data : List α) : List α :=
  old.take off ++ data ++ old.drop (off + data.length)

section Splice

variable {α : Type*} {old a b : List α} {off : ℕ}

lemma splice_nil (old : List α) (off : ℕ) : splice old off [] = old := by
  simp [splice]

/-- Adjacent splices compose. -/
lemma splice_splice (hoff : off ≤ old.length) :
    splice (splice old off a) (off + a.length) b = splice old off (a ++ b) := by
  have hlen : (old.take off ++ a).length = off + a.length := by
    rw [List.length_append, List.length_take, Nat.min_eq_left hoff]
  have htake : (splice old off a).take (off + a.length) = old.take off ++ a :=
    List.take_left' hlen
  have hdrop : (splice old off a).drop (off + a.length + b.length) =
      old.drop (off + a.length + b.length) := by
    rw [splice, ← hlen, List.drop_append, Nat.add_sub_cancel_left, List.drop_drop, hlen]
    simp [hlen]
  rw [splice, htake, hdrop, splice, List.length_append, ← Nat.add_assoc, List.append_assoc,
    List.append_assoc, List.append_assoc, List.append_assoc]

lemma length_splice (hoff : off ≤ old.length) :
    (splice old off a).length = max old.length (off + a.length) := by
  simp only [splice, List.length_append, List.length_take, List.length_drop]
  omega

end Splice

/-- The bytes of a file after a write. -/
lemma map_range_splice {F F' : ℕ → UInt8} {size off : ℕ} {data : List UInt8} (hoff : off ≤ size)
    (hin : ∀ k, off ≤ k → k < off + data.length → F' k = data.getD (k - off) 0)
    (hout : ∀ k, k < size → k < off ∨ off + data.length ≤ k → F' k = F k) :
    (List.range (max size (off + data.length))).map F' =
      splice ((List.range size).map F) off data := by
  refine List.ext_getElem ?_ fun k hk hk' => ?_
  · rw [length_splice (by simpa using hoff)]
    simp
  · simp only [List.getElem_map, List.getElem_range, splice]
    rw [List.length_map, List.length_range] at hk
    have htake : (((List.range size).map F).take off).length = off := by
      simp [hoff]
    by_cases h1 : k < off
    · rw [List.getElem_append_left (by rw [List.length_append]; omega),
        List.getElem_append_left (by omega), hout k (by omega) (Or.inl h1)]
      simp
    · by_cases h2 : k < off + data.length
      · rw [List.getElem_append_left (by rw [List.length_append]; omega),
          List.getElem_append_right (by omega), hin k (by omega) h2]
        simp only [htake]
        rw [List.getD_eq_getElem _ _ (by omega)]
      · rw [List.getElem_append_right (by rw [List.length_append]; omega),
          hout k (by omega) (Or.inr (by omega))]
        simp only [List.getElem_drop, List.getElem_map, List.getElem_range, List.length_append,
          htake]
        congr 1
        omega

/-! ## One transaction -/

section Write

variable {own : ℕ → Prop} [DecidablePred own] {sb : Superblock} {s : Fs} {inum n : ℕ}

/-- A file without holes, with free blocks enough for its first `n` blocks. -/
structure Roomy (own : ℕ → Prop) [DecidablePred own] (sb : Superblock) (s : Fs)
    (inum n : ℕ) : Prop where
  owns : Owns own sb s
  file : (s.inode sb inum).type = T_FILE
  full : NoHoles s.disk (s.inode sb inum)
  room : missing s.disk (s.inode sb inum).addrs n + (s.used own sb).length ≤
    sb.size - sb.dataStart

/-- What `writei` returns when the loop has succeeded. -/
lemma writei_eq {env : Env} {ip : Inode} {src : List UInt8} {off : ℕ} {d d1 : Disk} {slots : Slots}
    (hfile : ip.type = T_FILE) (hoff : off ≤ ip.size)
    (hmax : off + src.length ≤ MAXFILE * BSIZE)
    (hl : writeLoop sb src.length ip.addrs off src d = .ok (slots, d1)) :
    ∃ ip' d', writei env sb inum ip src off d = .ok (src.length, ip', d') ∧
      ip'.type = ip.type ∧ ip'.addrs = slots ∧ ip'.size = max ip.size (off + src.length) ∧
      ∀ b, b ≠ sb.iblock inum → d' b = d1 b := by
  have hdev : ip.type ≠ T_DEV := by
    rw [hfile]
    decide
  have hM : MAXFILE * BSIZE < 2 ^ 32 := by decide
  have hmod : (off + src.length) % 2 ^ 32 = off + src.length :=
    Nat.mod_eq_of_lt (hmax.trans_lt hM)
  simp only [writei, if_neg hdev, hmod, hl, ok_bind]
  rw [if_neg (by omega), if_neg (by omega)]
  split_ifs with hgrow
  · exact ⟨_, _, rfl, rfl, rfl, (Nat.max_eq_right hgrow.2.le).symm,
      fun b hb => Function.update_of_ne hb _ _⟩
  · refine ⟨_, _, rfl, rfl, rfl, (Nat.max_eq_left ?_).symm, fun _ _ => rfl⟩
    show off + src.length ≤ ip.size
    omega

/-- A transaction that writes all of its bytes, and the transactions after it. -/
lemma filewriteLoop_succ {fuel i : ℕ} {env : ℕ → Env} {f f' : File} {s' : Fs} {src : List UInt8}
    {ip : Inode} {d : Disk} (hsrc : src ≠ []) (htype : (s.inode sb f.inum).type ≠ 0)
    (hoff : f.off + (src.take MAXWRITE).length < 2 ^ 32)
    (hw : writei (env 0) sb f.inum (s.inode sb f.inum) (src.take MAXWRITE) f.off s.disk =
      .ok (((src.take MAXWRITE).length : ℕ), ip, d))
    (hloop : filewriteLoop sb fuel (fun k => env (k + 1)) (s.put f.inum ip d)
      { f with off := f.off + (src.take MAXWRITE).length }
      (src.drop (src.take MAXWRITE).length) = .ok (i, f', s')) :
    filewriteLoop sb (fuel + 1) env s f src = .ok ((src.take MAXWRITE).length + i, f', s') := by
  have hpos : 0 < (src.take MAXWRITE).length := by
    rw [List.length_take]
    exact Nat.lt_min.mpr ⟨by decide, List.length_pos_iff.mpr hsrc⟩
  simp only [filewriteLoop, if_neg hsrc, ilock_eq htype, ok_bind, Fs.put_disk, hw, Fs.put_put,
    Int.toNat_natCast, Nat.mod_eq_of_lt hoff, Nat.cast_pos, if_pos hpos]
  rw [if_neg (by omega), if_neg (by simp), hloop, ok_bind]

variable (hL : sb.Layout) (h0 : ¬ own 0) (hT : own T_FILE) (hi : inum ∈ inums sb)

include hL h0 hT hi

/-- One transaction splices its bytes into the file, and leaves the other files alone. -/
lemma Roomy.writei_splice (h : Roomy own sb s inum n) (env : Env) (src : List UInt8) {off : ℕ}
    (hoff : off ≤ (s.inode sb inum).size) (hlen : off + src.length ≤ n * BSIZE)
    (hn : n ≤ MAXFILE) :
    ∃ ip d, writei env sb inum (s.inode sb inum) src off s.disk = .ok (src.length, ip, d) ∧
      Roomy own sb (s.put inum ip d) inum n ∧
      ip.size = max (s.inode sb inum).size (off + src.length) ∧
      contents d ip = splice (contents s.disk (s.inode sb inum)) off src ∧
      SameOthers own sb s (s.put inum ip d) inum := by
  have hfile := h.file
  have hown : own (s.inode sb inum).type := hfile.symm ▸ hT
  have hold := h.owns.alloc_owned hi hown
  have hnd := (List.nodup_append'.mp hold.nodup).1
  have hlength : (blocks s.disk (s.inode sb inum).addrs ++ s.others own sb inum).length =
      (s.used own sb).length := by
    rw [(used_perm hi).length_eq, Fs.owned, if_pos hown]
  obtain ⟨slots, d1, hl⟩ := writeLoop_ok hL hold hnd (List.subset_append_left _ _)
    src.length hlen hn (hlength ▸ h.room)
  obtain ⟨new, hwr, halloc⟩ := writeLoop_spec hL hold hnd (List.subset_append_left _ _) le_rfl hl
  obtain ⟨ip, d, hw, htype, rfl, hsize, hd⟩ := writei_eq hfile hoff
    (hlen.trans (Nat.mul_le_mul_right _ hn)) hl
  obtain ⟨hput, hsame⟩ := owns_writei hL h0 h.owns hi hown hw
  -- the inode block is not a block of the file
  have hblocks : ∀ b ∈ blocks d1 ip.addrs, d b = d1 b := by
    intro b hb
    refine hd b ?_
    rintro rfl
    have hin := hwr.perm.mem_iff.mp hb
    refine (hL.iblock_apart hi).2 (halloc.data _ ?_)
    rw [← List.append_assoc]
    exact List.mem_append_left _ hin
  have hind : ∀ b ∈ indirects d1 ip.addrs, d b = d1 b := fun b hb =>
    hblocks b (indirects_subset_blocks hb)
  refine ⟨ip, d, hw, ⟨hput, ?_, ?_, ?_⟩, hsize, ?_, hsame⟩
  · rw [Fs.inode_put_self, htype, hfile]
  · intro k hk
    rw [Fs.inode_put_self] at hk ⊢
    rw [Fs.put_disk, blockOf_congr hind]
    by_cases hin : off ≤ k ∧ k < off + src.length
    · exact (hwr.inside k hin.1 hin.2).1
    · have hk' : k < (s.inode sb inum).size := by omega
      have hne := h.full k hk'
      rwa [hwr.keep _ hne]
  · have hneed := hwr.need n hlen
    have hlen' : ((s.put inum ip d).used own sb).length =
        new.length + (s.used own sb).length := by
      rw [(used_perm hi).length_eq, hsame.others_eq, Fs.owned, Fs.inode_put_self, htype,
        if_pos hown, List.length_append, Fs.put_disk, blocks_congr hind, hwr.perm.length_eq,
        ← hlength, List.length_append, List.length_append, Nat.add_assoc]
    rw [hlen', Fs.inode_put_self, Fs.put_disk, missing_congr hind]
    have := h.room
    omega
  · unfold contents
    rw [hsize]
    refine map_range_splice hoff (fun k hk hk' => ?_) fun k hk hout => ?_
    · exact (fileByte_congr hblocks k).trans (hwr.inside k hk hk').2
    · exact (fileByte_congr hblocks k).trans (hwr.outside k hout)

/-! ## The whole write -/

/-- The transactions of a write together splice the data into the file. -/
lemma Roomy.filewriteLoop_eq (h : Roomy own sb s inum n) (fuel : ℕ) (env : ℕ → Env) (f : File)
    (src : List UInt8) (hf : f.inum = inum) (hfuel : src.length ≤ fuel)
    (hoff : f.off ≤ (s.inode sb inum).size) (hlen : f.off + src.length ≤ n * BSIZE)
    (hn : n ≤ MAXFILE) :
    ∃ s', filewriteLoop sb fuel env s f src =
        .ok (src.length, { f with off := f.off + src.length }, s') ∧
      Owns own sb s' ∧
      (s'.inode sb inum).size = max (s.inode sb inum).size (f.off + src.length) ∧
      contents s'.disk (s'.inode sb inum) =
        splice (contents s.disk (s.inode sb inum)) f.off src ∧
      SameOthers own sb s s' inum := by
  induction fuel generalizing s f src env with
  | zero =>
    obtain rfl : src = [] := List.length_eq_zero_iff.mp (Nat.le_zero.mp hfuel)
    refine ⟨s, rfl, h.owns, ?_, (splice_nil _ _).symm, ⟨fun _ _ _ => rfl, fun _ _ => rfl⟩⟩
    exact (Nat.max_eq_left hoff).symm
  | succ fuel ih =>
    by_cases hsrc : src = []
    · subst hsrc
      refine ⟨s, rfl, h.owns, ?_, (splice_nil _ _).symm, ⟨fun _ _ _ => rfl, fun _ _ => rfl⟩⟩
      exact (Nat.max_eq_left hoff).symm
    have hpos : 0 < src.length := List.length_pos_iff.mpr hsrc
    have hM : MAXFILE * BSIZE < 2 ^ 32 := by decide
    have hle := Nat.mul_le_mul_right BSIZE hn
    have htype : (s.inode sb inum).type ≠ 0 := by
      rw [h.file]
      decide
    -- the first transaction
    have hchunk : 0 < (src.take MAXWRITE).length ∧ (src.take MAXWRITE).length ≤ src.length := by
      rw [List.length_take]
      exact ⟨Nat.lt_min.mpr ⟨by decide, hpos⟩, Nat.min_le_right _ _⟩
    obtain ⟨ip, d, hw, hroomy, hsize, hcont, hsame⟩ := h.writei_splice hL h0 hT hi (env 0)
      (src.take MAXWRITE) hoff (by omega) hn
    -- and the others
    have hrest := List.length_drop (i := (src.take MAXWRITE).length) (l := src)
    obtain ⟨s', hloop, howns', hsize', hcont', hsame'⟩ := ih hroomy (fun k => env (k + 1))
      { f with off := f.off + (src.take MAXWRITE).length }
      (src.drop (src.take MAXWRITE).length) hf (by omega)
      (by rw [Fs.inode_put_self, hsize]; exact Nat.le_max_right _ _) (by simp only; omega)
    simp only [Fs.inode_put_self, hrest] at hsize' hcont' hloop
    have happ : src.take MAXWRITE ++ src.drop (src.take MAXWRITE).length = src := by
      rw [List.length_take]
      by_cases hle : MAXWRITE ≤ src.length
      · rw [Nat.min_eq_left hle, List.take_append_drop]
      · rw [Nat.min_eq_right (by omega), List.drop_length, List.append_nil,
          List.take_of_length_le (by omega)]
    have hsum : (src.take MAXWRITE).length + (src.length - (src.take MAXWRITE).length) =
        src.length := by omega
    refine ⟨s', ?_, howns', ?_, ?_, hsame.trans hsame'⟩
    · rw [Nat.add_assoc, hsum] at hloop
      rw [← hf] at hw hloop htype
      rw [filewriteLoop_succ hsrc htype (by omega) hw hloop, hsum]
    · rw [hsize', hsize]
      omega
    · rw [hcont', Fs.put_disk, hcont, splice_splice (by simpa using hoff), happ]

end Write

section Filewrite

variable {own : ℕ → Prop} [DecidablePred own] {sb : Superblock} {s : Fs}

/-- `filewrite` to a file with enough room behind it. -/
lemma Roomy.filewrite_eq (hL : sb.Layout) (h0 : ¬ own 0) (hT : own T_FILE) {f : File}
    {data : List UInt8} {pos : ℕ} (env : ℕ → Env) (pipewrite : List UInt8 → ℤ)
    (hroomy : Roomy own sb s f.inum (blocksFor (pos + data.length))) (hi : f.inum ∈ inums sb)
    (hfd : f.type = .inode) (hwritable : f.writable = true)
    (hpos : pos = if f.append then (s.inode sb f.inum).size else f.off)
    (hoff : pos ≤ (s.inode sb f.inum).size) (hmax : pos + data.length ≤ MAXFILE * BSIZE) :
    ∃ s', filewrite pipewrite sb env s f data =
        .ok (data.length, { f with off := pos + data.length }, s') ∧
      contents s'.disk (s'.inode sb f.inum) =
        (contents s.disk (s.inode sb f.inum)).take pos ++ data ++
          (contents s.disk (s.inode sb f.inum)).drop (pos + data.length) ∧
      (s'.inode sb f.inum).size = max (s.inode sb f.inum).size (pos + data.length) ∧
      ∀ j ∈ inums sb, j ≠ f.inum → own (s.inode sb j).type →
        contents s'.disk (s'.inode sb j) = contents s.disk (s.inode sb j) := by
  obtain ⟨s', hloop, -, hsize, hcont, hsame⟩ := hroomy.filewriteLoop_eq hL h0 hT hi
    data.length env { f with off := pos } data rfl le_rfl hoff
    (blocksFor_le.mp le_rfl) (blocksFor_le.mpr hmax)
  refine ⟨s', ?_, hcont, hsize, fun j hj hne hown => hsame.contents_eq hj hne hown⟩
  have hf : (if f.append then { f with off := (s.inode sb f.inum).size } else f) =
      { f with off := pos } := by
    rw [hpos]
    split_ifs <;> rfl
  unfold filewrite
  rw [hf]
  simp only [hwritable, hfd, Bool.true_eq_false, if_false] at hloop ⊢
  rw [hloop, ok_bind, if_pos rfl]

/-- `filewrite` to a file without holes splices the data into the contents, at the offset of the
file or at the end of a file that is open for appending, and changes no other file; and `readi`
returns the bytes of the contents. -/
theorem filewrite_splice (hL : sb.Layout) (h0 : ¬ own 0) (hT : own T_FILE) (f : File)
    (data : List UInt8) {pos : ℕ} (env : ℕ → Env) (pipewrite : List UInt8 → ℤ)
    (hs : Ownership own sb s) (hc : Coherent sb s) (hi : f.inum ∈ inums sb)
    (hfile : (s.inode sb f.inum).type = T_FILE) (hfull : NoHoles s.disk (s.inode sb f.inum))
    (hfd : f.type = .inode) (hwritable : f.writable = true)
    (hpos : pos = if f.append then (s.inode sb f.inum).size else f.off)
    (hoff : pos ≤ (s.inode sb f.inum).size) (hmax : pos + data.length ≤ MAXFILE * BSIZE)
    (hfree : missing s.disk (s.inode sb f.inum).addrs (blocksFor (pos + data.length)) +
      (s.used own sb).length ≤ sb.size - sb.dataStart) :
    (∃ s', filewrite pipewrite sb env s f data =
        .ok (data.length, { f with off := pos + data.length }, s') ∧
      contents s'.disk (s'.inode sb f.inum) =
        (contents s.disk (s.inode sb f.inum)).take pos ++ data ++
          (contents s.disk (s.inode sb f.inum)).drop (pos + data.length) ∧
      (s'.inode sb f.inum).size = max (s.inode sb f.inum).size (pos + data.length) ∧
      ∀ j ∈ inums sb, j ≠ f.inum → own (s.inode sb j).type →
        contents s'.disk (s'.inode sb j) = contents s.disk (s.inode sb j)) ∧
    ∀ (e : Env) (off n : ℕ), off ≤ (s.inode sb f.inum).size → off + n < 2 ^ 32 →
      readi e sb (s.inode sb f.inum) off n s.disk =
        .ok ((min n ((s.inode sb f.inum).size - off) : ℕ),
          ((contents s.disk (s.inode sb f.inum)).drop off).take n,
          { s.inode sb f.inum with atime := e.curtime }, s.disk) := by
  refine ⟨?_, fun e off n hoff hwrap => readi_eq hfile hfull hoff hwrap⟩
  exact Roomy.filewrite_eq hL h0 hT env pipewrite
    ⟨⟨(ownership_iff_alloc hL).mp hs, hc⟩, hfile, hfull, hfree⟩ hi hfd hwritable hpos hoff hmax

end Filewrite

/-! ## A file that is open for appending -/

/-- A file of one byte is created. -/
def oneByteOps : List BlockOp :=
  [.ialloc T_FILE, .writei ⟨0, fun _ => none, fun _ => none⟩ 1 0 [5]]

/-- An open file at its beginning. -/
def startFile (append : Bool) : File := ⟨.inode, true, 1, 0, append⟩

/-- The environment of a write at time zero, without devices. -/
def quietEnv : ℕ → Env := fun _ => ⟨0, fun _ => none, fun _ => none⟩

/-- The file of one byte is a file without holes, and the disk is not full. -/
structure OneByte (s : Fs) : Prop where
  owns : Owns HasMap mkfsSuperblock s
  file : (s.inode mkfsSuperblock 1).type = T_FILE
  full : NoHoles s.disk (s.inode mkfsSuperblock 1)
  size : (s.inode mkfsSuperblock 1).size = 1
  free : missing s.disk (s.inode mkfsSuperblock 1).addrs 1 +
    (s.used HasMap mkfsSuperblock).length ≤ mkfsSuperblock.size - mkfsSuperblock.dataStart

set_option maxRecDepth 20000 in
lemma oneByte_of_exec {s : Fs} (hs : Machine.exec (blockStep mkfsSuperblock)
    (freshFs mkfsSuperblock) oneByteOps = some s) : OneByte s := by
  have h0 : ¬ HasMap 0 := by decide
  obtain ⟨s', hs', hfile, hfull, hsize, hfree⟩ : ∃ s ∈ Machine.exec (blockStep mkfsSuperblock)
      (freshFs mkfsSuperblock) oneByteOps, (s.inode mkfsSuperblock 1).type = T_FILE ∧
      NoHoles s.disk (s.inode mkfsSuperblock 1) ∧ (s.inode mkfsSuperblock 1).size = 1 ∧
      missing s.disk (s.inode mkfsSuperblock 1).addrs 1 +
        (s.used HasMap mkfsSuperblock).length ≤ mkfsSuperblock.size - mkfsSuperblock.dataStart := by
    decide +kernel
  obtain rfl : s' = s := Option.some.inj (hs'.symm.trans hs)
  exact ⟨owns_exec layout_mkfsSuperblock h0 (owns_freshFs layout_mkfsSuperblock h0) hs
    (by decide +kernel), hfile, hfull, hsize, hfree⟩

set_option maxRecDepth 20000 in
/-- A write to a file that is open for appending goes to the end of the file, and not to its
offset. -/
theorem filewrite_append : ∃ s, OneByte s ∧ (startFile true).off ≤ 1 ∧
    ∃ f' s', filewrite (fun _ => -1) mkfsSuperblock quietEnv s (startFile true) [7] =
        .ok (1, f', s') ∧
      f'.off ≠ (startFile true).off + 1 ∧
      contents s'.disk (s'.inode mkfsSuperblock 1) ≠
        (contents s.disk (s.inode mkfsSuperblock 1)).take (startFile true).off ++ [7] ++
          (contents s.disk (s.inode mkfsSuperblock 1)).drop ((startFile true).off + 1) := by
  obtain ⟨s, hs, ⟨r, f', s'⟩, hr, h1, hoff, hcont⟩ : ∃ s ∈ Machine.exec
      (blockStep mkfsSuperblock) (freshFs mkfsSuperblock) oneByteOps,
      ∃ r ∈ (filewrite (fun _ => -1) mkfsSuperblock quietEnv s (startFile true) [7]).toOption,
      r.1 = 1 ∧ r.2.1.off ≠ (startFile true).off + 1 ∧
      contents r.2.2.disk (r.2.2.inode mkfsSuperblock 1) ≠
        (contents s.disk (s.inode mkfsSuperblock 1)).take (startFile true).off ++ [7] ++
          (contents s.disk (s.inode mkfsSuperblock 1)).drop ((startFile true).off + 1) := by
    decide +kernel
  refine ⟨s, oneByte_of_exec hs, by decide, f', s', ?_, hoff, hcont⟩
  cases hw : filewrite (fun _ => -1) mkfsSuperblock quietEnv s (startFile true) [7] with
  | error e => simp [hw, Except.toOption] at hr
  | ok q =>
    simp only [hw, Except.toOption, Option.mem_some_iff] at hr
    simp only at h1
    rw [hr, h1]

set_option maxRecDepth 20000 in
theorem filewrite_splice_oneByte : ∃ s, OneByte s ∧
    ∃ s', filewrite (fun _ => -1) mkfsSuperblock quietEnv s (startFile false) [7] =
        .ok (1, { startFile false with off := 1 }, s') ∧
      contents s'.disk (s'.inode mkfsSuperblock 1) = [7] := by
  obtain ⟨s, hs⟩ := Option.isSome_iff_exists.mp (show (Machine.exec (blockStep mkfsSuperblock)
    (freshFs mkfsSuperblock) oneByteOps).isSome = true by decide +kernel)
  have h := oneByte_of_exec hs
  have hpos : 0 = if (startFile false).append then
      (s.inode mkfsSuperblock (startFile false).inum).size else (startFile false).off := rfl
  obtain ⟨⟨s', hw, hcont, -, -⟩, -⟩ := filewrite_splice layout_mkfsSuperblock
    (show ¬ HasMap 0 by decide) (by decide) (startFile false) [7] quietEnv (fun _ => -1)
    ((ownership_iff_alloc layout_mkfsSuperblock).mpr h.owns.alloc) h.owns.coherent (by decide)
    h.file h.full rfl rfl hpos (Nat.zero_le _) (by decide) h.free
  refine ⟨s, h, s', hw, hcont.trans ?_⟩
  rw [List.drop_eq_nil_of_le (by rw [length_contents]; exact h.size.le)]
  rfl

end Xv7
