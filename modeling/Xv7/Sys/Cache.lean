import Xv7.Sys.Model

/-!
# References and locks during a call

While a call runs, every slot of the inode cache has the references of others and those that the
call has taken.  `Busy` says so, together with the locks that the call holds.  For each function on
the inode cache there is one lemma that says what it does to the references, the locks and the
files on the disk.
-/

namespace Xv7.Sys

open Function (update update_apply update_idem update_of_ne update_self)
open Icache (Slot)
open Prog

/-! ## Inodes that are freed -/

namespace Files

/-- `iput` frees an inode. -/
def free (fs : Files) (n : ℕ) : Files :=
  (fs.setDir n fun _ => []).setNode n fun nd => { nd with text := [], type := 0 }

/-- An inode without links is freed, one of those in `U`. -/
def Frees (U : ℕ → Prop) (fs fs' : Files) : Prop :=
  ∃ n, U n ∧ (fs.node n).nlink = 0 ∧ (fs.node n).type ≠ 0 ∧ fs' = fs.free n

/-- Inodes without links are freed, all of them in `U`. -/
abbrev Swept (U : ℕ → Prop) : Files → Files → Prop := Relation.ReflTransGen (Frees U)

variable {fs fs' : Files} {U V : ℕ → Prop} {m n : ℕ}

lemma node_setNode (f : Node → Node) :
    (fs.setNode n f).node m = if m = n then f (fs.node n) else fs.node m := update_apply ..

lemma dir_setDir (f : Dir → Dir) :
    (fs.setDir n f).dir m = if m = n then f (fs.dir n) else fs.dir m := update_apply ..

@[simp] lemma node_setDir (f : Dir → Dir) : (fs.setDir n f).node = fs.node := rfl

@[simp] lemma dir_setNode (f : Node → Node) : (fs.setNode n f).dir = fs.dir := rfl

lemma node_free : (fs.free n).node m =
    if m = n then { fs.node n with text := [], type := 0 } else fs.node m :=
  update_apply ..

lemma dir_free : (fs.free n).dir m = if m = n then [] else fs.dir m := update_apply ..

lemma Swept.mono (h : Swept U fs fs') (hUV : ∀ n, U n → V n) : Swept V fs fs' := by
  refine Relation.ReflTransGen.mono ?_ _ _ h
  rintro _ _ ⟨n, hn, hfree⟩
  exact ⟨n, hUV n hn, hfree⟩

/-- An inode that is in use after a sweep was not touched by it. -/
lemma Swept.same (h : Swept U fs fs') (hn : (fs'.node n).type ≠ 0) :
    fs'.node n = fs.node n ∧ fs'.dir n = fs.dir n := by
  induction h with
  | refl => exact ⟨rfl, rfl⟩
  | tail _ hfree ih =>
    obtain ⟨m, -, -, -, rfl⟩ := hfree
    have hne : n ≠ m := by
      rintro rfl
      simp [node_free] at hn
    rw [node_free, if_neg hne] at hn ⊢
    rw [dir_free, if_neg hne]
    exact ih hn

/-- A sweep leaves alone what is not in `U`. -/
lemma Swept.keeps (h : Swept U fs fs') (hn : ¬ U n) :
    fs'.node n = fs.node n ∧ fs'.dir n = fs.dir n := by
  induction h with
  | refl => exact ⟨rfl, rfl⟩
  | tail _ hfree ih =>
    obtain ⟨m, hm, -, -, rfl⟩ := hfree
    have hne : n ≠ m := fun h => hn (h ▸ hm)
    rw [node_free, if_neg hne, dir_free, if_neg hne]
    exact ih

lemma free_setNode (f : Node → Node) (hne : m ≠ n) :
    (fs.setNode n f).free m = (fs.free m).setNode n f := by
  have hnode : (fs.setNode n f).node m = fs.node m := by rw [node_setNode, if_neg hne]
  have hfree : (fs.free m).node n = fs.node n := by rw [node_free, if_neg hne.symm]
  ext k : 2
  · rw [node_free, hnode, node_setNode, node_setNode, hfree, node_free]
    split_ifs with h1 h2 h2
    · exact absurd (h1.symm.trans h2) hne
    · rfl
    · rfl
    · rfl
  · rw [dir_setNode, dir_free, dir_free, dir_setNode]
  · rfl

/-- A sweep goes along with a change of an inode that it leaves alone. -/
lemma Swept.setNode (h : Swept U fs fs') (f : Node → Node) (hn : ¬ U n) :
    Swept U (fs.setNode n f) (fs'.setNode n f) := by
  induction h with
  | refl => exact .refl
  | tail _ hfree ih =>
    obtain ⟨m, hm, hlink, htype, rfl⟩ := hfree
    have hne : m ≠ n := fun h => hn (h ▸ hm)
    refine ih.tail ⟨m, hm, ?_, ?_, (free_setNode f hne).symm⟩
    · rwa [node_setNode, if_neg hne]
    · rwa [node_setNode, if_neg hne]

/-- A sweep after a change of an inode that it leaves alone is one before it. -/
lemma Swept.of_setNode {f : Node → Node} (h : Swept U (fs.setNode n f) fs') (hn : ¬ U n) :
    ∃ fs1, fs' = fs1.setNode n f ∧ Swept U fs fs1 := by
  induction h with
  | refl => exact ⟨fs, rfl, .refl⟩
  | tail _ hfree ih =>
    obtain ⟨m, hm, hlink, htype, rfl⟩ := hfree
    obtain ⟨fs1, rfl, hsw⟩ := ih
    have hne : m ≠ n := fun h => hn (h ▸ hm)
    rw [node_setNode, if_neg hne] at hlink htype
    exact ⟨fs1.free m, free_setNode f hne, hsw.tail ⟨m, hm, hlink, htype, rfl⟩⟩

/-- A sweep has left alone what is in use after it. -/
lemma Swept.avoid (h : Swept U fs fs') (hn : (fs'.node n).type ≠ 0) :
    Swept (fun k => U k ∧ k ≠ n) fs fs' := by
  induction h with
  | refl => exact .refl
  | tail _ hfree ih =>
    obtain ⟨m, hm, hlink, htype, rfl⟩ := hfree
    have hne : m ≠ n := by
      rintro rfl
      simp [node_free] at hn
    rw [node_free, if_neg hne.symm] at hn
    exact (ih hn).tail ⟨m, ⟨hm, hne⟩, hlink, htype, rfl⟩

end Files

/-! ## The cache between two steps -/

/-- The slots in use hold different inodes, and those that were read agree with the disk. -/
structure Coherent (s : State) : Prop where
  distinct : ∀ i j, 0 < (s.inode i).ref → 0 < (s.inode j).ref →
    (s.inode i).inum = (s.inode j).inum → i = j
  copy : ∀ i, 0 < (s.inode i).ref → (s.inode i).valid = true →
    (s.inode i).node = s.fs.node (s.inode i).inum
  live : ∀ i, 0 < (s.inode i).ref → (s.inode i).valid = true → (s.inode i).node.type ≠ 0

/-- A reference that a call has taken: a slot and the number of the inode in it. -/
abbrev Ref := Slot × ℕ

/-- How many of the references are to a slot. -/
def held (R : Multiset Ref) (i : Slot) : ℕ := (R.map Prod.fst).count i

@[simp] lemma held_zero (i : Slot) : held 0 i = 0 := by simp [held]

lemma held_cons (x : Ref) (R : Multiset Ref) (i : Slot) :
    held (x ::ₘ R) i = held R i + if i = x.1 then 1 else 0 := by
  rw [held, Multiset.map_cons, Multiset.count_cons]
  rfl

lemma held_pos {R : Multiset Ref} {i : Slot} {n : ℕ} (h : (i, n) ∈ R) : 0 < held R i :=
  Multiset.count_pos.mpr (Multiset.mem_map_of_mem Prod.fst h)

lemma exists_of_held_pos {R : Multiset Ref} {i : Slot} (h : 0 < held R i) : ∃ n, (i, n) ∈ R := by
  obtain ⟨⟨j, n⟩, hmem, rfl⟩ := Multiset.mem_map.mp (Multiset.count_pos.mp h)
  exact ⟨n, hmem⟩

/-- The tables that the functions on inodes do not change. -/
structure Same (s s' : State) : Prop where
  ninodes : s'.ninodes = s.ninodes
  ops : s'.ops = s.ops
  ftable : s'.ftable = s.ftable
  cwd : s'.cwd = s.cwd
  ofile : s'.ofile = s.ofile

/-- The state of a call that was started in `s₀`, while it has the references `R` and the locks `L`
and while the others have `B i` references to the slot `i`. -/
structure Busy (s₀ : State) (B : Slot → ℕ) (R : Multiset Ref) (L : Finset Slot) (s : State) :
    Prop where
  cache : Coherent s
  ref : ∀ i, (s.inode i).ref = B i + held R i
  inum : ∀ x ∈ R, (s.inode x.1).inum = x.2
  keep : ∀ i, 0 < B i → (s.inode i).inum = (s₀.inode i).inum ∧
    ((s₀.inode i).valid = true → (s.inode i).valid = true)
  locked : s.locked = L
  valid : ∀ i ∈ L, (s.inode i).valid = true
  owned : ∀ i ∈ L, 0 < held R i
  same : Same s₀ s

/-- The slots that are in use were in use before, with the same inode. -/
def Stays (s s' : State) : Prop := ∀ j, 0 < (s'.inode j).ref → 0 < (s.inode j).ref ∧
  (s'.inode j).inum = (s.inode j).inum ∧ (s'.inode j).valid = (s.inode j).valid

/-- Neither the others nor the call have a reference to the inode. -/
def Spare (s₀ : State) (B : Slot → ℕ) (R : Multiset Ref) (n : ℕ) : Prop :=
  (∀ i, 0 < B i → (s₀.inode i).inum ≠ n) ∧ ∀ x ∈ R, x.2 ≠ n

/-- The call does not wait for itself. -/
def Proceeds (e : Stop) : Prop := e ≠ .deadlock

/-- The references to a slot. -/
def State.refs (s : State) (i : Slot) : ℕ := (s.inode i).ref

/-- No slot holds the inode. -/
abbrev State.Unheld (s : State) : ℕ → Prop := Spare s s.refs 0

/-- An open file of the inode in a slot. -/
abbrev File.Holds (file : File) (i : Slot) : Prop :=
  0 < file.ref ∧ file.type = .inode ∧ file.ip = i

/-- How many processes have the slot as their current directory, and how many open files are its. -/
def State.holders (s : State) (i : Slot) : ℕ :=
  (∑ p, if s.cwd p = i then 1 else 0) + ∑ f, if (s.ftable f).Holds i then 1 else 0

/-- How many descriptors refer to an open file. -/
def State.fds (s : State) (f : Fin NFILE) : ℕ := ∑ p, ∑ fd, if s.ofile p fd = some f then 1 else 0

/-- The state between two calls: no lock is held, every process has its reference to its current
directory, every open file has its own, every descriptor counts, and what is not open is nothing. -/
structure Good (s : State) : Prop where
  cache : Coherent s
  idle : s.locked = ∅
  handles : ∀ i, s.holders i ≤ (s.inode i).ref
  fds : ∀ f, s.fds f ≤ (s.ftable f).ref
  closed : ∀ f, (s.ftable f).ref = 0 → (s.ftable f).type = .none

/-- After `begin_op`. -/
abbrev State.begun (s : State) : State := { s with ops := s.ops + 1 }

/-- After `end_op`. -/
abbrev State.ended (s : State) : State := { s with ops := s.ops - 1 }

section

variable {s₀ s : State} {B : Slot → ℕ} {R : Multiset Ref} {L : Finset Slot} {i j : Slot} {n : ℕ}
  {f : Node → Node}

lemma Good.cwd_pos (h : Good s) (p : Fin Ptable.NPROC) : 0 < s.refs (s.cwd p) := by
  have hle := h.handles (s.cwd p)
  have hone := Finset.single_le_sum (f := fun q => if s.cwd q = s.cwd p then 1 else 0)
    (fun _ _ => Nat.zero_le _) (Finset.mem_univ p)
  simp only [if_true] at hone
  unfold State.holders at hle
  unfold State.refs
  omega

/-- A call begins without references and locks. -/
lemma Good.busy (h : Good s) : Busy s s.refs 0 ∅ s where
  cache := h.cache
  ref i := by rw [held_zero]; rfl
  inum x hx := absurd hx (Multiset.notMem_zero x)
  keep i _ := ⟨rfl, id⟩
  locked := h.idle
  valid i hi := absurd hi (Finset.notMem_empty i)
  owned i hi := absurd hi (Finset.notMem_empty i)
  same := ⟨rfl, rfl, rfl, rfl, rfl⟩

lemma Good.begun (h : Good s) : Good s.begun :=
  ⟨⟨h.cache.distinct, h.cache.copy, h.cache.live⟩, h.idle, h.handles, h.fds, h.closed⟩

namespace Busy

lemma ref_pos (h : Busy s₀ B R L s) (hi : (i, n) ∈ R) : 0 < (s.inode i).ref := by
  have := held_pos hi
  rw [h.ref]
  omega

/-- The copy of a locked inode is what is on the disk. -/
lemma node_eq (h : Busy s₀ B R L s) (hi : (i, n) ∈ R) (hL : i ∈ L) :
    (s.inode i).node = s.fs.node n := by
  rw [h.cache.copy i (h.ref_pos hi) (h.valid i hL), h.inum _ hi]

lemma type_ne_zero (h : Busy s₀ B R L s) (hi : (i, n) ∈ R) (hL : i ∈ L) :
    (s.fs.node n).type ≠ 0 := by
  rw [← h.node_eq hi hL]
  exact h.cache.live i (h.ref_pos hi) (h.valid i hL)

/-- Two references to one inode are to one slot. -/
lemma slot_eq {x y : Ref} (h : Busy s₀ B R L s) (hx : x ∈ R) (hy : y ∈ R) (heq : x.2 = y.2) :
    x.1 = y.1 :=
  h.cache.distinct _ _ (h.ref_pos hx) (h.ref_pos hy) ((h.inum x hx).trans (heq.trans (h.inum y hy).symm))

/-- Nothing but the slots, the inodes on the disk and the locks matters. -/
lemma congr {s1 s' : State} (h : Busy s₀ B R L s) (h0 : s1.inode = s₀.inode)
    (hinode : s'.inode = s.inode) (hnode : s'.fs.node = s.fs.node) (hlocked : s'.locked = s.locked)
    (hsame : Same s1 s') : Busy s1 B R L s' := by
  obtain ⟨⟨hdistinct, hcopy, hlive⟩, href, hinum, hkeep, hlock, hvalid, howned, -⟩ := h
  rw [← hinode] at hdistinct hcopy hlive href hinum hkeep hvalid
  rw [← hnode] at hcopy
  rw [← h0] at hkeep
  exact ⟨⟨hdistinct, hcopy, hlive⟩, href, hinum, hkeep, hlocked.trans hlock, hvalid, howned, hsame⟩

end Busy

/-- `end_op` makes up for `begin_op`. -/
lemma Busy.ended (h : Busy s₀.begun B R L s) : Busy s₀ B R L s.ended :=
  h.congr rfl rfl rfl rfl ⟨h.same.ninodes, congrArg Nat.pred h.same.ops, h.same.ftable, h.same.cwd,
    h.same.ofile⟩

/-! ## References -/

@[grind =] lemma State.inode_modify (f : Inode → Inode) :
    (s.modify i f).inode j = if j = i then f (s.inode i) else s.inode j :=
  update_apply ..

@[simp] lemma State.fs_modify (f : Inode → Inode) : (s.modify i f).fs = s.fs := rfl

@[simp] lemma State.inode_iupdate : (s.iupdate i).inode = s.inode := rfl

lemma Same.modify {s' : State} (h : Same s₀ s') (f : Inode → Inode) : Same s₀ (s'.modify i f) :=
  ⟨h.ninodes, h.ops, h.ftable, h.cwd, h.ofile⟩

lemma State.cached_eq_some (h : s.cached n = some i) :
    0 < (s.inode i).ref ∧ (s.inode i).inum = n := by
  simpa using List.find?_some h

lemma State.cached_eq_none (h : s.cached n = none) (i : Slot) (hi : 0 < (s.inode i).ref) :
    (s.inode i).inum ≠ n := by
  have := List.find?_eq_none.mp h i (List.mem_finRange i)
  simpa [hi] using this

lemma State.empty_eq_some (h : s.empty = some i) : (s.inode i).ref = 0 := by
  simpa using List.find?_some h

/-- What the slot of an inode must be like after a change of it. -/
structure Fits (s₀ : State) (B : Slot → ℕ) (R : Multiset Ref) (L : Finset Slot) (s : State) (i : Slot)
    (ip : Inode) (fs : Files) : Prop where
  distinct : 0 < ip.ref → ∀ j, j ≠ i → 0 < (s.inode j).ref → (s.inode j).inum ≠ ip.inum
  copy : 0 < ip.ref → ip.valid = true → ip.node = fs.node ip.inum ∧ ip.node.type ≠ 0
  ref : ip.ref = B i + held R i
  inum : ∀ x ∈ R, x.1 = i → ip.inum = x.2
  keep : 0 < B i → ip.inum = (s₀.inode i).inum ∧ ((s₀.inode i).valid = true → ip.valid = true)
  lock : i ∈ L → ip.valid = true ∧ 0 < held R i

/-- A change of one slot, with at most one reference to it taken or given up. -/
lemma Busy.slot {s' : State} {R' : Multiset Ref} {ip : Inode} (h : Busy s₀ B R L s)
    (hR : R' = R ∨ (∃ n, R' = (i, n) ::ₘ R) ∨ ∃ n, R = (i, n) ::ₘ R')
    (hslot : s'.inode = update s.inode i ip) (hfit : Fits s₀ B R' L s i ip s'.fs)
    (hfs : ∀ j, j ≠ i → 0 < (s.inode j).ref →
      s'.fs.node (s.inode j).inum = s.fs.node (s.inode j).inum)
    (hlocked : s'.locked = s.locked) (hsame : Same s₀ s') : Busy s₀ B R' L s' := by
  have hheld : ∀ j, j ≠ i → held R' j = held R j := by
    rcases hR with rfl | ⟨n, rfl⟩ | ⟨n, rfl⟩ <;> simp +contextual [held_cons]
  have hmem : ∀ x ∈ R', x.1 ≠ i → x ∈ R := by
    rcases hR with rfl | ⟨n, rfl⟩ | ⟨n, rfl⟩ <;> aesop
  have hi : s'.inode i = ip := by rw [hslot, update_self]
  have hj : ∀ j, j ≠ i → s'.inode j = s.inode j := fun j hj => by
    rw [hslot, update_of_ne hj]
  -- the other slots are as before
  refine ⟨⟨fun a b ha hb hab => ?_, fun a ha hv => ?_, fun a ha hv => ?_⟩, fun a => ?_,
    fun x hx => ?_, fun a ha => ?_, hlocked.trans h.locked, fun a ha => ?_, fun a ha => ?_, hsame⟩
  · by_cases hai : a = i <;> by_cases hbi : b = i
    · rw [hai, hbi]
    · rw [hj b hbi] at hb hab
      rw [hai, hi] at ha hab
      exact absurd hab.symm (hfit.distinct ha b hbi hb)
    · rw [hj a hai] at ha hab
      rw [hbi, hi] at hb hab
      exact absurd hab (hfit.distinct hb a hai ha)
    · rw [hj a hai] at ha hab
      rw [hj b hbi] at hb hab
      exact h.cache.distinct a b ha hb hab
  · by_cases hai : a = i
    · rw [hai, hi] at ha hv ⊢
      exact (hfit.copy ha hv).1
    · rw [hj a hai] at ha hv ⊢
      rw [hfs a hai ha]
      exact h.cache.copy a ha hv
  · by_cases hai : a = i
    · rw [hai, hi] at ha hv ⊢
      exact (hfit.copy ha hv).2
    · rw [hj a hai] at ha hv ⊢
      exact h.cache.live a ha hv
  · by_cases hai : a = i
    · rw [hai, hi, hfit.ref]
    · rw [hj a hai, hheld a hai, h.ref a]
  · by_cases hxi : x.1 = i
    · rw [hxi, hi]
      exact hfit.inum x hx hxi
    · rw [hj _ hxi]
      exact h.inum x (hmem x hx hxi)
  · by_cases hai : a = i
    · subst hai
      rw [hi]
      exact hfit.keep ha
    · rw [hj a hai]
      exact h.keep a ha
  · by_cases hai : a = i
    · subst hai
      rw [hi]
      exact (hfit.lock ha).1
    · rw [hj a hai]
      exact h.valid a ha
  · by_cases hai : a = i
    · subst hai
      exact (hfit.lock ha).2
    · rw [hheld a hai]
      exact h.owned a ha

/-- One more reference to an inode in the cache. -/
lemma Busy.addRef (h : Busy s₀ B R L s) (hi : 0 < (s.inode i).ref) (hn : (s.inode i).inum = n) :
    Busy s₀ B ((i, n) ::ₘ R) L (s.modify i fun ip => { ip with ref := ip.ref + 1 }) := by
  have hheld : held ((i, n) ::ₘ R) i = held R i + 1 := by rw [held_cons, if_pos rfl]
  refine h.slot (Or.inr (Or.inl ⟨n, rfl⟩)) rfl ⟨fun _ j hj hpos heq => ?_, fun _ hv => ?_, ?_,
    fun x hx hxi => ?_, h.keep i, fun hL => ?_⟩ (fun _ _ _ => rfl) rfl (h.same.modify _)
  · exact hj (h.cache.distinct j i hpos hi heq)
  · exact ⟨h.cache.copy i hi hv, h.cache.live i hi hv⟩
  · rw [hheld, ← Nat.add_assoc, ← h.ref i]
  · rcases Multiset.mem_cons.mp hx with rfl | hx
    · exact hn
    · exact hxi ▸ h.inum x hx
  · exact ⟨h.valid i hL, by omega⟩

/-- A first reference to an inode. -/
lemma Busy.newRef (h : Busy s₀ B R L s) (hi : (s.inode i).ref = 0)
    (hn : ∀ j, 0 < (s.inode j).ref → (s.inode j).inum ≠ n) :
    Busy s₀ B ((i, n) ::ₘ R) L
      (s.modify i fun ip => { ip with inum := n, ref := 1, valid := false }) := by
  have hheld : held ((i, n) ::ₘ R) i = held R i + 1 := by rw [held_cons, if_pos rfl]
  have hB : B i = 0 ∧ held R i = 0 := by
    have := h.ref i
    omega
  refine h.slot (Or.inr (Or.inl ⟨n, rfl⟩)) rfl ⟨fun _ j _ hpos => hn j hpos,
    fun _ => Bool.noConfusion, ?_, fun x hx hxi => ?_, fun hpos => ?_, fun hL => ?_⟩
    (fun _ _ _ => rfl) rfl (h.same.modify _)
  · rw [hheld, hB.1, hB.2]
  · rcases Multiset.mem_cons.mp hx with rfl | hx
    · rfl
    · have := held_pos (i := x.1) (n := x.2) hx
      rw [hxi] at this
      omega
  · omega
  · have := h.owned i hL
    omega

/-- `iget` takes a reference, if there is a slot for it. -/
lemma Busy.iget_or {E : Stop → Prop} (h : Busy s₀ B R L s) (n : ℕ)
    (hE : (∀ j, 0 < B j + held R j) → E (.panic .iget)) :
    Ends (iget n) s (fun i s' => Busy s₀ B ((i, n) ::ₘ R) L s' ∧ s'.fs = s.fs) E := by
  unfold Sys.iget
  simp only [ends_bind, ends_get]
  split
  case h_1 i hi =>
    obtain ⟨hpos, hn⟩ := State.cached_eq_some hi
    exact ⟨h.addRef hpos hn, rfl⟩
  case h_2 hnone =>
    simp only [ends_bind, ends_get]
    split
    case h_1 i hi => exact ⟨h.newRef (State.empty_eq_some hi) (State.cached_eq_none hnone), rfl⟩
    case h_2 hfull =>
      refine hE fun j => ?_
      have hj := List.find?_eq_none.mp hfull j (List.mem_finRange j)
      rw [← h.ref]
      simpa [Nat.pos_iff_ne_zero] using hj

lemma Busy.iget (h : Busy s₀ B R L s) (n : ℕ) :
    Ends (Sys.iget n) s (fun i s' => Busy s₀ B ((i, n) ::ₘ R) L s' ∧ s'.fs = s.fs) Proceeds :=
  h.iget_or n fun _ => Stop.noConfusion

/-- `idup` of a reference that others have. -/
lemma Busy.idup {E : Stop → Prop} (h : Busy s₀ B R L s) (hi : 0 < B i) :
    Ends (idup i) s (fun j s' => j = i ∧ Busy s₀ B ((i, (s₀.inode i).inum) ::ₘ R) L s' ∧
      s'.fs = s.fs) E := by
  have hpos : 0 < (s.inode i).ref := by
    rw [h.ref]
    omega
  exact ⟨rfl, h.addRef hpos (h.keep i hi).1, rfl⟩

/-! ## Locks -/

/-- One more lock, and the inode is in the cache. -/
lemma Busy.lock (h : Busy s₀ B R L s) (hi : (i, n) ∈ R) (hv : (s.inode i).valid = true) :
    Busy s₀ B R (insert i L) { s with locked := insert i s.locked } := by
  obtain ⟨hcache, href, hinum, hkeep, hlocked, hvalid, howned, hsame⟩ := h
  refine ⟨⟨hcache.distinct, hcache.copy, hcache.live⟩, href, hinum, hkeep, by rw [← hlocked], ?_,
    ?_, ⟨hsame.ninodes, hsame.ops, hsame.ftable, hsame.cwd, hsame.ofile⟩⟩
  · intro j hj
    rcases Finset.mem_insert.mp hj with rfl | hj
    · exact hv
    · exact hvalid j hj
  · intro j hj
    rcases Finset.mem_insert.mp hj with rfl | hj
    · exact held_pos hi
    · exact howned j hj

/-- The inode is read from the disk. -/
lemma Busy.load (h : Busy s₀ B R L s) (hi : (i, n) ∈ R) (htype : (s.fs.node n).type ≠ 0) :
    Busy s₀ B R L (s.modify i fun ip => { ip with node := s.fs.node ip.inum, valid := true }) := by
  have hn : (s.inode i).inum = n := h.inum _ hi
  rw [← hn] at htype
  refine h.slot (Or.inl rfl) rfl ⟨fun _ j hj hpos heq => ?_, fun _ _ => ⟨rfl, htype⟩, h.ref i,
    fun x hx hxi => hxi ▸ h.inum x hx, fun hB => ⟨(h.keep i hB).1, fun _ => rfl⟩,
    fun hL => ⟨rfl, h.owned i hL⟩⟩ (fun _ _ _ => rfl) rfl (h.same.modify _)
  exact hj (h.cache.distinct j i hpos (h.ref_pos hi) heq)

/-- `ilock` of an inode that the call has not locked, if it is not free. -/
lemma Busy.ilock_or {E : Stop → Prop} (h : Busy s₀ B R L s) (hi : (i, n) ∈ R) (hL : i ∉ L)
    (hE : (s.fs.node n).type = 0 → E (.panic .noType)) :
    Ends (ilock i) s (fun _ s' => Busy s₀ B R (insert i L) s' ∧ s'.fs = s.fs) E := by
  have hpos := h.ref_pos hi
  unfold Sys.ilock
  simp only [Sys.inode, acquiresleep, ends_bind, ends_get, ends_pure]
  rw [if_neg (by omega)]
  simp only [ends_pure, ends_bind, ends_get]
  rw [h.locked, if_neg hL]
  simp only [ends_modify]
  by_cases hv : (s.inode i).valid = true
  · rw [if_neg (by simp [hv])]
    exact ⟨h.lock hi hv, rfl⟩
  · rw [if_pos (by simpa using hv)]
    simp only [ends_bind, ends_modify, ends_get, ends_pure]
    have hself : ∀ f : Inode → Inode,
        ((State.modify { s with locked := insert i s.locked } i f).inode i) = f (s.inode i) :=
      fun f => by rw [State.inode_modify, if_pos rfl]
    rw [hself]
    by_cases htype : (s.fs.node n).type = 0
    · rw [if_pos (by simpa [h.inum _ hi] using htype)]
      exact hE htype
    · rw [if_neg (by simpa [h.inum _ hi] using htype)]
      refine ⟨?_, rfl⟩
      have hloaded := h.load hi htype
      exact hloaded.lock hi (by rw [State.inode_modify, if_pos rfl])

lemma Busy.ilock (h : Busy s₀ B R L s) (hi : (i, n) ∈ R) (hL : i ∉ L) :
    Ends (Sys.ilock i) s (fun _ s' => Busy s₀ B R (insert i L) s' ∧ s'.fs = s.fs) Proceeds :=
  h.ilock_or hi hL fun _ => Stop.noConfusion

/-- `ilock` of an inode that the call has locked does not return. -/
lemma Busy.ilock_deadlock (h : Busy s₀ B R L s) (hi : (i, n) ∈ R) (hL : i ∈ L) :
    Sys.ilock i s = .error .deadlock := by
  have hpos := h.ref_pos hi
  refine Ends.eq_error ?_
  unfold Sys.ilock
  simp only [Sys.inode, acquiresleep, ends_bind, ends_get, ends_pure]
  rw [if_neg (by omega)]
  simp only [ends_pure, ends_bind, ends_get]
  rw [h.locked, if_pos hL]
  rfl

/-- `iunlock`. -/
lemma Busy.iunlock {E : Stop → Prop} (h : Busy s₀ B R L s) (hL : i ∈ L) :
    Ends (iunlock i) s
      (fun _ s' => Busy s₀ B R (L.erase i) s' ∧ s'.fs = s.fs ∧ s'.inode = s.inode) E := by
  have hpos : 0 < (s.inode i).ref := by
    have := h.owned i hL
    rw [h.ref]
    omega
  unfold Sys.iunlock
  simp only [Sys.inode, releasesleep, ends_bind, ends_get, ends_pure]
  rw [h.locked, if_neg (by simp [hL]; omega)]
  obtain ⟨hcache, href, hinum, hkeep, hlocked, hvalid, howned, hsame⟩ := h
  exact ⟨⟨⟨hcache.distinct, hcache.copy, hcache.live⟩, href, hinum, hkeep, by rw [← hlocked],
    fun j hj => hvalid j (Finset.mem_of_mem_erase hj),
    fun j hj => howned j (Finset.mem_of_mem_erase hj),
    ⟨hsame.ninodes, hsame.ops, hsame.ftable, hsame.cwd, hsame.ofile⟩⟩, rfl, rfl⟩

/-! ## Changes of an inode -/

/-- A change of a locked inode, in the cache and on the disk. -/
lemma Busy.change (h : Busy s₀ B R L s) (hi : (i, n) ∈ R) (hL : i ∈ L)
    (hf : (f (s.fs.node n)).type ≠ 0) : Busy s₀ B R L
      ((s.modify i fun ip => { ip with node := f ip.node }).iupdate i) ∧
    ((s.modify i fun ip => { ip with node := f ip.node }).iupdate i).fs = s.fs.setNode n f := by
  have hn : (s.inode i).inum = n := h.inum _ hi
  have hnode := h.node_eq hi hL
  have hfs : ((s.modify i fun ip => { ip with node := f ip.node }).iupdate i).fs =
      s.fs.setNode n f := by
    simp only [State.iupdate, State.inode_modify, if_pos, hn, hnode, State.fs_modify, Files.setNode]
  refine ⟨h.slot (Or.inl rfl) rfl ⟨fun _ j hj hpos heq => ?_, fun _ _ => ?_, h.ref i,
    fun x hx hxi => hxi ▸ h.inum x hx, h.keep i, fun hL => ⟨h.valid i hL, h.owned i hL⟩⟩
    (fun j hj hpos => ?_) rfl ⟨h.same.ninodes, h.same.ops, h.same.ftable, h.same.cwd, h.same.ofile⟩,
    hfs⟩
  · exact hj (h.cache.distinct j i hpos (h.ref_pos hi) heq)
  · rw [hfs, Files.node_setNode, if_pos hn]
    dsimp only
    rw [hnode]
    exact ⟨rfl, hf⟩
  · have hne : (s.inode j).inum ≠ n := fun heq =>
      hj (h.cache.distinct j i hpos (h.ref_pos hi) (heq.trans hn.symm))
    rw [hfs, Files.node_setNode, if_neg hne]

/-- Assignments to a locked inode, and `iupdate`. -/
lemma Busy.assign {α : Type} {k : Kernel α} {Q : α → State → Prop} {E : Stop → Prop}
    (h : Busy s₀ B R L s) (hi : (i, n) ∈ R) (hL : i ∈ L) (hf : (f (s.fs.node n)).type ≠ 0)
    (hk : ∀ s', Busy s₀ B R L s' → s'.fs = s.fs.setNode n f → Ends k s' Q E) :
    Ends (do assign i f; Sys.iupdate i; k) s Q E := by
  simp only [Sys.assign, Sys.iupdate, ends_bind, ends_modify]
  exact hk _ (h.change hi hL hf).1 (h.change hi hL hf).2

/-- A change of a directory. -/
lemma Busy.setDir (h : Busy s₀ B R L s) (g : Dir → Dir) :
    Busy s₀ B R L { s with fs := s.fs.setDir n g } :=
  h.congr rfl rfl rfl rfl ⟨h.same.ninodes, h.same.ops, h.same.ftable, h.same.cwd, h.same.ofile⟩

/-- `ialloc` of a free inode. -/
lemma Busy.alloc {type : ℕ} (h : Busy s₀ B R L s) (hn : (s.fs.node n).type = 0) :
    Busy s₀ B R L { s with fs := s.fs.alloc n type } := by
  obtain ⟨hcache, href, hinum, hkeep, hlocked, hvalid, howned, hsame⟩ := h
  refine ⟨⟨hcache.distinct, ?_, hcache.live⟩, href, hinum, hkeep, hlocked, hvalid, howned,
    ⟨hsame.ninodes, hsame.ops, hsame.ftable, hsame.cwd, hsame.ofile⟩⟩
  intro i hi hv
  have hcopy := hcache.copy i hi hv
  have hne : (s.inode i).inum ≠ n := by
    rintro rfl
    exact hcache.live i hi hv (by rw [hcopy, hn])
  show (s.inode i).node = update s.fs.node n _ (s.inode i).inum
  rw [update_of_ne hne]
  exact hcopy

/-- The inode that `ialloc` takes is free. -/
lemma State.freeInode_eq_some (h : s.freeInode = some n) :
    1 ≤ n ∧ (s.fs.node n).type = 0 ∧ n < s.ninodes := by
  have hmem := List.mem_of_find?_eq_some h
  have := List.find?_some h
  simp only [decide_eq_true_eq] at this
  exact ⟨this.1, this.2, List.mem_range.mp hmem⟩

/-- `ialloc` takes a reference to an inode that was free. -/
lemma Busy.ialloc (h : Busy s₀ B R L s) (type : ℕ) :
    Ends (ialloc type) s (fun i s' => ∃ n, 1 ≤ n ∧ (s.fs.node n).type = 0 ∧
      Busy s₀ B ((i, n) ::ₘ R) L s' ∧ s'.fs = s.fs.alloc n type) Proceeds := by
  unfold Sys.ialloc
  simp only [ends_bind, ends_get]
  split
  case h_1 n hn =>
    obtain ⟨hone, htype, -⟩ := State.freeInode_eq_some hn
    simp only [ends_bind, ends_modify]
    refine ((h.alloc htype).iget n).mono ?_
    rintro i s' ⟨hs', hfs⟩
    exact ⟨n, hone, htype, hs', hfs⟩
  case h_2 => exact Stop.noConfusion

/-! ## The end of a reference -/

/-- A reference that is not the last, or to an inode with links, is dropped. -/
lemma Busy.dropRef (h : Busy s₀ B ((i, n) ::ₘ R) L s) (hL : i ∉ L) :
    Busy s₀ B R L (s.modify i fun ip => { ip with ref := ip.ref - 1 }) := by
  have href : (s.inode i).ref = B i + held R i + 1 := by
    rw [h.ref, held_cons, if_pos rfl]
    omega
  have hpos : 0 < (s.inode i).ref := by omega
  refine h.slot (Or.inr (Or.inr ⟨n, rfl⟩)) rfl ⟨fun _ j hj hj' heq => ?_, fun _ hv => ?_, ?_,
    fun x hx hxi => hxi ▸ h.inum x (Multiset.mem_cons_of_mem hx), h.keep i, fun hi => absurd hi hL⟩
    (fun _ _ _ => rfl) rfl (h.same.modify _)
  · exact hj (h.cache.distinct j i hj' hpos heq)
  · exact ⟨h.cache.copy i hpos hv, h.cache.live i hpos hv⟩
  · show (s.inode i).ref - 1 = _
    omega

/-- `itrunc`, `ip->type = 0`, `iupdate` and `ip->valid = 0` in `iput`. -/
def State.release (s : State) (i : Slot) : State :=
  { s with
    fs := s.fs.free (s.inode i).inum
    inode := Function.update s.inode i
      { s.inode i with valid := false, node := { (s.inode i).node with text := [], type := 0 } } }

/-- The last reference to an inode without links is dropped. -/
lemma Busy.freeRef (h : Busy s₀ B ((i, n) ::ₘ R) L s) (hL : i ∉ L) (hlast : B i + held R i = 0) :
    Busy s₀ B R L ((s.release i).modify i fun ip => { ip with ref := ip.ref - 1 }) := by
  have hn : (s.inode i).inum = n := h.inum (i, n) (Multiset.mem_cons_self _ _)
  have href : (s.inode i).ref = 1 := by
    rw [h.ref, held_cons, if_pos rfl]
    omega
  have hzero : ((s.release i).inode i).ref - 1 = 0 := by simp [State.release, href]
  refine h.slot (Or.inr (Or.inr ⟨n, rfl⟩)) (update_idem ..)
    ⟨fun hpos => absurd hzero hpos.ne', fun hpos => absurd hzero hpos.ne', hzero.trans hlast.symm,
      fun x hx hxi => ?_, fun hB => ?_, fun hi => absurd hi hL⟩ (fun j hj hpos => ?_) rfl
    ⟨h.same.ninodes, h.same.ops, h.same.ftable, h.same.cwd, h.same.ofile⟩
  · have := held_pos (i := x.1) (n := x.2) hx
    rw [hxi] at this
    omega
  · omega
  · have hother : (s.inode j).inum ≠ (s.inode i).inum := fun heq =>
      hj (h.cache.distinct j i hpos (by omega) heq)
    exact (Files.node_free ..).trans (if_neg hother)

/-- What `iput` does to the state. -/
lemma iput_eq (hL : i ∉ s.locked)
    (hcopy : (s.inode i).valid → (s.inode i).node = s.fs.node (s.inode i).inum) :
    Sys.iput i s = .ok ((),
    (if (s.inode i).valid ∧ (s.inode i).node.nlink = 0 ∧ (s.inode i).ref = 1 then s.release i
      else s).modify i fun ip => { ip with ref := ip.ref - 1 }) := by
  suffices Ends (Sys.iput i) s (fun _ s' => s' =
      (if (s.inode i).valid ∧ (s.inode i).node.nlink = 0 ∧ (s.inode i).ref = 1 then s.release i
        else s).modify i fun ip => { ip with ref := ip.ref - 1 }) fun _ => False by
    unfold Ends at this
    split at this
    case h_1 a s' hs' => rw [hs', this]
    case h_2 => exact this.elim
  unfold Sys.iput
  simp only [acquiresleep, releasesleep, Sys.inode, ends_bind, ends_get, ends_pure]
  rw [if_neg hL]
  simp only [ends_modify]
  split_ifs with hfree
  · simp only [itrunc, Sys.inode, Sys.assign, Sys.iupdate, ends_bind, ends_get, ends_pure,
      ends_modify]
    ext <;> simp [State.release, State.modify, State.iupdate, Files.free, Files.setNode,
      Files.setDir, Finset.erase_insert hL, hcopy hfree.1]
  · ext <;> simp [State.modify, Finset.erase_insert hL]

/-- `iput` drops a reference, and frees the inode if it was the last one and there are no links. -/
lemma Busy.iput {E : Stop → Prop} (h : Busy s₀ B ((i, n) ::ₘ R) L s) (hL : i ∉ L) :
    Ends (iput i) s (fun _ s' => Busy s₀ B R L s' ∧
      s'.fs = (if (s.inode i).valid ∧ (s.fs.node n).nlink = 0 ∧ B i + held R i = 0
        then s.fs.free n else s.fs) ∧
      Stays s s') E := by
  have hmem : (i, n) ∈ (i, n) ::ₘ R := Multiset.mem_cons_self _ _
  have hn : (s.inode i).inum = n := h.inum (i, n) hmem
  have href : (s.inode i).ref = B i + held R i + 1 := by
    rw [h.ref, held_cons, if_pos rfl]
    omega
  have hcond : ((s.inode i).valid ∧ (s.inode i).node.nlink = 0 ∧ (s.inode i).ref = 1) ↔
      (s.inode i).valid ∧ (s.fs.node n).nlink = 0 ∧ B i + held R i = 0 := by
    rw [href]
    refine and_congr_right fun hv => and_congr ?_ (by omega)
    rw [h.cache.copy i (h.ref_pos hmem) hv, hn]
  have heq := iput_eq (by rwa [h.locked]) (h.cache.copy i (h.ref_pos hmem))
  refine ends_iff.mpr ⟨fun a s' hs' => ?_, fun e he => ?_⟩
  · rw [heq, Except.ok.injEq, Prod.mk.injEq] at hs'
    obtain ⟨-, rfl⟩ := hs'
    split_ifs with h1 h2 h2
    · refine ⟨h.freeRef hL h2.2.2, by rw [← hn]; rfl, fun j hj => ?_⟩
      rw [State.inode_modify] at hj ⊢
      split_ifs at hj ⊢ with hji
      · simp [State.release, h1.2.2] at hj
      · have hsame : (s.release i).inode j = s.inode j := update_of_ne hji _ _
        rw [hsame] at hj ⊢
        exact ⟨hj, rfl, rfl⟩
    · exact absurd (hcond.mp h1) h2
    · exact absurd (hcond.mpr h2) h1
    · refine ⟨h.dropRef hL, rfl, fun j hj => ?_⟩
      rw [State.inode_modify] at hj ⊢
      split_ifs at hj ⊢ with hji
      · rw [hji]
        exact ⟨h.ref_pos hmem, rfl, rfl⟩
      · exact ⟨hj, rfl, rfl⟩
  · rw [heq] at he
    cases he

/-- Whatever `iput` does, it sweeps. -/
lemma Busy.iput_swept {E : Stop → Prop} (h : Busy s₀ B ((i, n) ::ₘ R) L s) (hL : i ∉ L) :
    Ends (Sys.iput i) s (fun _ s' => Busy s₀ B R L s' ∧
      Files.Swept (Spare s₀ B R) s.fs s'.fs) E := by
  refine (h.iput hL).mono ?_
  rintro _ s' ⟨hs', hfs, _⟩
  refine ⟨hs', ?_⟩
  rw [hfs]
  split_ifs with hfree
  · obtain ⟨hv, hlink, hlast⟩ := hfree
    have hmem : (i, n) ∈ (i, n) ::ₘ R := Multiset.mem_cons_self _ _
    have hpos := h.ref_pos hmem
    have hn : (s.inode i).inum = n := h.inum (i, n) hmem
    refine Relation.ReflTransGen.single ⟨n, ⟨fun j hj heq => ?_, fun x hx heq => ?_⟩, hlink, ?_, rfl⟩
    · -- a reference of the others would be to the same slot
      have hj' : 0 < (s.inode j).ref := by
        rw [h.ref]
        omega
      have := h.cache.distinct j i hj' hpos (by rw [(h.keep j hj).1, heq, hn])
      rw [this] at hj
      omega
    · have hx' : x ∈ (i, n) ::ₘ R := Multiset.mem_cons_of_mem hx
      have this : x.1 = i := h.slot_eq hx' hmem heq
      have hheld := held_pos (i := x.1) (n := x.2) hx
      rw [this] at hheld
      omega
    · rw [← hn, ← h.cache.copy i hpos hv]
      exact h.cache.live i hpos hv
  · exact Relation.ReflTransGen.refl

/-- `iunlockput`. -/
lemma Busy.iunlockput {E : Stop → Prop} (h : Busy s₀ B ((i, n) ::ₘ R) L s) (hL : i ∈ L) :
    Ends (iunlockput i) s (fun _ s' => Busy s₀ B R (L.erase i) s' ∧
      s'.fs = (if (s.fs.node n).nlink = 0 ∧ B i + held R i = 0 then s.fs.free n else s.fs) ∧
      Stays s s') E := by
  refine h.iunlock hL |>.bind ?_
  rintro _ s1 ⟨hs1, hfs1, hin1⟩
  refine (hs1.iput (Finset.notMem_erase _ _)).mono ?_
  rintro _ s2 ⟨hs2, hfs2, hval⟩
  rw [hfs1, hin1] at hfs2
  simp only [h.valid i hL, true_and] at hfs2
  exact ⟨hs2, hfs2, fun j hj => hin1 ▸ hval j hj⟩

lemma Busy.iunlockput_swept {E : Stop → Prop} (h : Busy s₀ B ((i, n) ::ₘ R) L s) (hL : i ∈ L) :
    Ends (Sys.iunlockput i) s (fun _ s' => Busy s₀ B R (L.erase i) s' ∧
      Files.Swept (Spare s₀ B R) s.fs s'.fs) E := by
  refine h.iunlock hL |>.bind ?_
  rintro _ s1 ⟨hs1, hfs1, _⟩
  refine (hs1.iput_swept (Finset.notMem_erase _ _)).mono ?_
  rintro _ s2 ⟨hs2, hsw⟩
  exact ⟨hs2, hfs1 ▸ hsw⟩

end

end Xv7.Sys
