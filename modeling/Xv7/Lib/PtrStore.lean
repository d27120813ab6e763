import Xv7.Lib.PtrTree
import Xv7.Lib.Fallible

/-!
# Growing pointer trees in a store with an allocator

A store holds the blocks of pointer trees and can allocate new ones.  `reach` walks from a pointer
to a leaf and allocates what is missing on the way; the laws `PtrStore.Lawful` of a store say all
that is needed to know what the walk does to the tree (`reach_spec`) and when it succeeds
(`reach_ok`).
-/

universe u v w

open Fallible

/-- A store of blocks that hold pointers. -/
structure PtrStore {β : Type w} (σ : PtrTree β) (S : Type u) (ε : Type v) where
  /-- The contents of the blocks. -/
  disk : S → ℕ → β
  /-- Change the contents of a block. -/
  set : S → ℕ → β → S
  /-- Change a pointer in the contents of a block. -/
  setPtr : β → ℕ → ℕ → β
  /-- Allocate a block. -/
  alloc : S → Except ε (ℕ × S)
  /-- What is in a block when it is allocated. -/
  blank : β

namespace PtrStore

variable {β : Type w} {σ : PtrTree β} {S : Type u} {ε : Type v} (st : PtrStore σ S ε)

/-! ## The walk -/

/-- An entry of a block, allocated if necessary. -/
def entry (a idx : ℕ) (s : S) : Except ε (ℕ × S) :=
  if σ.ptr (st.disk s a) idx = 0 then do
    let (c, s) ← st.alloc s
    .ok (c, st.set s a (st.setPtr (st.disk s a) idx c))
  else .ok (σ.ptr (st.disk s a) idx, s)

/-- The way from the block `a` down to leaf `i`. -/
def walk : ℕ → ℕ → ℕ → S → Except ε (ℕ × S)
  | 0, a, _, s => .ok (a, s)
  | l + 1, a, i, s => do
    let (next, s) ← st.entry a (i / σ.fan ^ l) s
    walk l next (i % σ.fan ^ l) s

/-- The root of a tree, allocated if necessary. -/
def root (a : ℕ) (s : S) : Except ε (ℕ × S) := if a = 0 then st.alloc s else .ok (a, s)

/-- The way from the pointer `a` to leaf `i`, with the root that it starts from. -/
def reach (l a i : ℕ) (s : S) : Except ε (ℕ × ℕ × S) := do
  let (a, s) ← st.root a s
  let (leaf, s) ← st.walk l a i s
  .ok (leaf, a, s)

/-! ## The laws of a store -/

/-- The laws of a store: `Inv s used` says that the blocks `used` are in use in the state `s`, the
blocks in `M` belong to the allocator, and there is room for `cap` blocks. -/
structure Lawful (M : ℕ → Prop) (Inv : S → List ℕ → Prop) (cap : ℕ) : Prop where
  nodup : ∀ {s used}, Inv s used → used.Nodup
  apart : ∀ {s used b}, Inv s used → b ∈ used → ¬ M b
  disk_set : ∀ s a x, st.disk (st.set s a x) = Function.update (st.disk s) a x
  inv_set : ∀ {s used a x}, Inv s used → a ∈ used → Inv (st.set s a x) used
  ptr_setPtr_of_ne : ∀ {x i j c}, j ≠ i → σ.ptr (st.setPtr x i c) j = σ.ptr x j
  alloc_fresh : ∀ {s used c s'}, Inv s used → st.alloc s = .ok (c, s') → c ∉ used ∧ c ≠ 0
  alloc_inv : ∀ {s used c s'}, Inv s used → st.alloc s = .ok (c, s') → Inv s' (c :: used)
  ptr_blank : ∀ j, σ.ptr st.blank j = 0
  alloc_blank : ∀ {s used c s'}, Inv s used → st.alloc s = .ok (c, s') → st.disk s' c = st.blank
  alloc_frame : ∀ {s used c s' b}, Inv s used → st.alloc s = .ok (c, s') → ¬ M b → b ≠ c →
    st.disk s' b = st.disk s b
  alloc_ptr : ∀ {s used c s' x i}, Inv s used → st.alloc s = .ok (c, s') → i < σ.fan →
    σ.ptr (st.setPtr x i c) i = c
  alloc_ok : ∀ {s used}, Inv s used → used.length < cap → ∃ c s', st.alloc s = .ok (c, s')

variable {st} {M : ℕ → Prop} {Inv : S → List ℕ → Prop} {cap : ℕ} (hst : st.Lawful M Inv cap)
  {s s' : S} {used : List ℕ} {l a i : ℕ}

include hst

section Walk

variable (ha : a ≠ 0) (h : Inv s used)

include ha h

/-- One level of the walk: the entry is there afterwards, and at most one block is new. -/
lemma Lawful.entry_spec {next : ℕ} (hi : i < σ.fan ^ (l + 1))
    (hnd : (σ.tree (st.disk s) (l + 1) a).Nodup) (hsub : σ.tree (st.disk s) (l + 1) a ⊆ used)
    (he : st.entry a (i / σ.fan ^ l) s = .ok (next, s')) :
    ∃ new, σ.Extends M (st.disk s) (st.disk s') (l + 1) a a i new ∧
      Inv s' (new ++ used) ∧ σ.ptr (st.disk s' a) (i / σ.fan ^ l) = next ∧ next ≠ 0 ∧
      (σ.ptr (st.disk s a) (i / σ.fan ^ l) = 0 → st.disk s' next = st.blank) := by
  have hself : a ∈ used := hsub (PtrTree.mem_tree_self ha)
  unfold entry at he
  split_ifs at he with hnull
  · obtain ⟨⟨c, s0⟩, hc, he⟩ := bind_eq_ok.mp he
    simp only [Except.ok.injEq, Prod.mk.injEq] at he
    obtain ⟨rfl, rfl⟩ := he
    obtain ⟨hfresh, hc0⟩ := hst.alloc_fresh h hc
    have hac : a ≠ c := fun heq => hfresh (heq ▸ hself)
    have hda : st.disk s0 a = st.disk s a := hst.alloc_frame h hc (hst.apart h hself) hac
    have hset : σ.ptr (st.setPtr (st.disk s0 a) (i / σ.fan ^ l) c) (i / σ.fan ^ l) = c :=
      hst.alloc_ptr h hc (PtrTree.div_lt_fan hi)
    have hblank : Function.update (st.disk s0) a
        (st.setPtr (st.disk s0 a) (i / σ.fan ^ l) c) c = st.blank := by
      rw [Function.update_of_ne hac.symm, hst.alloc_blank h hc]
    refine ⟨[c], ?_, hst.inv_set (hst.alloc_inv h hc) (List.mem_cons_of_mem _ hself), ?_, hc0,
      fun _ => by rw [hst.disk_set, hblank]⟩
    · rw [hst.disk_set]
      refine PtrTree.Extends.node ha hnd (fun b hb => hst.apart h (hsub hb)) hi
        (fun b hb hin => ?_) (fun j _ hne => ?_) ?_
      · exact hfresh (List.mem_singleton.mp hb ▸ hsub hin)
      · rw [Function.update_self, hda, hst.ptr_setPtr_of_ne hne]
      · rw [hnull, Function.update_self, hset]
        refine PtrTree.Extends.fresh hc0 (fun j _ => ?_) (PtrTree.mod_lt_pow hi)
          fun b hb hbc => ?_
        · rw [hblank, hst.ptr_blank]
        · rw [not_or] at hb
          rw [Function.update_of_ne hb.2]
          exact hst.alloc_frame h hc hb.1 hbc
    · rw [hst.disk_set, Function.update_self, hset]
  · simp only [Except.ok.injEq, Prod.mk.injEq] at he
    obtain ⟨rfl, rfl⟩ := he
    exact ⟨[], PtrTree.Extends.refl, h, rfl, hnull, fun h0 => absurd h0 hnull⟩

/-- The entry is found or allocated when there is room for it. -/
lemma Lawful.entry_ok {n : ℕ} (hi : i < σ.fan ^ (l + 1)) (hn : i < n)
    (hroom : σ.need (st.disk s) (l + 1) a n + used.length ≤ cap) :
    ∃ next s', st.entry a (i / σ.fan ^ l) s = .ok (next, s') := by
  unfold entry
  split_ifs with hnull
  · have hpos : min (n - i / σ.fan ^ l * σ.fan ^ l) (σ.fan ^ l) ≠ 0 :=
      Nat.ne_of_gt ((Nat.zero_le _).trans_lt (PtrTree.mod_lt_min hi hn))
    have hchild := PtrTree.need_child_le (d := st.disk s) (l := l) (n := n) ha
      (PtrTree.div_lt_fan hi) (by omega)
    rw [hnull] at hchild
    have hone : 1 ≤ σ.need (st.disk s) l 0 _ := PtrTree.one_le_need_null hpos
    obtain ⟨c, s0, hc⟩ := hst.alloc_ok h (by omega)
    exact ⟨c, _, by rw [hc]; rfl⟩
  · exact ⟨_, _, rfl⟩

omit h in
/-- What is added on the way below one entry is added to the tree. -/
lemma Lawful.extends_child {s1 : S} {next : ℕ} {new1 new2 : List ℕ} (hi : i < σ.fan ^ (l + 1))
    (hnd : (σ.tree (st.disk s) (l + 1) a).Nodup) (hsub : σ.tree (st.disk s) (l + 1) a ⊆ used)
    (hext1 : σ.Extends M (st.disk s) (st.disk s1) (l + 1) a a i new1)
    (h1 : Inv s1 (new1 ++ used)) (hptr : σ.ptr (st.disk s1 a) (i / σ.fan ^ l) = next)
    (hext2 : σ.Extends M (st.disk s1) (st.disk s') l next next
      (i % σ.fan ^ l) new2) (h2 : Inv s' (new2 ++ (new1 ++ used))) :
    σ.Extends M (st.disk s) (st.disk s') (l + 1) a a i (new2 ++ new1) ∧
      σ.leaf (st.disk s') (l + 1) a i = σ.leaf (st.disk s') l next (i % σ.fan ^ l) := by
  obtain ⟨hnd1, hsub1⟩ := hext1.within (hst.nodup h1) hnd hsub
  obtain ⟨-, hroot, -⟩ := PtrTree.disjoint_child ha (PtrTree.div_lt_fan hi) hnd1
  rw [hptr] at hroot
  have hfresh : ∀ b ∈ new2, b ∉ σ.tree (st.disk s1) (l + 1) a := fun b hb hin =>
    (List.nodup_append'.mp (hst.nodup h2)).2.2 hb (hsub1 hin)
  have hM : ∀ b ∈ σ.tree (st.disk s1) (l + 1) a, ¬ M b := fun b hb => hst.apart h1 (hsub1 hb)
  have hself : a ∈ σ.tree (st.disk s1) (l + 1) a := PtrTree.mem_tree_self ha
  have hda : st.disk s' a = st.disk s1 a := hext2.frame a (hM a hself)
    (fun hin => hroot (PtrTree.inner_subset_tree hin)) fun hin => hfresh a hin hself
  constructor
  · refine hext1.trans (PtrTree.Extends.node ha hnd1 hM hi hfresh (fun j _ _ => by rw [hda]) ?_)
    rw [hda, hptr]
    exact hext2.mono fun b hb => Or.inl hb
  · rw [PtrTree.leaf_succ ha, hda, hptr]

omit h in
/-- The subtree below the entry that the walk goes through. -/
lemma Lawful.child_within {s1 : S} {next : ℕ} {new1 : List ℕ} (hi : i < σ.fan ^ (l + 1))
    (hnd : (σ.tree (st.disk s) (l + 1) a).Nodup) (hsub : σ.tree (st.disk s) (l + 1) a ⊆ used)
    (hext1 : σ.Extends M (st.disk s) (st.disk s1) (l + 1) a a i new1)
    (h1 : Inv s1 (new1 ++ used)) (hptr : σ.ptr (st.disk s1 a) (i / σ.fan ^ l) = next) :
    (σ.tree (st.disk s1) l next).Nodup ∧ σ.tree (st.disk s1) l next ⊆ new1 ++ used := by
  obtain ⟨hnd1, hsub1⟩ := hext1.within (hst.nodup h1) hnd hsub
  have hidx := PtrTree.div_lt_fan hi
  obtain ⟨hchild, -, -⟩ := PtrTree.disjoint_child ha hidx hnd1
  have hchildsub := PtrTree.tree_child_subset (d := st.disk s1) (l := l) ha hidx
  rw [hptr] at hchild hchildsub
  exact ⟨hchild, fun b hb => hsub1 (hchildsub hb)⟩

omit hst h in
/-- Below a blank block there are no leaves. -/
lemma leaf_of_blank (hblank : ∀ j, σ.ptr st.blank j = 0) (hd : st.disk s a = st.blank) (hl : l ≠ 0) :
    σ.leaf (st.disk s) l a i = 0 := by
  obtain ⟨l, rfl⟩ := Nat.exists_eq_succ_of_ne_zero hl
  rw [PtrTree.leaf_succ ha, hd, hblank, PtrTree.leaf_null]

/-- The walk finds the leaf, and adds what was missing on the way. -/
lemma Lawful.walk_spec {leaf : ℕ} (hi : i < σ.fan ^ l) (hnd : (σ.tree (st.disk s) l a).Nodup)
    (hsub : σ.tree (st.disk s) l a ⊆ used) (hw : st.walk l a i s = .ok (leaf, s')) :
    ∃ new, σ.Extends M (st.disk s) (st.disk s') l a a i new ∧
      Inv s' (new ++ used) ∧ σ.leaf (st.disk s') l a i = leaf ∧ leaf ≠ 0 ∧
      (σ.leaf (st.disk s) l a i = 0 ∨ st.disk s a = st.blank ∧ l = 0 →
        st.disk s' leaf = st.blank) := by
  induction l generalizing a i s used with
  | zero =>
    simp only [walk, Except.ok.injEq, Prod.mk.injEq] at hw
    obtain ⟨rfl, rfl⟩ := hw
    exact ⟨[], PtrTree.Extends.refl, h, rfl, ha, fun hb => hb.elim (fun h0 => absurd h0 ha) And.left⟩
  | succ l ih =>
    obtain ⟨⟨next, s1⟩, he, hw⟩ := bind_eq_ok.mp hw
    obtain ⟨new1, hext1, h1, hptr, hnext, hblank1⟩ := hst.entry_spec ha h hi hnd hsub he
    obtain ⟨hnd1, hsub1⟩ := hst.child_within ha hi hnd hsub hext1 h1 hptr
    obtain ⟨new2, hext2, h2, hleaf, hne, hblank2⟩ :=
      ih hnext h1 (PtrTree.mod_lt_pow hi) hnd1 hsub1 hw
    obtain ⟨hext, hleaf'⟩ := hst.extends_child ha hi hnd hsub hext1 h1 hptr hext2 h2
    refine ⟨new2 ++ new1, hext, by rw [List.append_assoc]; exact h2, hleaf'.trans hleaf, hne,
      fun hb => hblank2 ?_⟩
    obtain hb | ⟨-, hl⟩ := hb
    · by_cases hnull : σ.ptr (st.disk s a) (i / σ.fan ^ l) = 0
      · -- the entry is new, and so is everything below it
        have hd := hblank1 hnull
        by_cases hl : l = 0
        · exact Or.inr ⟨hd, hl⟩
        · exact Or.inl (leaf_of_blank hnext hst.ptr_blank hd hl)
      · -- the entry was there, and nothing has changed yet
        rw [entry, if_neg hnull] at he
        simp only [Except.ok.injEq, Prod.mk.injEq] at he
        obtain ⟨rfl, rfl⟩ := he
        rw [PtrTree.leaf_succ ha] at hb
        exact Or.inl hb
    · exact absurd hl (Nat.succ_ne_zero l)

/-- The walk succeeds when there is room for what is missing. -/
lemma Lawful.walk_ok {n : ℕ} (hi : i < σ.fan ^ l) (hnd : (σ.tree (st.disk s) l a).Nodup)
    (hsub : σ.tree (st.disk s) l a ⊆ used) (hin : i < n) (hn : n ≤ σ.fan ^ l)
    (hroom : σ.need (st.disk s) l a n + used.length ≤ cap) :
    ∃ leaf s', st.walk l a i s = .ok (leaf, s') := by
  induction l generalizing a i s used n with
  | zero => exact ⟨a, s, rfl⟩
  | succ l ih =>
    obtain ⟨next, s1, he⟩ := hst.entry_ok ha h hi hin hroom
    obtain ⟨new1, hext1, h1, hptr, hnext, -⟩ := hst.entry_spec ha h hi hnd hsub he
    obtain ⟨hnd1, hsub1⟩ := hst.child_within ha hi hnd hsub hext1 h1 hptr
    have hneed := PtrTree.need_child_le (d := st.disk s1) (l := l) (n := n) ha
      (PtrTree.div_lt_fan hi) (by omega)
    rw [hptr] at hneed
    have hspent := hext1.need n hin hn
    obtain ⟨leaf, s', hw⟩ := ih hnext h1 (PtrTree.mod_lt_pow hi) hnd1 hsub1
      (PtrTree.mod_lt_min hi hin) (min_le_right _ _) (by rw [List.length_append]; omega)
    exact ⟨leaf, s', bind_eq_ok.mpr ⟨_, he, hw⟩⟩

end Walk

variable (h : Inv s used)

include h

/-- The root is there afterwards. -/
lemma Lawful.root_spec {a' : ℕ} (hi : i < σ.fan ^ l) (hr : st.root a s = .ok (a', s')) :
    ∃ new, σ.Extends M (st.disk s) (st.disk s') l a a' i new ∧
      Inv s' (new ++ used) ∧ a' ≠ 0 ∧ (a = 0 → st.disk s' a' = st.blank) := by
  unfold root at hr
  split_ifs at hr with ha
  · subst ha
    obtain ⟨-, hc0⟩ := hst.alloc_fresh h hr
    have hblank := hst.alloc_blank h hr
    exact ⟨[a'], PtrTree.Extends.fresh hc0 (fun j _ => by rw [hblank, hst.ptr_blank]) hi
      (fun b hb hbc => hst.alloc_frame h hr hb hbc), hst.alloc_inv h hr, hc0, fun _ => hblank⟩
  · simp only [Except.ok.injEq, Prod.mk.injEq] at hr
    obtain ⟨rfl, rfl⟩ := hr
    exact ⟨[], PtrTree.Extends.refl, h, ha, fun h0 => absurd h0 ha⟩

/-- The whole way finds the leaf, and adds what was missing on it. -/
lemma Lawful.reach_spec {leaf a' : ℕ} (hi : i < σ.fan ^ l)
    (hnd : (σ.tree (st.disk s) l a).Nodup) (hsub : σ.tree (st.disk s) l a ⊆ used)
    (hr : st.reach l a i s = .ok (leaf, a', s')) :
    ∃ new, σ.Extends M (st.disk s) (st.disk s') l a a' i new ∧
      Inv s' (new ++ used) ∧ σ.leaf (st.disk s') l a' i = leaf ∧ leaf ≠ 0 ∧
      (σ.leaf (st.disk s) l a i = 0 → st.disk s' leaf = st.blank) := by
  obtain ⟨⟨a1, s1⟩, hroot, hr⟩ := bind_eq_ok.mp hr
  obtain ⟨⟨leaf', s2⟩, hw, hr⟩ := bind_eq_ok.mp hr
  simp only [Except.ok.injEq, Prod.mk.injEq] at hr
  obtain ⟨rfl, rfl, rfl⟩ := hr
  obtain ⟨new1, hext1, h1, ha1, hblank1⟩ := hst.root_spec h hi hroot
  obtain ⟨hnd1, hsub1⟩ := hext1.within (hst.nodup h1) hnd hsub
  obtain ⟨new2, hext2, h2, hleaf, hne, hblank2⟩ := hst.walk_spec ha1 h1 hi hnd1 hsub1 hw
  refine ⟨new2 ++ new1, hext1.trans hext2, by rw [List.append_assoc]; exact h2, hleaf, hne,
    fun hb => hblank2 ?_⟩
  by_cases ha : a = 0
  · have hd := hblank1 ha
    by_cases hl : l = 0
    · exact Or.inr ⟨hd, hl⟩
    · exact Or.inl (leaf_of_blank ha1 hst.ptr_blank hd hl)
  · rw [root, if_neg ha] at hroot
    simp only [Except.ok.injEq, Prod.mk.injEq] at hroot
    obtain ⟨rfl, rfl⟩ := hroot
    exact Or.inl hb

/-- The whole way succeeds when there is room for what is missing. -/
lemma Lawful.reach_ok {n : ℕ} (hi : i < σ.fan ^ l) (hnd : (σ.tree (st.disk s) l a).Nodup)
    (hsub : σ.tree (st.disk s) l a ⊆ used) (hin : i < n) (hn : n ≤ σ.fan ^ l)
    (hroom : σ.need (st.disk s) l a n + used.length ≤ cap) :
    ∃ leaf a' s', st.reach l a i s = .ok (leaf, a', s') := by
  have hroot : ∃ a' s', st.root a s = .ok (a', s') := by
    unfold root
    split_ifs with ha
    · subst ha
      have hone : 1 ≤ σ.need (st.disk s) l 0 n := PtrTree.one_le_need_null (by omega)
      exact hst.alloc_ok h (by omega)
    · exact ⟨_, _, rfl⟩
  obtain ⟨a1, s1, hroot⟩ := hroot
  obtain ⟨new1, hext1, h1, ha1, -⟩ := hst.root_spec h hi hroot
  obtain ⟨hnd1, hsub1⟩ := hext1.within (hst.nodup h1) hnd hsub
  have hspent := hext1.need n hin hn
  obtain ⟨leaf, s2, hw⟩ := hst.walk_ok ha1 h1 hi hnd1 hsub1 hin hn
    (by rw [List.length_append]; omega)
  exact ⟨leaf, a1, s2, bind_eq_ok.mpr ⟨_, hroot, bind_eq_ok.mpr ⟨_, hw, rfl⟩⟩⟩

end PtrStore
