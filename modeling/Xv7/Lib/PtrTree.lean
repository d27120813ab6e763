import Mathlib

/-!
# Trees of pointers in a memory of numbered blocks

A block holds `fan` words, and a word that is not zero points at a block.  `tree` lists the blocks
of the tree of a given height below a pointer: at height zero the pointer is that of a leaf, above
it the block that it names holds the pointers of the next level.  `inner` lists the blocks that
hold pointers, and `leaf` finds the leaf with a given index.

`Extends` relates two trees when the second has gained the blocks that were missing on the way to
one leaf.  A null pointer can be made to point at a fresh block (`Extends.fresh`), what is added
below a child is added to the tree (`Extends.node`), and additions compose.  `need` counts what is
missing on the way to the first `n` leaves.
-/

/-- How blocks with contents in `β` hold pointers. -/
structure PtrTree (β : Type*) where
  /-- The number of pointers in a block. -/
  fan : ℕ
  /-- The pointers in the contents of a block. -/
  ptr : β → ℕ → ℕ

namespace PtrTree

variable {β : Type*} (σ : PtrTree β)

/-- The blocks of the tree of height `l` below the pointer `a`. -/
def tree (d : ℕ → β) : ℕ → ℕ → List ℕ
  | 0, a => if a = 0 then [] else [a]
  | l + 1, a =>
    if a = 0 then [] else a :: (List.range σ.fan).flatMap fun j => tree d l (σ.ptr (d a) j)

/-- The blocks of the tree that hold pointers. -/
def inner (d : ℕ → β) : ℕ → ℕ → List ℕ
  | 0, _ => []
  | l + 1, a =>
    if a = 0 then [] else a :: (List.range σ.fan).flatMap fun j => inner d l (σ.ptr (d a) j)

/-- The leaf with index `i`, or zero. -/
def leaf (d : ℕ → β) : ℕ → ℕ → ℕ → ℕ
  | 0, a, _ => a
  | l + 1, a, i =>
    if a = 0 then 0 else leaf d l (σ.ptr (d a) (i / σ.fan ^ l)) (i % σ.fan ^ l)

/-- The number of blocks that are missing on the way to the first `n` leaves. -/
def need (d : ℕ → β) : ℕ → ℕ → ℕ → ℕ
  | 0, a, n => if a = 0 ∧ n ≠ 0 then 1 else 0
  | l + 1, a, n =>
    if n = 0 then 0
    else (if a = 0 then 1 else 0) + ∑ j ∈ Finset.range σ.fan,
      need d l (if a = 0 then 0 else σ.ptr (d a) j) (min (n - j * σ.fan ^ l) (σ.fan ^ l))

variable {σ} {d d₁ d2 : ℕ → β} {l a i : ℕ}

/-! ## The null pointer -/

@[simp] lemma tree_null : σ.tree d l 0 = [] := by cases l <;> simp [tree]

@[simp] lemma inner_null : σ.inner d l 0 = [] := by cases l <;> simp [inner]

@[simp] lemma leaf_null : σ.leaf d l 0 i = 0 := by cases l <;> simp [leaf]

/-- A pointer with no block yet needs the same blocks in every memory. -/
lemma need_null (n : ℕ) : σ.need d l 0 n = σ.need d₁ l 0 n := by
  induction l generalizing n with
  | zero => rfl
  | succ l ih => simp only [need, if_true, ih]

/-- A null pointer on the way to a leaf counts. -/
lemma one_le_need_null {n : ℕ} (hn : n ≠ 0) : 1 ≤ σ.need d l 0 n := by
  cases l <;> simp [need, hn]

lemma tree_succ (ha : a ≠ 0) : σ.tree d (l + 1) a =
    a :: (List.range σ.fan).flatMap fun j => σ.tree d l (σ.ptr (d a) j) := by
  rw [tree, if_neg ha]

lemma inner_succ (ha : a ≠ 0) : σ.inner d (l + 1) a =
    a :: (List.range σ.fan).flatMap fun j => σ.inner d l (σ.ptr (d a) j) := by
  rw [inner, if_neg ha]

lemma leaf_succ (ha : a ≠ 0) (i : ℕ) : σ.leaf d (l + 1) a i =
    σ.leaf d l (σ.ptr (d a) (i / σ.fan ^ l)) (i % σ.fan ^ l) := by
  rw [leaf, if_neg ha]

/-- A leaf below one child. -/
lemma leaf_mul_add {j k : ℕ} (ha : a ≠ 0) (hk : k < σ.fan ^ l) :
    σ.leaf d (l + 1) a (j * σ.fan ^ l + k) = σ.leaf d l (σ.ptr (d a) j) k := by
  rw [leaf_succ ha, Nat.mul_comm, Nat.mul_add_div (by omega), Nat.div_eq_of_lt hk, Nat.add_zero,
    Nat.mul_add_mod, Nat.mod_eq_of_lt hk]

lemma mem_tree_self (ha : a ≠ 0) : a ∈ σ.tree d l a := by
  cases l <;> simp [tree, ha]

lemma inner_subset_tree : σ.inner d l a ⊆ σ.tree d l a := by
  induction l generalizing a with
  | zero => simp [inner]
  | succ l ih =>
    by_cases ha : a = 0
    · simp [ha]
    · rw [inner_succ ha, tree_succ ha]
      refine List.cons_subset_cons _ fun b hb => ?_
      obtain ⟨j, hj, hb⟩ := List.mem_flatMap.mp hb
      exact List.mem_flatMap.mpr ⟨j, hj, ih hb⟩

/-! ## Children -/

/-- The children split into one of them and the others. -/
lemma flatMap_range_perm {f : ℕ → List ℕ} {n j : ℕ} (hj : j < n) :
    ((List.range n).flatMap f).Perm (f j ++ ((List.range n).erase j).flatMap f) :=
  (List.perm_cons_erase (List.mem_range.mpr hj)).flatMap_right f

lemma mem_range_erase {n j k : ℕ} : k ∈ (List.range n).erase j ↔ k ≠ j ∧ k < n := by
  rw [List.nodup_range.mem_erase_iff, List.mem_range]

/-- The blocks of a tree: its root, those below one child, and those below the others. -/
lemma tree_perm_child {j : ℕ} (ha : a ≠ 0) (hj : j < σ.fan) :
    (σ.tree d (l + 1) a).Perm (σ.tree d l (σ.ptr (d a) j) ++
      (a :: ((List.range σ.fan).erase j).flatMap fun k => σ.tree d l (σ.ptr (d a) k))) := by
  rw [tree_succ ha]
  exact ((flatMap_range_perm hj).cons a).trans List.perm_middle.symm

lemma tree_child_subset {j : ℕ} (ha : a ≠ 0) (hj : j < σ.fan) :
    σ.tree d l (σ.ptr (d a) j) ⊆ σ.tree d (l + 1) a := by
  intro b hb
  rw [tree_succ ha]
  exact List.mem_cons_of_mem _ (List.mem_flatMap.mpr ⟨j, List.mem_range.mpr hj, hb⟩)

lemma inner_child_subset {j : ℕ} (ha : a ≠ 0) (hj : j < σ.fan) :
    σ.inner d l (σ.ptr (d a) j) ⊆ σ.inner d (l + 1) a := by
  intro b hb
  rw [inner_succ ha]
  exact List.mem_cons_of_mem _ (List.mem_flatMap.mpr ⟨j, List.mem_range.mpr hj, hb⟩)

lemma mem_inner_self (ha : a ≠ 0) : a ∈ σ.inner d (l + 1) a := by
  rw [inner_succ ha]
  exact List.mem_cons_self

/-- In a tree without repetitions, the root and the other children are apart from a child. -/
lemma disjoint_child {j : ℕ} (ha : a ≠ 0) (hj : j < σ.fan)
    (hnd : (σ.tree d (l + 1) a).Nodup) :
    (σ.tree d l (σ.ptr (d a) j)).Nodup ∧ a ∉ σ.tree d l (σ.ptr (d a) j) ∧
      ∀ k, k < σ.fan → k ≠ j →
        List.Disjoint (σ.tree d l (σ.ptr (d a) j)) (σ.tree d l (σ.ptr (d a) k)) := by
  rw [(tree_perm_child ha hj).nodup_iff, List.nodup_append'] at hnd
  obtain ⟨hchild, -, hdisj⟩ := hnd
  refine ⟨hchild, fun h => hdisj h List.mem_cons_self, fun k hk hkj b hb hb' => ?_⟩
  exact hdisj hb (List.mem_cons_of_mem _
    (List.mem_flatMap.mpr ⟨k, mem_range_erase.mpr ⟨hkj, hk⟩, hb'⟩))

/-! ## Leaves -/

lemma div_lt_fan (hi : i < σ.fan ^ (l + 1)) : i / σ.fan ^ l < σ.fan := by
  refine Nat.div_lt_of_lt_mul ?_
  rwa [pow_succ] at hi

lemma mod_lt_pow (hi : i < σ.fan ^ (l + 1)) : i % σ.fan ^ l < σ.fan ^ l := by
  refine Nat.mod_lt _ (Nat.pos_of_ne_zero fun h => ?_)
  rw [pow_succ, h] at hi
  omega

/-- A leaf is a block of the tree. -/
lemma leaf_mem_tree (hi : i < σ.fan ^ l) (h : σ.leaf d l a i ≠ 0) :
    σ.leaf d l a i ∈ σ.tree d l a := by
  induction l generalizing a i with
  | zero => exact mem_tree_self h
  | succ l ih =>
    have ha : a ≠ 0 := fun ha => h (by rw [ha, leaf_null])
    rw [leaf_succ ha] at h ⊢
    exact tree_child_subset ha (div_lt_fan hi) (ih (mod_lt_pow hi) h)

/-- A leaf holds no pointers of the tree. -/
lemma leaf_notMem_inner (hnd : (σ.tree d l a).Nodup) (hi : i < σ.fan ^ l)
    (h : σ.leaf d l a i ≠ 0) : σ.leaf d l a i ∉ σ.inner d l a := by
  induction l generalizing a i with
  | zero => simp [inner]
  | succ l ih =>
    have ha : a ≠ 0 := fun ha => h (by rw [ha, leaf_null])
    obtain ⟨hnd', hroot, hdisj⟩ := disjoint_child ha (div_lt_fan hi) hnd
    rw [leaf_succ ha] at h ⊢
    have hmem := leaf_mem_tree (mod_lt_pow hi) h
    rw [inner_succ ha, List.mem_cons, not_or]
    refine ⟨fun heq => hroot ?_, fun hin => ?_⟩
    · rw [heq] at hmem
      exact hmem
    · obtain ⟨k, hk, hin⟩ := List.mem_flatMap.mp hin
      by_cases hkj : k = i / σ.fan ^ l
      · exact ih hnd' (mod_lt_pow hi) h (hkj ▸ hin)
      · exact hdisj k (List.mem_range.mp hk) hkj hmem (inner_subset_tree hin)

/-- Different indices have different leaves. -/
lemma leaf_inj {k : ℕ} (hnd : (σ.tree d l a).Nodup) (hi : i < σ.fan ^ l) (hk : k < σ.fan ^ l)
    (h : σ.leaf d l a i ≠ 0) (heq : σ.leaf d l a i = σ.leaf d l a k) : i = k := by
  induction l generalizing a i k with
  | zero =>
    rw [pow_zero] at hi hk
    omega
  | succ l ih =>
    have ha : a ≠ 0 := fun ha => h (by rw [ha, leaf_null])
    obtain ⟨hnd', -, hdisj⟩ := disjoint_child ha (div_lt_fan hi) hnd
    rw [leaf_succ ha] at h
    rw [leaf_succ ha, leaf_succ ha] at heq
    have hmem := leaf_mem_tree (mod_lt_pow hi) h
    have hdiv : k / σ.fan ^ l = i / σ.fan ^ l := by
      by_contra hne
      exact hdisj _ (div_lt_fan hk) hne hmem (heq ▸ leaf_mem_tree (mod_lt_pow hk) (heq ▸ h))
    have hmod : i % σ.fan ^ l = k % σ.fan ^ l := by
      rw [hdiv] at heq
      exact ih hnd' (mod_lt_pow hi) (mod_lt_pow hk) h heq
    rw [← Nat.div_add_mod i (σ.fan ^ l), ← Nat.div_add_mod k (σ.fan ^ l), hdiv, hmod]

/-! ## Memories that agree on a tree -/

/-- Only the blocks that hold pointers matter. -/
lemma tree_congr (h : ∀ b ∈ σ.inner d l a, d₁ b = d b) : σ.tree d₁ l a = σ.tree d l a := by
  induction l generalizing a with
  | zero => rfl
  | succ l ih =>
    by_cases ha : a = 0
    · simp [ha]
    rw [tree_succ ha, tree_succ ha, h a (mem_inner_self ha)]
    refine congrArg _ (List.flatMap_congr fun j hj => ih fun b hb => ?_)
    exact h b (inner_child_subset ha (List.mem_range.mp hj) hb)

lemma inner_congr (h : ∀ b ∈ σ.inner d l a, d₁ b = d b) : σ.inner d₁ l a = σ.inner d l a := by
  induction l generalizing a with
  | zero => rfl
  | succ l ih =>
    by_cases ha : a = 0
    · simp [ha]
    rw [inner_succ ha, inner_succ ha, h a (mem_inner_self ha)]
    refine congrArg _ (List.flatMap_congr fun j hj => ih fun b hb => ?_)
    exact h b (inner_child_subset ha (List.mem_range.mp hj) hb)

lemma leaf_congr (hi : i < σ.fan ^ l) (h : ∀ b ∈ σ.inner d l a, d₁ b = d b) :
    σ.leaf d₁ l a i = σ.leaf d l a i := by
  induction l generalizing a i with
  | zero => rfl
  | succ l ih =>
    by_cases ha : a = 0
    · simp [ha]
    rw [leaf_succ ha, leaf_succ ha, h a (mem_inner_self ha)]
    exact ih (mod_lt_pow hi) fun b hb => h b (inner_child_subset ha (div_lt_fan hi) hb)

lemma need_congr (n : ℕ) (h : ∀ b ∈ σ.inner d l a, d₁ b = d b) :
    σ.need d₁ l a n = σ.need d l a n := by
  induction l generalizing a n with
  | zero => rfl
  | succ l ih =>
    by_cases ha : a = 0
    · rw [ha]
      exact need_null n
    simp only [need, if_neg ha, h a (mem_inner_self ha)]
    congr 2
    refine Finset.sum_congr rfl fun j hj => ih _ fun b hb => ?_
    exact h b (inner_child_subset ha (Finset.mem_range.mp hj) hb)

/-! ## A block without pointers -/

section Blank

variable {c : ℕ} (hc : c ≠ 0) (hblank : ∀ j < σ.fan, σ.ptr (d c) j = 0)

include hc hblank

lemma tree_blank : σ.tree d l c = [c] := by
  cases l with
  | zero => simp [tree, hc]
  | succ l =>
    rw [tree_succ hc, List.cons_eq_cons, List.flatMap_eq_nil_iff]
    refine ⟨rfl, fun j hj => ?_⟩
    rw [hblank j (List.mem_range.mp hj), tree_null]

lemma leaf_blank (hi : i < σ.fan ^ (l + 1)) : σ.leaf d (l + 1) c i = 0 := by
  rw [leaf_succ hc, hblank _ (div_lt_fan hi), leaf_null]

lemma need_blank {n : ℕ} (hn : n ≠ 0) : σ.need d l c n + 1 = σ.need d₁ l 0 n := by
  cases l with
  | zero => simp [need, hc, hn]
  | succ l =>
    simp only [need, if_neg hn, if_neg hc, if_true, Nat.zero_add]
    rw [Nat.add_comm 1]
    congr 1
    refine Finset.sum_congr rfl fun j hj => ?_
    rw [hblank j (Finset.mem_range.mp hj)]
    exact need_null _

end Blank

/-! ## Adding what is missing on the way to a leaf -/

/-- The tree below `a₁` in the memory `d₁` is the tree below `a` in `d` with the blocks `new` added
on the way to leaf `i`.  The blocks in `M` are not of the tree and may change in any way. -/
structure Extends (σ : PtrTree β) (M : ℕ → Prop) (d d₁ : ℕ → β) (l a a₁ i : ℕ) (new : List ℕ) :
    Prop where
  /-- The blocks of the tree. -/
  tree : (σ.tree d₁ l a₁).Perm (new ++ σ.tree d l a)
  /-- Only new blocks can have begun to hold pointers. -/
  inner : σ.inner d₁ l a₁ ⊆ new ++ σ.inner d l a
  /-- The other leaves are unchanged. -/
  keep : ∀ k, k < σ.fan ^ l → k ≠ i → σ.leaf d₁ l a₁ k = σ.leaf d l a k
  /-- So is leaf `i` if it was there. -/
  same : σ.leaf d l a i ≠ 0 → σ.leaf d₁ l a₁ i = σ.leaf d l a i
  /-- The blocks that changed. -/
  frame : ∀ b, ¬ M b → b ∉ σ.inner d l a → b ∉ new → d₁ b = d b
  /-- What is missing on the way to the first leaves. -/
  need : ∀ n, i < n → n ≤ σ.fan ^ l → σ.need d₁ l a₁ n + new.length = σ.need d l a n

variable {M : ℕ → Prop} {a₁ a2 : ℕ}

lemma Extends.refl : Extends σ M d d l a a i [] where
  tree := List.Perm.refl _
  inner := List.Subset.refl _
  keep := fun _ _ _ => rfl
  same := fun _ => rfl
  frame := fun _ _ _ _ => rfl
  need := fun _ _ _ => rfl

lemma Extends.mono {N : ℕ → Prop} {new : List ℕ} (h : Extends σ M d d₁ l a a₁ i new)
    (hMN : ∀ b, M b → N b) : Extends σ N d d₁ l a a₁ i new :=
  ⟨h.tree, h.inner, h.keep, h.same, fun b hb => h.frame b fun hM => hb (hMN b hM), h.need⟩

lemma Extends.trans {new new' : List ℕ} (h : Extends σ M d d₁ l a a₁ i new)
    (h' : Extends σ M d₁ d2 l a₁ a2 i new') : Extends σ M d d2 l a a2 i (new' ++ new) where
  tree := by
    refine h'.tree.trans ?_
    rw [List.append_assoc]
    exact h.tree.append_left new'
  inner := by
    intro b hb
    rcases List.mem_append.mp (h'.inner hb) with hb | hb
    · simp [hb]
    · rcases List.mem_append.mp (h.inner hb) with hb | hb <;> simp [hb]
  keep := fun k hk hki => (h'.keep k hk hki).trans (h.keep k hk hki)
  same := fun hne => by
    have hsame := h.same hne
    exact (h'.same (hsame ▸ hne)).trans hsame
  frame := fun b hb hin hnew => by
    rw [List.mem_append, not_or] at hnew
    have hin' : b ∉ σ.inner d₁ l a₁ := fun hb' => by
      rcases List.mem_append.mp (h.inner hb') with hb' | hb'
      · exact hnew.2 hb'
      · exact hin hb'
    exact (h'.frame b hb hin' hnew.1).trans (h.frame b hb hin hnew.2)
  need := fun n hin hn => by
    have h1 := h.need n hin hn
    have h2 := h'.need n hin hn
    rw [List.length_append]
    omega

/-- Blocks within a list stay within it, with the new blocks added. -/
lemma within_of_perm {old new now used : List ℕ} (h : now.Perm (new ++ old)) (hnew : (new ++ used).Nodup)
    (hnd : old.Nodup) (hsub : old ⊆ used) : now.Nodup ∧ now ⊆ new ++ used := by
  obtain ⟨hnew, -, hdisj⟩ := List.nodup_append'.mp hnew
  constructor
  · rw [h.nodup_iff, List.nodup_append']
    exact ⟨hnew, hnd, fun b hb hb' => hdisj hb (hsub hb')⟩
  · exact fun b hb => List.mem_append.mpr ((List.mem_append.mp (h.mem_iff.mp hb)).imp_right (hsub ·))

lemma Extends.within {new used : List ℕ} (h : Extends σ M d d₁ l a a₁ i new)
    (hnew : (new ++ used).Nodup) (hnd : (σ.tree d l a).Nodup) (hsub : σ.tree d l a ⊆ used) :
    (σ.tree d₁ l a₁).Nodup ∧ σ.tree d₁ l a₁ ⊆ new ++ used :=
  within_of_perm h.tree hnew hnd hsub

/-- A null pointer that is made to point at a fresh block without pointers. -/
lemma Extends.fresh {c : ℕ} (hc : c ≠ 0) (hblank : ∀ j < σ.fan, σ.ptr (d₁ c) j = 0)
    (hi : i < σ.fan ^ l) (hframe : ∀ b, ¬ M b → b ≠ c → d₁ b = d b) :
    Extends σ M d d₁ l 0 c i [c] where
  tree := by rw [tree_blank hc hblank, tree_null, List.append_nil]
  inner := by
    rw [inner_null, List.append_nil, ← tree_blank hc hblank]
    exact inner_subset_tree
  keep := fun k hk hki => by
    rw [leaf_null]
    cases l with
    | zero =>
      rw [pow_zero] at hi hk
      omega
    | succ l => exact leaf_blank hc hblank hk
  same := fun hne => absurd leaf_null hne
  frame := fun b hb _ hbc => hframe b hb fun heq => hbc (List.mem_singleton.mpr heq)
  need := fun n hn _ => need_blank hc hblank (by omega)

/-- The index below a child, for a leaf among the first `n`. -/
lemma mod_lt_min {n : ℕ} (hi : i < σ.fan ^ (l + 1)) (hn : i < n) :
    i % σ.fan ^ l < min (n - i / σ.fan ^ l * σ.fan ^ l) (σ.fan ^ l) := by
  have h := Nat.div_add_mod i (σ.fan ^ l)
  have hlt := mod_lt_pow hi
  rw [Nat.mul_comm] at h
  omega

@[simp] lemma need_zero : σ.need d l a 0 = 0 := by cases l <;> simp [need]

/-- Nothing is missing on the way to leaves that are there. -/
lemma need_eq_zero {n : ℕ} (hn : n ≤ σ.fan ^ l) (h : ∀ i, i < n → σ.leaf d l a i ≠ 0) :
    σ.need d l a n = 0 := by
  induction l generalizing a n with
  | zero =>
    rw [need, if_neg]
    rintro ⟨rfl, hn0⟩
    exact h 0 (Nat.pos_of_ne_zero hn0) rfl
  | succ l ih =>
    rw [need]
    split_ifs with hn0 ha
    · rfl
    · exact absurd (by rw [ha, leaf_null]) (h 0 (Nat.pos_of_ne_zero hn0))
    · rw [Nat.zero_add]
      refine Finset.sum_eq_zero fun j _ => ih (min_le_right _ _) fun k hk => ?_
      have hk' : k < σ.fan ^ l := hk.trans_le (min_le_right _ _)
      have hlt : j * σ.fan ^ l + k < n := by omega
      have hleaf := h _ hlt
      rwa [leaf_mul_add ha hk'] at hleaf

/-- The way to the first leaf below a pointer takes at most one block for each level. -/
lemma need_one_le : σ.need d l a 1 ≤ l + if a = 0 then 1 else 0 := by
  induction l generalizing a with
  | zero => by_cases ha : a = 0 <;> simp [need, ha]
  | succ l ih =>
    rw [need, if_neg one_ne_zero]
    by_cases hfan : σ.fan = 0
    · rw [hfan]
      simp
    have hpos : 0 < σ.fan ^ l := Nat.pow_pos (Nat.pos_of_ne_zero hfan)
    -- only the first child is on the way
    rw [Finset.sum_eq_single 0]
    · have hone : min (1 - 0 * σ.fan ^ l) (σ.fan ^ l) = 1 := by omega
      rw [hone]
      have := ih (a := if a = 0 then 0 else σ.ptr (d a) 0)
      split_ifs at this ⊢ <;> omega
    · intro k _ hk
      have : σ.fan ^ l ≤ k * σ.fan ^ l := Nat.le_mul_of_pos_left _ (Nat.pos_of_ne_zero hk)
      rw [show 1 - k * σ.fan ^ l = 0 by omega, Nat.zero_min, need_zero]
    · exact fun h => absurd (Finset.mem_range.mpr (Nat.pos_of_ne_zero hfan)) h

/-- If the leaves below the first children are there and the next one takes a block for each level,
then the pointer of its child is null. -/
lemma ptr_eq_zero_of_need {j : ℕ} (ha : a ≠ 0) (hj : j < σ.fan)
    (hleaf : ∀ i, i < j * σ.fan ^ l → σ.leaf d (l + 1) a i ≠ 0)
    (hneed : σ.need d (l + 1) a (j * σ.fan ^ l + 1) = l + 1) : σ.ptr (d a) j = 0 := by
  have hpos : 0 < σ.fan ^ l := Nat.pow_pos (by omega)
  rw [need, if_neg (Nat.succ_ne_zero _), if_neg ha, Nat.zero_add,
    Finset.sum_eq_single j] at hneed
  · simp only [if_neg ha] at hneed
    rw [show min (j * σ.fan ^ l + 1 - j * σ.fan ^ l) (σ.fan ^ l) = 1 by omega] at hneed
    by_contra hne
    have := need_one_le (σ := σ) (d := d) (l := l) (a := σ.ptr (d a) j)
    rw [if_neg hne] at this
    omega
  · intro k _ hk
    simp only [if_neg ha]
    rcases Nat.lt_or_gt_of_ne hk with hk | hk
    · have hle : (k + 1) * σ.fan ^ l ≤ j * σ.fan ^ l := Nat.mul_le_mul_right _ hk
      rw [Nat.succ_mul] at hle
      refine need_eq_zero (min_le_right _ _) fun i hi => ?_
      have hi' : i < σ.fan ^ l := hi.trans_le (min_le_right _ _)
      have := hleaf (k * σ.fan ^ l + i) (by omega)
      rwa [leaf_mul_add ha hi'] at this
    · have hle : (j + 1) * σ.fan ^ l ≤ k * σ.fan ^ l := Nat.mul_le_mul_right _ hk
      rw [Nat.succ_mul] at hle
      rw [show j * σ.fan ^ l + 1 - k * σ.fan ^ l = 0 by omega, Nat.zero_min, need_zero]
  · exact fun h => absurd (Finset.mem_range.mpr hj) h

/-- What is missing below a child is missing below the root. -/
lemma need_child_le {j n : ℕ} (ha : a ≠ 0) (hj : j < σ.fan) (hn : n ≠ 0) :
    σ.need d l (σ.ptr (d a) j) (min (n - j * σ.fan ^ l) (σ.fan ^ l)) ≤ σ.need d (l + 1) a n := by
  simp only [need, if_neg hn, if_neg ha, Nat.zero_add]
  exact Finset.single_le_sum
    (f := fun j => σ.need d l (σ.ptr (d a) j) (min (n - j * σ.fan ^ l) (σ.fan ^ l)))
    (fun _ _ => Nat.zero_le _) (Finset.mem_range.mpr hj)

/-- What is added below one child is added to the whole tree, when the other pointers of the root
stay as they are. -/
lemma Extends.node {new : List ℕ} (ha : a ≠ 0) (hnd : (σ.tree d (l + 1) a).Nodup)
    (hM : ∀ b ∈ σ.tree d (l + 1) a, ¬ M b) (hi : i < σ.fan ^ (l + 1))
    (hnew : ∀ b ∈ new, b ∉ σ.tree d (l + 1) a)
    (hother : ∀ j, j < σ.fan → j ≠ i / σ.fan ^ l → σ.ptr (d₁ a) j = σ.ptr (d a) j)
    (h : Extends σ (fun b => M b ∨ b = a) d d₁ l (σ.ptr (d a) (i / σ.fan ^ l))
      (σ.ptr (d₁ a) (i / σ.fan ^ l)) (i % σ.fan ^ l) new) :
    Extends σ M d d₁ (l + 1) a a i new := by
  have hj := div_lt_fan hi
  obtain ⟨-, -, hdisj⟩ := disjoint_child ha hj hnd
  -- the other children are not touched
  have hoff : ∀ k, k < σ.fan → k ≠ i / σ.fan ^ l →
      ∀ b ∈ σ.inner d l (σ.ptr (d a) k), d₁ b = d b := by
    intro k hk hkj b hb
    have hbt := inner_subset_tree hb
    have hbt' := tree_child_subset ha hk hbt
    refine h.frame b ?_ (fun hin => hdisj k hk hkj (inner_subset_tree hin) hbt)
      fun hin => hnew b hin hbt'
    rintro (hMb | rfl)
    · exact hM b hbt' hMb
    · exact (disjoint_child ha hk hnd).2.1 hbt
  refine ⟨?_, ?_, fun k hk hki => ?_, fun hne => ?_, fun b hb hin hbn => ?_, fun n hin hn => ?_⟩
  · have hothers : (((List.range σ.fan).erase (i / σ.fan ^ l)).flatMap fun k =>
        σ.tree d₁ l (σ.ptr (d₁ a) k)) = ((List.range σ.fan).erase (i / σ.fan ^ l)).flatMap
        fun k => σ.tree d l (σ.ptr (d a) k) := by
      refine List.flatMap_congr fun k hk => ?_
      obtain ⟨hkj, hk⟩ := mem_range_erase.mp hk
      rw [hother k hk hkj]
      exact tree_congr (hoff k hk hkj)
    refine (tree_perm_child ha hj).trans ?_
    rw [hothers]
    refine (h.tree.append_right _).trans ?_
    rw [List.append_assoc]
    exact (tree_perm_child ha hj).symm.append_left new
  · rw [inner_succ ha]
    intro b hb
    rcases List.mem_cons.mp hb with rfl | hb
    · exact List.mem_append_right _ (mem_inner_self ha)
    obtain ⟨k, hk, hb⟩ := List.mem_flatMap.mp hb
    have hk := List.mem_range.mp hk
    by_cases hkj : k = i / σ.fan ^ l
    · subst hkj
      rcases List.mem_append.mp (h.inner hb) with hb | hb
      · exact List.mem_append_left _ hb
      · exact List.mem_append_right _ (inner_child_subset ha hk hb)
    · rw [hother k hk hkj, inner_congr (hoff k hk hkj)] at hb
      exact List.mem_append_right _ (inner_child_subset ha hk hb)
  · rw [leaf_succ ha, leaf_succ ha]
    by_cases hkj : k / σ.fan ^ l = i / σ.fan ^ l
    · rw [hkj]
      refine h.keep _ (mod_lt_pow hk) fun hmod => hki ?_
      rw [← Nat.div_add_mod k (σ.fan ^ l), ← Nat.div_add_mod i (σ.fan ^ l), hkj, hmod]
    · rw [hother _ (div_lt_fan hk) hkj]
      exact leaf_congr (mod_lt_pow hk) (hoff _ (div_lt_fan hk) hkj)
  · rw [leaf_succ ha] at hne
    rw [leaf_succ ha, leaf_succ ha]
    exact h.same hne
  · have hba : b ≠ a := by
      rintro rfl
      exact hin (mem_inner_self ha)
    refine h.frame b ?_ (fun hin' => hin (inner_child_subset ha hj hin')) hbn
    rintro (hMb | hab)
    · exact hb hMb
    · exact hba hab
  · have hpos : n ≠ 0 := by omega
    have hmem : i / σ.fan ^ l ∈ Finset.range σ.fan := Finset.mem_range.mpr hj
    simp only [PtrTree.need, if_neg hpos, if_neg ha, Nat.zero_add]
    rw [← Finset.add_sum_erase _ _ hmem, ← Finset.add_sum_erase _ _ hmem]
    have hchild := h.need _ (mod_lt_min hi hin) (min_le_right _ _)
    have hrest : ∀ k ∈ (Finset.range σ.fan).erase (i / σ.fan ^ l),
        σ.need d₁ l (σ.ptr (d₁ a) k) (min (n - k * σ.fan ^ l) (σ.fan ^ l)) =
          σ.need d l (σ.ptr (d a) k) (min (n - k * σ.fan ^ l) (σ.fan ^ l)) := by
      intro k hk
      rw [Finset.mem_erase, Finset.mem_range] at hk
      rw [hother k hk.2 hk.1]
      exact need_congr _ (hoff k hk.2 hk.1)
    rw [Finset.sum_congr rfl hrest]
    omega

end PtrTree
