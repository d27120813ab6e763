import Xv7.Lib.PtrStore

/-!
# What a walk through a pointer tree writes

`path` lists the blocks on the way to a leaf.  In a store that keeps a log of the blocks it writes,
growing a tree towards a leaf writes blocks of the allocator and blocks of that path only, and the
pointers that were there stay.  The paths to two leaves below the same last indirect block differ in the
leaf alone.
-/

universe u v w

open Fallible

namespace PtrTree

variable {β : Type w} {σ : PtrTree β} {d d' : ℕ → β} {l a i : ℕ}

/-- The blocks on the way from the pointer `a` to leaf `i`, which is the last one. -/
def path (σ : PtrTree β) (d : ℕ → β) : ℕ → ℕ → ℕ → List ℕ
  | 0, a, _ => [a]
  | l + 1, a, i => a :: path σ d l (σ.ptr (d a) (i / σ.fan ^ l)) (i % σ.fan ^ l)

@[simp] lemma length_path (d : ℕ → β) (l a i : ℕ) : (σ.path d l a i).length = l + 1 := by
  induction l generalizing a i with
  | zero => rfl
  | succ l ih => rw [path, List.length_cons, ih]

lemma mem_path_self (d : ℕ → β) (l a i : ℕ) : a ∈ σ.path d l a i := by
  cases l <;> exact List.mem_cons_self

lemma leaf_mem_path (h : σ.leaf d l a i ≠ 0) : σ.leaf d l a i ∈ σ.path d l a i := by
  induction l generalizing a i with
  | zero => exact List.mem_cons_self
  | succ l ih =>
    have ha : a ≠ 0 := fun ha => h (by rw [ha, leaf_null])
    rw [leaf_succ ha] at h ⊢
    exact List.mem_cons_of_mem _ (ih h)

/-- The indirect blocks of a path do not depend on the place of the leaf in the last of them. -/
lemma exists_path_succ (d : ℕ → β) (l a i : ℕ) :
    ∃ x, σ.path d (l + 1) a i = σ.path d l a (i / σ.fan) ++ [x] := by
  induction l generalizing a i with
  | zero => exact ⟨_, rfl⟩
  | succ l ih =>
    obtain ⟨x, hx⟩ := ih (σ.ptr (d a) (i / σ.fan ^ (l + 1))) (i % σ.fan ^ (l + 1))
    refine ⟨x, ?_⟩
    have hdiv : i / σ.fan / σ.fan ^ l = i / σ.fan ^ (l + 1) := by
      rw [Nat.div_div_eq_div_mul, ← pow_succ']
    have hmod : i % σ.fan ^ (l + 1) / σ.fan = i / σ.fan % σ.fan ^ l := by
      rw [pow_succ', Nat.mod_mul_right_div_self]
    rw [path, hx, hmod]
    conv_rhs => rw [path, hdiv]
    rfl

/-- The pointers that are not null stay. -/
def Kept (σ : PtrTree β) (d d' : ℕ → β) (b : ℕ) : Prop :=
  ∀ k, σ.ptr (d b) k ≠ 0 → σ.ptr (d' b) k = σ.ptr (d b) k

lemma Kept.of_eq {b : ℕ} (h : d' b = d b) : σ.Kept d d' b := fun _ _ => by rw [h]

lemma Kept.trans {d1 : ℕ → β} {b : ℕ} (h : σ.Kept d d1 b) (h' : σ.Kept d1 d' b) : σ.Kept d d' b :=
  fun k hk => (h' k (h k hk ▸ hk)).trans (h k hk)

/-- So does the way to a leaf that was there. -/
lemma path_eq_of_kept (hd : ∀ b ∈ σ.inner d l a, σ.Kept d d' b) (hi : i < σ.fan ^ l)
    (hleaf : σ.leaf d l a i ≠ 0) : σ.path d' l a i = σ.path d l a i := by
  induction l generalizing a i with
  | zero => rfl
  | succ l ih =>
    have ha : a ≠ 0 := fun ha => hleaf (by rw [ha, leaf_null])
    have hidx := div_lt_fan hi
    rw [leaf_succ ha] at hleaf
    have hptr : σ.ptr (d a) (i / σ.fan ^ l) ≠ 0 := fun h0 => hleaf (by rw [h0, leaf_null])
    have hself : a ∈ σ.inner d (l + 1) a := by
      rw [inner_succ ha]
      exact List.mem_cons_self
    rw [path, path, hd a hself _ hptr,
      ih (fun b hb => hd b (inner_child_subset ha hidx hb)) (mod_lt_pow hi) hleaf]

end PtrTree

namespace PtrStore

variable {β : Type w} {σ : PtrTree β} {S : Type u} {ε : Type v} (st : PtrStore σ S ε)

/-- The store keeps a log: a change of a block is logged, and an allocation logs a block of the
allocator, which satisfies `N`, and the new block. -/
structure Logs (log : S → List ℕ) (N : ℕ → Prop) : Prop where
  log_set : ∀ s a x, log (st.set s a x) = log s ++ [a]
  log_alloc : ∀ {s c s'}, st.alloc s = .ok (c, s') → ∃ m, N m ∧ log s' = log s ++ [m, c]

/-- From `s` to `s'` the blocks `used` keep their pointers, and only blocks with `N` and blocks of a path
are logged. -/
structure Wrote (log : S → List ℕ) (N : ℕ → Prop) (s s' : S) (used path : List ℕ) : Prop where
  kept : ∀ b ∈ used, σ.Kept (st.disk s) (st.disk s') b
  logged : ∃ l, log s' = log s ++ l ∧ ∀ b ∈ l, N b ∨ b ∈ path

variable {st} {log : S → List ℕ} {N : ℕ → Prop} {s s' s1 : S} {used path path' : List ℕ}

lemma Wrote.refl : st.Wrote log N s s used path :=
  ⟨fun _ _ => .of_eq rfl, [], by simp, by simp⟩

lemma Wrote.trans {new : List ℕ} (h : st.Wrote log N s s1 used path)
    (h' : st.Wrote log N s1 s' (new ++ used) path') (hpath : path ⊆ path') :
    st.Wrote log N s s' used path' := by
  obtain ⟨l, hl, hmem⟩ := h.logged
  obtain ⟨l', hl', hmem'⟩ := h'.logged
  refine ⟨fun b hb => (h.kept b hb).trans (h'.kept b (List.mem_append_right _ hb)), l ++ l', ?_,
    fun b hb => ?_⟩
  · rw [hl', hl, List.append_assoc]
  · rcases List.mem_append.mp hb with hb | hb
    · exact (hmem b hb).imp_right fun hb => hpath hb
    · exact hmem' b hb

lemma Wrote.mono (h : st.Wrote log N s s' used path) (hpath : path ⊆ path') :
    st.Wrote log N s s' used path' := by
  obtain ⟨l, hl, hmem⟩ := h.logged
  exact ⟨h.kept, l, hl, fun b hb => (hmem b hb).imp_right fun hb => hpath hb⟩

variable {M : ℕ → Prop} {Inv : S → List ℕ → Prop} {cap : ℕ} (hst : st.Lawful M Inv cap)
  (hlog : st.Logs log N) {l a i : ℕ}

include hst hlog

/-- An allocation. -/
lemma Lawful.alloc_wrote {c : ℕ} (h : Inv s used) (hc : st.alloc s = .ok (c, s')) :
    st.Wrote log N s s' used [c] := by
  obtain ⟨m, hm, hl⟩ := hlog.log_alloc hc
  refine ⟨fun b hb => .of_eq (hst.alloc_frame h hc (hst.apart h hb) ?_), [m, c], hl, by simp [hm]⟩
  rintro rfl
  exact (hst.alloc_fresh h hc).1 hb

/-- One level of the walk. -/
lemma Lawful.entry_wrote {idx next : ℕ} (h : Inv s used) (he : st.entry a idx s = .ok (next, s')) :
    st.Wrote log N s s' used [a, next] := by
  unfold entry at he
  split_ifs at he with hnull
  · obtain ⟨⟨c, s0⟩, hc, he⟩ := bind_eq_ok.mp he
    simp only [Except.ok.injEq, Prod.mk.injEq] at he
    obtain ⟨rfl, rfl⟩ := he
    have halloc := hst.alloc_wrote hlog h hc
    obtain ⟨l, hl, hmem⟩ := halloc.logged
    refine ⟨fun b hb => ?_, l ++ [a], ?_, fun b hb => ?_⟩
    · rcases eq_or_ne b a with rfl | hba
      · intro k hk
        have hne : k ≠ idx := by
          rintro rfl
          exact hk hnull
        rw [hst.disk_set, Function.update_self, hst.ptr_setPtr_of_ne hne, halloc.kept b hb k hk]
      · refine (halloc.kept b hb).trans (.of_eq ?_)
        rw [hst.disk_set, Function.update_of_ne hba]
    · rw [hlog.log_set, hl, List.append_assoc]
    · rcases List.mem_append.mp hb with hb | hb
      · exact (hmem b hb).imp_right fun hb => by simp [List.mem_singleton.mp hb]
      · exact .inr (by simp [List.mem_singleton.mp hb])
  · simp only [Except.ok.injEq, Prod.mk.injEq] at he
    obtain ⟨rfl, rfl⟩ := he
    exact .refl

/-- The walk writes on its path. -/
lemma Lawful.walk_wrote {leaf : ℕ} (ha : a ≠ 0) (h : Inv s used) (hi : i < σ.fan ^ l)
    (hnd : (σ.tree (st.disk s) l a).Nodup) (hsub : σ.tree (st.disk s) l a ⊆ used)
    (hw : st.walk l a i s = .ok (leaf, s')) :
    st.Wrote log N s s' used (σ.path (st.disk s') l a i) := by
  induction l generalizing a i s used with
  | zero =>
    simp only [walk, Except.ok.injEq, Prod.mk.injEq] at hw
    obtain ⟨rfl, rfl⟩ := hw
    exact .refl
  | succ l ih =>
    obtain ⟨⟨next, s1⟩, he, hw⟩ := bind_eq_ok.mp hw
    obtain ⟨new1, hext1, h1, hptr, hnext, -⟩ := hst.entry_spec ha h hi hnd hsub he
    obtain ⟨hnd1, hsub1⟩ := hst.child_within ha hi hnd hsub hext1 h1 hptr
    have hrest := ih hnext h1 (PtrTree.mod_lt_pow hi) hnd1 hsub1 hw
    -- the entry that was found or made is still there at the end
    have hself : a ∈ new1 ++ used :=
      List.mem_append_right _ (hsub (PtrTree.mem_tree_self ha))
    have hpath : σ.path (st.disk s') (l + 1) a i =
        a :: σ.path (st.disk s') l next (i % σ.fan ^ l) := by
      rw [PtrTree.path, hrest.kept a hself _ (hptr.symm ▸ hnext), hptr]
    rw [hpath]
    have hentry := hst.entry_wrote hlog h he
    refine hentry.trans (hrest.mono (List.subset_cons_self _ _)) ?_
    intro b hb
    rcases List.mem_cons.mp hb with rfl | hb
    · exact List.mem_cons_self
    · rw [List.mem_singleton.mp hb]
      exact List.mem_cons_of_mem _ (PtrTree.mem_path_self _ _ _ _)

/-- The whole way from a pointer. -/
lemma Lawful.reach_wrote {leaf a' : ℕ} (h : Inv s used) (hi : i < σ.fan ^ l)
    (hnd : (σ.tree (st.disk s) l a).Nodup) (hsub : σ.tree (st.disk s) l a ⊆ used)
    (hr : st.reach l a i s = .ok (leaf, a', s')) :
    st.Wrote log N s s' used (σ.path (st.disk s') l a' i) ∧ (a ≠ 0 → a' = a) := by
  obtain ⟨⟨a1, s1⟩, hroot, hr⟩ := bind_eq_ok.mp hr
  obtain ⟨⟨leaf', s2⟩, hw, hr⟩ := bind_eq_ok.mp hr
  simp only [Except.ok.injEq, Prod.mk.injEq] at hr
  obtain ⟨rfl, rfl, rfl⟩ := hr
  obtain ⟨new1, hext1, h1, ha1, -⟩ := hst.root_spec h hi hroot
  obtain ⟨hnd1, hsub1⟩ := hext1.within (hst.nodup h1) hnd hsub
  have hrest := hst.walk_wrote hlog ha1 h1 hi hnd1 hsub1 hw
  unfold root at hroot
  split_ifs at hroot with ha
  · refine ⟨(hst.alloc_wrote hlog h hroot).trans hrest ?_, fun hne => absurd ha hne⟩
    intro b hb
    rw [List.mem_singleton.mp hb]
    exact PtrTree.mem_path_self _ _ _ _
  · simp only [Except.ok.injEq, Prod.mk.injEq] at hroot
    obtain ⟨rfl, rfl⟩ := hroot
    have hnone : st.Wrote log N s s used [] := .refl
    exact ⟨hnone.trans hrest (List.nil_subset _), fun _ => rfl⟩

omit hst hlog

/-! ## Forgetting the log -/

section Forget

variable {S' : Type u} {st' : PtrStore σ S' ε} {f : S → S'}

/-- The second store does what the first one does, and its states hold less. -/
structure Forgets (st : PtrStore σ S ε) (st' : PtrStore σ S' ε) (f : S → S') : Prop where
  disk : ∀ s, st'.disk (f s) = st.disk s
  set : ∀ s a x, st'.set (f s) a x = f (st.set s a x)
  setPtr : st'.setPtr = st.setPtr
  alloc : ∀ s, st'.alloc (f s) = (st.alloc s).map (Prod.map id f)

variable (hf : Forgets st st' f)

include hf

lemma Forgets.entry (a idx : ℕ) (s : S) :
    st'.entry a idx (f s) = (st.entry a idx s).map (Prod.map id f) := by
  unfold PtrStore.entry
  rw [hf.disk, hf.alloc]
  split_ifs
  · cases st.alloc s with
    | error e => rfl
    | ok r =>
      simp only [Except.map, Prod.map, ok_bind, hf.disk, hf.set, hf.setPtr]
      rfl
  · rfl

lemma Forgets.walk (l a i : ℕ) (s : S) :
    st'.walk l a i (f s) = (st.walk l a i s).map (Prod.map id f) := by
  induction l generalizing a i s with
  | zero => rfl
  | succ l ih =>
    rw [PtrStore.walk, PtrStore.walk, hf.entry]
    cases st.entry a (i / σ.fan ^ l) s with
    | error e => rfl
    | ok r => exact ih _ _ _

lemma Forgets.reach (l a i : ℕ) (s : S) :
    st'.reach l a i (f s) = (st.reach l a i s).map (Prod.map id (Prod.map id f)) := by
  have hroot : st'.root a (f s) = (st.root a s).map (Prod.map id f) := by
    unfold PtrStore.root
    split_ifs
    · exact hf.alloc s
    · rfl
  rw [PtrStore.reach, PtrStore.reach, hroot]
  cases st.root a s with
  | error e => rfl
  | ok r =>
    simp only [Except.map, Prod.map, ok_bind, id_eq, hf.walk]
    cases st.walk l r.1 i r.2 <;> rfl

end Forget

end PtrStore
