import Xv7.Umalloc.Heap

/-!
# `free`

The loop of `free` stops at the last node of the free list below the block.  From there the block is
joined with the free block behind it and then with the one before it, or linked between them.
-/

namespace Xv7.Umalloc

open Extent Circle Prog

/-- What the headers of a heap contain. -/
structure Holds (base : ℕ) (m : Mem) (fs live : List Extent) : Prop where
  ring : Ring (ptr m) (base :: fs.map start)
  size_base : size m base = 0
  sizes : ∀ e ∈ fs ++ live, 8 * size m e.start = e.len

/-- The state of the allocator holds a heap with these free and live blocks. -/
structure Rep (base : ℕ) (s : State) (fs live : List Extent) : Prop where
  layout : Layout base fs live s.given s.top
  holds : Holds base s.mem fs live
  freep : s.freep ∈ base :: fs.map start

/-! ## The loop -/

section Loop

variable {m : Mem} {bp p x : ℕ} {pre post : List ℕ}

lemma spot_eq_find (m : Mem) (bp n p : ℕ) : spot m bp n p = find (ptr m) (ends m bp) n p := by
  induction n generalizing p with
  | zero => rfl
  | succ n ih => rw [spot, find, ih]

/-- A node of a ring points to the next one, and the last one to the first. -/
lemma ptr_of_ring {l1 l2 : List ℕ} (h : Ring (ptr m) (l1 ++ x :: l2)) :
    ptr m x = (l2 ++ l1).headD x := h.rotate.1

/-- The loop stops at the last node below the block, and only there. -/
lemma ends_iff (hring : Ring (ptr m) (pre ++ p :: post))
    (hsorted : (pre ++ p :: post).Pairwise (· < ·)) (hp : p < bp) (hpost : ∀ y ∈ post, bp < y)
    (hx : x ∈ pre ++ p :: post) : ends m bp x = true ↔ x = p := by
  obtain ⟨hpre, hsorted', hbelow⟩ := List.pairwise_append.1 hsorted
  rcases List.mem_append.1 hx with hx | hx
  · -- below `p` the next node is still below the block
    obtain ⟨a, c, rfl⟩ := List.append_of_mem hx
    have hnext : x < ptr m x ∧ ptr m x ≤ p := by
      rw [List.append_assoc, List.cons_append] at hring
      rw [ptr_of_ring hring]
      cases c with
      | nil => exact ⟨hbelow x (by simp) p (by simp), le_rfl⟩
      | cons y c =>
        have hy := (List.pairwise_append.1 hpre).2.1
        exact ⟨(List.pairwise_cons.1 hy).1 y List.mem_cons_self, (hbelow y (by simp) p (by simp)).le⟩
    have hxp : x < p := hbelow x (by simp) p (by simp)
    simp only [ends, Bool.or_eq_true, Bool.and_eq_true, decide_eq_true_eq]
    omega
  · rcases List.mem_cons.1 hx with rfl | hx
    · have hnext : bp < ptr m x ∨ ptr m x ≤ x := by
        rw [ptr_of_ring hring]
        cases post with
        | cons y post => exact .inl (hpost y List.mem_cons_self)
        | nil =>
          cases pre with
          | nil => exact .inr le_rfl
          | cons y pre => exact .inr (hbelow y List.mem_cons_self x List.mem_cons_self).le
      refine iff_of_true ?_ rfl
      simp only [ends, Bool.or_eq_true, Bool.and_eq_true, decide_eq_true_eq]
      omega
    · -- above the block only the way from the last node to the first comes back below it
      have hbx := hpost x hx
      obtain ⟨a, c, rfl⟩ := List.append_of_mem hx
      have hnext : x < ptr m x ∨ ptr m x < bp := by
        rw [show pre ++ p :: (a ++ x :: c) = (pre ++ p :: a) ++ x :: c by simp] at hring
        rw [ptr_of_ring hring]
        cases c with
        | cons y c =>
          have hy := (List.pairwise_append.1 (List.pairwise_cons.1 hsorted').2).2.1
          exact .inl ((List.pairwise_cons.1 hy).1 y List.mem_cons_self)
        | nil =>
          cases pre with
          | nil => exact .inr hp
          | cons y pre =>
            exact .inr ((hbelow y List.mem_cons_self p List.mem_cons_self).trans hp)
      simp only [ends, Bool.or_eq_true, Bool.and_eq_true, decide_eq_true_eq]
      omega

end Loop

/-! ## Joining blocks -/

section Join

variable {base top : ℕ} {m : Mem} {u v l r given : List Extent} {b : Extent} {pre : List ℕ} {p : ℕ}

/-- The pointers of the free list before and behind a node. -/
lemma Holds.segs {live : List Extent} (hm : Holds base m (u ++ v) live)
    (hpre : base :: u.map start = pre ++ [p]) :
    Seg (ptr m) pre p ∧ ptr m p = (v.map start).headD base ∧ Seg (ptr m) (v.map start) base := by
  have hseg : Seg (ptr m) ((base :: u.map start) ++ v.map start) base := by
    have hring : Seg (ptr m) (base :: (u ++ v).map start) base := hm.ring
    rwa [List.map_append] at hring
  obtain ⟨hu, hv⟩ := seg_append.1 hseg
  rw [hpre] at hu
  obtain ⟨hu, hp⟩ := seg_append.1 hu
  exact ⟨hu, hp.1, hv⟩

/-- A block ends where `plus` says, up to the end of the address space. -/
lemma plus_size {e : Extent} (hsize : 8 * size m e.start = e.len) :
    plus e.start (size m e.start) = e.stop % 2 ^ 32 := by rw [plus, hsize]; rfl

/-- After the first step the block may be larger, and it points to what is free behind it. -/
structure Upper (base : ℕ) (m m' : Mem) (u v l r given : List Extent) (top : ℕ) (b b' : Extent)
    (rest : List Extent) : Prop where
  start_eq : b'.start = b.start
  len_le : b.len ≤ b'.len
  layout : Layout base (u ++ rest) (l ++ b' :: r) given top
  behind : ∀ e ∈ rest, b'.stop < e.start
  size_eq : 8 * size m' b.start = b'.len
  ptr_eq : ptr m' b.start = (rest.map start).headD base
  seg : Seg (ptr m) (rest.map start) base
  sub : rest ⊆ v
  changes : Changes m m' [b.start]

lemma headD_starts_lt (hl : Layout base (u ++ v) l given top) :
    (v.map start).headD base < 2 ^ 32 := by
  have hbase := hl.base_le
  have htop := hl.top_le
  cases v with
  | nil => exact (show base < 2 ^ 32 by omega)
  | cons c v =>
    have hc := (hl.bounds (e := c) (by simp)).2
    have hlen := hl.eight_le c (by simp)
    unfold stop at hc
    exact (show c.start < 2 ^ 32 by omega)

/-- The block is joined with the one behind it if they touch. -/
lemma joinUpper_touch {c : Extent} (hl : Layout base (u ++ c :: v) (l ++ b :: r) given top)
    (hm : Holds base m (u ++ c :: v) (l ++ b :: r))
    (hpre : base :: u.map start = pre ++ [p]) (hpb : p < b.start) (hbc : b.stop = c.start) :
    Upper base m (joinUpper m p b.start) u (c :: v) l r given top b ⟨b.start, b.len + c.len⟩ v := by
  obtain ⟨_, hp, hnext, hseg⟩ := hm.segs hpre
  have hsize := hm.sizes b (by simp)
  have hcsize := hm.sizes c (by simp)
  have hlen := hl.eight_le b (by simp)
  have hclen := hl.eight_le c (by simp)
  have hc := (hl.bounds (e := c) (by simp)).2
  have htop := hl.top_le
  unfold stop at hc
  have hsum : size m b.start + size m c.start < 2 ^ 32 := by
    unfold stop at hbc
    omega
  have htouch : plus b.start (size m b.start) = ptr m p := by
    rw [plus_size hsize, hbc, Nat.mod_eq_of_lt (by omega), hp]
    rfl
  have hoffc : Off c.start b.start := by
    refine hl.off (by simp) (by simp) ?_
    unfold stop at hbc
    omega
  have hoffp : Off p b.start := by
    have hmem : p ∈ base :: u.map start := by simp [hpre]
    refine hl.off ?_ (by simp) hpb.ne
    rcases List.mem_cons.1 hmem with rfl | hmem
    · exact List.mem_cons_self
    · simp only [List.map_append, List.mem_cons, List.mem_append, hmem, true_or, or_true]
  have hchange : Changes m (setSize m b.start (size m b.start + size m c.start)) [b.start] :=
    changes_setSize
  have heq : joinUpper m p b.start =
      setPtr (setSize m b.start (size m b.start + size m c.start)) b.start
        ((v.map start).headD base) := by
    have hptrp := (hchange.ptr_eq (h := p) (by simpa using hoffp)).trans hp
    have hptrc := (hchange.ptr_eq (h := c.start) (by simpa using hoffc)).trans hnext
    simp only [List.map_cons, List.headD_cons] at hp hptrp
    rw [joinUpper, if_pos htouch]
    simp only [hp, hptrp, hptrc]
  rw [heq]
  refine ⟨rfl, Nat.le_add_right _ _, hl.join_upper hbc, ?_, ?_, ?_, hseg,
    List.subset_cons_self c v, hchange.trans changes_setPtr⟩
  · intro e he
    have horder := (List.pairwise_append.1 hl.order).2.1
    have hlt := (List.pairwise_cons.1 horder).1 e he
    unfold stop at hbc hlt ⊢
    simp only
    omega
  · rw [size_setPtr, size_setSize hsum]
    simp only
    omega
  · exact ptr_setPtr (headD_starts_lt (hl.join_upper hbc))

/-- Else it only points to what is free behind it. -/
lemma joinUpper_apart (hl : Layout base (u ++ v) (l ++ b :: r) given top)
    (hm : Holds base m (u ++ v) (l ++ b :: r)) (hv : ∀ e ∈ v, b.stop < e.start)
    (hpre : base :: u.map start = pre ++ [p]) :
    Upper base m (joinUpper m p b.start) u v l r given top b b v := by
  obtain ⟨_, hp, hseg⟩ := hm.segs hpre
  have hsize := hm.sizes b (by simp)
  have hb := hl.bounds (e := b) (by simp)
  have hlen := hl.eight_le b (by simp)
  have htop := hl.top_le
  have hno : plus b.start (size m b.start) ≠ ptr m p := by
    rw [plus_size hsize, hp]
    unfold stop at hb hv ⊢
    cases v with
    | nil =>
      have hbase := hl.base_pos
      show (b.start + b.len) % 2 ^ 32 ≠ base
      omega
    | cons c v =>
      have hlt := hv c List.mem_cons_self
      have hc := (hl.bounds (e := c) (by simp)).2
      have hclen := hl.eight_le c (by simp)
      unfold stop at hc
      show (b.start + b.len) % 2 ^ 32 ≠ c.start
      omega
  rw [joinUpper, if_neg hno, hp]
  refine ⟨rfl, le_rfl, hl, hv, ?_, ptr_setPtr (headD_starts_lt hl), hseg, List.Subset.refl v,
    changes_setPtr⟩
  rw [size_setPtr, hsize]

lemma joinUpper_spec (hl : Layout base (u ++ v) (l ++ b :: r) given top)
    (hm : Holds base m (u ++ v) (l ++ b :: r)) (hv : ∀ e ∈ v, b.stop ≤ e.start)
    (hpre : base :: u.map start = pre ++ [p]) (hpb : p < b.start) :
    ∃ b' rest, Upper base m (joinUpper m p b.start) u v l r given top b b' rest := by
  cases v with
  | nil => exact ⟨_, _, joinUpper_apart hl hm (by simp) hpre⟩
  | cons c v =>
    rcases (hv c List.mem_cons_self).eq_or_lt with hbc | hbc
    · exact ⟨_, _, joinUpper_touch hl hm hpre hpb hbc⟩
    · refine ⟨_, _, joinUpper_apart hl hm ?_ hpre⟩
      -- the free blocks are in address order
      have horder := (List.pairwise_append.1 hl.order).2.1
      rintro e (_ | ⟨_, he⟩)
      · exact hbc
      · have hlt := (List.pairwise_cons.1 horder).1 e he
        unfold stop at hlt hbc ⊢
        omega

/-- The node before a block is `base`, or the last free block below it. -/
lemma eq_base_or_last (hpre : base :: u.map start = pre ++ [p]) :
    (u = [] ∧ p = base ∧ pre = []) ∨
      ∃ u' c, u = u' ++ [c] ∧ p = c.start ∧ pre = base :: u'.map start := by
  rcases List.eq_nil_or_concat' u with rfl | ⟨u', c, rfl⟩
  · left
    cases pre with
    | nil => exact ⟨rfl, (List.cons.inj hpre).1.symm, rfl⟩
    | cons x pre => simp at hpre
  · right
    have hlast : (base :: u'.map start) ++ [c.start] = pre ++ [p] := by simpa using hpre
    obtain ⟨hpre, hp⟩ := List.append_inj' hlast rfl
    exact ⟨u', c, rfl, (List.cons.inj hp).1.symm, hpre.symm⟩

/-- The headers of a heap whose block `b` has not been linked yet: the free list leads to `p`, and the
block to what is free behind it. -/
structure Ready (base : ℕ) (m : Mem) (u v l r given : List Extent) (top : ℕ) (b : Extent)
    (pre : List ℕ) (p : ℕ) : Prop where
  layout : Layout base (u ++ v) (l ++ b :: r) given top
  behind : ∀ e ∈ v, b.stop < e.start
  split : base :: u.map start = pre ++ [p]
  segu : Seg (ptr m) pre p
  segv : Seg (ptr m) (v.map start) base
  ptr_eq : ptr m b.start = (v.map start).headD base
  size_base : size m base = 0
  sizes : ∀ e ∈ (u ++ v) ++ (l ++ b :: r), 8 * size m e.start = e.len

namespace Ready

variable (h : Ready base m u v l r given top b pre p)

include h

lemma p_mem : p ∈ base :: ((u ++ v) ++ (l ++ b :: r)).map start := by
  have hmem : p ∈ base :: u.map start := by simp [h.split]
  simp only [List.map_append, List.mem_cons, List.mem_append] at hmem ⊢
  tauto

lemma off_p {x : ℕ} (hx : x ∈ base :: ((u ++ v) ++ (l ++ b :: r)).map start) (hne : x ≠ p) :
    ∀ k ∈ [p], Off x k := by
  simpa using h.layout.off hx h.p_mem hne

lemma sorted : (pre ++ p :: v.map start).Pairwise (· < ·) := by
  have hsorted := h.layout.starts_sorted
  rwa [List.map_append, ← List.cons_append, h.split, List.append_assoc] at hsorted

lemma seg_pre {m' : Mem} (hc : Changes m m' [p]) : Seg (ptr m') pre p := by
  refine h.segu.congr fun x hx => hc.ptr_eq (h.off_p ?_ ?_)
  · have hmem : x ∈ base :: u.map start := h.split ▸ List.mem_append_left _ hx
    simp only [List.map_append, List.mem_cons, List.mem_append] at hmem ⊢
    tauto
  · exact ((List.pairwise_append.1 h.sorted).2.2 x hx p List.mem_cons_self).ne

lemma seg_post {m' : Mem} (hc : Changes m m' [p]) : Seg (ptr m') (v.map start) base := by
  refine h.segv.congr fun x hx => hc.ptr_eq (h.off_p ?_ ?_)
  · simp only [List.map_append, List.mem_cons, List.mem_append]
    tauto
  · have hlt := (List.pairwise_cons.1 (List.pairwise_append.1 h.sorted).2.1).1 x hx
    exact hlt.ne'

lemma b_start_lt : b.start < 2 ^ 32 := by
  have hb := (h.layout.bounds (e := b) (by simp)).2
  have hlen := h.layout.eight_le b (by simp)
  have htop := h.layout.top_le
  unfold stop at hb
  omega

/-- The block is linked behind `p`. -/
lemma link (hpb : p ≠ b.start) :
    Holds base (setPtr m p b.start) (u ++ b :: v) (l ++ r) := by
  have hc : Changes m (setPtr m p b.start) [p] := changes_setPtr
  have hsize : ∀ x ∈ base :: ((u ++ v) ++ (l ++ b :: r)).map start,
      size (setPtr m p b.start) x = size m x := by
    intro x hx
    by_cases hxp : x = p
    · rw [hxp, size_setPtr]
    · exact hc.size_eq (h.off_p hx hxp)
  refine ⟨?_, (hsize base List.mem_cons_self).trans h.size_base, ?_⟩
  · show Seg _ (base :: (u ++ b :: v).map start) base
    rw [List.map_append, ← List.cons_append, h.split, List.map_cons]
    refine seg_append.2 ⟨seg_append.2 ⟨h.seg_pre hc, ptr_setPtr h.b_start_lt, trivial⟩, ?_,
      h.seg_post hc⟩
    rw [hc.ptr_eq (h.off_p (by simp) hpb.symm), h.ptr_eq]
  · intro e he
    have hmem : e ∈ (u ++ v) ++ (l ++ b :: r) := by
      simp only [List.mem_append, List.mem_cons] at he ⊢
      tauto
    rw [hsize _ (List.mem_cons_of_mem base (List.mem_map_of_mem hmem)), h.sizes e hmem]

end Ready

/-- The block is joined with the free one before it. -/
lemma Ready.join {c : Extent}
    (h : Ready base m (u ++ [c]) v l r given top b (base :: u.map start) c.start)
    (hcb : c.stop = b.start) :
    Holds base (joinLower m c.start b.start) (u ++ ⟨c.start, c.len + b.len⟩ :: v) (l ++ r) := by
  have hcsize := h.sizes c (by simp)
  have hbsize := h.sizes b (by simp)
  have hclen := h.layout.eight_le c (by simp)
  have hb := (h.layout.bounds (e := b) (by simp)).2
  have htop := h.layout.top_le
  have hbound := h.b_start_lt
  have hplus : plus c.start (size m c.start) = b.start := by
    rw [plus_size hcsize, hcb, Nat.mod_eq_of_lt hbound]
  have hsum : size m c.start + size m b.start < 2 ^ 32 := by
    unfold stop at hb hcb
    omega
  have hne : b.start ≠ c.start := by
    unfold stop at hcb
    omega
  have hnext : ptr (setSize m c.start (size m c.start + size m b.start)) b.start =
      (v.map start).headD base :=
    (changes_setSize.ptr_eq (h.off_p (by simp) hne)).trans h.ptr_eq
  have heq : joinLower m c.start b.start =
      setPtr (setSize m c.start (size m c.start + size m b.start)) c.start
        ((v.map start).headD base) := by
    simp only [joinLower, if_pos hplus, hnext]
  have hc : Changes m (joinLower m c.start b.start) [c.start] :=
    heq ▸ changes_setSize.trans changes_setPtr
  refine ⟨?_, ?_, ?_⟩
  · show Seg _ (base :: (u ++ ⟨c.start, c.len + b.len⟩ :: v).map start) base
    have hsplit : base :: (u ++ ⟨c.start, c.len + b.len⟩ :: v).map start =
        (base :: u.map start) ++ c.start :: v.map start := by simp
    rw [hsplit]
    refine seg_append.2 ⟨h.seg_pre hc, ?_, h.seg_post hc⟩
    rw [heq, ptr_setPtr (headD_starts_lt h.layout)]
  · have hbc : base ≠ c.start := by
      have hle := (h.layout.bounds (e := c) (by simp)).1
      omega
    rw [hc.size_eq (h.off_p List.mem_cons_self hbc), h.size_base]
  · intro e he
    have hsplit : ((u ++ [c]) ++ v) ++ (l ++ b :: r) = u ++ c :: (v ++ (l ++ b :: r)) := by simp
    have hother : e ∈ u ++ (v ++ (l ++ b :: r)) → 8 * size (joinLower m c.start b.start) e.start = e.len := by
      intro hmem
      have hne := h.layout.start_ne hsplit hmem
      have hall : e ∈ ((u ++ [c]) ++ v) ++ (l ++ b :: r) := by
        rw [hsplit]
        exact List.mem_append.2 ((List.mem_append.1 hmem).imp_right (List.mem_cons_of_mem c))
      rw [hc.size_eq (h.off_p (List.mem_cons_of_mem base (List.mem_map_of_mem hall)) hne),
        h.sizes e hall]
    simp only [List.mem_append, List.mem_cons] at he
    rcases he with (he | rfl | he) | he | he
    · exact hother (by simp [he])
    · show 8 * size (joinLower m c.start b.start) c.start = c.len + b.len
      rw [heq, size_setPtr, size_setSize hsum]
      omega
    · exact hother (by simp [he])
    · exact hother (by simp [he])
    · exact hother (by simp [he])

lemma changes_joinLower (m : Mem) (p bp : ℕ) : Changes m (joinLower m p bp) [p] := by
  unfold joinLower
  split_ifs
  · exact changes_setSize.trans changes_setPtr
  · exact changes_setPtr

/-- The first step makes the block ready for the second. -/
lemma Upper.ready {m' : Mem} {b' : Extent} {rest : List Extent}
    (h : Upper base m m' u v l r given top b b' rest) (hm : Holds base m (u ++ v) (l ++ b :: r))
    (hpre : base :: u.map start = pre ++ [p]) :
    Ready base m' u rest l r given top b' pre p := by
  have hsplit : (u ++ rest) ++ (l ++ b' :: r) = (u ++ rest ++ l) ++ b' :: r := by simp
  have hoff : ∀ {x : ℕ}, x ∈ base :: ((u ++ rest) ++ (l ++ b' :: r)).map start → x ≠ b.start →
      ∀ k ∈ [b.start], Off x k := by
    intro x hx hne
    have hoff := h.layout.off hx (by simp) (h.start_eq ▸ hne)
    rw [h.start_eq] at hoff
    simpa using hoff
  have hother : ∀ e ∈ (u ++ rest ++ l) ++ r,
      e ∈ (u ++ rest) ++ (l ++ b' :: r) ∧ e.start ≠ b.start := by
    intro e he
    refine ⟨?_, h.start_eq ▸ h.layout.start_ne hsplit he⟩
    rw [hsplit]
    exact List.mem_append.2 ((List.mem_append.1 he).imp_right (List.mem_cons_of_mem b'))
  have hbase : base ≠ b.start := by
    have hle := (h.layout.bounds (e := b') (by simp)).1
    rw [h.start_eq] at hle
    omega
  refine ⟨h.layout, h.behind, hpre, ?_, ?_, ?_, ?_, ?_⟩
  · refine (hm.segs hpre).1.congr fun x hx => h.changes.ptr_eq ?_
    have hmem : x ∈ base :: u.map start := hpre ▸ List.mem_append_left _ hx
    rcases List.mem_cons.1 hmem with rfl | hmem
    · exact hoff List.mem_cons_self hbase
    · obtain ⟨e, he, rfl⟩ := List.mem_map.1 hmem
      obtain ⟨hall, hne⟩ := hother e (by simp [he])
      exact hoff (List.mem_cons_of_mem base (List.mem_map_of_mem hall)) hne
  · refine h.seg.congr fun x hx => h.changes.ptr_eq ?_
    obtain ⟨e, he, rfl⟩ := List.mem_map.1 hx
    obtain ⟨hall, hne⟩ := hother e (by simp [he])
    exact hoff (List.mem_cons_of_mem base (List.mem_map_of_mem hall)) hne
  · rw [h.start_eq, h.ptr_eq]
  · rw [h.changes.size_eq (hoff List.mem_cons_self hbase), hm.size_base]
  · intro e he
    rw [hsplit] at he
    by_cases hb : e = b'
    · rw [hb, h.start_eq, h.size_eq]
    · have hmem : e ∈ (u ++ rest ++ l) ++ r := by
        rcases List.mem_append.1 he with he | he
        · exact List.mem_append_left _ he
        · exact List.mem_append_right _ ((List.mem_cons.1 he).resolve_left hb)
      obtain ⟨hall, hne⟩ := hother e hmem
      rw [h.changes.size_eq (hoff (List.mem_cons_of_mem base (List.mem_map_of_mem hall)) hne)]
      refine hm.sizes e ?_
      simp only [List.mem_append] at hmem
      rcases hmem with ((he | he) | he) | he
      · simp [he]
      · simp [h.sub he]
      · simp [he]
      · simp [he]

/-- The block is linked behind the node before it if they do not touch. -/
lemma Ready.joinLower_link (h : Ready base m u v l r given top b pre p)
    (hu : ∀ e ∈ u, e.stop < b.start) (hp : plus p (size m p) ≠ b.start) (hpb : p ≠ b.start) :
    Layout base (u ++ b :: v) (l ++ r) given top ∧
      Holds base (Umalloc.joinLower m p b.start) (u ++ b :: v) (l ++ r) := by
  refine ⟨h.layout.release hu h.behind, ?_⟩
  rw [Umalloc.joinLower, if_neg hp]
  exact h.link hpb

/-- The block is joined with the one before it if they touch, and else linked behind that one. -/
lemma Ready.joinLower (h : Ready base m u v l r given top b pre p)
    (hu : ∀ e ∈ u, e.stop ≤ b.start) :
    ∃ fs, Layout base fs (l ++ r) given top ∧
      Holds base (Umalloc.joinLower m p b.start) fs (l ++ r) ∧
      p ∈ base :: fs.map start ∧ ∃ e ∈ fs, b.len ≤ e.len := by
  have hb := (h.layout.bounds (e := b) (by simp)).1
  have hbound := h.b_start_lt
  rcases eq_base_or_last h.split with ⟨rfl, rfl, rfl⟩ | ⟨u, c, rfl, rfl, rfl⟩
  · have hno : plus p (size m p) ≠ b.start := by
      rw [h.size_base, plus]
      omega
    obtain ⟨hlayout, hholds⟩ := h.joinLower_link (by simp) hno (by omega)
    exact ⟨_, hlayout, hholds, List.mem_cons_self, b, by simp, le_rfl⟩
  · have hcsize := h.sizes c (by simp)
    have hclen := h.layout.eight_le c (by simp)
    have hcb := hu c (by simp)
    have hlayout := h.layout
    rw [List.append_assoc, List.singleton_append] at hlayout
    rcases hcb.eq_or_lt with htouch | hlt
    · exact ⟨_, hlayout.join_lower htouch h.behind, h.join htouch, by simp,
        ⟨c.start, c.len + b.len⟩, by simp, Nat.le_add_left _ _⟩
    · have hno : plus c.start (size m c.start) ≠ b.start := by
        rw [plus_size hcsize, Nat.mod_eq_of_lt (by omega)]
        exact hlt.ne
      have hbelow : ∀ e ∈ u ++ [c], e.stop < b.start := by
        intro e he
        rcases List.mem_append.1 he with he | he
        · have horder := (List.pairwise_append.1 hlayout.order).2.2 e he c List.mem_cons_self
          unfold stop at horder hlt ⊢
          omega
        · exact List.mem_singleton.1 he ▸ hlt
      have hpb : c.start ≠ b.start := by
        unfold stop at hlt
        omega
      obtain ⟨hlayout, hholds⟩ := h.joinLower_link hbelow hno hpb
      exact ⟨_, hlayout, hholds, by simp, b, by simp, le_rfl⟩

end Join

/-! ## The function -/

section Free

variable {base : ℕ} {s : State} {fs l r : List Extent} {b : Extent}

/-- Where a live block lies in the free list, and that the loop stops there. -/
lemma Rep.spot (h : Rep base s fs (l ++ b :: r)) {fuel : ℕ} (hfuel : fs.length + 1 ≤ fuel) :
    ∃ u v pre p, fs = u ++ v ∧ (∀ e ∈ u, e.stop ≤ b.start) ∧ (∀ e ∈ v, b.stop ≤ e.start) ∧
      base :: u.map start = pre ++ [p] ∧ p < b.start ∧ spot s.mem b.start fuel s.freep = some p := by
  obtain ⟨u, v, rfl, hu, hv⟩ := h.layout.split (b := b) (by simp)
  obtain ⟨pre, p, hpre⟩ : ∃ pre p, base :: u.map start = pre ++ [p] :=
    (List.eq_nil_or_concat' _).resolve_left (by simp)
  have hb := h.layout.bounds (e := b) (by simp)
  have hblen := h.layout.eight_le b (by simp)
  have hpb : p < b.start := by
    rcases eq_base_or_last hpre with ⟨rfl, rfl, rfl⟩ | ⟨u, c, rfl, rfl, rfl⟩
    · omega
    · have hc := hu c (by simp)
      have hclen := h.layout.eight_le c (by simp)
      unfold stop at hc
      omega
  have hring := h.holds.ring
  have hsorted := h.layout.starts_sorted
  have hfreep := h.freep
  have hnodes : base :: (u ++ v).map start = pre ++ p :: v.map start := by
    rw [List.map_append, ← List.cons_append, hpre, List.append_assoc, List.singleton_append]
  rw [hnodes] at hring hsorted hfreep
  have hpost : ∀ x ∈ v.map start, b.start < x := by
    intro x hx
    obtain ⟨e, he, rfl⟩ := List.mem_map.1 hx
    have hle := hv e he
    unfold stop at hle
    omega
  have hlen : (pre ++ p :: v.map start).length ≤ fuel := by
    rw [← hnodes, List.length_cons, List.length_map]
    exact hfuel
  refine ⟨u, v, pre, p, rfl, hu, hv, hpre, hpb, ?_⟩
  rw [spot_eq_find]
  exact hring.find_eq hfreep (by simp) (fun x hx => ends_iff hring hsorted hpb hpost hx) hlen

/-- What `free` leaves of the heap. -/
structure Freed (base : ℕ) (s s' : State) (fs live : List Extent) (b : Extent) : Prop where
  rep : ∃ fs', Rep base s' fs' live ∧ ∃ e ∈ fs', b.len ≤ e.len
  given : s'.given = s.given
  top : s'.top = s.top
  changes : Changes s.mem s'.mem (b.start :: base :: fs.map start)

lemma free_eq {fuel ap p : ℕ} (h : spot s.mem (ap - 8) fuel s.freep = some p) :
    free fuel ap s = .ok ((), { s with
      mem := joinLower (joinUpper s.mem p (ap - 8)) p (ap - 8), freep := p }) := by
  have hget : (get : Alloc State) s = .ok (s, s) := rfl
  rw [free, bind_of_ok hget]
  simp only [h]
  rfl

/-- A live block becomes free, alone or as a part of a larger block. -/
lemma Rep.free (h : Rep base s fs (l ++ b :: r)) {fuel : ℕ} (hfuel : fs.length + 1 ≤ fuel) :
    Ends (free fuel (b.start + 8)) s (fun _ s' => Freed base s s' fs (l ++ r) b)
      (fun _ => False) := by
  obtain ⟨u, v, pre, p, rfl, hu, hv, hpre, hpb, hspot⟩ := h.spot hfuel
  obtain ⟨b', rest, hupper⟩ := joinUpper_spec h.layout h.holds hv hpre hpb
  obtain ⟨fs', hlayout, hholds, hp, e, he, hle⟩ :=
    (hupper.ready h.holds hpre).joinLower fun e he => (hu e he).trans_eq hupper.start_eq.symm
  rw [hupper.start_eq] at hholds
  have hpmem : p ∈ base :: (u ++ v).map start := by
    rw [List.map_append, ← List.cons_append, hpre]
    simp
  have hchanges : Changes s.mem (joinLower (joinUpper s.mem p b.start) p b.start)
      (b.start :: base :: (u ++ v).map start) := by
    refine (hupper.changes.mono ?_).trans ((changes_joinLower _ p b.start).mono ?_)
    · simp
    · simpa using List.mem_cons_of_mem b.start hpmem
  refine .of_return (free_eq (by rwa [Nat.add_sub_cancel])) ?_
  rw [Nat.add_sub_cancel]
  generalize joinLower (joinUpper s.mem p b.start) p b.start = m at hholds hchanges ⊢
  exact ⟨⟨fs', ⟨hlayout, hholds, hp⟩, e, he, hupper.len_le.trans hle⟩, rfl, rfl, hchanges⟩

end Free

end Xv7.Umalloc
