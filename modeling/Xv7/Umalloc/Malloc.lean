import Xv7.Umalloc.Free

/-!
# `malloc`

The loop of `malloc` goes round the free list from `freep`.  It takes the first block that is large
enough, or its end; when it is back at `freep` without one, it gets memory from `morecore`, which frees
it, and goes round again.
-/

namespace Xv7.Umalloc

open Extent Circle Prog

/-! ## What is kept -/

/-- No byte of the blocks is changed, their headers included. -/
def Keeps (live : List Extent) (m m' : Mem) : Prop := ∀ e ∈ live, ∀ x, e.ind x = 1 → m' x = m x

/-- The header lies outside the blocks. -/
def Clear (live : List Extent) (h : ℕ) : Prop := ∀ e ∈ live, ∀ x, e.ind x = 1 → x < h ∨ h + 8 ≤ x

section Keeps

variable {base top : ℕ} {m m' m'' : Mem} {fs live given l r : List Extent} {b c : Extent}

lemma Keeps.refl (live : List Extent) (m : Mem) : Keeps live m m := fun _ _ _ _ => rfl

lemma Keeps.trans (h : Keeps live m m') (h' : Keeps live m' m'') : Keeps live m m'' :=
  fun e he x hx => (h' e he x hx).trans (h e he x hx)

lemma Keeps.mono {live' : List Extent} (h : Keeps live m m') (hsub : live' ⊆ live) :
    Keeps live' m m' := fun e he => h e (hsub he)

lemma Changes.keeps {hs : List ℕ} (h : Changes m m' hs) (hclear : ∀ k ∈ hs, Clear live k) :
    Keeps live m m' := fun e he x hx => h x fun k hk => hclear k hk e he x hx

lemma Layout.clear_base (h : Layout base fs live given top) : Clear live base := by
  intro e he x hx
  have hle := (h.bounds (List.mem_append_right fs he)).1
  rw [ind_eq_one] at hx
  omega

/-- A header inside a free block lies outside the live ones. -/
lemma Layout.clear_free (h : Layout base fs live given top) (hc : c ∈ fs) {k : ℕ}
    (hk : c.start ≤ k) (hk' : k + 8 ≤ c.stop) : Clear live k := by
  intro e he x hx
  have hapart := (List.pairwise_append.1 h.pairwise_apart).2.2 c hc e he
  rw [ind_eq_one] at hx
  unfold Apart at hapart
  omega

lemma Layout.clear_start (h : Layout base fs live given top) {k : ℕ}
    (hk : k ∈ base :: fs.map start) : Clear live k := by
  rcases List.mem_cons.1 hk with rfl | hk
  · exact h.clear_base
  · obtain ⟨c, hc, rfl⟩ := List.mem_map.1 hk
    refine h.clear_free hc le_rfl ?_
    have hlen := h.eight_le c (List.mem_append_left live hc)
    unfold stop
    omega

/-- The header of a live block lies outside the others. -/
lemma Layout.clear_live (h : Layout base fs (l ++ b :: r) given top) : Clear (l ++ r) b.start := by
  intro e he x hx
  have hpair : (b :: (l ++ r)).Pairwise Apart :=
    (List.Perm.pairwise_iff Apart.symm List.perm_middle).1 (List.pairwise_append.1 h.pairwise_apart).2.1
  have hapart := (List.pairwise_cons.1 hpair).1 e he
  have hlen := h.eight_le b (by simp)
  rw [ind_eq_one] at hx
  unfold Apart stop at hapart
  unfold stop at hx
  omega

lemma Freed.keeps {s s' : State} (h : Freed base s s' fs (l ++ r) b)
    (hl : Layout base fs (l ++ b :: r) given top) : Keeps (l ++ r) s.mem s'.mem := by
  refine h.changes.keeps fun k hk => ?_
  rcases List.mem_cons.1 hk with rfl | hk
  · exact hl.clear_live
  · have hclear := hl.clear_start hk
    intro e he
    refine hclear e ?_
    rcases List.mem_append.1 he with he | he
    · exact List.mem_append_left _ he
    · exact List.mem_append_right _ (List.mem_cons_of_mem b he)

end Keeps

/-! ## Taking a block -/

/-- The state before the first call. -/
structure Idle (base : ℕ) (s : State) : Prop where
  base_pos : 0 < base
  freep : s.freep = 0
  given : s.given = []
  base_le : base + 8 ≤ s.top
  top_le : s.top ≤ 2 ^ 32

/-- The heap has the live blocks, and a free list once there has been a call. -/
def Heap (base : ℕ) (s : State) (live : List Extent) : Prop :=
  (Idle base s ∧ live = []) ∨ ∃ fs, Rep base s fs live

/-- What a call that asked for `n` bytes leaves: either nothing was taken and the result is null, or a
block with room for them is live and the result points behind its header. -/
structure Taken (base : ℕ) (s s' : State) (live : List Extent) (n r : ℕ) : Prop where
  keeps : Keeps live s.mem s'.mem
  rep : (r = 0 ∧ Heap base s' live) ∨
    ∃ e fs, r = e.start + 8 ∧ n + 8 ≤ e.len ∧ Rep base s' fs (live ++ [e])

/-- A block with room for `n` bytes has been taken, and the result points behind its header. -/
structure Took (base : ℕ) (s s' : State) (live : List Extent) (n r : ℕ) : Prop where
  keeps : Keeps live s.mem s'.mem
  rep : ∃ e fs, r = e.start + 8 ∧ n + 8 ≤ e.len ∧ Rep base s' fs (live ++ [e])

lemma Took.taken {base n r : ℕ} {s s' : State} {live : List Extent}
    (h : Took base s s' live n r) : Taken base s s' live n r := ⟨h.keeps, .inr h.rep⟩

section Carve

variable {base n : ℕ} {s : State} {u v live : List Extent} {c : Extent} {prevp : ℕ}

/-- The node before a free block. -/
lemma Rep.pred {fs : List Extent} (h : Rep base s fs live) {p : ℕ}
    (hprev : prevp ∈ base :: fs.map start) (hptr : ptr s.mem prevp = p)
    (hp : size s.mem p ≠ 0) :
    ∃ u c v pre, fs = u ++ c :: v ∧ p = c.start ∧ base :: u.map start = pre ++ [prevp] := by
  have hmem := h.holds.ring.map_mem hprev
  rw [hptr] at hmem
  rcases List.mem_cons.1 hmem with rfl | hmem
  · exact absurd h.holds.size_base hp
  obtain ⟨c, hc, rfl⟩ := List.mem_map.1 hmem
  obtain ⟨u, v, rfl⟩ := List.append_of_mem hc
  obtain ⟨pre, q, hpre⟩ : ∃ pre q, base :: u.map start = pre ++ [q] :=
    (List.eq_nil_or_concat' _).resolve_left (by simp)
  -- the node before the block in the list points to it as well
  have hq := (h.holds.segs hpre).2.1
  have hqmem : q ∈ base :: (u ++ c :: v).map start := by
    rw [List.map_append, ← List.cons_append, hpre]
    simp
  have hnodup := h.layout.starts_sorted.imp Nat.ne_of_lt
  have heq : prevp = q := h.holds.ring.map_inj hnodup hprev hqmem (hptr.trans hq.symm)
  exact ⟨u, c, v, pre, rfl, rfl, heq ▸ hpre⟩

/-- A free block is taken as a whole. -/
lemma Rep.unlink (h : Rep base s (u ++ c :: v) live) {pre : List ℕ}
    (hpre : base :: u.map start = pre ++ [prevp]) :
    Rep base { s with mem := setPtr s.mem prevp (ptr s.mem c.start), freep := prevp } (u ++ v)
      (live ++ [c]) := by
  obtain ⟨hsegu, _, hnext, hsegv⟩ := h.holds.segs hpre
  have hlayout := h.layout.take
  have hsorted := h.layout.starts_sorted
  rw [List.map_append, ← List.cons_append, hpre, List.map_cons] at hsorted
  have hprev : prevp ∈ base :: ((u ++ v) ++ (live ++ [c])).map start := by
    have hmem : prevp ∈ base :: u.map start := by simp [hpre]
    rcases List.mem_cons.1 hmem with rfl | hmem
    · exact List.mem_cons_self
    · simp only [List.map_append, List.mem_cons, List.mem_append, hmem, true_or, or_true]
  have hoff : ∀ {x : ℕ}, x ∈ base :: ((u ++ v) ++ (live ++ [c])).map start → x ≠ prevp →
      ∀ k ∈ [prevp], Off x k := by
    intro x hx hne
    simpa using hlayout.off hx hprev hne
  have hchange : Changes s.mem (setPtr s.mem prevp (ptr s.mem c.start)) [prevp] := changes_setPtr
  have hsize : ∀ x ∈ base :: ((u ++ v) ++ (live ++ [c])).map start,
      size (setPtr s.mem prevp (ptr s.mem c.start)) x = size s.mem x := by
    intro x hx
    by_cases hxp : x = prevp
    · rw [hxp, size_setPtr]
    · exact hchange.size_eq (hoff hx hxp)
  refine ⟨hlayout, ⟨?_, (hsize base List.mem_cons_self).trans h.holds.size_base, ?_⟩, ?_⟩
  · show Seg _ (base :: (u ++ v).map start) base
    rw [List.map_append, ← List.cons_append, hpre]
    refine seg_append.2 ⟨seg_append.2 ⟨hsegu.congr ?_, ?_, trivial⟩, hsegv.congr ?_⟩
    · intro x hx
      have hmem : x ∈ base :: u.map start := hpre ▸ List.mem_append_left _ hx
      refine hchange.ptr_eq (hoff ?_ ?_)
      · rcases List.mem_cons.1 hmem with rfl | hmem
        · exact List.mem_cons_self
        · simp only [List.map_append, List.mem_cons, List.mem_append, hmem, true_or, or_true]
      · rw [List.append_assoc] at hsorted
        exact ((List.pairwise_append.1 hsorted).2.2 x hx prevp (by simp)).ne
    · exact (ptr_setPtr (ptr_lt _ _)).trans hnext
    · intro x hx
      refine hchange.ptr_eq (hoff ?_ ?_)
      · simp only [List.map_append, List.mem_cons, List.mem_append, hx, true_or, or_true]
      · exact ((List.pairwise_append.1 hsorted).2.2 prevp (by simp) x
          (List.mem_cons_of_mem _ hx)).ne'
  · intro e he
    rw [hsize _ (List.mem_cons_of_mem base (List.mem_map_of_mem he))]
    refine h.holds.sizes e ?_
    simp only [List.mem_append, List.mem_cons, List.not_mem_nil, or_false] at he ⊢
    rcases he with (he | he) | he | he <;> simp [he]
  · show prevp ∈ base :: (u ++ v).map start
    rw [List.map_append, ← List.cons_append, hpre]
    simp

/-- The end of a free block is taken. -/
lemma Rep.cut (h : Rep base s (u ++ c :: v) live) {k : ℕ} (hk : 0 < k)
    (hlt : k < size s.mem c.start) (hprev : prevp ∈ base :: (u ++ c :: v).map start) :
    Rep base
      { s with
        mem := setSize (setSize s.mem c.start (size s.mem c.start - k)) (c.stop - 8 * k) k,
        freep := prevp }
      (u ++ ⟨c.start, c.len - 8 * k⟩ :: v) (live ++ [⟨c.stop - 8 * k, 8 * k⟩]) := by
  have hcsize := h.holds.sizes c (by simp)
  have hlayout := h.layout.take_tail (n := 8 * k) (by omega) (by omega)
  have hbound : size s.mem c.start < 2 ^ 32 := Memory.word_lt _ _
  have hnodes : base :: (u ++ ⟨c.start, c.len - 8 * k⟩ :: v).map start =
      base :: (u ++ c :: v).map start := by simp
  have hcut : c.start + 8 * (size s.mem c.start - k) = c.stop - 8 * k := by
    unfold stop
    omega
  -- the header of the block that stays
  have hfirst : Changes s.mem (setSize s.mem c.start (size s.mem c.start - k)) [c.start] :=
    changes_setSize
  have hoff : ∀ {x : ℕ}, x ∈ base :: ((u ++ c :: v) ++ live).map start → x ≠ c.start →
      ∀ k ∈ [c.start], Off x k := by
    intro x hx hne
    simpa using h.layout.off hx (by simp) hne
  -- the header of the block that is taken
  generalize hm : setSize s.mem c.start (size s.mem c.start - k) = m at hfirst
  have hsecond : Changes m (setSize m (c.stop - 8 * k) k) [c.stop - 8 * k] := changes_setSize
  have hsplit : (u ++ Extent.mk c.start (c.len - 8 * k) :: v) ++
      (live ++ [Extent.mk (c.stop - 8 * k) (8 * k)]) =
      ((u ++ Extent.mk c.start (c.len - 8 * k) :: v) ++ live) ++ [Extent.mk (c.stop - 8 * k) (8 * k)] := by
    simp
  have hne : ∀ e ∈ (u ++ Extent.mk c.start (c.len - 8 * k) :: v) ++ live, e.start ≠ c.stop - 8 * k := by
    intro e he
    exact hlayout.start_ne hsplit (List.mem_append_left [] he)
  have hbase : base ≠ c.stop - 8 * k := by
    have hle := (h.layout.bounds (e := c) (by simp)).1
    omega
  have hoff' : ∀ {x : ℕ}, x ∈ base :: ((u ++ Extent.mk c.start (c.len - 8 * k) :: v) ++ live).map start →
      ∀ q ∈ [c.stop - 8 * k], Off x q := by
    intro x hx
    have hxne : x ≠ c.stop - 8 * k := by
      rcases List.mem_cons.1 hx with rfl | hx
      · exact hbase
      · obtain ⟨e, he, rfl⟩ := List.mem_map.1 hx
        exact hne e he
    have hxall : x ∈ base :: ((u ++ Extent.mk c.start (c.len - 8 * k) :: v) ++
        (live ++ [Extent.mk (c.stop - 8 * k) (8 * k)])).map start := by
      rw [hsplit, List.map_append, ← List.cons_append]
      exact List.mem_append_left _ hx
    simpa using hlayout.off hxall (by simp) hxne
  have hptr : ∀ x ∈ base :: (u ++ c :: v).map start,
      ptr (setSize m (c.stop - 8 * k) k) x = ptr s.mem x := by
    intro x hx
    have hx' : x ∈ base :: ((u ++ Extent.mk c.start (c.len - 8 * k) :: v) ++ live).map start := by
      rw [List.map_append, ← List.cons_append, hnodes]
      exact List.mem_append_left _ hx
    rw [hsecond.ptr_eq (hoff' hx')]
    by_cases hxc : x = c.start
    · rw [hxc, ← hm, ptr_setSize]
    · refine hfirst.ptr_eq (hoff ?_ hxc)
      rw [List.map_append, ← List.cons_append]
      exact List.mem_append_left _ hx
  have hsize : ∀ x ∈ base :: ((u ++ c :: v) ++ live).map start, x ≠ c.start →
      size (setSize m (c.stop - 8 * k) k) x = size s.mem x := by
    intro x hx hxc
    have hx' : x ∈ base :: ((u ++ Extent.mk c.start (c.len - 8 * k) :: v) ++ live).map start := by
      rw [List.map_append, ← List.cons_append] at hx ⊢
      rwa [hnodes]
    rw [hsecond.size_eq (hoff' hx'), hfirst.size_eq (hoff hx hxc)]
  refine ⟨hlayout, ⟨?_, ?_, ?_⟩, ?_⟩
  · rw [hnodes]
    exact h.holds.ring.congr hptr
  · have hbc : base ≠ c.start := by
      have hle := (h.layout.bounds (e := c) (by simp)).1
      omega
    exact (hsize base List.mem_cons_self hbc).trans h.holds.size_base
  · intro e he
    have hother : e ∈ u ++ (v ++ live) → 8 * size (setSize m (c.stop - 8 * k) k) e.start = e.len := by
      intro hmem
      have hsplit' : (u ++ c :: v) ++ live = u ++ c :: (v ++ live) := by simp
      have hall : e ∈ (u ++ c :: v) ++ live := by
        rw [hsplit']
        exact List.mem_append.2 ((List.mem_append.1 hmem).imp_right (List.mem_cons_of_mem c))
      rw [hsize _ (List.mem_cons_of_mem base (List.mem_map_of_mem hall))
        (h.layout.start_ne hsplit' hmem), h.holds.sizes e hall]
    simp only [List.mem_append, List.mem_cons, List.not_mem_nil, or_false] at he
    rcases he with (he | rfl | he) | he | rfl
    · exact hother (by simp [he])
    · show 8 * size (setSize m (c.stop - 8 * k) k) c.start = c.len - 8 * k
      rw [hsecond.size_eq (hoff' (by simp)), ← hm, size_setSize (by omega)]
      omega
    · exact hother (by simp [he])
    · exact hother (by simp [he])
    · show 8 * size (setSize m (c.stop - 8 * k) k) (c.stop - 8 * k) = 8 * k
      rw [size_setSize (by omega)]
  · rw [hnodes]
    exact hprev

lemma units_le {n : ℕ} (hn : n + 8 ≤ 2 ^ 32) : n + 8 ≤ 8 * units n := by
  unfold units
  omega

lemma units_pos (n : ℕ) : 0 < units n := Nat.succ_pos _

lemma carve_eq_of_eq {k p : ℕ} (h : size s.mem p = k) :
    carve k prevp p s =
      .ok (p + 8, { s with mem := setPtr s.mem prevp (ptr s.mem p), freep := prevp }) := by
  have hget : (get : Alloc State) s = .ok (s, s) := rfl
  rw [carve, bind_of_ok hget, if_pos h]
  rfl

lemma carve_eq_of_ne {k p q : ℕ} (h : size s.mem p ≠ k)
    (hq : plus p (size (setSize s.mem p (size s.mem p - k)) p) = q) :
    carve k prevp p s = .ok (q + 8, { s with
      mem := setSize (setSize s.mem p (size s.mem p - k)) q k, freep := prevp }) := by
  have hget : (get : Alloc State) s = .ok (s, s) := rfl
  rw [carve, bind_of_ok hget, if_neg h, ← hq]
  rfl

/-- A block that is large enough is taken, or its end. -/
lemma Rep.carve {fs : List Extent} (h : Rep base s fs live) {p : ℕ}
    (hprev : prevp ∈ base :: fs.map start) (hptr : ptr s.mem prevp = p) (hn : n + 8 ≤ 2 ^ 32)
    (hfit : units n ≤ size s.mem p) :
    Ends (carve (units n) prevp p) s (fun r s' => Took base s s' live n r) (fun _ => False) := by
  have hunits := units_le hn
  have hclear := h.layout.clear_start hprev
  obtain ⟨u, c, v, pre, rfl, rfl, hpre⟩ := h.pred hprev hptr (by omega)
  have hcsize := h.holds.sizes c (by simp)
  by_cases hexact : size s.mem c.start = units n
  · refine .of_return (carve_eq_of_eq hexact) ⟨changes_setPtr.keeps (by simpa using hclear), ?_⟩
    exact ⟨c, u ++ v, rfl, by omega, h.unlink hpre⟩
  · have hc := (h.layout.bounds (e := c) (by simp)).2
    have htop := h.layout.top_le
    have hstop : c.stop = c.start + c.len := rfl
    have hbound : size s.mem c.start < 2 ^ 32 := Memory.word_lt _ _
    have hcut : plus c.start (size (setSize s.mem c.start (size s.mem c.start - units n)) c.start) =
        c.stop - 8 * units n := by
      rw [size_setSize (by omega), plus]
      omega
    have hrep := h.cut (k := units n) (by omega) (by omega) hprev
    have hstart : Clear live c.start := h.layout.clear_start (by simp)
    have htail : Clear live (c.stop - 8 * units n) :=
      h.layout.clear_free (c := c) (by simp) (by omega) (by omega)
    refine .of_return (carve_eq_of_ne hexact hcut) ⟨?_, ?_⟩
    · exact (changes_setSize.keeps (by simpa using hstart)).trans
        (changes_setSize.keeps (by simpa using htail))
    · exact ⟨⟨c.stop - 8 * units n, 8 * units n⟩, _, rfl, hunits, hrep⟩

end Carve

/-! ## The loop -/

section Search

variable {base n : ℕ} {s : State} {fs live : List Extent} {sbrk : Sbrk} {fuel nunits prevp : ℕ}

lemma search_fit {k p : ℕ} (h : nunits ≤ size s.mem p) :
    search sbrk fuel nunits (k + 1) prevp p s = carve nunits prevp p s := by
  have hget : (get : Alloc State) s = .ok (s, s) := rfl
  rw [search, bind_of_ok hget, if_pos h]

lemma search_next {k p : ℕ} (h : ¬ nunits ≤ size s.mem p) (hp : p ≠ s.freep) :
    search sbrk fuel nunits (k + 1) prevp p s =
      search sbrk fuel nunits k p (ptr s.mem p) s := by
  have hget : (get : Alloc State) s = .ok (s, s) := rfl
  rw [search, bind_of_ok hget, if_neg h, if_neg hp]

/-- The loop passes nodes that are too small. -/
lemma search_seg (sbrk : Sbrk) (fuel prevp : ℕ) {w : List ℕ} {y : ℕ} (hseg : Seg (ptr s.mem) w y)
    (hsmall : ∀ q ∈ w, ¬ nunits ≤ size s.mem q) (hfreep : s.freep ∉ w) (k : ℕ) :
    search sbrk fuel nunits (w.length + k) prevp (w.headD y) s =
      search sbrk fuel nunits k (w.getLastD prevp) y s := by
  induction w generalizing prevp with
  | nil => simp
  | cons a w ih =>
    have ha := hsmall a List.mem_cons_self
    have hne : a ≠ s.freep := fun heq => hfreep (heq ▸ List.mem_cons_self)
    rw [List.length_cons, Nat.add_right_comm, List.headD_cons, search_next ha hne, hseg.1,
      ih _ hseg.2 (fun q hq => hsmall q (List.mem_cons_of_mem a hq))
        (fun hmem => hfreep (List.mem_cons_of_mem a hmem)),
      List.getLastD_cons]

/-- The ring of the free list, cut at `freep`. -/
lemma Rep.cut_ring (h : Rep base s fs live) :
    ∃ w, Ring (ptr s.mem) (s.freep :: w) ∧ s.freep ∉ w ∧ w.length = fs.length ∧
      ∀ x, x ∈ s.freep :: w ↔ x ∈ base :: fs.map start := by
  obtain ⟨a, b, hab⟩ := List.append_of_mem h.freep
  have hring := h.holds.ring
  have hnodup : (base :: fs.map start).Nodup := h.layout.starts_sorted.imp Nat.ne_of_lt
  rw [hab] at hring hnodup
  have hperm : (a ++ s.freep :: b).Perm (s.freep :: (b ++ a)) :=
    List.perm_append_comm
  refine ⟨b ++ a, hring.rotate, (List.nodup_cons.1 (hperm.nodup_iff.1 hnodup)).1, ?_, ?_⟩
  · have hlen := congrArg List.length hab
    simp only [List.length_append, List.length_cons, List.length_map] at hlen ⊢
    omega
  · intro x
    rw [hab]
    exact hperm.mem_iff.symm

/-- Where no free block is large enough, no node of the list is. -/
lemma Rep.small (h : Rep base s fs live) (hnunits : 0 < nunits)
    (hfit : ¬ ∃ e ∈ fs, 8 * nunits ≤ e.len) {q : ℕ} (hq : q ∈ base :: fs.map start) :
    ¬ nunits ≤ size s.mem q := by
  intro hle
  rcases List.mem_cons.1 hq with rfl | hq
  · rw [h.holds.size_base] at hle
    omega
  · obtain ⟨e, he, rfl⟩ := List.mem_map.1 hq
    have hsize := h.holds.sizes e (List.mem_append_left live he)
    exact hfit ⟨e, he, by omega⟩

/-- With a block that is large enough the loop takes one. -/
lemma Rep.search_of_fit (h : Rep base s fs live) (hn : n + 8 ≤ 2 ^ 32)
    (hfit : ∃ e ∈ fs, 8 * units n ≤ e.len) {k : ℕ} (hk : fs.length + 1 ≤ k) :
    Ends (search sbrk fuel (units n) k s.freep (ptr s.mem s.freep)) s
      (fun r s' => Took base s s' live n r) (fun _ => False) := by
  obtain ⟨w, hring, hnot, hlen, hmem⟩ := h.cut_ring
  have hsome : ∃ q ∈ s.freep :: w, units n ≤ size s.mem q := by
    obtain ⟨e, he, hlarge⟩ := hfit
    have hsize := h.holds.sizes e (List.mem_append_left live he)
    exact ⟨e.start, (hmem e.start).2 (List.mem_cons_of_mem base (List.mem_map_of_mem he)), by omega⟩
  obtain ⟨a, q, hq, hsmall, hseg, hsub, hle⟩ := hring.first hsome
  have hprev : a.getLastD s.freep ∈ base :: fs.map start := by
    refine (hmem _).1 ?_
    rcases List.eq_nil_or_concat' a with rfl | ⟨a, z, rfl⟩
    · simp
    · simpa using .inr (hsub (by simp))
  have hptr : ptr s.mem (a.getLastD s.freep) = q := hseg.getLastD
  obtain ⟨j, rfl⟩ : ∃ j, k = a.length + (j + 1) := ⟨k - a.length - 1, by omega⟩
  have hwalk := search_seg sbrk fuel s.freep hseg.2 hsmall
    (fun hx => hnot (hsub hx)) (j + 1)
  have hcarve := h.carve hprev hptr hn hq
  rwa [Ends, hseg.1, hwalk, search_fit hq]

end Search

/-! ## More memory -/

section Morecore

variable {base n : ℕ} {s : State} {fs live : List Extent} {sbrk : Sbrk} {fuel : ℕ}

/-- Memory from `sbrk` is a live block at first. -/
lemma Rep.grow (h : Rep base s fs live) {hp nu : ℕ} (hnu : 0 < nu) (htop : s.top ≤ hp)
    (hstop : hp + nu * 8 ≤ 2 ^ 32) :
    Rep base
      { s with
        mem := setSize s.mem hp nu, given := s.given ++ [⟨hp, nu * 8⟩], top := hp + nu * 8 }
      fs (live ++ [⟨hp, nu * 8⟩]) := by
  have hlayout := h.layout.grow (b := ⟨hp, nu * 8⟩) (by simp only; omega) htop hstop
  have hchange : Changes s.mem (setSize s.mem hp nu) [hp] := changes_setSize
  have hoff : ∀ {x : ℕ}, x ∈ base :: (fs ++ live).map start → ∀ k ∈ [hp], Off x k := by
    intro x hx
    have hlt : x + 8 ≤ hp := by
      rcases List.mem_cons.1 hx with rfl | hx
      · exact h.layout.base_le.trans htop
      · obtain ⟨e, he, rfl⟩ := List.mem_map.1 hx
        have hle := (h.layout.bounds he).2
        have hlen := h.layout.eight_le e he
        unfold stop at hle
        omega
    simpa using (show Off x hp from .inl hlt)
  refine ⟨hlayout, ⟨?_, ?_, ?_⟩, h.freep⟩
  · refine h.holds.ring.congr fun x hx => hchange.ptr_eq (hoff ?_)
    rw [List.map_append, ← List.cons_append]
    exact List.mem_append_left _ hx
  · exact (hchange.size_eq (hoff List.mem_cons_self)).trans h.holds.size_base
  · intro e he
    rw [← List.append_assoc] at he
    rcases List.mem_append.1 he with he | he
    · exact (congrArg (8 * ·) (hchange.size_eq
        (hoff (List.mem_cons_of_mem base (List.mem_map_of_mem he))))).trans (h.holds.sizes e he)
    · obtain rfl := List.mem_singleton.1 he
      show 8 * size (setSize s.mem hp nu) hp = nu * 8
      rw [size_setSize (by omega), Nat.mul_comm]

lemma Layout.clear_top {given : List Extent} {top : ℕ} (h : Layout base fs live given top) {k : ℕ}
    (hk : top ≤ k) : Clear live k := by
  intro e he x hx
  have hle := (h.bounds (List.mem_append_right fs he)).2
  rw [ind_eq_one] at hx
  omega

lemma Rep.node_ne_zero (h : Rep base s fs live) {x : ℕ} (hx : x ∈ base :: fs.map start) :
    x ≠ 0 := by
  have hpos := h.layout.base_pos
  rcases List.mem_cons.1 hx with heq | hmem
  · omega
  · obtain ⟨e, he, heq⟩ := List.mem_map.1 hmem
    have hle := (h.layout.bounds (List.mem_append_left _ he)).1
    omega

lemma Rep.freep_ne_zero (h : Rep base s fs live) : s.freep ≠ 0 := h.node_ne_zero h.freep

/-- Memory from `sbrk` is freed, and is then a free block or a part of one. -/
lemma Rep.free_grown (h : Rep base s fs live) {hp nu : ℕ} (hnu : 0 < nu) (htop : s.top ≤ hp)
    (hstop : hp + nu * 8 ≤ 2 ^ 32) (hfuel : 2 ^ 29 ≤ fuel) :
    Ends (Umalloc.free fuel (hp + 8))
      { s with
        mem := setSize s.mem hp nu, given := s.given ++ [⟨hp, nu * 8⟩], top := hp + nu * 8 }
      (fun _ s' => s'.top = hp + nu * 8 ∧ Keeps live s.mem s'.mem ∧
        ∃ fs, Rep base s' fs live ∧ ∃ e ∈ fs, nu * 8 ≤ e.len) (fun _ => False) := by
  have hgrow := h.grow hnu htop hstop
  have hlen := h.layout.length_lt
  refine (Rep.free hgrow (show fs.length + 1 ≤ fuel by omega)).mono fun _ s' hfreed => ?_
  refine ⟨hfreed.top, ?_, ?_⟩
  · have hkeeps := hfreed.keeps hgrow.layout
    rw [List.append_nil] at hkeeps
    exact (changes_setSize.keeps (by simpa using h.layout.clear_top htop)).trans hkeeps
  · obtain ⟨fs', hrep, hlarge⟩ := hfreed.rep
    rw [List.append_nil] at hrep
    exact ⟨fs', hrep, hlarge⟩

/-- What `morecore` leaves: nothing, or a free block that is large enough. -/
def Grown (base : ℕ) (s s' : State) (live : List Extent) (nu p : ℕ) : Prop :=
  (p = 0 ∧ s' = s) ∨ (p = s'.freep ∧ p ≠ 0 ∧ Keeps live s.mem s'.mem ∧
    ∃ fs, Rep base s' fs live ∧ ∃ e ∈ fs, 8 * nu ≤ e.len)

lemma Rep.morecore (h : Rep base s fs live) {nu : ℕ} (hnu : nu < 2 ^ 28)
    (hfuel : 2 ^ 29 ≤ fuel) :
    Ends (morecore sbrk fuel nu) s (fun p s' => Grown base s s' live nu p) (fun _ => False) := by
  unfold Umalloc.morecore
  generalize hmax : (if nu < 4096 then 4096 else nu) = k
  have hk : nu ≤ k ∧ 0 < k ∧ k < 2 ^ 28 := by
    split_ifs at hmax <;> omega
  have hbytes : k * 8 % 2 ^ 32 = k * 8 := Nat.mod_eq_of_lt (by omega)
  rw [ends_bind, ends_get]
  simp only [hbytes]
  cases hgive : sbrk.give s.top (k * 8) with
  | none => exact .inl ⟨rfl, rfl⟩
  | some hp =>
    obtain ⟨htop, hstop⟩ := sbrk.fresh hgive
    simp only [ends_bind, ends_set, ends_get, ends_pure]
    refine (h.free_grown hk.2.1 htop hstop hfuel).mono ?_
    rintro _ s' ⟨_, hkeeps, fs', hrep, e, he, hle⟩
    exact .inr ⟨rfl, hrep.freep_ne_zero, hkeeps, fs', hrep, e, he, by omega⟩

lemma search_wrap {nunits k prevp : ℕ} (h : ¬ nunits ≤ size s.mem s.freep) :
    search sbrk fuel nunits (k + 1) prevp s.freep s =
      (morecore sbrk fuel nunits >>= fun p =>
        if p = 0 then return 0
        else get >>= fun s => search sbrk fuel nunits k p (ptr s.mem p)) s := by
  have hget : (get : Alloc State) s = .ok (s, s) := rfl
  rw [search, bind_of_ok hget, if_neg h, if_pos rfl]

lemma Rep.search (h : Rep base s fs live) (hn : n < 2 ^ 30) {k : ℕ} (hk : 2 ^ 30 ≤ k)
    (hfuel : 2 ^ 29 ≤ fuel) :
    Ends (search sbrk fuel (units n) k s.freep (ptr s.mem s.freep)) s
      (fun r s' => Taken base s s' live n r) (fun _ => False) := by
  have hlen := h.layout.length_lt
  by_cases hfit : ∃ e ∈ fs, 8 * units n ≤ e.len
  · exact (h.search_of_fit (by omega) hfit (by omega)).mono fun _ _ htook => htook.taken
  · -- round the list to `freep`, and once more after `morecore`
    obtain ⟨w, ⟨hfirst, hseg⟩, hnot, hwlen, hmem⟩ := h.cut_ring
    have hsmall : ∀ q ∈ s.freep :: w, ¬ units n ≤ size s.mem q := fun q hq =>
      h.small (units_pos n) hfit ((hmem q).1 hq)
    obtain ⟨j, rfl⟩ : ∃ j, k = w.length + (j + 1) := ⟨k - w.length - 1, by omega⟩
    have hwalk := search_seg sbrk fuel s.freep hseg
      (fun q hq => hsmall q (List.mem_cons_of_mem _ hq)) hnot (j + 1)
    have hunits : units n < 2 ^ 28 := by
      unfold units
      omega
    rw [Ends, hfirst, hwalk, search_wrap (hsmall _ List.mem_cons_self)]
    refine (h.morecore hunits hfuel).bind ?_
    rintro p s' (⟨rfl, rfl⟩ | ⟨rfl, hne, hkeeps, fs', hrep, hlarge⟩)
    · exact ⟨.refl _ _, .inl ⟨rfl, .inr ⟨fs, h⟩⟩⟩
    · have hlen' := hrep.layout.length_lt
      rw [if_neg hne, ends_bind, ends_get]
      refine (hrep.search_of_fit (by omega) hlarge (by omega)).mono ?_
      intro r s'' htook
      exact ⟨hkeeps.trans htook.keeps, .inr htook.rep⟩

/-! ## The function -/

/-- The first call makes a free list of `base`. -/
lemma Idle.rep (h : Idle base s) :
    Rep base { s with mem := setSize (setPtr s.mem base base) base 0, freep := base } [] [] := by
  have hbase := h.base_le
  have htop := h.top_le
  refine ⟨?_, ⟨⟨?_, trivial⟩, size_setSize (by omega), by simp⟩, List.mem_cons_self⟩
  · exact ⟨h.base_pos, by simp, .nil, by simp [h.given], by simp [h.given], by simp [h.given],
      h.top_le, h.base_le⟩
  · exact ptr_setSize.trans (ptr_setPtr (by omega))

lemma Heap.initialise (h : Heap base s live) :
    Ends (initialise base) s
      (fun _ s' => Keeps live s.mem s'.mem ∧ ∃ fs, Rep base s' fs live) (fun _ => False) := by
  unfold Umalloc.initialise
  rw [ends_bind, ends_get]
  rcases h with ⟨hidle, rfl⟩ | ⟨fs, hrep⟩
  · rw [if_pos hidle.freep, ends_set]
    exact ⟨fun e he => absurd he List.not_mem_nil, [], hidle.rep⟩
  · rw [if_neg hrep.freep_ne_zero]
    exact ⟨.refl _ _, fs, hrep⟩

/-- `malloc` takes a block with room for the bytes, or returns null. -/
lemma Heap.malloc (h : Heap base s live) (sbrk : Sbrk) (hn : n < 2 ^ 30) (hfuel : 2 ^ 30 ≤ fuel) :
    Ends (malloc base sbrk fuel n) s (fun r s' => Taken base s s' live n r) (fun _ => False) := by
  unfold Umalloc.malloc
  refine h.initialise.bind ?_
  rintro _ s1 ⟨hkeeps, fs, hrep⟩
  rw [ends_bind, ends_get]
  refine (hrep.search hn hfuel (by omega)).mono ?_
  intro r s2 htaken
  exact ⟨hkeeps.trans htaken.keeps, htaken.rep⟩

end Morecore

end Xv7.Umalloc
