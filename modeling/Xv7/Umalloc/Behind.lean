import Xv7.Umalloc.Malloc

/-!
# A block behind the heap

`morecore` writes the number of headers it has asked for into the header at the address that `sbrk`
returned, and frees that block.  This says what `free` and the search do with such a block when it lies
behind everything else, whether or not there is as much memory as its header says: it is linked behind
the last free block or joined to it, and the search for its size returns it.
-/

namespace Xv7.Umalloc

open Extent Circle Prog

/-- The heap with the header of the memory from `sbrk`. -/
def received (s : State) (hp nu : ℕ) : State :=
  { s with
    mem := setSize s.mem hp nu
    given := s.given ++ [⟨hp, nu * 8 % 2 ^ 32⟩]
    top := hp + nu * 8 % 2 ^ 32 }

/-- An `sbrk` that always returns -1. -/
def refuse : Sbrk where
  give _ _ := none
  fresh h := absurd h (by simp)

lemma changes_joinUpper (m : Mem) (q bp : ℕ) : Changes m (joinUpper m q bp) [bp] := by
  unfold joinUpper
  split_ifs
  · exact changes_setSize.trans changes_setPtr
  · exact changes_setPtr

/-- The block behind everything is linked to `base`, or to what `base` points to if the sum of its
address and its size wraps to that of `base`. -/
lemma joinUpper_last {m : Mem} {base q hp : ℕ} (hq : ptr m q = base) (hbase : size m base = 0)
    (hoff : Off base hp) (hoffq : Off q hp) :
    (ptr (joinUpper m q hp) hp = base ∨ ptr (joinUpper m q hp) hp = ptr m base) ∧
      size (joinUpper m q hp) hp = size m hp := by
  have hlt : size m hp < 2 ^ 32 := Memory.word_lt _ _
  have hblt : base < 2 ^ 32 := hq ▸ ptr_lt m q
  have hsame : Changes m (setSize m hp (size m hp)) [hp] := changes_setSize
  have hq' : ptr (setSize m hp (size m hp)) q = base := (hsame.ptr_eq (by simpa using hoffq)).trans hq
  unfold joinUpper
  simp only [hq, hbase, Nat.add_zero, hq']
  split_ifs
  · refine ⟨.inr ?_, ?_⟩
    · rw [ptr_setPtr (ptr_lt _ _), hsame.ptr_eq (by simpa using hoff)]
    · rw [size_setPtr, size_setSize hlt]
  · exact ⟨.inl (ptr_setPtr hblt), size_setPtr⟩

/-- The headers after the first step of `free`, when the block lies behind everything: the free list
is as before, and the block is linked to its first node or to the one after that. -/
structure Last (base : ℕ) (m m' : Mem) (hp nu : ℕ) : Prop where
  changes : Changes m m' [hp]
  size_hp : size m' hp = nu
  ptr_hp : ptr m' hp = base ∨ ptr m' hp = ptr m base

section Behind

variable {base fuel hp nu q : ℕ} {s : State} {fs live : List Extent} {pre : List ℕ}

lemma Rep.below (h : Rep base s fs live) (htop : s.top ≤ hp) {x : ℕ}
    (hx : x ∈ base :: fs.map start) : x + 8 ≤ hp := by
  rcases List.mem_cons.1 hx with rfl | hx
  · exact h.layout.base_le.trans htop
  · obtain ⟨e, he, rfl⟩ := List.mem_map.1 hx
    have hle := (h.layout.bounds (List.mem_append_left live he)).2
    have height := h.layout.eight_le e (List.mem_append_left live he)
    unfold stop at hle
    omega

/-- A node of the list is smaller than `2 ^ 31` bytes. -/
lemma Rep.size_lt (h : Rep base s fs live) (htop : s.top < 2 ^ 31) {x : ℕ}
    (hx : x ∈ base :: fs.map start) : size s.mem x < 2 ^ 28 := by
  rcases List.mem_cons.1 hx with rfl | hx
  · rw [h.holds.size_base]
    decide
  · obtain ⟨e, he, rfl⟩ := List.mem_map.1 hx
    have hle := (h.layout.bounds (List.mem_append_left live he)).2
    have hsize := h.holds.sizes e (List.mem_append_left live he)
    unfold stop at hle
    omega

/-- The loop of `free` stops at the last node. -/
lemma Rep.spot_last (h : Rep base s fs live) (htop : s.top ≤ hp)
    (hpre : base :: fs.map start = pre ++ [q]) {m : Mem} (hm : Changes s.mem m [hp])
    (hfuel : fs.length + 1 ≤ fuel) : Umalloc.spot m hp fuel s.freep = some q := by
  have hring : Ring (ptr m) (base :: fs.map start) :=
    h.holds.ring.congr fun x hx => hm.ptr_eq (by simpa using .inl (h.below htop hx))
  have hsorted := h.layout.starts_sorted
  have hfreep := h.freep
  have hlen : (pre ++ [q]).length ≤ fuel := by
    rw [← hpre, List.length_cons, List.length_map]
    exact hfuel
  have hq : q + 8 ≤ hp := h.below htop (by simp [hpre])
  rw [hpre] at hring hsorted hfreep
  rw [spot_eq_find]
  exact hring.find_eq hfreep (by simp) (fun x hx => ends_iff hring hsorted (by omega) (by simp) hx) hlen

/-- The first step of `free`. -/
lemma Rep.joinUpper_last (h : Rep base s fs live) (htop : s.top ≤ hp) (hnu : nu < 2 ^ 32)
    (hpre : base :: fs.map start = pre ++ [q]) :
    Last base s.mem (joinUpper (setSize s.mem hp nu) q hp) hp nu := by
  have hm : Changes s.mem (setSize s.mem hp nu) [hp] := changes_setSize
  have hoff : ∀ {x : ℕ}, x ∈ base :: fs.map start → Off x hp := fun hx => .inl (h.below htop hx)
  have hq : q ∈ base :: fs.map start := by simp [hpre]
  have hlast : ptr s.mem q = base := by
    have hholds := h.holds
    rw [← List.append_nil fs] at hholds
    exact (hholds.segs hpre).2.1
  obtain ⟨hptr, hsize⟩ := Umalloc.joinUpper_last
    ((hm.ptr_eq (by simpa using hoff hq)).trans hlast)
    ((hm.size_eq (by simpa using hoff List.mem_cons_self)).trans h.holds.size_base)
    (hoff List.mem_cons_self) (hoff hq)
  rw [hm.ptr_eq (by simpa using hoff List.mem_cons_self)] at hptr
  exact ⟨hm.trans (changes_joinUpper _ _ _), hsize.trans (size_setSize hnu), hptr⟩

/-- The block is linked behind the last node, where the search finds it at once. -/
lemma Rep.search_linked (h : Rep base s fs live) (htop : s.top ≤ hp) (hhp : hp < 2 ^ 31)
    (hpre : base :: fs.map start = pre ++ [q]) {m : Mem} (hm : Last base s.mem m hp nu)
    (hapart : plus q (size m q) ≠ hp) {t : State} (ht : t.mem = joinLower m q hp) (k : ℕ) :
    ∃ t', Umalloc.search refuse fuel nu (k + 1) q (ptr t.mem q) t = .ok (hp + 8, t') := by
  have hq : q + 8 ≤ hp := h.below htop (by simp [hpre])
  rw [joinLower, if_neg hapart] at ht
  have hlink : Changes m t.mem [q] := ht ▸ changes_setPtr
  have hptr : ptr t.mem q = hp := by
    rw [ht]
    exact ptr_setPtr (by omega)
  have hsize : size t.mem hp = nu :=
    (hlink.size_eq (by simpa using (show Off hp q from .inr hq))).trans hm.size_hp
  rw [hptr, Umalloc.search_fit hsize.ge]
  exact ⟨_, carve_eq_of_eq hsize⟩

/-- The block is joined to the last free one, and the search comes round to that one and takes its
end. -/
lemma Rep.search_joined {u : List Extent} {c : Extent} (h : Rep base s (u ++ [c]) live)
    (htop : s.top ≤ hp) (hhp : hp < 2 ^ 31) (hnu : 2 ^ 28 ≤ nu) (hnu' : nu ≤ 2 ^ 29) {m : Mem}
    (hm : Last base s.mem m hp nu) (htouch : plus c.start (size m c.start) = hp) {t : State}
    (ht : t.mem = joinLower m c.start hp) (hfreep : t.freep = c.start) {k : ℕ}
    (hk : u.length + 2 ≤ k) :
    ∃ t', Umalloc.search refuse fuel nu k c.start (ptr t.mem c.start) t = .ok (hp + 8, t') := by
  have hc : c.start ∈ base :: (u ++ [c]).map start := by simp
  have hchp := h.below htop hc
  have hcsize : size m c.start = size s.mem c.start :=
    hm.changes.size_eq (by simpa using (show Off c.start hp from .inl hchp))
  have hclt := h.size_lt (htop.trans_lt hhp) hc
  rw [joinLower, if_pos htouch] at ht
  -- the header of the last free block
  have hsum : size m c.start + size m hp = size s.mem c.start + nu := by rw [hcsize, hm.size_hp]
  have hset : Changes m (setSize m c.start (size m c.start + size m hp)) [c.start] := changes_setSize
  have hjoin : Changes m t.mem [c.start] := by
    rw [ht]
    exact changes_setSize.trans changes_setPtr
  have hsizec : size t.mem c.start = size s.mem c.start + nu := by
    rw [ht, size_setPtr, size_setSize (by omega), hsum]
  have hptrc : ptr t.mem c.start = ptr m hp := by
    rw [ht, ptr_setPtr (ptr_lt _ _)]
    exact hset.ptr_eq (by simpa using (show Off hp c.start from .inr hchp))
  -- the nodes before it are as they were
  have hne : ∀ x ∈ base :: u.map start, x ≠ c.start := by
    intro x hx
    have hsorted := h.layout.starts_sorted
    rw [List.map_append, ← List.cons_append] at hsorted
    exact ((List.pairwise_append.1 hsorted).2.2 x hx c.start (by simp)).ne
  have hnode : ∀ x ∈ base :: u.map start,
      ptr t.mem x = ptr s.mem x ∧ size t.mem x = size s.mem x := by
    intro x hx
    have hx' : x ∈ base :: (u ++ [c]).map start := by
      rw [List.map_append, ← List.cons_append]
      exact List.mem_append_left _ hx
    have hoffc : ∀ y ∈ [c.start], Off x y := by
      have hall : ∀ {y : ℕ}, y ∈ base :: (u ++ [c]).map start →
          y ∈ base :: ((u ++ [c]) ++ live).map start := by
        intro y hy
        rw [List.map_append, ← List.cons_append]
        exact List.mem_append_left _ hy
      simpa using h.layout.off (hall hx') (hall hc) (hne x hx)
    have hoffhp : ∀ y ∈ [hp], Off x y := by simpa using (show Off x hp from .inl (h.below htop hx'))
    exact ⟨(hjoin.ptr_eq hoffc).trans (hm.changes.ptr_eq hoffhp),
      (hjoin.size_eq hoffc).trans (hm.changes.size_eq hoffhp)⟩
  have hseg : Seg (ptr t.mem) (base :: u.map start) c.start := by
    have hholds := h.holds
    rw [← List.append_nil (u ++ [c])] at hholds
    have hsplit : base :: (u ++ [c]).map start = (base :: u.map start) ++ [c.start] := by simp
    exact (hholds.segs hsplit).1.congr fun x hx => (hnode x hx).1
  have hsmall : ∀ x ∈ base :: u.map start, ¬ nu ≤ size t.mem x := by
    intro x hx
    have hlt := h.size_lt (htop.trans_lt hhp) (x := x) (by
      rw [List.map_append, ← List.cons_append]
      exact List.mem_append_left _ hx)
    rw [(hnode x hx).2]
    omega
  have hnot : t.freep ∉ base :: u.map start := fun hmem => hne _ hmem hfreep
  -- the joined block is linked to the first node, or to the second
  obtain ⟨w, hw, hwseg, hsub, hwlen⟩ : ∃ w, ptr t.mem c.start = w.headD c.start ∧
      Seg (ptr t.mem) w c.start ∧ w ⊆ base :: u.map start ∧ w.length ≤ u.length + 1 := by
    rcases hm.ptr_hp with hbase | hnext
    · exact ⟨base :: u.map start, hptrc.trans hbase, hseg, List.Subset.refl _, by simp⟩
    · refine ⟨u.map start, ?_, hseg.2, List.subset_cons_self _ _, by simp⟩
      rw [hptrc, hnext, ← (hnode base List.mem_cons_self).1]
      exact hseg.1
  obtain ⟨j, rfl⟩ : ∃ j, k = w.length + (j + 1) := ⟨k - w.length - 1, by omega⟩
  have hcpos : 0 < size s.mem c.start := by
    have height := h.layout.eight_le c (by simp)
    have hsize := h.holds.sizes c (by simp)
    omega
  have hcut : plus c.start (size (setSize t.mem c.start (size t.mem c.start - nu)) c.start) = hp := by
    rw [hsizec, Nat.add_sub_cancel, size_setSize (by omega), ← hcsize]
    exact htouch
  rw [hw, search_seg refuse fuel c.start hwseg (fun x hx => hsmall x (hsub hx))
    (fun hx => hnot (hsub hx)), Umalloc.search_fit (by omega)]
  exact ⟨_, carve_eq_of_ne (by omega) hcut⟩

/-- The block is freed, and the search for its size returns it. -/
lemma Rep.search_behind (h : Rep base s fs live) (htop : s.top ≤ hp) (hhp : hp < 2 ^ 31)
    (hnu : 2 ^ 28 ≤ nu) (hnu' : nu ≤ 2 ^ 29) (hfuel : 2 ^ 29 ≤ fuel) {k : ℕ} (hk : 2 ^ 29 ≤ k) :
    ∃ t t', Umalloc.free fuel (hp + 8) (received s hp nu) = .ok ((), t) ∧ t.freep ≠ 0 ∧
      Umalloc.search refuse fuel nu k t.freep (ptr t.mem t.freep) t = .ok (hp + 8, t') := by
  have hlen := h.layout.length_lt
  obtain ⟨pre, q, hpre⟩ : ∃ pre q, base :: fs.map start = pre ++ [q] :=
    (List.eq_nil_or_concat' _).resolve_left (by simp)
  have hspot : Umalloc.spot (received s hp nu).mem (hp + 8 - 8) fuel (received s hp nu).freep =
      some q := h.spot_last htop hpre changes_setSize (by omega)
  have hlast : Last base s.mem (joinUpper (received s hp nu).mem q hp) hp nu :=
    h.joinUpper_last htop (by omega) hpre
  have hfree := free_eq hspot
  rw [Nat.add_sub_cancel] at hfree
  generalize joinUpper (received s hp nu).mem q hp = m at hfree hlast
  obtain ⟨t, hfree, ht, hfreep⟩ : ∃ t, Umalloc.free fuel (hp + 8) (received s hp nu) = .ok ((), t) ∧
      t.mem = joinLower m q hp ∧ t.freep = q := ⟨_, hfree, rfl, rfl⟩
  have hq : q ∈ base :: fs.map start := by simp [hpre]
  have hqhp := h.below htop hq
  have hqsize : size m q = size s.mem q :=
    hlast.changes.size_eq (by simpa using (show Off q hp from .inl hqhp))
  suffices hsearch : ∃ t', Umalloc.search refuse fuel nu k q (ptr t.mem q) t = .ok (hp + 8, t') by
    obtain ⟨t', hsearch⟩ := hsearch
    refine ⟨t, t', hfree, ?_, hfreep ▸ hsearch⟩
    rw [hfreep]
    exact h.node_ne_zero hq
  by_cases htouch : plus q (size m q) = hp
  · rcases eq_base_or_last hpre with ⟨rfl, rfl, rfl⟩ | ⟨u, c, rfl, rfl, rfl⟩
    · -- `base` is no block, and nothing touches it
      rw [hqsize, h.holds.size_base, plus] at htouch
      omega
    · rw [List.length_append, List.length_singleton] at hlen
      exact h.search_joined htop hhp hnu hnu' hlast htouch ht hfreep (by omega)
  · obtain ⟨j, rfl⟩ : ∃ j, k = j + 1 := ⟨k - 1, by omega⟩
    exact h.search_linked htop hhp hpre hlast htouch ht j

end Behind

end Xv7.Umalloc
