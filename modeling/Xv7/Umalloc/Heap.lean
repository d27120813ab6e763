import Xv7.Lib.Circle
import Xv7.Umalloc.Model

/-!
# The heap of the allocator

The memory from `sbrk` is divided into free blocks and live blocks.  `Layout` says how the blocks lie:
they make up the memory handed out, and the free ones are in address order and do not touch.  `Holds`
says what their headers contain: the sizes, and the pointers of the free list, a ring through `base`
and the free blocks.

A block of the heap changes only through its header, so what an operation does to the memory is said
by the headers it writes (`Changes`).
-/

namespace Xv7.Umalloc

open Extent Circle

/-! ## Headers -/

/-- Two headers do not overlap. -/
def Off (h h' : ℕ) : Prop := h + 8 ≤ h' ∨ h' + 8 ≤ h

section Headers

variable {m m' : Mem} {h h' v : ℕ}

lemma ptr_lt (m : Mem) (h : ℕ) : ptr m h < 2 ^ 32 := Memory.word_lt m h

@[simp] lemma ptr_setPtr (hv : v < 2 ^ 32) : ptr (setPtr m h v) h = v :=
  Memory.word_setWord_self hv

@[simp] lemma size_setSize (hv : v < 2 ^ 32) : size (setSize m h v) h = v :=
  Memory.word_setWord_self hv

@[simp] lemma size_setPtr : size (setPtr m h v) h = size m h :=
  Memory.word_setWord_of_apart (by omega)

@[simp] lemma ptr_setSize : ptr (setSize m h v) h = ptr m h :=
  Memory.word_setWord_of_apart (by omega)

/-- The bytes outside the headers `hs` are unchanged. -/
def Changes (m m' : Mem) (hs : List ℕ) : Prop := ∀ x, (∀ h ∈ hs, x < h ∨ h + 8 ≤ x) → m' x = m x

lemma changes_setPtr : Changes m (setPtr m h v) [h] := fun x hx =>
  Memory.setWord_of_notMem (by have := hx h List.mem_cons_self; omega)

lemma changes_setSize : Changes m (setSize m h v) [h] := fun x hx =>
  Memory.setWord_of_notMem (by have := hx h List.mem_cons_self; omega)

lemma Changes.trans {m'' : Mem} {hs : List ℕ} (h : Changes m m' hs) (h' : Changes m' m'' hs) :
    Changes m m'' hs := fun x hx => (h' x hx).trans (h x hx)

lemma Changes.mono {hs hs' : List ℕ} (h : Changes m m' hs) (hsub : hs ⊆ hs') :
    Changes m m' hs' := fun x hx => h x fun k hk => hx k (hsub hk)

lemma Changes.ptr_eq {hs : List ℕ} (hc : Changes m m' hs) (hoff : ∀ k ∈ hs, Off h k) :
    ptr m' h = ptr m h :=
  Memory.word_congr fun i hi => hc _ fun k hk => by have := hoff k hk; unfold Off at this; omega

lemma Changes.size_eq {hs : List ℕ} (hc : Changes m m' hs) (hoff : ∀ k ∈ hs, Off h k) :
    size m' h = size m h :=
  Memory.word_congr fun i hi => hc _ fun k hk => by have := hoff k hk; unfold Off at this; omega

end Headers

/-! ## Where the blocks lie -/

/-- The free and the live blocks of a heap. -/
structure Layout (base : ℕ) (fs live given : List Extent) (top : ℕ) : Prop where
  base_pos : 0 < base
  /-- A block is at least its header. -/
  eight_le : ∀ e ∈ fs ++ live, 8 ≤ e.len
  /-- The free blocks are in address order, with something between two of them. -/
  order : fs.Pairwise fun e e' => e.stop < e'.start
  /-- The blocks make up the memory handed out. -/
  cover_eq : ∀ x, cover (fs ++ live) x = cover given x
  once : ∀ x, cover given x ≤ 1
  above : ∀ g ∈ given, base + 8 ≤ g.start ∧ g.stop ≤ top
  top_le : top ≤ 2 ^ 32
  base_le : base + 8 ≤ top

namespace Layout

variable {base top : ℕ} {fs live given u v l r : List Extent} {b c e e' : Extent}

lemma pairwise_apart (h : Layout base fs live given top) : (fs ++ live).Pairwise Apart :=
  Extent.pairwise_apart (fun e he => Nat.lt_of_lt_of_le (by decide) (h.eight_le e he)) fun x =>
    (h.cover_eq x).trans_le (h.once x)

lemma apart (h : Layout base fs live given top) (he : e ∈ fs ++ live) (he' : e' ∈ fs ++ live)
    (hne : e ≠ e') : Apart e e' :=
  h.pairwise_apart.forall he he' hne

/-- A block lies in the memory handed out. -/
lemma bounds (h : Layout base fs live given top) (he : e ∈ fs ++ live) :
    base + 8 ≤ e.start ∧ e.stop ≤ top := by
  have hlen := h.eight_le e he
  have hin : ∀ x, e.ind x = 1 → ∃ g ∈ given, g.ind x = 1 := by
    intro x hx
    have hle := ind_le_cover he x
    rw [hx, h.cover_eq] at hle
    exact exists_of_cover_pos hle
  obtain ⟨g, hg, hfirst⟩ := hin e.start (ind_eq_one.2 ⟨le_rfl, by rw [stop]; omega⟩)
  obtain ⟨g', hg', hlast⟩ := hin (e.stop - 1) (ind_eq_one.2 (by rw [stop]; omega))
  rw [ind_eq_one] at hfirst hlast
  have hg := h.above g hg
  have hg' := h.above g' hg'
  constructor <;> omega

/-- The headers of the blocks and of `base` do not overlap. -/
lemma off (h : Layout base fs live given top) {k k' : ℕ}
    (hk : k ∈ base :: (fs ++ live).map start) (hk' : k' ∈ base :: (fs ++ live).map start)
    (hne : k ≠ k') : Off k k' := by
  simp only [List.mem_cons, List.mem_map] at hk hk'
  unfold Off
  rcases hk with rfl | ⟨e, he, rfl⟩ <;> rcases hk' with rfl | ⟨e', he', rfl⟩
  · exact absurd rfl hne
  · exact .inl (h.bounds he').1
  · exact .inr (h.bounds he).1
  · have hlen := h.eight_le e he
    have hlen' := h.eight_le e' he'
    have hapart := h.apart he he' (fun heq => hne (heq ▸ rfl))
    unfold Apart stop at hapart
    omega

/-- No other block starts where a block does. -/
lemma start_ne (h : Layout base fs live given top) {A B : List Extent}
    (hsplit : fs ++ live = A ++ c :: B) (he : e ∈ A ++ B) : e.start ≠ c.start := by
  have hpair : (c :: (A ++ B)).Pairwise Apart := by
    have hpair := h.pairwise_apart
    rw [hsplit] at hpair
    exact (List.Perm.pairwise_iff Apart.symm List.perm_middle).1 hpair
  have hapart := (List.pairwise_cons.1 hpair).1 e he
  have hc := h.eight_le c (by simp [hsplit])
  have he := h.eight_le e (hsplit ▸ by
    rw [List.mem_append] at he
    simp only [List.mem_append, List.mem_cons]
    exact he.imp_right .inr)
  unfold Apart stop at hapart
  omega

lemma starts_sorted (h : Layout base fs live given top) :
    (base :: fs.map start).Pairwise (· < ·) := by
  refine List.pairwise_cons.2 ⟨?_, List.pairwise_map.2 (h.order.imp ?_)⟩
  · intro k hk
    obtain ⟨e, he, rfl⟩ := List.mem_map.1 hk
    have hb := (h.bounds (List.mem_append_left live he)).1
    omega
  · intro e e' hlt
    exact (Nat.le_add_right _ _).trans_lt hlt

/-- A block that is not free lies between two free ones. -/
lemma split (h : Layout base fs live given top) (hb : b ∈ live) :
    ∃ u v, fs = u ++ v ∧ (∀ e ∈ u, e.stop ≤ b.start) ∧ ∀ e ∈ v, b.stop ≤ e.start := by
  have hapart : ∀ e ∈ fs, Apart e b := fun e he => (List.pairwise_append.1 h.pairwise_apart).2.2 e he b hb
  have horder := h.order
  clear h
  induction fs with
  | nil => exact ⟨[], [], rfl, by simp, by simp⟩
  | cons e fs ih =>
    obtain ⟨hlt, horder⟩ := List.pairwise_cons.1 horder
    rcases hapart e List.mem_cons_self with hbelow | habove
    · obtain ⟨u, v, rfl, hu, hv⟩ := ih (fun e' he' => hapart e' (.tail e he')) horder
      refine ⟨e :: u, v, rfl, ?_, hv⟩
      rintro e' (_ | ⟨_, he'⟩)
      exacts [hbelow, hu e' he']
    · refine ⟨[], e :: fs, rfl, by simp, ?_⟩
      rintro e' (_ | ⟨_, he'⟩)
      · exact habove
      · have hle := hlt e' he'
        unfold stop at hle habove ⊢
        omega

/-- The free list has fewer blocks than there are headers in the memory. -/
lemma length_lt (h : Layout base fs live given top) : fs.length < 2 ^ 29 := by
  have hle := length_mul_le h.order (fun e he => h.eight_le e (List.mem_append_left live he))
    (fun e he => h.bounds (List.mem_append_left live he)) h.base_le
  have htop := h.top_le
  omega

/-! ### Changes of the layout -/

/-- The free block behind a live one is joined to it. -/
lemma join_upper (h : Layout base (u ++ c :: v) (l ++ b :: r) given top) (hbc : b.stop = c.start) :
    Layout base (u ++ v) (l ++ ⟨b.start, b.len + c.len⟩ :: r) given top :=
  { h with
    eight_le := by
      have hb := h.eight_le b (by simp)
      intro e he
      simp only [List.mem_append, List.mem_cons] at he
      rcases he with (he | he) | he | rfl | he
      · exact h.eight_le e (by simp [he])
      · exact h.eight_le e (by simp [he])
      · exact h.eight_le e (by simp [he])
      · exact hb.trans (Nat.le_add_right _ _)
      · exact h.eight_le e (by simp [he])
    order := h.order.sublist (List.Sublist.append_left (List.sublist_cons_self c v) u)
    cover_eq x := by
      have hx := h.cover_eq x
      have hjoin := ind_join hbc x
      simp only [cover_append, cover_cons] at hx ⊢
      omega }

/-- A live block is joined to the free one before it. -/
lemma join_lower (h : Layout base (u ++ c :: v) (l ++ b :: r) given top) (hcb : c.stop = b.start)
    (hv : ∀ e ∈ v, b.stop < e.start) :
    Layout base (u ++ ⟨c.start, c.len + b.len⟩ :: v) (l ++ r) given top :=
  { h with
    eight_le := by
      have hc := h.eight_le c (by simp)
      intro e he
      simp only [List.mem_append, List.mem_cons] at he
      rcases he with (he | rfl | he) | he | he
      · exact h.eight_le e (by simp [he])
      · exact hc.trans (Nat.le_add_right _ _)
      · exact h.eight_le e (by simp [he])
      · exact h.eight_le e (by simp [he])
      · exact h.eight_le e (by simp [he])
    order := by
      obtain ⟨hu, hcv, huv⟩ := List.pairwise_append.1 h.order
      refine List.pairwise_append.2 ⟨hu, List.pairwise_cons.2 ⟨?_, (List.pairwise_cons.1 hcv).2⟩, ?_⟩
      · intro e he
        have hlt := hv e he
        unfold stop at hlt hcb ⊢
        simp only
        omega
      · rintro e he e' (_ | ⟨_, he'⟩)
        · exact huv e he c List.mem_cons_self
        · exact huv e he e' (List.mem_cons_of_mem c he')
    cover_eq x := by
      have hx := h.cover_eq x
      have hjoin := ind_join hcb x
      simp only [cover_append, cover_cons] at hx ⊢
      omega }

/-- A live block that touches no free one becomes free. -/
lemma release (h : Layout base (u ++ v) (l ++ b :: r) given top)
    (hu : ∀ e ∈ u, e.stop < b.start) (hv : ∀ e ∈ v, b.stop < e.start) :
    Layout base (u ++ b :: v) (l ++ r) given top :=
  { h with
    eight_le := by
      intro e he
      refine h.eight_le e ?_
      simp only [List.mem_append, List.mem_cons] at he ⊢
      tauto
    order := by
      obtain ⟨hu', hv', huv⟩ := List.pairwise_append.1 h.order
      refine List.pairwise_append.2 ⟨hu', List.pairwise_cons.2 ⟨hv, hv'⟩, ?_⟩
      rintro e he e' (_ | ⟨_, he'⟩)
      exacts [hu e he, huv e he e' he']
    cover_eq x := by
      have hx := h.cover_eq x
      simp only [cover_append, cover_cons] at hx ⊢
      omega }

/-- A free block becomes live. -/
lemma take (h : Layout base (u ++ c :: v) live given top) :
    Layout base (u ++ v) (live ++ [c]) given top :=
  { h with
    eight_le := by
      intro e he
      refine h.eight_le e ?_
      simp only [List.mem_append, List.mem_cons, List.not_mem_nil, or_false] at he ⊢
      tauto
    order := h.order.sublist (List.Sublist.append_left (List.sublist_cons_self c v) u)
    cover_eq x := by
      have hx := h.cover_eq x
      simp only [cover_append, cover_cons, cover_nil] at hx ⊢
      omega }

/-- The end of a free block becomes live. -/
lemma take_tail (h : Layout base (u ++ c :: v) live given top) {n : ℕ} (hn : 8 ≤ n)
    (hc : n + 8 ≤ c.len) :
    Layout base (u ++ ⟨c.start, c.len - n⟩ :: v) (live ++ [⟨c.stop - n, n⟩]) given top :=
  { h with
    eight_le := by
      intro e he
      simp only [List.mem_append, List.mem_cons, List.not_mem_nil, or_false] at he
      rcases he with (he | rfl | he) | he | rfl
      · exact h.eight_le e (by simp [he])
      · exact Nat.le_sub_of_add_le (by omega)
      · exact h.eight_le e (by simp [he])
      · exact h.eight_le e (by simp [he])
      · exact hn
    order := by
      obtain ⟨hu, hcv, huv⟩ := List.pairwise_append.1 h.order
      obtain ⟨hcv, hv⟩ := List.pairwise_cons.1 hcv
      refine List.pairwise_append.2 ⟨hu, List.pairwise_cons.2 ⟨?_, hv⟩, ?_⟩
      · intro e he
        have hlt := hcv e he
        unfold stop at hlt ⊢
        simp only
        omega
      · rintro e he e' (_ | ⟨_, he'⟩)
        · exact huv e he c List.mem_cons_self
        · exact huv e he e' (List.mem_cons_of_mem c he')
    cover_eq x := by
      have hx := h.cover_eq x
      have hsplit := ind_split (show n ≤ c.len by omega) x
      simp only [cover_append, cover_cons, cover_nil] at hx ⊢
      omega }

/-- Fresh memory is a live block at first. -/
lemma grow (h : Layout base fs live given top) (hlen : 8 ≤ b.len) (htop : top ≤ b.start)
    (hstop : b.stop ≤ 2 ^ 32) :
    Layout base fs (live ++ [b]) (given ++ [b]) b.stop where
  base_pos := h.base_pos
  eight_le := by
    intro e he
    simp only [List.mem_append, List.mem_cons, List.not_mem_nil, or_false] at he
    rcases he with he | he | rfl
    · exact h.eight_le e (by simp [he])
    · exact h.eight_le e (by simp [he])
    · exact hlen
  order := h.order
  cover_eq x := by
    have hx := h.cover_eq x
    simp only [cover_append, cover_cons, cover_nil] at hx ⊢
    omega
  once x := by
    have hx := h.once x
    simp only [cover_append, cover_cons, cover_nil]
    by_cases hb : b.ind x = 1
    · -- everything handed out before lies below
      have hzero : cover given x = 0 := by
        by_contra hpos
        obtain ⟨g, hg, hgx⟩ := exists_of_cover_pos (Nat.pos_of_ne_zero hpos)
        have hle := (h.above g hg).2
        rw [ind_eq_one] at hb hgx
        omega
      omega
    · have hzero : b.ind x = 0 := by
        rw [ind_eq_one] at hb
        rw [ind_eq_zero]
        omega
      omega
  above := by
    have hb : top ≤ b.stop := htop.trans (Nat.le_add_right _ _)
    intro g hg
    rcases List.mem_append.1 hg with hg | hg
    · exact ⟨(h.above g hg).1, (h.above g hg).2.trans hb⟩
    · obtain rfl := List.mem_singleton.1 hg
      exact ⟨h.base_le.trans htop, le_rfl⟩
  top_le := hstop
  base_le := h.base_le.trans (htop.trans (Nat.le_add_right _ _))

end Layout

end Xv7.Umalloc
