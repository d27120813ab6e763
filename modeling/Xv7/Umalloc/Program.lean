import Xv7.Umalloc.Malloc

/-!
# Programs that use the allocator

In every run of a program the memory from `sbrk` is divided into the blocks of the free list and the
blocks of the pointers that the program holds, and every legal call returns and leaves the blocks it
was not given alone.
-/

namespace Xv7.Umalloc

open Extent Circle Prog

/-! ## Writing into a block -/

section Write

variable {base : ℕ} {s : State} {fs l r : List Extent} {e : Extent} {m : Mem}

/-- The memory behind the header of a live block may be written. -/
lemma Rep.write (h : Rep base s fs (l ++ e :: r))
    (hm : ∀ x, x < e.start + 8 ∨ e.stop ≤ x → m x = s.mem x) :
    Rep base { s with mem := m } fs (l ++ e :: r) := by
  have hmem : e ∈ fs ++ (l ++ e :: r) := by simp
  have hlen := h.layout.eight_le e hmem
  have hout : ∀ k ∈ base :: (fs ++ (l ++ e :: r)).map start, ∀ i < 8, m (k + i) = s.mem (k + i) := by
    intro k hk i hi
    refine hm _ ?_
    by_cases hke : k = e.start
    · omega
    · -- another header lies outside the block
      rcases List.mem_cons.1 hk with rfl | hk
      · have hle := (h.layout.bounds hmem).1
        omega
      · obtain ⟨e', he', rfl⟩ := List.mem_map.1 hk
        have hlen' := h.layout.eight_le e' he'
        have hapart := h.layout.apart he' hmem fun heq => hke (heq ▸ rfl)
        unfold Apart stop at hapart
        unfold stop
        omega
  have hptr : ∀ k ∈ base :: (fs ++ (l ++ e :: r)).map start, ptr m k = ptr s.mem k :=
    fun k hk => Memory.word_congr fun i hi => hout k hk i (by omega)
  have hsize : ∀ k ∈ base :: (fs ++ (l ++ e :: r)).map start, size m k = size s.mem k := by
    intro k hk
    refine Memory.word_congr fun i hi => ?_
    have heq := hout k hk (4 + i) (by omega)
    rwa [← Nat.add_assoc] at heq
  refine ⟨h.layout, ⟨?_, ?_, ?_⟩, h.freep⟩
  · refine h.holds.ring.congr fun x hx => hptr x ?_
    rw [List.map_append, ← List.cons_append]
    exact List.mem_append_left _ hx
  · exact (hsize base List.mem_cons_self).trans h.holds.size_base
  · intro e' he'
    exact (congrArg (8 * ·) (hsize _ (List.mem_cons_of_mem base (List.mem_map_of_mem he')))).trans
      (h.holds.sizes e' he')

/-- And this changes no other live block. -/
lemma Rep.keeps_of_write (h : Rep base s fs (l ++ e :: r))
    (hm : ∀ x, x < e.start + 8 ∨ e.stop ≤ x → m x = s.mem x) : Keeps (l ++ r) s.mem m := by
  intro e' he' x hx
  have hpair : (e :: (l ++ r)).Pairwise Apart :=
    (List.Perm.pairwise_iff Apart.symm List.perm_middle).1
      (List.pairwise_append.1 h.layout.pairwise_apart).2.1
  have hapart := (List.pairwise_cons.1 hpair).1 e' he'
  rw [ind_eq_one] at hx
  refine hm x ?_
  unfold Apart at hapart
  omega

lemma memmove_of_notMem {dst src n x : ℕ} (h : x < dst ∨ dst + n ≤ x) :
    memmove m dst src n x = m x := by
  induction n generalizing m dst src with
  | zero => rfl
  | succ n ih => rw [memmove, ih (by omega), Function.update_of_ne (by omega)]

/-- The bytes are copied if the two places do not overlap. -/
lemma memmove_of_lt {dst src n i : ℕ} (hi : i < n) (h : src + n ≤ dst ∨ dst + n ≤ src) :
    memmove m dst src n (dst + i) = m (src + i) := by
  induction n generalizing m dst src i with
  | zero => omega
  | succ n ih =>
    rw [memmove]
    cases i with
    | zero => rw [memmove_of_notMem (by omega), Nat.add_zero, Function.update_self, Nat.add_zero]
    | succ i =>
      rw [show dst + (i + 1) = dst + 1 + i by omega, ih (by omega) (by omega),
        Function.update_of_ne (by omega), show src + 1 + i = src + (i + 1) by omega]

end Write

/-! ## `calloc` and `realloc` -/

section Calls

variable {base fuel n : ℕ} {s : State} {live l r : List Extent} {b : Extent} {sbrk : Sbrk}

lemma Heap.calloc (h : Heap base s live) (sbrk : Sbrk) {nmemb size : ℕ}
    (hn : nmemb * size < 2 ^ 30 ∨ 2 ^ 32 ≤ nmemb * size) (hfuel : 2 ^ 30 ≤ fuel) :
    Ends (calloc base sbrk fuel nmemb size) s (fun p s' => Taken base s s' live (nmemb * size) p ∧
      (p ≠ 0 → ∀ i < nmemb * size, s'.mem (p + i) = 0)) (fun _ => False) := by
  unfold Umalloc.calloc
  split_ifs with hzero
  · -- no bytes
    have hprod : nmemb * size = 0 := by rcases hzero with rfl | rfl <;> simp
    rw [hprod]
    refine (h.malloc sbrk (by omega) hfuel).mono fun p s' htaken => ⟨htaken, fun _ i hi => ?_⟩
    omega
  dsimp only
  split_ifs with hover
  · -- the product does not fit
    exact ⟨⟨.refl _ _, .inl ⟨rfl, h⟩⟩, fun hp => absurd rfl hp⟩
  · have hsize : 0 < size := Nat.pos_of_ne_zero fun heq => hzero (.inr heq)
    have hlt : nmemb * size < 2 ^ 30 := by
      refine hn.resolve_right fun hle => hover ⟨hsize.ne', fun heq => ?_⟩
      have hmod : nmemb * size % 2 ^ 32 < 2 ^ 32 := Nat.mod_lt _ (by decide)
      have hdiv := Nat.div_mul_le_self (nmemb * size % 2 ^ 32) size
      rw [heq] at hdiv
      omega
    rw [Nat.mod_eq_of_lt (by omega)]
    refine (h.malloc sbrk hlt hfuel).bind ?_
    intro p s' htaken
    rcases htaken.rep with ⟨rfl, hheap⟩ | ⟨e, fs, rfl, hle, hrep⟩
    · exact ⟨⟨htaken.keeps, .inl ⟨rfl, hheap⟩⟩, fun hp => absurd rfl hp⟩
    · rw [if_neg (by omega), ends_bind, ends_modify, ends_pure]
      have hout : ∀ x, x < e.start + 8 ∨ e.stop ≤ x →
          memset s'.mem (e.start + 8) 0 (nmemb * size) x = s'.mem x := by
        intro x hx
        refine if_neg ?_
        unfold stop at hx
        omega
      have hkeeps := hrep.keeps_of_write hout
      rw [List.append_nil] at hkeeps
      refine ⟨⟨htaken.keeps.trans hkeeps, .inr ⟨e, fs, rfl, hle, hrep.write hout⟩⟩, fun _ i hi => ?_⟩
      exact if_pos (by omega)

/-- What `realloc` of a live block leaves. -/
inductive Moved (base : ℕ) (s s' : State) (l : List Extent) (b : Extent) (r : List Extent) (n : ℕ) :
    ℕ → Prop
  /-- The block is freed. -/
  | freed (hn : n = 0) (hkeeps : Keeps (l ++ r) s.mem s'.mem) (hheap : Heap base s' (l ++ r)) :
      Moved base s s' l b r n 0
  /-- There is no memory, and the block stays as it is. -/
  | failed (hn : n ≠ 0) (hkeeps : Keeps (l ++ b :: r) s.mem s'.mem)
      (hheap : Heap base s' (l ++ b :: r)) : Moved base s s' l b r n 0
  /-- The bytes are in a new block. -/
  | moved (hn : n ≠ 0) (hkeeps : Keeps (l ++ r) s.mem s'.mem) (e : Extent) (hle : n + 8 ≤ e.len)
      (hheap : Heap base s' (l ++ r ++ [e]))
      (hcopy : ∀ i < min (b.len - 8) n, s'.mem (e.start + 8 + i) = s.mem (b.start + 8 + i)) :
      Moved base s s' l b r n (e.start + 8)

/-- The bytes are copied to a new block, and the old one is freed. -/
lemma Heap.move {s' : State} {fs : List Extent} {e : Extent} (hkeeps : Keeps (l ++ b :: r) s.mem s'.mem)
    (hrep : Rep base s' fs ((l ++ b :: r) ++ [e])) (hn : n ≠ 0) (hle : n + 8 ≤ e.len)
    (hfuel : 2 ^ 29 ≤ fuel) :
    Ends (free fuel (b.start + 8))
      { s' with mem := memmove s'.mem (e.start + 8) (b.start + 8) (min (b.len - 8) n) }
      (fun _ s'' => Moved base s s'' l b r n (e.start + 8)) (fun _ => False) := by
  have hout : ∀ x, x < e.start + 8 ∨ e.stop ≤ x →
      memmove s'.mem (e.start + 8) (b.start + 8) (min (b.len - 8) n) x = s'.mem x := by
    intro x hx
    refine memmove_of_notMem ?_
    unfold stop at hx
    omega
  have hwrite := hrep.write hout
  have hkeeps1 := hrep.keeps_of_write hout
  rw [List.append_nil] at hkeeps1
  have hapart : Apart b e := by
    have hpair := (List.pairwise_append.1 hrep.layout.pairwise_apart).2.1
    exact (List.pairwise_append.1 hpair).2.2 b (by simp) e (by simp)
  have hcopied : ∀ i < min (b.len - 8) n,
      memmove s'.mem (e.start + 8) (b.start + 8) (min (b.len - 8) n) (e.start + 8 + i) =
        s.mem (b.start + 8 + i) := by
    intro i hi
    rw [memmove_of_lt hi (by unfold Apart stop at hapart; omega)]
    refine hkeeps b (by simp) _ (ind_eq_one.2 ?_)
    unfold stop
    omega
  have hlen := hwrite.layout.length_lt
  generalize memmove s'.mem (e.start + 8) (b.start + 8) (min (b.len - 8) n) = m
    at hwrite hkeeps1 hcopied ⊢
  rw [List.append_assoc, List.cons_append] at hwrite
  refine (Rep.free hwrite (show _ ≤ fuel by omega)).mono fun _ s'' hfreed => ?_
  have hkeeps2 := hfreed.keeps hwrite.layout
  obtain ⟨fs', hrep', _⟩ := hfreed.rep
  rw [← List.append_assoc] at hkeeps2 hrep'
  have hother : l ++ r ⊆ l ++ b :: r := by simp
  refine .moved hn ?_ e hle (.inr ⟨fs', hrep'⟩) fun i hi => ?_
  · exact ((hkeeps.mono hother).trans (hkeeps1.mono hother)).trans
      (hkeeps2.mono (List.subset_append_left _ _))
  · rw [hkeeps2 e (by simp) _ (ind_eq_one.2 (by unfold stop; omega))]
    exact hcopied i hi

lemma Heap.realloc (h : Heap base s (l ++ b :: r)) (sbrk : Sbrk) (hn : n < 2 ^ 30)
    (hfuel : 2 ^ 30 ≤ fuel) :
    Ends (realloc base sbrk fuel (b.start + 8) n) s (fun p s' => Moved base s s' l b r n p)
      (fun _ => False) := by
  obtain ⟨fs, hrep⟩ : ∃ fs, Rep base s fs (l ++ b :: r) := h.resolve_left fun hidle => by
    simp at hidle
  have hlen := hrep.layout.length_lt
  have hbsize := hrep.holds.sizes b (by simp)
  have hblen := hrep.layout.eight_le b (by simp)
  have hbtop := (hrep.layout.bounds (e := b) (by simp)).2
  have htop := hrep.layout.top_le
  unfold Umalloc.realloc
  rw [if_neg (by omega)]
  split_ifs with hzero
  · refine (Rep.free hrep (by omega)).bind fun _ s' hfreed => ?_
    obtain ⟨fs', hrep', _⟩ := hfreed.rep
    exact .freed hzero (hfreed.keeps hrep.layout) (.inr ⟨fs', hrep'⟩)
  · rw [ends_bind, ends_get]
    have hold : (size s.mem b.start - 1) * 8 % 2 ^ 32 = b.len - 8 := by
      unfold stop at hbtop
      omega
    have hmin : (if b.len - 8 < n then b.len - 8 else n) = min (b.len - 8) n := by
      split_ifs <;> omega
    simp only [Nat.add_sub_cancel, hold, hmin]
    refine (h.malloc sbrk hn hfuel).bind ?_
    intro p s' htaken
    rcases htaken.rep with ⟨rfl, hheap⟩ | ⟨e, fs', rfl, hle, hrep'⟩
    · exact .failed hzero htaken.keeps hheap
    · rw [if_neg (by omega), ends_bind, ends_modify]
      refine (Heap.move htaken.keeps hrep' hzero hle (by omega)).bind ?_
      exact fun _ s'' hmoved => hmoved

end Calls

/-! ## Runs -/

/-- The free list: a ring through `base`, which holds the sizes of its blocks, in address order, with
something between two blocks. -/
structure FreeList (base : ℕ) (s : State) (fs : List Extent) : Prop where
  ring : Ring (ptr s.mem) (base :: fs.map start)
  freep : s.freep ∈ base :: fs.map start
  sizes : ∀ e ∈ fs, 8 * size s.mem e.start = e.len ∧ 0 < e.len
  order : (⟨base, 0⟩ :: fs).Pairwise fun e e' => e.stop < e'.start

/-- The heap of a program: there is a free list from the first call on; the free blocks and the blocks
of the live pointers make up the memory from `sbrk`, each byte once; and a live pointer stands behind
the header of its block, with room for what was asked for. -/
structure Sane (base : ℕ) (s : Program) (fs : List Extent) : Prop where
  list : (s.heap.freep = 0 ∧ s.heap.given = [] ∧ fs = []) ∨ FreeList base s.heap fs
  once : ∀ x, cover s.heap.given x ≤ 1
  partition : ∀ x, cover (fs ++ s.live.map fun q => s.block q.1) x = cover s.heap.given x
  room : ∀ q ∈ s.live, q.1 = (s.block q.1).start + 8 ∧ q.1 + q.2 ≤ (s.block q.1).stop

/-- The pointer that a call is given. -/
def Call.arg : Call → Option ℕ
  | .malloc _ => none
  | .calloc _ _ => none
  | .realloc p _ => some p
  | .free p => some p
  | .store p _ _ => some p

/-- The bytes of a block are the same in both states. -/
def Same (s s' : Program) (p : ℕ) : Prop :=
  ∀ x, (s.block p).ind x = 1 → s'.heap.mem x = s.heap.mem x

/-- What the result of a call says. -/
def Result (s s' : Program) (r : ℕ) : Call → Prop
  | .malloc n => r ≠ 0 → (r, n) ∈ s'.live
  | .calloc nmemb size =>
    r ≠ 0 → (r, nmemb * size) ∈ s'.live ∧ ∀ i < nmemb * size, s'.heap.mem (r + i) = 0
  | .realloc p n =>
    (r ≠ 0 → (r, n) ∈ s'.live ∧ (p ≠ 0 →
      ∀ i < min ((s.block p).len - 8) n, s'.heap.mem (r + i) = s.heap.mem (p + i))) ∧
    (r = 0 → n ≠ 0 → s'.live = s.live ∧ (p ≠ 0 → Same s s' p))
  | .free _ => True
  | .store p i v => s'.heap.mem (p + i) = v

/-- A pointer of the program stands behind the header of the block, with room for its bytes. -/
def Points (q : ℕ × ℕ) (e : Extent) : Prop := q.1 = e.start + 8 ∧ q.2 + 8 ≤ e.len

/-- The live blocks are those of the program's pointers. -/
def Inv (base : ℕ) (s : Program) : Prop :=
  ∃ bs, Heap base s.heap bs ∧ List.Forall₂ Points s.live bs

section Runs

variable {base fuel : ℕ} {s : Program} {bs : List Extent}

/-- The header of a live block has its size. -/
lemma Heap.block_eq (h : Heap base s.heap bs) {q : ℕ × ℕ} {e : Extent} (he : e ∈ bs)
    (hq : Points q e) : s.block q.1 = e := by
  rcases h with ⟨_, rfl⟩ | ⟨fs, hrep⟩
  · cases he
  · rw [Program.block, hq.1, Nat.add_sub_cancel, hrep.holds.sizes e (List.mem_append_right fs he)]

lemma Points.mem {live : List (ℕ × ℕ)} (h : List.Forall₂ Points live bs) {q : ℕ × ℕ}
    (hq : q ∈ live) : ∃ e ∈ bs, Points q e := by
  induction h with
  | nil => cases hq
  | cons hpe _ ih =>
    rcases List.mem_cons.1 hq with rfl | hq
    · exact ⟨_, List.mem_cons_self, hpe⟩
    · obtain ⟨e, he, hqe⟩ := ih hq
      exact ⟨e, List.mem_cons_of_mem _ he, hqe⟩

lemma Heap.map_block (h : Heap base s.heap bs) (hlive : List.Forall₂ Points s.live bs) :
    (s.live.map fun q => s.block q.1) = bs := by
  have hmap : ∀ {live : List (ℕ × ℕ)} {bs' : List Extent}, List.Forall₂ Points live bs' → bs' ⊆ bs →
      (live.map fun q => s.block q.1) = bs' := by
    intro live bs' hlive hsub
    induction hlive with
    | nil => rfl
    | cons hpe _ ih =>
      rw [List.map_cons, h.block_eq (hsub List.mem_cons_self) hpe,
        ih fun e he => hsub (List.mem_cons_of_mem _ he)]
  exact hmap hlive (List.Subset.refl bs)

lemma Inv.sane (h : Inv base s) : ∃ fs, Sane base s fs := by
  obtain ⟨bs, hheap, hlive⟩ := h
  have hmap := hheap.map_block hlive
  have hroom : ∀ q ∈ s.live, q.1 = (s.block q.1).start + 8 ∧ q.1 + q.2 ≤ (s.block q.1).stop := by
    intro q hq
    obtain ⟨e, he, hqe⟩ := Points.mem hlive hq
    rw [hheap.block_eq he hqe]
    unfold stop
    exact ⟨hqe.1, by have := hqe.1; have := hqe.2; omega⟩
  rcases hheap with ⟨hidle, rfl⟩ | ⟨fs, hrep⟩
  · refine ⟨[], .inl ⟨hidle.freep, hidle.given, rfl⟩, ?_, ?_, hroom⟩
    · simp [hidle.given]
    · simp [hmap, hidle.given]
  · refine ⟨fs, .inr ⟨hrep.holds.ring, hrep.freep, ?_, ?_⟩, hrep.layout.once, ?_, hroom⟩
    · intro e he
      have hmem := List.mem_append_left bs he
      exact ⟨hrep.holds.sizes e hmem, Nat.lt_of_lt_of_le (by decide) (hrep.layout.eight_le e hmem)⟩
    · refine List.pairwise_cons.2 ⟨fun e he => ?_, hrep.layout.order⟩
      have hle := (hrep.layout.bounds (List.mem_append_left bs he)).1
      show base + 0 < e.start
      omega
    · rw [hmap]
      exact hrep.layout.cover_eq

/-- Take a live pointer and its block out of the lists. -/
lemma Points.split {live : List (ℕ × ℕ)} (h : List.Forall₂ Points live bs) {p : ℕ}
    (hp : p ∈ live.map Prod.fst) :
    ∃ l b r k, bs = l ++ b :: r ∧ Points (p, k) b ∧ List.Forall₂ Points (drop p live) (l ++ r) := by
  induction h with
  | nil => cases hp
  | @cons q e live bs hqe hrest ih =>
    by_cases hqp : q.1 = p
    · refine ⟨[], e, bs, q.2, rfl, hqp ▸ hqe, ?_⟩
      rw [drop, List.eraseP_cons_of_pos (by simp [hqp])]
      exact hrest
    · obtain ⟨l, b, r, k, rfl, hpb, hdrop⟩ := ih ((List.mem_cons.1 hp).resolve_left (Ne.symm hqp))
      refine ⟨e :: l, b, r, k, rfl, hpb, ?_⟩
      rw [drop, List.eraseP_cons_of_neg (by simpa using hqp)]
      exact .cons hqe hdrop

/-- The other pointers stay. -/
lemma mem_drop {live : List (ℕ × ℕ)} {q : ℕ × ℕ} {p : ℕ} (hq : q ∈ live) (hne : p ≠ q.1) :
    q ∈ drop p live := (List.mem_eraseP_of_neg (by simpa using hne.symm)).2 hq

/-- What holds of a call that returned. -/
structure Outcome (base : ℕ) (s s' : Program) (c : Call) (r : ℕ) : Prop where
  inv : Inv base s'
  others : ∀ q ∈ s.live, c.arg ≠ some q.1 → Same s s' q.1
  result : Result s s' r c

lemma Heap.same (h : Heap base s.heap bs) {s' : Program} {live : List (ℕ × ℕ)} {bs' : List Extent}
    (hlive : List.Forall₂ Points live bs') (hsub : bs' ⊆ bs)
    (hkeeps : Keeps bs' s.heap.mem s'.heap.mem) {q : ℕ × ℕ} (hq : q ∈ live) : Same s s' q.1 := by
  obtain ⟨e, he, hqe⟩ := Points.mem hlive hq
  intro x hx
  rw [h.block_eq (hsub he) hqe] at hx
  exact hkeeps e he x hx

/-- A result that is not null is a new live pointer. -/
lemma Taken.inv {live : List (ℕ × ℕ)} {heap heap' : State} {n r : ℕ}
    (h : Taken base heap heap' bs n r) (hlive : List.Forall₂ Points live bs) :
    Inv base ⟨heap', keep r n live⟩ := by
  rcases h.rep with ⟨rfl, hheap⟩ | ⟨e, fs, rfl, hle, hrep⟩
  · exact ⟨bs, hheap, hlive⟩
  · refine ⟨bs ++ [e], .inr ⟨fs, hrep⟩, ?_⟩
    show List.Forall₂ Points (keep (e.start + 8) n live) _
    rw [keep, if_neg (by omega)]
    exact List.rel_append hlive (.cons ⟨rfl, hle⟩ .nil)

lemma mem_keep {r n : ℕ} {live : List (ℕ × ℕ)} (hr : r ≠ 0) : (r, n) ∈ keep r n live := by
  rw [keep, if_neg hr]
  simp

variable {sbrk : Sbrk}

lemma Inv.call_malloc (h : Inv base s) (hfuel : 2 ^ 30 ≤ fuel) {n : ℕ} (hn : n < 2 ^ 30) :
    ∃ r s', call base fuel sbrk s (.malloc n) = .ok (r, s') ∧ Outcome base s s' (.malloc n) r := by
  obtain ⟨bs, hheap, hlive⟩ := h
  obtain ⟨r, heap, hrun, htaken⟩ := (hheap.malloc sbrk hn hfuel).exists_ok
  refine ⟨r, ⟨heap, keep r n s.live⟩, ?_, htaken.inv hlive, ?_, mem_keep⟩
  · rw [call, hrun]
    rfl
  · intro q hq _
    exact hheap.same hlive (List.Subset.refl bs) htaken.keeps hq

lemma Inv.call_calloc (h : Inv base s) (hfuel : 2 ^ 30 ≤ fuel) {nmemb size : ℕ}
    (hn : nmemb * size < 2 ^ 30 ∨ 2 ^ 32 ≤ nmemb * size) :
    ∃ r s', call base fuel sbrk s (.calloc nmemb size) = .ok (r, s') ∧
      Outcome base s s' (.calloc nmemb size) r := by
  obtain ⟨bs, hheap, hlive⟩ := h
  obtain ⟨r, heap, hrun, htaken, hzero⟩ := (hheap.calloc sbrk hn hfuel).exists_ok
  refine ⟨r, ⟨heap, keep r (nmemb * size) s.live⟩, ?_, htaken.inv hlive, ?_,
    fun hr => ⟨mem_keep hr, hzero hr⟩⟩
  · rw [call, hrun]
    rfl
  · intro q hq _
    exact hheap.same hlive (List.Subset.refl bs) htaken.keeps hq

/-- The null pointer is not live. -/
lemma drop_zero {live : List (ℕ × ℕ)} (h : List.Forall₂ Points live bs) : drop 0 live = live := by
  refine List.eraseP_of_forall_not fun q hq => ?_
  obtain ⟨e, _, hqe⟩ := Points.mem h hq
  have hpos := hqe.1
  simp only [beq_iff_eq]
  omega

/-- `realloc` of the null pointer is `malloc`. -/
lemma Inv.call_realloc_null (h : Inv base s) (hfuel : 2 ^ 30 ≤ fuel) {n : ℕ} (hn : n < 2 ^ 30) :
    ∃ r s', call base fuel sbrk s (.realloc 0 n) = .ok (r, s') ∧
      Outcome base s s' (.realloc 0 n) r := by
  obtain ⟨bs, hheap, hlive⟩ := h
  obtain ⟨r, heap, hrun, htaken⟩ := (hheap.malloc sbrk hn hfuel).exists_ok
  have hkeep : (if r = 0 ∧ n ≠ 0 then s.live else keep r n (drop 0 s.live)) = keep r n s.live := by
    rw [drop_zero hlive]
    split_ifs with hr
    · rw [keep, if_pos hr.1]
    · rfl
  refine ⟨r, ⟨heap, keep r n s.live⟩, ?_, htaken.inv hlive, ?_, ?_, ?_⟩
  · rw [call, realloc, if_pos rfl, hrun, ← hkeep]
    rfl
  · intro q hq _
    exact hheap.same hlive (List.Subset.refl bs) htaken.keeps hq
  · exact fun hr => ⟨mem_keep hr, fun h0 => absurd rfl h0⟩
  · intro hr _
    exact ⟨by rw [keep, if_pos hr], fun h0 => absurd rfl h0⟩

lemma Inv.call_realloc (h : Inv base s) (hfuel : 2 ^ 30 ≤ fuel) {p n : ℕ} (hn : n < 2 ^ 30)
    (hp : s.Live p) :
    ∃ r s', call base fuel sbrk s (.realloc p n) = .ok (r, s') ∧
      Outcome base s s' (.realloc p n) r := by
  obtain ⟨bs, hheap, hlive⟩ := h
  obtain ⟨l, b, r, k, rfl, hpb, hdrop⟩ := Points.split hlive hp
  have hblock : s.block p = b := hheap.block_eq (q := (p, k)) (by simp) hpb
  have hpb : p = b.start + 8 := hpb.1
  have hne : p ≠ 0 := by omega
  have hothers : l ++ r ⊆ l ++ b :: r := by simp
  obtain ⟨r', heap, hrun, hmoved⟩ := (hheap.realloc sbrk hn hfuel).exists_ok
  rw [← hpb] at hrun
  have hcall : call base fuel sbrk s (.realloc p n) = .ok (r',
      ⟨heap, if r' = 0 ∧ n ≠ 0 then s.live else keep r' n (drop p s.live)⟩) := by
    rw [call, hrun]
    rfl
  have hsame : ∀ {s' : Program}, Keeps (l ++ r) s.heap.mem s'.heap.mem → ∀ q ∈ s.live,
      Call.arg (.realloc p n) ≠ some q.1 → Same s s' q.1 := fun hkeeps q hq hne =>
    hheap.same hdrop hothers hkeeps (mem_drop hq fun heq => hne (heq ▸ rfl))
  cases hmoved with
  | freed hzero hkeeps hheap' =>
    refine ⟨_, _, hcall, ?_, hsame hkeeps, fun hr => absurd rfl hr, fun _ hn => absurd hzero hn⟩
    rw [if_neg fun hn => hn.2 hzero]
    exact ⟨l ++ r, hheap', hdrop⟩
  | failed hzero hkeeps hheap' =>
    refine ⟨_, _, hcall, ?_, hsame (hkeeps.mono hothers), fun hr => absurd rfl hr, fun _ _ => ?_⟩
    · rw [if_pos ⟨rfl, hzero⟩]
      exact ⟨_, hheap', hlive⟩
    · refine ⟨if_pos ⟨rfl, hzero⟩, fun _ x hx => hkeeps b (by simp) x ?_⟩
      rwa [hblock] at hx
  | moved hzero hkeeps e hle hheap' hcopy =>
    have hr : ¬ (e.start + 8 = 0 ∧ n ≠ 0) := fun hr => absurd hr.1 (by omega)
    refine ⟨_, _, hcall, ?_, hsame hkeeps, fun hr' => ?_, fun hr => absurd hr (by omega)⟩
    · rw [if_neg hr, keep, if_neg (by omega)]
      exact ⟨_, hheap', List.rel_append hdrop (.cons ⟨rfl, hle⟩ .nil)⟩
    · simp only [if_neg hr]
      refine ⟨mem_keep hr', fun _ => ?_⟩
      rw [hblock, hpb]
      exact hcopy

lemma Inv.call_free (h : Inv base s) (hfuel : 2 ^ 30 ≤ fuel) {p : ℕ} (hp : s.Live p) :
    ∃ r s', call base fuel sbrk s (.free p) = .ok (r, s') ∧ Outcome base s s' (.free p) r := by
  obtain ⟨bs, hheap, hlive⟩ := h
  obtain ⟨l, b, r, k, rfl, hpb, hdrop⟩ := Points.split hlive hp
  have hpb : p = b.start + 8 := hpb.1
  obtain ⟨fs, hrep⟩ := hheap.resolve_left fun hidle => by simp at hidle
  have hlen := hrep.layout.length_lt
  obtain ⟨_, heap, hrun, hfreed⟩ := (Rep.free hrep (show fs.length + 1 ≤ fuel by omega)).exists_ok
  obtain ⟨fs', hrep', _⟩ := hfreed.rep
  refine ⟨0, ⟨heap, drop p s.live⟩, ?_, ⟨l ++ r, .inr ⟨fs', hrep'⟩, hdrop⟩, ?_, trivial⟩
  · rw [call, hpb, hrun]
    rfl
  · intro q hq hne
    exact hheap.same hdrop (by simp) (hfreed.keeps hrep.layout)
      (mem_drop hq fun heq => hne (heq ▸ rfl))

lemma Inv.call_store (h : Inv base s) {p i : ℕ} (v : UInt8) (hp : s.Live p)
    (hi : p + i < (s.block p).stop) :
    ∃ r s', call base fuel sbrk s (.store p i v) = .ok (r, s') ∧
      Outcome base s s' (.store p i v) r := by
  obtain ⟨bs, hheap, hlive⟩ := h
  obtain ⟨l, b, r, k, rfl, hpb, hdrop⟩ := Points.split hlive hp
  rw [hheap.block_eq (q := (p, k)) (by simp) hpb] at hi
  have hpb : p = b.start + 8 := hpb.1
  obtain ⟨fs, hrep⟩ := hheap.resolve_left fun hidle => by simp at hidle
  have hout : ∀ x, x < b.start + 8 ∨ b.stop ≤ x →
      Function.update s.heap.mem (p + i) v x = s.heap.mem x := by
    intro x hx
    exact Function.update_of_ne (by omega) _ _
  refine ⟨0, _, rfl, ⟨_, .inr ⟨fs, hrep.write hout⟩, hlive⟩, ?_, Function.update_self _ _ _⟩
  intro q hq hne
  exact hheap.same hdrop (by simp) (hrep.keeps_of_write hout)
    (mem_drop hq fun heq => hne (heq ▸ rfl))

/-- Every legal call returns. -/
lemma Inv.call (h : Inv base s) (sbrk : Sbrk) (hfuel : 2 ^ 30 ≤ fuel) {c : Call} (hc : s.Legal c) :
    ∃ r s', call base fuel sbrk s c = .ok (r, s') ∧ Outcome base s s' c r := by
  cases c with
  | malloc n => exact h.call_malloc hfuel hc
  | calloc nmemb size => exact h.call_calloc hfuel hc.2.2
  | realloc p n =>
    obtain ⟨hn, rfl | hp⟩ := hc
    · exact h.call_realloc_null hfuel hn
    · exact h.call_realloc hfuel hn hp
  | free p => exact h.call_free hfuel hc
  | store p i v => exact h.call_store v hc.1 hc.2

lemma inv_start (hbase : 0 < base) (hend : base + 8 ≤ 2 ^ 32) (m : Mem) :
    Inv base (.start base m) :=
  ⟨[], .inl ⟨⟨hbase, rfl, rfl, le_rfl, hend⟩, rfl⟩, .nil⟩

lemma Inv.step (h : Inv base s) (hfuel : 2 ^ 30 ≤ fuel) {e : Call × Sbrk} {s' : Program}
    (hstep : step base fuel s e = some s') : Inv base s' := by
  unfold Umalloc.step at hstep
  split_ifs at hstep with hlegal
  obtain ⟨r, s1, hcall, houtcome⟩ := h.call e.2 hfuel hlegal
  rw [hcall] at hstep
  obtain rfl : s1 = s' := Option.some.inj hstep
  exact houtcome.inv

/-- In every state of a run the heap is sane, and every legal call returns, keeps the blocks it is not
given, and does what its result says. -/
theorem allocator_keeps_blocks_apart (base fuel : ℕ) (hbase : 0 < base) (hend : base + 8 ≤ 2 ^ 32)
    (hfuel : 2 ^ 30 ≤ fuel) (m : Mem) (tr : List (Call × Sbrk)) (s : Program)
    (hrun : Machine.exec (step base fuel) (.start base m) tr = some s) :
    (∃ fs, Sane base s fs) ∧
      ∀ c sbrk, s.Legal c → ∃ r s', call base fuel sbrk s c = .ok (r, s') ∧
        (∀ q ∈ s.live, c.arg ≠ some q.1 → Same s s' q.1) ∧ Result s s' r c := by
  have hinv : Inv base s := Machine.exec_induction (motive := fun _ s => Inv base s)
    (inv_start hbase hend m) (fun _ _ _ _ _ hinv hstep => hinv.step hfuel hstep) hrun
  refine ⟨hinv.sane, fun c sbrk hc => ?_⟩
  obtain ⟨r, s', hcall, houtcome⟩ := hinv.call sbrk hfuel hc
  exact ⟨r, s', hcall, houtcome.others, houtcome.result⟩

/-- Memory directly above what has been handed out, while there is some. -/
def sbrkNext : Sbrk where
  give top n := if top + n ≤ 2 ^ 32 then some top else none
  fresh := by
    intro top n p h
    split_ifs at h with hle
    obtain rfl := Option.some.inj h
    exact ⟨le_rfl, hle⟩

/-- A program that takes two blocks, gives the first one back and moves the second. -/
abbrev fourCalls : List (Call × Sbrk) :=
  [(.malloc 100, sbrkNext), (.malloc 7, sbrkNext), (.free 36768, sbrkNext),
    (.realloc 36752 50, sbrkNext)]

lemma fourCalls_runs :
    (Machine.exec (step 4096 (2 ^ 30)) (.start 4096 fun _ => 0) fourCalls).isSome := by
  decide +kernel

abbrev afterFourCalls : Program :=
  (Machine.exec (step 4096 (2 ^ 30)) (.start 4096 fun _ => 0) fourCalls).get fourCalls_runs

theorem allocator_keeps_blocks_apart_fourCalls :
    (∃ fs, Sane 4096 afterFourCalls fs) ∧
      ∀ c sbrk, afterFourCalls.Legal c →
        ∃ r s', call 4096 (2 ^ 30) sbrk afterFourCalls c = .ok (r, s') ∧
          (∀ q ∈ afterFourCalls.live, c.arg ≠ some q.1 → Same afterFourCalls s' q.1) ∧
          Result afterFourCalls s' r c :=
  allocator_keeps_blocks_apart 4096 (2 ^ 30) (by decide) (by decide) le_rfl (fun _ => 0) fourCalls
    afterFourCalls (Option.some_get _).symm

example : afterFourCalls.live = [(36816, 50)] := by decide +kernel

end Runs

end Xv7.Umalloc
