import Xv7.Bio.Cache

/-!
# Operations, the log and the buffers they need

The machine of the buffer cache, driven by operations that `begin_op` has admitted and by `commit`.
A block that was logged stays dirty, and so keeps its buffer, until `install_trans` writes it home.
`bget` finds no buffer exactly when the logged blocks that are not installed and the other buffers in
use are all `NBUF` buffers.  The log holds up to `LOGSIZE - 1` blocks and `NBUF` is `LOGSIZE`, so
with a full log one buffer in use is enough.
-/

namespace Xv7.Bio

/-- An operation: the blocks it has logged, and the number of buffers it has. -/
structure Op where
  logged : List ℕ
  held : ℕ
  deriving DecidableEq, Repr

/-- The cache, the log in memory and the operations. -/
structure Sys (D : Type*) where
  bio : State D
  /-- `log.lh.block`, as far as `log.lh.n`. -/
  lh : List ℕ
  /-- `log.outstanding`. -/
  outstanding : ℕ
  /-- `log.committing`. -/
  committing : Bool
  /-- The blocks that `commit` has written to the disk. -/
  written : List ℕ
  ops : ℕ → Option Op

/-- The most buffers an operation has at once, in `itrunc`. -/
abbrev MAXHELD : ℕ := 4

/-- What can happen.  Operation `k` calls a function, or `commit` does (`none`). -/
inductive Call (D : Type*) where
  | beginOp (k : ℕ)
  | endOp (k : ℕ)
  | bread (k : Option ℕ) (n : ℕ)
  | modify (b : Buf) (d : D)
  | logWrite (k : ℕ) (b : Buf)
  /-- `bwrite`, which only `commit` calls. -/
  | bwrite (b : Buf)
  | brelse (k : Option ℕ) (b : Buf)
  | go (a : Act)
  | ideintr
  /-- `log.lh.n = 0`, after `install_trans`. -/
  | clear
  /-- `log.committing = 0`. -/
  | committed

namespace Sys

variable {D : Type*}

/-- A block is in the list once. -/
def insertBlock (l : List ℕ) (n : ℕ) : List ℕ := if n ∈ l then l else l ++ [n]

/-- Change an operation. -/
def setOp (s : Sys D) (k : ℕ) (op : Op) : Sys D :=
  { s with ops := Function.update s.ops k (some op) }

/-- A step of the cache. -/
def cache (s : Sys D) (e : Event D) : Option (Sys D) :=
  (s.bio.step e).map fun t => { s with bio := t }

/-- The machine. -/
def step (s : Sys D) : Call D → Option (Sys D)
  | .beginOp k =>
    if s.ops k = none ∧ ¬ s.committing ∧
        s.lh.length + (s.outstanding + 1) * MAXOPBLOCKS ≤ LOGSIZE then
      some { s.setOp k ⟨[], 0⟩ with outstanding := s.outstanding + 1 }
    else none
  | .endOp k =>
    match s.ops k with
    | some op =>
      if op.held = 0 ∧ ¬ s.committing then
        some { s with
          ops := Function.update s.ops k none
          outstanding := s.outstanding - 1
          committing := s.outstanding - 1 = 0 }
      else none
    | none => none
  | .bread (some k) n =>
    match s.ops k with
    | some op =>
      if op.held < MAXHELD then (s.cache (.bread n)).map fun t => t.setOp k ⟨op.logged, op.held + 1⟩
      else none
    | none => none
  | .bread none n => if s.committing then s.cache (.bread n) else none
  | .modify b d => s.cache (.modify b d)
  | .logWrite k b =>
    match s.ops k with
    | some op =>
      if 1 ≤ s.outstanding ∧ s.lh.length < LOGSIZE ∧ s.lh.length < LOGSIZE - 1 ∧ ¬ s.committing ∧
          (insertBlock op.logged (s.bio.buf b).blockno).length ≤ MAXOPBLOCKS then
        (s.cache (.logWrite b)).map fun t =>
          { t.setOp k ⟨insertBlock op.logged (s.bio.buf b).blockno, op.held⟩ with
            lh := insertBlock s.lh (s.bio.buf b).blockno }
      else none
    | none => none
  | .bwrite b =>
    if s.committing then
      (s.cache (.bwrite b)).map fun t => { t with written := (s.bio.buf b).blockno :: s.written }
    else none
  | .brelse (some k) b =>
    match s.ops k with
    | some op =>
      if 0 < op.held then (s.cache (.brelse b)).map fun t => t.setOp k ⟨op.logged, op.held - 1⟩
      else none
    | none => none
  | .brelse none b => if s.committing then s.cache (.brelse b) else none
  | .go a => s.cache (.go a)
  | .ideintr => s.cache .ideintr
  | .clear =>
    if s.committing ∧ ∀ n ∈ s.lh, n ∈ s.written then some { s with lh := [], written := [] }
    else none
  | .committed =>
    if s.committing ∧ s.lh = [] then some { s with committing := false, written := [] } else none

/-- The system after a boot. -/
def init (disk : ℕ → D) (junk : D) : Sys D where
  bio := State.init disk junk
  lh := []
  outstanding := 0
  committing := false
  written := []
  ops := fun _ => none

/-- The blocks that are logged and not installed. -/
def pinned (s : Sys D) : List ℕ := s.lh.filter (· ∉ s.written)

/-- The number of buffers in use for other blocks. -/
def inUse (s : Sys D) : ℕ :=
  (Finset.univ.filter fun b =>
    0 < (s.bio.buf b).refcnt ∧ ¬ ((s.bio.buf b).dev = ROOTDEV ∧ (s.bio.buf b).blockno ∈ s.pinned)).card

end Sys

/-! ## What keeps a buffer -/

open State

variable {D : Type*} {s s' : Sys D} {t : State D} {e : Event D} {b c : Buf} {n : ℕ}

/-- What is kept along a run. -/
structure SysInv (s : Sys D) : Prop where
  bio : Inv s.bio
  nodup : s.lh.Nodup
  /-- A block that is logged and not installed has a dirty buffer. -/
  kept : ∀ n ∈ s.pinned, ∃ b, (s.bio.buf b).dev = ROOTDEV ∧ (s.bio.buf b).blockno = n ∧
    (s.bio.buf b).dirty
  /-- Nothing else is dirty, except for what is being written. -/
  dirty : ∀ b, (s.bio.buf b).dirty → (s.bio.buf b).blockno ∈ s.pinned ∨ b ∈ s.bio.queue
  queue : ∀ b ∈ s.bio.queue, (s.bio.buf b).dirty → (s.bio.buf b).blockno ∉ s.pinned
  quiet : ¬ s.committing → s.written = []

lemma sysInv_init {disk : ℕ → D} {junk : D} : SysInv (Sys.init disk junk) := by
  refine ⟨inv_init, ?_, ?_, ?_, ?_, fun _ => rfl⟩ <;> simp [Sys.init, Sys.pinned, State.init]

/-- A step of the cache that marks no block, seen from the log. -/
structure Unmarking (t t' : State D) : Prop where
  same : ∀ b, (t'.buf b).dirty → (t.buf b).dirty ∧ (t'.buf b).dev = (t.buf b).dev ∧
    (t'.buf b).blockno = (t.buf b).blockno
  kept : ∀ b, (t.buf b).dirty → b ∉ t.queue → (t'.buf b).dirty
  queue : ∀ b ∈ t.queue, (t'.buf b).dirty → b ∈ t'.queue
  queued : ∀ b ∈ t'.queue, (t'.buf b).dirty → b ∈ t.queue

lemma Inv.unmarking {t' : State D} (h : Inv t) (hstep : t.step e = some t')
    (hlog : ∀ b, e ≠ .logWrite b) (hwrite : ∀ b, e ≠ .bwrite b) : Unmarking t t' := by
  have hnodup := h.queued.nodup
  cases does_of_step hstep with
  | bread hget =>
    cases hget with
    | hit hc => constructor <;> simp only [State.add] <;> grind
    | recycle hc hu =>
      have hunused := unused_eq_some hu
      constructor <;> simp only [State.add] <;> grind
  | logWrite ha => exact absurd rfl (hlog _)
  | bwrite ha => exact absurd rfl (hwrite _)
  | @request b rest ha hv =>
    have hd : ¬ (t.buf b).dirty := fun hd => hv (h.data.dirty b hd)
    constructor <;> grind
  | idle hq => constructor <;> grind
  | wrote hq hd => constructor <;> grind
  | read hq hd => constructor <;> grind
  | _ => constructor <;> grind

lemma SysInv.unmarking (h : SysInv s) (ht : Inv t) (hu : Unmarking s.bio t)
    {ops : ℕ → Option Op} : SysInv { s with bio := t, ops := ops } := by
  obtain ⟨h1, h2, h3, h4, h5, h6⟩ := h
  obtain ⟨hu1, hu2, hu3, hu4⟩ := hu
  refine ⟨ht, h2, fun n hn => ?_, fun b hb => ?_, fun b hb hd => ?_, h6⟩
  · obtain ⟨b, hdev, hno, hd⟩ := h3 n hn
    have hq : b ∉ s.bio.queue := fun hq => h5 b hq hd (hno ▸ hn)
    have hd' := hu2 b hd hq
    obtain ⟨-, hdev', hno'⟩ := hu1 b hd'
    exact ⟨b, hdev'.trans hdev, hno'.trans hno, hd'⟩
  · obtain ⟨hd, -, hno⟩ := hu1 b hb
    rcases h4 b hd with hp | hq
    · exact .inl (hno ▸ hp)
    · exact .inr (hu3 b hq hb)
  · obtain ⟨hdold, -, hno⟩ := hu1 b hd
    rw [hno]
    exact h5 b (hu4 b hb hd) hdold

lemma mem_insertBlock {l : List ℕ} {m : ℕ} : m ∈ Sys.insertBlock l n ↔ m ∈ l ∨ m = n := by
  unfold Sys.insertBlock
  split_ifs with h
  · exact ⟨.inl, fun hm => hm.elim id fun hm => hm ▸ h⟩
  · simp

lemma nodup_insertBlock {l : List ℕ} (h : l.Nodup) : (Sys.insertBlock l n).Nodup := by
  unfold Sys.insertBlock
  split_ifs with hn
  · exact h
  · exact h.append (List.nodup_singleton n) (by simpa using hn)

lemma mem_pinned : n ∈ s.pinned ↔ n ∈ s.lh ∧ n ∉ s.written := by
  simp [Sys.pinned]

/-- Two buffers in use for one block are one. -/
lemma SysInv.unique (h : SysInv s) (hb : (s.bio.buf b).dev = ROOTDEV)
    (hc : (s.bio.buf c).dev = ROOTDEV) (hno : (s.bio.buf b).blockno = (s.bio.buf c).blockno) :
    b = c :=
  h.bio.blocks.unique b c hb hc hno

/-- A buffer in the queue of the disk is one of the device. -/
lemma SysInv.dev_of_queue (h : SysInv s) (hb : b ∈ s.bio.queue) : (s.bio.buf b).dev = ROOTDEV :=
  h.bio.blocks.root b (.inl (h.bio.counts.ref_pos (h.bio.queued.io b hb) rfl))

lemma SysInv.logWrite (h : SysInv s) (ha : .owns b ∈ s.bio.acts) (hc : ¬ s.committing)
    {ops : ℕ → Option Op} :
    SysInv { s with
      bio := s.bio.mark b, ops := ops, lh := Sys.insertBlock s.lh (s.bio.buf b).blockno } := by
  have hw := h.quiet hc
  have hdev := h.bio.blocks.root b (.inl (h.bio.counts.ref_pos ha rfl))
  have hnot := h.bio.not_mem_queue ha rfl rfl nofun
  have hsame := fun c hc => h.unique (c := c) hdev (h.dev_of_queue hc)
  obtain ⟨h1, h2, h3, h4, h5, h6⟩ := h
  simp only [mem_pinned, hw, List.not_mem_nil, not_false_eq_true, and_true] at h3 h4 h5
  refine ⟨h1.logWrite ha, nodup_insertBlock h2, fun n hn => ?_, fun c hc => ?_, fun c hc hd => ?_,
    h6⟩
  · rw [mem_pinned, mem_insertBlock] at hn
    rcases hn.1 with hold | rfl
    · obtain ⟨c, hcdev, hno, hd⟩ := h3 n hold
      refine ⟨c, ?_⟩
      simp only [mark_buf]
      split_ifs with hcb
      · exact ⟨hdev, hcb ▸ hno, rfl⟩
      · exact ⟨hcdev, hno, hd⟩
    · exact ⟨b, by simp [mark_buf, hdev], by simp [mark_buf], by simp [mark_buf]⟩
  · rw [mem_pinned, mem_insertBlock]
    simp only [mark_buf] at hc ⊢
    split_ifs at hc ⊢ with hcb
    · exact .inl ⟨.inr rfl, by simp [hw]⟩
    · rcases h4 c hc with hp | hq
      · exact .inl ⟨.inl hp, by simp [hw]⟩
      · exact .inr hq
  · rw [mem_pinned, mem_insertBlock]
    have hcb : c ≠ b := fun heq => hnot (heq ▸ hc)
    simp only [mark_buf, if_neg hcb] at hd ⊢
    rintro ⟨hold | hnew, -⟩
    · exact h5 c hc hd hold
    · exact hcb (hsame c hc hnew.symm).symm

lemma SysInv.bwrite (h : SysInv s) {rest : Multiset Act} (ha : s.bio.acts = .owns b ::ₘ rest)
    (hcommit : s.committing) (ht : Inv { s.bio.mark b with
      queue := s.bio.queue ++ [b], acts := .io b ::ₘ rest }) :
    SysInv { s with
      bio := { s.bio.mark b with queue := s.bio.queue ++ [b], acts := .io b ::ₘ rest }
      written := (s.bio.buf b).blockno :: s.written } := by
  have hmem : .owns b ∈ s.bio.acts := by simp [ha]
  have hdev := h.bio.blocks.root b (.inl (h.bio.counts.ref_pos hmem rfl))
  have hroot := fun c hc => h.bio.blocks.root c (.inr (.inr hc))
  have hsame := fun c hc => h.unique (c := c) hdev (hroot c hc)
  obtain ⟨h1, h2, h3, h4, h5, h6⟩ := h
  refine ⟨ht, h2, fun n hn => ?_, fun c hc => ?_, fun c hc hd => ?_, fun hn => absurd hcommit hn⟩
  · rw [mem_pinned, List.mem_cons, not_or] at hn
    obtain ⟨c, hcdev, hno, hd⟩ := h3 n (mem_pinned.mpr ⟨hn.1, hn.2.2⟩)
    have hcb : c ≠ b := fun heq => hn.2.1 (hno ▸ heq ▸ rfl)
    exact ⟨c, by simpa [mark_buf, hcb] using hcdev, by simpa [mark_buf, hcb] using hno,
      by simpa [mark_buf, hcb] using hd⟩
  · simp only [mark_buf] at hc ⊢
    split_ifs at hc ⊢ with hcb
    · exact .inr (by simp [hcb])
    · rcases h4 c hc with hp | hq
      · rw [mem_pinned] at hp
        refine .inl (mem_pinned.mpr ⟨hp.1, ?_⟩)
        rw [List.mem_cons, not_or]
        exact ⟨fun heq => hcb (hsame c hc heq.symm).symm, hp.2⟩
      · exact .inr (by simp [hq])
  · rw [mem_pinned, List.mem_cons, not_or]
    simp only [mark_buf] at hd ⊢
    split_ifs at hd ⊢ with hcb
    · exact fun hp => hp.2.1 rfl
    · have hq : c ∈ s.bio.queue := by simpa [hcb] using hc
      exact fun hp => h5 c hq hd (mem_pinned.mpr ⟨hp.1, hp.2.2⟩)

/-- A step of the cache in the whole system. -/
lemma SysInv.cache (h : SysInv s) (hstep : s.cache e = some s') (hlog : ∀ b, e ≠ .logWrite b)
    (hwrite : ∀ b, e ≠ .bwrite b) {ops : ℕ → Option Op} : SysInv { s' with ops := ops } := by
  obtain ⟨t, ht, rfl⟩ := Option.map_eq_some_iff.mp hstep
  exact h.unmarking (h.bio.step ht) (h.bio.unmarking ht hlog hwrite)

lemma SysInv.step (h : SysInv s) {c : Call D} (hstep : s.step c = some s') : SysInv s' := by
  have hops : ∀ {ops n}, SysInv { s with ops := ops, outstanding := n } := fun {ops n} =>
    ⟨h.bio, h.nodup, h.kept, h.dirty, h.queue, h.quiet⟩
  cases c with
  | beginOp k =>
    simp only [Sys.step] at hstep
    split_ifs at hstep
    cases hstep
    exact hops
  | endOp k =>
    simp only [Sys.step] at hstep
    split at hstep
    · split_ifs at hstep with hc
      cases hstep
      exact ⟨h.bio, h.nodup, h.kept, h.dirty, h.queue, fun _ => h.quiet hc.2⟩
    · exact absurd hstep (by simp)
  | bread k _ | brelse k _ =>
    cases k with
    | none =>
      simp only [Sys.step] at hstep
      split_ifs at hstep
      exact h.cache hstep nofun nofun
    | some k =>
      simp only [Sys.step] at hstep
      split at hstep
      · split_ifs at hstep
        obtain ⟨t, ht, rfl⟩ := Option.map_eq_some_iff.mp hstep
        exact h.cache ht nofun nofun
      · exact absurd hstep (by simp)
  | logWrite k b =>
    simp only [Sys.step] at hstep
    split at hstep
    · split_ifs at hstep with hg
      obtain ⟨t, ht, rfl⟩ := Option.map_eq_some_iff.mp hstep
      obtain ⟨u, hu, rfl⟩ := Option.map_eq_some_iff.mp ht
      cases does_of_step hu with
      | logWrite ha => exact h.logWrite ha hg.2.2.2.1
    · exact absurd hstep (by simp)
  | bwrite b =>
    simp only [Sys.step] at hstep
    split_ifs at hstep with hc
    obtain ⟨t, ht, rfl⟩ := Option.map_eq_some_iff.mp hstep
    obtain ⟨u, hu, rfl⟩ := Option.map_eq_some_iff.mp ht
    have hinv := h.bio.step hu
    cases does_of_step hu with
    | bwrite ha => exact h.bwrite ha hc hinv
  | modify | go | ideintr => exact h.cache hstep nofun nofun
  | clear =>
    simp only [Sys.step] at hstep
    split_ifs at hstep with hc
    cases hstep
    refine ⟨h.bio, List.nodup_nil, by simp [Sys.pinned], fun b hb => ?_, by simp [Sys.pinned],
      fun _ => rfl⟩
    rcases h.dirty b hb with hp | hq
    · rw [mem_pinned] at hp
      exact absurd (hc.2 _ hp.1) hp.2
    · exact .inr hq
  | committed =>
    simp only [Sys.step] at hstep
    split_ifs at hstep with hc
    cases hstep
    refine ⟨h.bio, h.nodup, by simp [Sys.pinned, hc.2], fun b hb => ?_, by simp [Sys.pinned, hc.2],
      fun _ => rfl⟩
    rcases h.dirty b hb with hp | hq
    · simp [Sys.pinned, hc.2] at hp
    · exact .inr hq

lemma sysInv_of_exec {disk : ℕ → D} {junk : D} {tr : List (Call D)}
    (h : Machine.exec Sys.step (Sys.init disk junk) tr = some s) : SysInv s :=
  Machine.exec_induction (motive := fun _ s => SysInv s) sysInv_init
    (fun _ _ _ _ _ ih hstep => ih.step hstep) h

/-! ## When `bget` finds no buffer -/

/-- The buffer of a block that is logged and not installed. -/
def Pinned (s : Sys D) (b : Buf) : Prop :=
  (s.bio.buf b).dev = ROOTDEV ∧ (s.bio.buf b).blockno ∈ s.pinned

instance (s : Sys D) (b : Buf) : Decidable (Pinned s b) := inferInstanceAs (Decidable (_ ∧ _))

lemma SysInv.dirty_of_pinned (h : SysInv s) (hb : Pinned s b) : (s.bio.buf b).dirty := by
  obtain ⟨c, hdev, hno, hd⟩ := h.kept _ hb.2
  exact h.unique hdev hb.1 hno ▸ hd

/-- A buffer is not unused iff it is pinned or has references. -/
lemma SysInv.busy_iff (h : SysInv s) : (s.bio.buf b).refcnt ≠ 0 ∨ (s.bio.buf b).dirty ↔
    Pinned s b ∨ 0 < (s.bio.buf b).refcnt ∧ ¬ Pinned s b := by
  constructor
  · intro hb
    by_cases hp : Pinned s b
    · exact .inl hp
    · refine .inr ⟨?_, hp⟩
      rcases hb with href | hd
      · exact Nat.pos_of_ne_zero href
      · rcases h.dirty b hd with hno | hq
        · exact absurd ⟨h.bio.blocks.root b (.inr (.inr hd)), hno⟩ hp
        · exact h.bio.counts.ref_pos (h.bio.queued.io b hq) rfl
  · rintro (hp | ⟨href, -⟩)
    · exact .inr (h.dirty_of_pinned hp)
    · exact .inl (Nat.ne_of_gt href)

/-- The pinned buffers are as many as the blocks. -/
lemma SysInv.card_pinned (h : SysInv s) :
    (Finset.univ.filter fun b => Pinned s b).card = s.pinned.length := by
  have hnodup : s.pinned.Nodup := h.nodup.filter _
  rw [← List.toFinset_card_of_nodup hnodup]
  refine Finset.card_nbij (fun b => (s.bio.buf b).blockno) (fun b hb => ?_) (fun b hb c hc hno => ?_)
    fun n hn => ?_
  · simpa using (Finset.mem_filter.mp hb).2.2
  · exact h.unique (Finset.mem_filter.mp hb).2.1 (Finset.mem_filter.mp hc).2.1 hno
  · obtain ⟨b, hdev, hno, hd⟩ := h.kept n (by simpa using hn)
    have hp : Pinned s b := ⟨hdev, hno ▸ by simpa using hn⟩
    exact ⟨b, by simpa using hp, hno⟩

lemma unused_eq_none_iff (h : SysInv s) :
    s.bio.unused = none ↔ NBUF ≤ s.pinned.length + s.inUse := by
  have hall : s.bio.unused = none ↔ ∀ b, Pinned s b ∨ 0 < (s.bio.buf b).refcnt ∧ ¬ Pinned s b := by
    constructor
    · exact fun hu b => h.busy_iff.mp (h.bio.ring.unused_eq_none hu b)
    · intro hb
      by_contra hu
      obtain ⟨b, hb'⟩ := Option.ne_none_iff_exists'.mp hu
      obtain ⟨href, hd⟩ := unused_eq_some hb'
      rcases h.busy_iff.mpr (hb b) with h' | h'
      · exact h' href
      · exact hd h'
  have hsplit : (Finset.univ.filter fun b =>
      Pinned s b ∨ 0 < (s.bio.buf b).refcnt ∧ ¬ Pinned s b).card = s.pinned.length + s.inUse := by
    rw [Finset.filter_or, Finset.card_union_of_disjoint, h.card_pinned]
    · rfl
    · exact Finset.disjoint_filter.mpr fun b _ hp hq => hq.2 hp
  rw [hall, ← hsplit]
  constructor
  · intro hb
    rw [Finset.filter_true_of_mem fun b _ => hb b, Finset.card_univ, Fintype.card_fin]
  · intro hle b
    have huniv := Finset.eq_univ_of_card _
      (le_antisymm (Finset.card_le_univ _) (by rwa [Fintype.card_fin]))
    have hb := Finset.mem_univ b
    rw [← huniv] at hb
    exact (Finset.mem_filter.mp hb).2

lemma SysInv.bget_eq_none_iff (h : SysInv s) :
    s.bio.bget n = none ↔ s.bio.cached n = none ∧ NBUF ≤ s.pinned.length + s.inUse := by
  rw [← unused_eq_none_iff h]
  unfold bget
  split
  · rename_i b hc
    simp [hc]
  · rename_i hc
    split
    · rename_i b hu
      simp [hu]
    · rename_i hu
      simp [hc, hu]

/-- In every state of the system, `bget` for a block that has no buffer panics if and only if the
logged blocks that are not installed and the other buffers in use are `NBUF` or more. -/
theorem bget_panics_iff {disk : ℕ → D} {junk : D} {tr : List (Call D)}
    (h : Machine.exec Sys.step (Sys.init disk junk) tr = some s) (n : ℕ) :
    s.bio.bget n = none ↔ s.bio.cached n = none ∧ NBUF ≤ s.pinned.length + s.inUse :=
  (sysInv_of_exec h).bget_eq_none_iff

/-- An operation has logged nothing and reads a block. -/
theorem bget_panics_iff_oneOp : ∃ s : Sys ℕ, Machine.exec Sys.step (Sys.init (fun _ => 0) 0)
    [.beginOp 1, .bread (some 1) 7] = some s ∧ s.pinned = [] ∧ s.bio.bget 8 ≠ none := by
  obtain ⟨s, hs, hfacts⟩ := Option.map_eq_some_iff.mp (show (Machine.exec Sys.step
    (Sys.init (fun _ => 0) 0) [.beginOp 1, .bread (some 1) 7]).map (fun s => decide (s.pinned = [] ∧
      s.inUse = 1)) = some true by decide +kernel)
  obtain ⟨hp, hu⟩ := of_decide_eq_true hfacts
  refine ⟨s, hs, hp, fun hnone => ?_⟩
  have hle := ((bget_panics_iff hs 8).mp hnone).2
  rw [hp, hu] at hle
  exact absurd hle (by decide)

/-! ## A full log -/

/-- Between two operations on buffers; all blocks that have a buffer are logged. -/
structure Quiet (s : Sys D) : Prop where
  acts : s.bio.acts = 0
  open_ : ¬ s.committing
  cached : ∀ b, (s.bio.buf b).dev = ROOTDEV → (s.bio.buf b).blockno ∈ s.lh

/-- One process uses the cache: it is in the activity `a`, and only the buffer `b` differs from
what it was in `t₀`. -/
structure Stage (t₀ : State D) (b : Buf) (a : Act) (x : Buffer D) (queue : List Buf) (t : State D) :
    Prop where
  acts : t.acts = {a}
  queue : t.queue = queue
  buf : ∀ c, t.buf c = if c = b then x else t₀.buf c

namespace Stage

variable {t₀ t : State D} {a : Act} {x : Buffer D} {queue : List Buf}

lemma buf_self (h : Stage t₀ b a x queue t) : t.buf b = x := by
  rw [h.buf, if_pos rfl]

lemma update (h : Stage t₀ b a x queue t) (f : Buffer D → Buffer D) (a' : Act) (queue' : List Buf) :
    Stage t₀ b a' (f x) queue' { t.update b f with queue := queue', acts := {a'} } := by
  refine ⟨rfl, rfl, fun c => ?_⟩
  change (t.update b f).buf c = _
  rw [update_buf, h.buf_self, h.buf]
  split_ifs <;> rfl

lemma acquire (h : Stage t₀ b (.waiting b) x [] t) (hx : x.locked = false) :
    ∃ t', t.step (.go (.waiting b)) = some t' ∧
      Stage t₀ b (.reading b) { x with locked := true } [] t' := by
  refine ⟨_, ?_, h.update (fun x => { x with locked := true }) _ _⟩
  simp [State.step, State.go, h.acts, h.buf_self, hx, h.queue, State.update, State.become,
    State.remove, State.add]

lemma request (h : Stage t₀ b (.reading b) x [] t) (hx : x.valid = false) :
    ∃ t', t.step (.go (.reading b)) = some t' ∧ Stage t₀ b (.io b) x [b] t' := by
  refine ⟨_, ?_, h.update id _ _⟩
  simp [State.step, State.go, h.acts, h.buf_self, hx, h.queue, State.update, State.become,
    State.remove, State.add, State.iderw]

lemma read (h : Stage t₀ b (.io b) x [b] t) (hx : x.dirty = false) :
    ∃ t', t.step .ideintr = some t' ∧ Stage t₀ b (.io b) { x with
      data := t.disk x.blockno, valid := true, dirty := false } [] t' := by
  refine ⟨_, ?_, h.update (fun y => { y with
    data := t.disk x.blockno, valid := true, dirty := false }) _ _⟩
  simp [State.step, State.ideintr, h.acts, h.buf_self, hx, h.queue, State.update]

lemma done (h : Stage t₀ b (.io b) x [] t) (hx : x.valid = true) (hd : x.dirty = false) :
    ∃ t', t.step (.go (.io b)) = some t' ∧ Stage t₀ b (.owns b) x [] t' := by
  refine ⟨_, ?_, h.update id _ _⟩
  simp [State.step, State.go, h.acts, h.buf_self, hx, hd, h.queue, State.update, State.become,
    State.remove, State.add]

lemma mark (h : Stage t₀ b (.owns b) x [] t) :
    ∃ t', t.step (.logWrite b) = some t' ∧
      Stage t₀ b (.owns b) { x with dirty := true, touched := false } [] t' := by
  refine ⟨t.mark b, by simp [State.step, h.acts], h.acts, h.queue, fun c => ?_⟩
  rw [mark_buf, h.buf_self, h.buf]
  split_ifs <;> rfl

lemma brelse (h : Stage t₀ b (.owns b) x [] t) (hx : x.touched = false) :
    ∃ t', t.step (.brelse b) = some t' ∧
      Stage t₀ b (.releasing b) { x with locked := false } [] t' := by
  refine ⟨_, ?_, h.update (fun x => { x with locked := false }) _ _⟩
  simp [State.step, h.acts, h.buf_self, hx, h.queue, State.update, State.become, State.remove,
    State.add]

lemma release (h : Stage t₀ b (.releasing b) x [] t) :
    ∃ t', t.step (.go (.releasing b)) = some t' ∧ t'.acts = 0 ∧
      ∀ c, t'.buf c = if c = b then { x with refcnt := x.refcnt - 1 } else t₀.buf c := by
  refine ⟨(t.release b).remove (.releasing b), by simp [State.step, State.go, h.acts], ?_,
    fun c => ?_⟩
  · simp [State.remove, State.release, State.update, h.acts]
  · change (t.release b).buf c = _
    rw [release_buf, h.buf_self, h.buf]
    split_ifs <;> rfl

end Stage

/-- Operation `k` reads block `n` into the buffer `b` and logs it. -/
def logBlock (k n : ℕ) (b : Buf) : List (Call D) :=
  [.bread (some k) n, .go (.waiting b), .go (.reading b), .ideintr, .go (.io b), .logWrite k b,
    .brelse (some k) b, .go (.releasing b)]

/-- `bread` of a block that has no buffer, when nobody uses the cache. -/
lemma stage_bread (h : Inv t) (hacts : t.acts = 0) (hc : t.cached n = none)
    (hb : t.unused = some b) : ∃ t' d, t.step (.bread n) = some t' ∧
      Stage t b (.waiting b) ⟨ROOTDEV, n, false, false, false, 1, d, false⟩ [] t' := by
  have hqueue : t.queue = [] := by
    refine List.eq_nil_iff_forall_not_mem.mpr fun c hc => ?_
    have := h.queued.io c hc
    simp [hacts] at this
  have hlocked : (t.buf b).locked = false := by
    have hl := h.counts.lock b
    rw [hacts] at hl
    by_contra hne
    simp [hne, Activity.locks] at hl
  have htouched : (t.buf b).touched = false := by
    by_contra hne
    have := h.data.touched b (by simpa using hne)
    simp [hacts] at this
  refine ⟨(t.update b fun x => { x with
    dev := ROOTDEV, blockno := n, valid := false, dirty := false, refcnt := 1 }).add (.waiting b),
    (t.buf b).data, by simp [State.step, bget, hc, hb], ?_, hqueue, fun c => ?_⟩
  · simp [State.add, State.update, hacts]
  · unfold State.add
    dsimp only
    rw [update_buf, hlocked, htouched]

/-- A block that is not logged has no buffer. -/
lemma Quiet.cached_eq_none (h : Quiet s) (hn : n ∉ s.lh) : s.bio.cached n = none := by
  by_contra hc
  obtain ⟨b, hb⟩ := Option.ne_none_iff_exists'.mp hc
  obtain ⟨hdev, hno⟩ := cached_eq_some hb
  exact hn (hno ▸ h.cached b hdev)

lemma Quiet.pinned_eq (h : Quiet s) (hs : SysInv s) : s.pinned = s.lh := by
  unfold Sys.pinned
  rw [hs.quiet h.open_]
  simp

lemma Quiet.inUse_eq (h : Quiet s) (hs : SysInv s) : s.inUse = 0 := by
  unfold Sys.inUse
  rw [Finset.card_eq_zero, Finset.filter_eq_empty_iff]
  intro b _ hb
  have := hs.bio.counts.ref b
  rw [h.acts] at this
  simp [Activity.uses] at this
  omega

/-- An operation can log one more block while there is room in the log. -/
lemma exec_logBlock {k : ℕ} {L : List ℕ} (hs : SysInv s) (hq : Quiet s)
    (hop : s.ops k = some ⟨L, 0⟩) (hL : L.length < MAXOPBLOCKS) (hnL : n ∉ L) (hn : n ∉ s.lh)
    (hout : 1 ≤ s.outstanding) (hlh : s.lh.length < LOGSIZE - 1) :
    ∃ tr s', Machine.exec Sys.step s tr = some s' ∧ SysInv s' ∧ Quiet s' ∧ s'.lh = s.lh ++ [n] ∧
      s'.ops = Function.update s.ops k (some ⟨L ++ [n], 0⟩) ∧ s'.outstanding = s.outstanding := by
  obtain ⟨b, hb⟩ : ∃ b, s.bio.unused = some b := by
    refine Option.ne_none_iff_exists'.mp fun hnone => ?_
    rw [unused_eq_none_iff hs, hq.pinned_eq hs, hq.inUse_eq hs] at hnone
    have : NBUF = 60 := rfl
    have : LOGSIZE = 60 := rfl
    omega
  obtain ⟨t1, d, h1, st1⟩ := stage_bread hs.bio hq.acts (hq.cached_eq_none hn) hb
  obtain ⟨t2, h2, st2⟩ := st1.acquire rfl
  obtain ⟨t3, h3, st3⟩ := st2.request rfl
  obtain ⟨t4, h4, st4⟩ := st3.read rfl
  obtain ⟨t5, h5, st5⟩ := st4.done rfl rfl
  obtain ⟨t6, h6, st6⟩ := st5.mark
  obtain ⟨t7, h7, st7⟩ := st6.brelse rfl
  obtain ⟨t8, h8, hacts, hbuf⟩ := st7.release
  have hno : (t5.buf b).blockno = n := by rw [st5.buf_self]
  have hins : Sys.insertBlock L n = L ++ [n] := if_neg hnL
  have hinslh : Sys.insertBlock s.lh n = s.lh ++ [n] := if_neg hn
  have hlt : s.lh.length < LOGSIZE := hlh.trans (by decide)
  have hexec : Machine.exec Sys.step s (logBlock k n b) = some { s with
      bio := t8, lh := s.lh ++ [n], ops := Function.update s.ops k (some ⟨L ++ [n], 0⟩) } := by
    simp [logBlock, Machine.exec_cons, Sys.step, Sys.cache, Sys.setOp, hop, h1, h2, h3, h4, h5, h6,
      h7, h8, hno, hins, hinslh, hL, hout, hlh, hlt, hq.open_]
  refine ⟨_, _, hexec, ?_, ⟨hacts, hq.open_, fun c hc => ?_⟩, rfl, rfl, rfl⟩
  · exact Machine.exec_induction (motive := fun _ s => SysInv s) hs
      (fun _ _ _ _ _ ih hstep => ih.step hstep) hexec
  · change (t8.buf c).blockno ∈ s.lh ++ [n]
    change (t8.buf c).dev = ROOTDEV at hc
    rw [hbuf] at hc ⊢
    split_ifs at hc ⊢
    · simp
    · exact List.mem_append_left _ (hq.cached c hc)

lemma not_mem_of_nodup {l B : List ℕ} (h : (l ++ [n] ++ B).Nodup) : n ∉ l := fun hn =>
  (List.nodup_append.mp (List.nodup_append.mp h).1).2.2 n hn n (List.mem_singleton_self n) rfl

/-- An operation logs the blocks of a list. -/
lemma exec_logBlocks {k : ℕ} (B : List ℕ) : ∀ {s : Sys D} {L : List ℕ}, SysInv s → Quiet s →
    s.ops k = some ⟨L, 0⟩ → (L ++ B).length ≤ MAXOPBLOCKS → (L ++ B).Nodup → (s.lh ++ B).Nodup →
    1 ≤ s.outstanding → (s.lh ++ B).length ≤ LOGSIZE - 1 →
    ∃ tr s', Machine.exec Sys.step s tr = some s' ∧ SysInv s' ∧ Quiet s' ∧ s'.lh = s.lh ++ B ∧
      s'.ops = Function.update s.ops k (some ⟨L ++ B, 0⟩) ∧ s'.outstanding = s.outstanding := by
  induction B with
  | nil =>
    intro s L hs hq hop _ _ _ _ _
    refine ⟨[], s, rfl, hs, hq, by simp, ?_, rfl⟩
    rw [List.append_nil, ← hop, Function.update_eq_self]
  | cons n B ih =>
    intro s L hs hq hop hL hLn hlhn hout hlh
    rw [List.append_cons] at hL hLn hlhn hlh
    obtain ⟨tr1, s1, hrun1, hs1, hq1, hlh1, hops1, hout1⟩ := exec_logBlock (n := n) hs hq hop
      (by simp at hL; omega) (not_mem_of_nodup hLn) (not_mem_of_nodup hlhn) hout
      (by simp at hlh; omega)
    obtain ⟨tr2, s2, hrun2, hs2, hq2, hlh2, hops2, hout2⟩ := ih hs1 hq1
      (by rw [hops1, Function.update_self]) hL hLn (hlh1 ▸ hlhn) (hout1 ▸ hout) (hlh1 ▸ hlh)
    refine ⟨tr1 ++ tr2, s2, ?_, hs2, hq2, ?_, ?_, hout2.trans hout1⟩
    · rw [Machine.exec_append, hrun1, Option.bind_some, hrun2]
    · simp [hlh2, hlh1]
    · simp [hops2, hops1]

/-- Three operations can log 19, 20 and 20 blocks. -/
lemma exec_fullLog : ∃ (tr : List (Call ℕ)) (s : Sys ℕ),
    Machine.exec Sys.step (Sys.init (fun _ => 0) 0) tr = some s ∧ SysInv s ∧ Quiet s ∧
    s.ops 1 = some ⟨List.range' 1 19, 0⟩ ∧ s.ops 2 = some ⟨List.range' 20 20, 0⟩ ∧
    s.ops 3 = some ⟨List.range' 40 20, 0⟩ ∧ s.outstanding = 3 ∧
    s.lh = List.range' 1 19 ++ List.range' 20 20 ++ List.range' 40 20 := by
  have h0 : ∃ s : Sys ℕ, Machine.exec Sys.step (Sys.init (fun _ => 0) 0)
      [.beginOp 1, .beginOp 2, .beginOp 3] = some s ∧ SysInv s ∧ Quiet s ∧ s.lh = [] ∧
      s.outstanding = 3 ∧ (∀ k, k = 1 ∨ k = 2 ∨ k = 3 → s.ops k = some ⟨[], 0⟩) := by
    refine ⟨_, rfl, ?_, ⟨rfl, by decide, fun b hb => absurd hb ?_⟩, rfl, rfl, ?_⟩
    · exact ((sysInv_init.step (c := .beginOp 1) rfl).step (c := .beginOp 2) rfl).step
        (c := .beginOp 3) rfl
    · simp [Sys.setOp, Sys.init, State.init, ROOTDEV]
    · rintro k (rfl | rfl | rfl) <;> rfl
  obtain ⟨s0, hrun0, hs0, hq0, hlh0, hout0, hops0⟩ := h0
  obtain ⟨tr1, s1, hrun1, hs1, hq1, hlh1, hops1, hout1⟩ := exec_logBlocks (k := 1)
    (List.range' 1 19) hs0 hq0 (hops0 1 (.inl rfl)) (by decide) (by decide) (by rw [hlh0]; decide)
    (by omega) (by rw [hlh0]; decide)
  obtain ⟨tr2, s2, hrun2, hs2, hq2, hlh2, hops2, hout2⟩ := exec_logBlocks (k := 2)
    (List.range' 20 20) hs1 hq1 (by rw [hops1]; exact hops0 2 (.inr (.inl rfl))) (by decide)
    (by decide) (by rw [hlh1, hlh0]; decide) (by omega) (by rw [hlh1, hlh0]; decide)
  obtain ⟨tr3, s3, hrun3, hs3, hq3, hlh3, hops3, hout3⟩ := exec_logBlocks (k := 3)
    (List.range' 40 20) hs2 hq2 (by rw [hops2, hops1]; exact hops0 3 (.inr (.inr rfl))) (by decide)
    (by decide) (by rw [hlh2, hlh1, hlh0]; decide) (by omega) (by rw [hlh2, hlh1, hlh0]; decide)
  refine ⟨[.beginOp 1, .beginOp 2, .beginOp 3] ++ tr1 ++ tr2 ++ tr3, s3, ?_, hs3, hq3, ?_, ?_, ?_, ?_,
    ?_⟩
  · simp only [Machine.exec_append, hrun0, hrun1, hrun2, hrun3, Option.bind_some]
  · simp [hops3, hops2, hops1]
  · simp [hops3, hops2]
  · simp [hops3]
  · rw [hout3, hout2, hout1, hout0]
  · rw [hlh3, hlh2, hlh1, hlh0, List.nil_append]

/-- Three operations have logged 19, 20 and 20 blocks.  One reads another block, and the next
`bread` finds no buffer. -/
theorem bget_panics_fullLog : ∃ (tr : List (Call ℕ)) (s : Sys ℕ),
    Machine.exec Sys.step (Sys.init (fun _ => 0) 0) tr = some s ∧
    s.ops 1 = some ⟨List.range' 1 19, 1⟩ ∧ s.ops 2 = some ⟨List.range' 20 20, 0⟩ ∧
    s.ops 3 = some ⟨List.range' 40 20, 0⟩ ∧ s.outstanding = 3 ∧ s.lh.length = LOGSIZE - 1 ∧
    s.bio.bget 101 = none := by
  obtain ⟨tr, s₃, hrun, hs₃, hq₃, hop, hop₂, hop₃, hout, hlh⟩ := exec_fullLog
  have h100 : 100 ∉ s₃.lh := by
    rw [hlh]
    decide
  have h101 : 101 ∉ s₃.lh := by
    rw [hlh]
    decide
  have hlen : s₃.lh.length = 59 := by
    rw [hlh]
    decide
  obtain ⟨b, hb⟩ : ∃ b, s₃.bio.unused = some b := by
    refine Option.ne_none_iff_exists'.mp fun hnone => ?_
    rw [unused_eq_none_iff hs₃, hq₃.pinned_eq hs₃, hq₃.inUse_eq hs₃, hlen] at hnone
    exact absurd hnone (by decide)
  obtain ⟨t, d, ht, st⟩ := stage_bread hs₃.bio hq₃.acts (hq₃.cached_eq_none h100) hb
  set s₄ : Sys ℕ := { s₃ with
    bio := t, ops := Function.update s₃.ops 1 (some ⟨List.range' 1 19, 1⟩) } with hs₄def
  have hstep : s₃.step (.bread (some 1) 100) = some s₄ := by
    simp [Sys.step, Sys.cache, Sys.setOp, hop, ht, hs₄def]
  have hs₄ : SysInv s₄ := hs₃.step hstep
  have hpinned : s₄.pinned = s₃.lh := (hq₃.pinned_eq hs₃ ▸ rfl : s₄.pinned = s₃.lh)
  refine ⟨tr ++ [.bread (some 1) 100], s₄, ?_, ?_, ?_, ?_, hout, ?_, ?_⟩
  · rw [Machine.exec_append, hrun]
    simp [hstep]
  · simp [hs₄def]
  · simp [hs₄def, hop₂]
  · simp [hs₄def, hop₃]
  · exact hlen
  · refine hs₄.bget_eq_none_iff.mpr ⟨?_, ?_⟩
    · by_contra hc
      obtain ⟨c, hc⟩ := Option.ne_none_iff_exists'.mp hc
      obtain ⟨hdev, hno⟩ := cached_eq_some hc
      change (t.buf c).dev = ROOTDEV at hdev
      change (t.buf c).blockno = 101 at hno
      rw [st.buf] at hdev hno
      split_ifs at hdev hno
      · exact absurd hno (by simp)
      · exact h101 (hno ▸ hq₃.cached c hdev)
    · have huse : 0 < s₄.inUse := by
        refine Finset.card_pos.mpr ⟨b, Finset.mem_filter.mpr ⟨Finset.mem_univ b, ?_, ?_⟩⟩
        · change 0 < (t.buf b).refcnt
          rw [st.buf_self]
          exact Nat.one_pos
        · rintro ⟨-, hno⟩
          rw [hpinned] at hno
          change (t.buf b).blockno ∈ s₃.lh at hno
          rw [st.buf_self] at hno
          exact h100 hno
      rw [hpinned, hlen]
      change 60 ≤ _
      omega

end Xv7.Bio
