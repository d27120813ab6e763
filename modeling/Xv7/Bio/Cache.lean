import Xv7.Bio.Model
import Xv7.Lib.Activity
import Xv7.Lib.Machine

/-!
# The buffer cache refines the disk

The pointers of the cache always form a ring of all buffers; no block has two buffers; the reference
count of a buffer is the number of processes that wait for it or have it; and an owner finds in it
what was left in the block by the last owner that has marked it, wherever that is: in a buffer or on
the disk.
-/

namespace Xv7.Bio

open State

variable {D : Type*} {s s' : State D} {e : Event D} {a a' : Act} {rest : Multiset Act} {b c : Buf}
  {n : ℕ}

/-- The number of processes that wait for a buffer or have it. -/
abbrev uses (acts : Multiset Act) (b : Buf) : ℕ := Activity.uses Act.slot acts b

/-- The number of owners of the lock of a buffer. -/
abbrev locks (acts : Multiset Act) (b : Buf) : ℕ := Activity.locks Act.slot Act.HasLock acts b

section Effects

@[grind =] lemma update_buf (f : Buffer D → Buffer D) :
    (s.update b f).buf c = if c = b then f (s.buf b) else s.buf c := by
  by_cases h : c = b
  · subst h
    simp [State.update]
  · simp [State.update, h]

@[grind =] lemma mark_buf : (s.mark b).buf c =
    if c = b then { s.buf b with dirty := true, touched := false } else s.buf c :=
  update_buf fun x => { x with dirty := true, touched := false }

@[grind =] lemma mark_last : (s.mark b).last n =
    if n = (s.buf b).blockno then (s.buf b).data else s.last n :=
  Function.update_apply ..

@[grind =] lemma write_disk {m : ℕ} {d : D} :
    (s.write n d).disk m = if m = n then d else s.disk m :=
  Function.update_apply ..

@[grind =] lemma release_buf : (s.release b).buf c =
    if c = b then { s.buf b with refcnt := (s.buf b).refcnt - 1 } else s.buf c :=
  update_buf fun x => { x with refcnt := x.refcnt - 1 }

section Same

variable {f : Buffer D → Buffer D} {d : D}

@[grind =] lemma update_disk : (s.update b f).disk = s.disk := rfl

@[grind =] lemma update_last : (s.update b f).last = s.last := rfl

@[grind =] lemma update_queue : (s.update b f).queue = s.queue := rfl

@[grind =] lemma update_acts : (s.update b f).acts = s.acts := rfl

@[grind =] lemma mark_disk : (s.mark b).disk = s.disk := rfl

@[grind =] lemma mark_queue : (s.mark b).queue = s.queue := rfl

@[grind =] lemma mark_acts : (s.mark b).acts = s.acts := rfl

@[grind =] lemma write_buf : (s.write n d).buf c = s.buf c := rfl

@[grind =] lemma write_last : (s.write n d).last = s.last := rfl

@[grind =] lemma write_acts : (s.write n d).acts = s.acts := rfl

@[grind =] lemma release_disk : (s.release b).disk = s.disk := rfl

@[grind =] lemma release_last : (s.release b).last = s.last := rfl

@[grind =] lemma release_queue : (s.release b).queue = s.queue := rfl

end Same

end Effects

/-! ## The ring -/

/-- The pointers form a ring of all buffers. -/
def Ring (s : State D) : Prop := ∃ l, DList.Linked s.links l ∧ ∀ b, b ∈ l

lemma ring_init {disk : ℕ → D} {junk : D} : Ring (init disk junk) := by
  have hfold : ∀ (l l' : List Buf) (L : DList.Links Buf), DList.Linked L l' → l.Nodup →
      (∀ b ∈ l, b ∉ l') → DList.Linked (l.foldl DList.push L) (l.reverse ++ l') := by
    intro l
    induction l with
    | nil => exact fun _ _ h _ _ => h
    | cons b l ih =>
      intro l' L hL hnodup hdisj
      obtain ⟨hb, hnodup⟩ := List.nodup_cons.mp hnodup
      rw [List.foldl_cons, List.reverse_cons, List.append_assoc]
      refine ih (b :: l') _ (hL.push (hdisj b List.mem_cons_self)) hnodup fun c hc => ?_
      rw [List.mem_cons, not_or]
      exact ⟨fun heq => hb (heq ▸ hc), hdisj c (List.mem_cons_of_mem b hc)⟩
  exact ⟨_, hfold _ [] _ DList.linked_empty (List.nodup_finRange NBUF) (by simp), by simp⟩

lemma Ring.release (h : Ring s) (b : Buf) : Ring (s.release b) := by
  unfold State.release
  dsimp only
  split_ifs with hb
  · obtain ⟨l, hl, hall⟩ := h
    refine ⟨b :: l.erase b, (hl.unlink (hall b)).push hl.nodup.not_mem_erase, fun c => ?_⟩
    by_cases hcb : c = b
    · exact hcb ▸ List.mem_cons_self
    · exact List.mem_cons_of_mem b ((List.mem_erase_of_ne hcb).mpr (hall c))
  · exact h

lemma Ring.length_lt {l : List Buf} (hl : l.Nodup) : l.length < NBUF + 1 :=
  Nat.lt_succ_of_le (by simpa using hl.length_le_card)

lemma cached_eq_some (h : s.cached n = some b) :
    (s.buf b).dev = ROOTDEV ∧ (s.buf b).blockno = n :=
  of_decide_eq_true (DList.scan_eq_some
    (p := fun b => decide ((s.buf b).dev = ROOTDEV ∧ (s.buf b).blockno = n)) h)

lemma unused_eq_some (h : s.unused = some b) : (s.buf b).refcnt = 0 ∧ ¬ (s.buf b).dirty :=
  of_decide_eq_true (DList.scan_eq_some
    (p := fun b => decide ((s.buf b).refcnt = 0 ∧ ¬ (s.buf b).dirty)) h)

lemma Ring.cached_eq_none (h : Ring s) (hc : s.cached n = none) (b : Buf)
    (hdev : (s.buf b).dev = ROOTDEV) : (s.buf b).blockno ≠ n := by
  obtain ⟨l, hl, hall⟩ := h
  unfold cached at hc
  rw [hl.next.scan_eq (length_lt hl.nodup), List.find?_eq_none] at hc
  exact fun hn => hc b (hall b) (decide_eq_true ⟨hdev, hn⟩)

lemma Ring.unused_eq_none (h : Ring s) (hu : s.unused = none) (b : Buf) :
    (s.buf b).refcnt ≠ 0 ∨ (s.buf b).dirty := by
  obtain ⟨l, hl, hall⟩ := h
  unfold unused at hu
  rw [hl.prev.scan_eq (by simpa using length_lt hl.nodup), List.find?_eq_none] at hu
  have := hu b (List.mem_reverse.mpr (hall b))
  simp only [decide_eq_true_eq, not_and, not_not] at this
  exact or_iff_not_imp_left.mpr fun h => this (not_not.mp h)

/-! ## Counts and blocks -/

/-- The counts of the cache are those of the activities. -/
structure Counts (s : State D) : Prop where
  ref : ∀ b, (s.buf b).refcnt = uses s.acts b
  lock : ∀ b, locks s.acts b = if (s.buf b).locked then 1 else 0

/-- Which blocks the buffers are for. -/
structure Blocks (s : State D) : Prop where
  unique : ∀ b c, (s.buf b).dev = ROOTDEV → (s.buf c).dev = ROOTDEV →
    (s.buf b).blockno = (s.buf c).blockno → b = c
  root : ∀ b, 0 < (s.buf b).refcnt ∨ (s.buf b).valid ∨ (s.buf b).dirty → (s.buf b).dev = ROOTDEV

/-- The queue of the disk holds the buffers that somebody waits for. -/
structure Queued (s : State D) : Prop where
  nodup : s.queue.Nodup
  io : ∀ b ∈ s.queue, .io b ∈ s.acts
  todo : ∀ b ∈ s.queue, ¬ (s.buf b).valid ∨ (s.buf b).dirty

/-- The last data of a block is on the disk, or in a buffer that keeps it. -/
def OnDisk (s : State D) (n : ℕ) : Prop :=
  s.disk n = s.last n ∨ ∃ b, (s.buf b).dev = ROOTDEV ∧ (s.buf b).blockno = n ∧ (s.buf b).dirty

/-- Neither the block nor the buffers that are dirty change. -/
lemma OnDisk.of_same (h : OnDisk s n) (hdisk : s'.disk n = s.disk n) (hlast : s'.last n = s.last n)
    (hbuf : ∀ c, (s.buf c).blockno = n → (s.buf c).dirty → (s'.buf c).dev = (s.buf c).dev ∧
      (s'.buf c).blockno = (s.buf c).blockno ∧ (s'.buf c).dirty) : OnDisk s' n := by
  rcases h with h | ⟨c, hdev, hno, hd⟩
  · exact .inl ((hdisk.trans h).trans hlast.symm)
  · obtain ⟨hdev', hno', hd'⟩ := hbuf c hno hd
    exact .inr ⟨c, hdev'.trans hdev, hno'.trans hno, hd'⟩

/-- What is in the buffers and on the disk. -/
structure Data (s : State D) : Prop where
  owns : ∀ b, .owns b ∈ s.acts → (s.buf b).valid
  dirty : ∀ b, (s.buf b).dirty → (s.buf b).valid
  touched : ∀ b, (s.buf b).touched → .owns b ∈ s.acts
  data : ∀ b, (s.buf b).valid → ¬ (s.buf b).touched → (s.buf b).data = s.last (s.buf b).blockno
  disk : ∀ n, OnDisk s n

/-- What is kept along a run. -/
structure Inv (s : State D) : Prop where
  ring : Ring s
  counts : Counts s
  blocks : Blocks s
  queued : Queued s
  data : Data s

lemma Counts.lock_excl (h : Counts s) (ha : a ∈ s.acts) (ha' : a' ∈ s.acts) (hb : a.slot = some b)
    (hb' : a'.slot = some b) (hl : a.HasLock) (hl' : a'.HasLock) : a = a' :=
  Activity.eq_of_locks_le_one ((h.lock b).le.trans (by split_ifs <;> omega)) ha ha' hb hb' hl hl'

lemma Counts.ref_pos (h : Counts s) (ha : a ∈ s.acts) (hb : a.slot = some b) :
    0 < (s.buf b).refcnt := by
  rw [h.ref b]
  exact Activity.uses_pos ha hb

lemma Counts.not_mem (h : Counts s) (hb : (s.buf b).refcnt = 0) (ha : a.slot = some b) :
    a ∉ s.acts := fun hmem => by
  have := h.ref_pos hmem ha
  omega

/-! ### Steps that change a lock at most -/

section Replace

variable {l : Bool}

lemma Counts.replace (h : Counts s) (ha : s.acts = a ::ₘ rest) (hslot : a.slot = some b)
    (hslot' : a'.slot = some b)
    (hl : a.HasLock = a'.HasLock ∧ l = (s.buf b).locked ∨
      (a.HasLock ∨ ¬ (s.buf b).locked) ∧ l = a'.HasLock) :
    Counts { s.update b fun x => { x with locked := l } with acts := a' ::ₘ rest } := by
  obtain ⟨h1, h2⟩ := h
  rw [ha] at h1 h2
  refine ⟨by grind, fun c => ?_⟩
  refine (Activity.locks_replace h2 hslot hslot' hl c).trans ?_
  rw [update_buf]
  by_cases hc : c = b <;> simp only [hc, if_true, if_false]

/-- An activity goes on as another one on the same buffer, and at most the lock changes. -/
lemma Inv.replace (h : Inv s) (ha : s.acts = a ::ₘ rest) (hslot : a.slot = some b)
    (hslot' : a'.slot = some b)
    (hl : a.HasLock = a'.HasLock ∧ l = (s.buf b).locked ∨
      (a.HasLock ∨ ¬ (s.buf b).locked) ∧ l = a'.HasLock)
    (hio : a = .io b → (s.buf b).valid ∧ ¬ (s.buf b).dirty)
    (howns : a = .owns b → ¬ (s.buf b).touched) (hvalid : a' = .owns b → (s.buf b).valid) :
    Inv { s.update b fun x => { x with locked := l } with acts := a' ::ₘ rest } := by
  obtain ⟨hr, hc, ⟨h1, h2⟩, ⟨h3, h4, h5⟩, ⟨h6, h7, h8, h9, h10⟩⟩ := h
  refine ⟨hr, hc.replace ha hslot hslot' hl, ⟨?_, ?_⟩, ⟨h3, ?_, ?_⟩, ⟨?_, ?_, ?_, ?_, ?_⟩⟩
  · grind
  · grind
  · grind [Act.slot]
  · grind
  · grind [Act.slot]
  · grind
  · grind [Act.slot]
  · grind
  · exact fun n => (h10 n).of_same rfl rfl (by grind)

end Replace

/-! ### The other steps -/

lemma Inv.hit (h : Inv s) (hb : (s.buf b).dev = ROOTDEV) :
    Inv ((s.update b fun x => { x with refcnt := x.refcnt + 1 }).add (.waiting b)) := by
  obtain ⟨hr, ⟨hc1, hc2⟩, ⟨h1, h2⟩, ⟨h3, h4, h5⟩, ⟨h6, h7, h8, h9, h10⟩⟩ := h
  unfold State.add
  refine ⟨hr, ⟨?_, ?_⟩, ⟨?_, ?_⟩, ⟨h3, ?_, ?_⟩, ⟨?_, ?_, ?_, ?_, ?_⟩⟩
  · grind [Act.slot]
  · grind [Act.slot, Act.HasLock]
  · grind
  · grind
  · grind
  · grind
  · grind
  · grind
  · grind
  · grind
  · exact fun n => (h10 n).of_same rfl rfl (by grind)

lemma Inv.recycle (h : Inv s) (hn : ∀ c, (s.buf c).dev = ROOTDEV → (s.buf c).blockno ≠ n)
    (href : (s.buf b).refcnt = 0) (hd : ¬ (s.buf b).dirty) :
    Inv ((s.update b fun x => { x with
      dev := ROOTDEV, blockno := n, valid := false, dirty := false, refcnt := 1 }).add
        (.waiting b)) := by
  have hio : .io b ∉ s.acts := h.counts.not_mem href rfl
  have howns : .owns b ∉ s.acts := h.counts.not_mem href rfl
  obtain ⟨hr, ⟨hc1, hc2⟩, ⟨h1, h2⟩, ⟨h3, h4, h5⟩, ⟨h6, h7, h8, h9, h10⟩⟩ := h
  unfold State.add
  refine ⟨hr, ⟨?_, ?_⟩, ⟨?_, ?_⟩, ⟨h3, ?_, ?_⟩, ⟨?_, ?_, ?_, ?_, ?_⟩⟩
  · grind [Act.slot]
  · grind [Act.slot, Act.HasLock]
  · grind
  · grind
  · grind
  · grind
  · grind
  · grind
  · grind
  · grind
  · exact fun n => (h10 n).of_same rfl rfl (by grind)

lemma Inv.modify (h : Inv s) (ha : .owns b ∈ s.acts) {d : D} :
    Inv (s.update b fun x => { x with data := d, touched := true }) := by
  obtain ⟨hr, ⟨hc1, hc2⟩, ⟨h1, h2⟩, ⟨h3, h4, h5⟩, ⟨h6, h7, h8, h9, h10⟩⟩ := h
  refine ⟨hr, ⟨?_, ?_⟩, ⟨?_, ?_⟩, ⟨h3, h4, ?_⟩, ⟨?_, ?_, ?_, ?_,
    fun n => (h10 n).of_same rfl rfl (by grind)⟩⟩ <;> grind

lemma Inv.logWrite (h : Inv s) (ha : .owns b ∈ s.acts) : Inv (s.mark b) := by
  have hpos := h.counts.ref_pos ha rfl
  obtain ⟨hr, ⟨hc1, hc2⟩, ⟨h1, h2⟩, ⟨h3, h4, h5⟩, ⟨h6, h7, h8, h9, h10⟩⟩ := h
  have hroot := h2 b (.inl hpos)
  have hdisk : ∀ n, OnDisk (s.mark b) n := by
    intro n
    by_cases hn : n = (s.buf b).blockno
    · exact .inr ⟨b, by simp [mark_buf, hroot], by simp [mark_buf, hn], by simp [mark_buf]⟩
    · exact (h10 n).of_same rfl (by simp [mark_last, hn]) (by grind)
  refine ⟨hr, ⟨?_, ?_⟩, ⟨?_, ?_⟩, ⟨h3, h4, ?_⟩, ⟨?_, ?_, ?_, ?_, hdisk⟩⟩ <;> grind

/-- A buffer whose owner does not wait for the disk is not in its queue. -/
lemma Inv.not_mem_queue (h : Inv s) (ha : a ∈ s.acts) (hslot : a.slot = some b) (hl : a.HasLock)
    (hne : a ≠ .io b) : b ∉ s.queue := fun hb =>
  hne (h.counts.lock_excl ha (h.queued.io b hb) hslot rfl hl rfl)

/-- The owner of a buffer asks the disk for it. -/
lemma Inv.iderw (h : Inv s) (ha : s.acts = a ::ₘ rest) (hslot : a.slot = some b) (hl : a.HasLock)
    (hne : a ≠ .io b) (ht : ¬ (s.buf b).touched) (hd : ¬ (s.buf b).valid ∨ (s.buf b).dirty) :
    Inv { s with queue := s.queue ++ [b], acts := .io b ::ₘ rest } := by
  have hnot := h.not_mem_queue (by simp [ha]) hslot hl hne
  obtain ⟨hr, ⟨hc1, hc2⟩, hb, ⟨h3, h4, h5⟩, ⟨h6, h7, h8, h9, h10⟩⟩ := h
  refine ⟨hr, ⟨?_, ?_⟩, ⟨hb.1, hb.2⟩, ⟨?_, ?_, ?_⟩, ⟨?_, ?_, ?_, ?_, ?_⟩⟩
  · grind [Act.slot]
  · grind [Act.slot, Act.HasLock]
  · exact h3.append (List.nodup_singleton b) (by simpa using hnot)
  · grind [Act.slot]
  · grind
  · grind
  · grind
  · grind [Act.slot]
  · grind
  · exact fun n => (h10 n).of_same rfl rfl (by grind)

lemma Inv.wrote (h : Inv s) {queue : List Buf} (hq : s.queue = b :: queue) (hd : (s.buf b).dirty) :
    Inv { (s.update b fun x => { x with valid := true, dirty := false }).write (s.buf b).blockno
      (s.buf b).data with queue := queue } := by
  have hio := h.queued.io b (by simp [hq])
  have howns : .owns b ∉ s.acts := fun hm =>
    Act.noConfusion (h.counts.lock_excl hio hm rfl rfl rfl rfl)
  obtain ⟨hr, ⟨hc1, hc2⟩, ⟨h1, h2⟩, ⟨h3, h4, h5⟩, ⟨h6, h7, h8, h9, h10⟩⟩ := h
  have hroot := h2 b (.inr (.inr hd))
  have hdata := h9 b (h7 b hd) (fun ht => howns (h8 b ht))
  have hdisk : ∀ n, OnDisk { (s.update b fun x => { x with valid := true, dirty := false }).write
      (s.buf b).blockno (s.buf b).data with queue := queue } n := by
    intro n
    by_cases hn : n = (s.buf b).blockno
    · exact .inl (by simp [hn, hdata, State.write, State.update])
    · exact (h10 n).of_same (by simp [write_disk, hn, update_disk]) rfl (by grind)
  refine ⟨hr, ⟨?_, ?_⟩, ⟨?_, ?_⟩, ⟨?_, ?_, ?_⟩, ⟨?_, ?_, ?_, ?_, hdisk⟩⟩ <;> grind

lemma Inv.read (h : Inv s) {queue : List Buf} (hq : s.queue = b :: queue)
    (hd : ¬ (s.buf b).dirty) :
    Inv { s.update b fun x => { x with
      data := s.disk (s.buf b).blockno, valid := true, dirty := false } with queue := queue } := by
  have hio := h.queued.io b (by simp [hq])
  have hpos := h.counts.ref_pos hio rfl
  have howns : .owns b ∉ s.acts := fun hm =>
    Act.noConfusion (h.counts.lock_excl hio hm rfl rfl rfl rfl)
  obtain ⟨hr, ⟨hc1, hc2⟩, ⟨h1, h2⟩, ⟨h3, h4, h5⟩, ⟨h6, h7, h8, h9, h10⟩⟩ := h
  have hroot := h2 b (.inl hpos)
  have hdisk : s.disk (s.buf b).blockno = s.last (s.buf b).blockno := by
    rcases h10 (s.buf b).blockno with hsame | ⟨c, hc, hbc, hdc⟩
    · exact hsame
    · exact absurd (h1 c b hc hroot hbc ▸ hdc) hd
  refine ⟨hr, ⟨?_, ?_⟩, ⟨?_, ?_⟩, ⟨?_, ?_, ?_⟩, ⟨?_, ?_, ?_, ?_,
    fun n => (h10 n).of_same rfl rfl (by grind)⟩⟩ <;> grind

lemma Inv.release (h : Inv s) (ha : s.acts = .releasing b ::ₘ rest) :
    Inv { s.release b with acts := rest } := by
  have hring := h.ring.release b
  obtain ⟨hr, ⟨hc1, hc2⟩, ⟨h1, h2⟩, ⟨h3, h4, h5⟩, ⟨h6, h7, h8, h9, h10⟩⟩ := h
  refine ⟨hring, ⟨?_, ?_⟩, ⟨?_, ?_⟩, ⟨h3, ?_, ?_⟩, ⟨?_, ?_, ?_, ?_, ?_⟩⟩
  · grind [Act.slot]
  · grind [Act.slot, Act.HasLock]
  · grind
  · grind
  · grind
  · grind
  · grind
  · grind
  · grind
  · grind
  · exact fun n => (h10 n).of_same rfl rfl (by grind)

/-! ## Runs -/

lemma Inv.step (h : Inv s) (hstep : s.step e = some s') : Inv s' := by
  have hsame : ∀ b acts, ({ s with acts := acts } : State D) =
      { s.update b fun x => { x with locked := (s.buf b).locked } with acts := acts } := by
    intro b acts
    simp [State.update]
  cases does_of_step hstep with
  | bread hget =>
    cases hget with
    | hit hc => exact h.hit (cached_eq_some hc).1
    | recycle hc hu =>
      obtain ⟨href, hd⟩ := unused_eq_some hu
      exact h.recycle (h.ring.cached_eq_none hc) href hd
  | modify ha => exact h.modify ha
  | logWrite ha => exact h.logWrite ha
  | @bwrite b rest ha =>
    exact (h.logWrite (by simp [ha])).iderw ha rfl rfl (by simp) (by simp [mark_buf])
      (.inr (by simp [mark_buf]))
  | brelse ha ht => exact h.replace ha rfl rfl (.inr ⟨.inl rfl, rfl⟩) (by simp) (fun _ => ht) (by simp)
  | acquire ha hl => exact h.replace ha rfl rfl (.inr ⟨.inr hl, rfl⟩) (by simp) (by simp) (by simp)
  | @hit b rest ha hv =>
    rw [hsame b]
    exact h.replace ha rfl rfl (.inl ⟨rfl, rfl⟩) (by simp) (by simp) (fun _ => hv)
  | @request b rest ha hv =>
    refine h.iderw ha rfl rfl (by simp) (fun ht => ?_) (.inl hv)
    exact hv (h.data.owns b (h.data.touched b ht))
  | @done b rest ha hv hd =>
    rw [hsame b]
    exact h.replace ha rfl rfl (.inl ⟨rfl, rfl⟩) (fun _ => ⟨hv, hd⟩) (by simp) (fun _ => hv)
  | release ha => exact h.release ha
  | idle hq => exact h
  | wrote hq hd => exact h.wrote hq hd
  | read hq hd => exact h.read hq hd

lemma inv_init {disk : ℕ → D} {junk : D} : Inv (init disk junk) := by
  refine ⟨ring_init, ⟨?_, ?_⟩, ⟨?_, ?_⟩, ⟨?_, ?_, ?_⟩, ⟨?_, ?_, ?_, ?_, fun n => .inl rfl⟩⟩ <;>
    simp [init, Activity.uses, Activity.locks, ROOTDEV]

lemma inv_of_exec {disk : ℕ → D} {junk : D} {tr : List (Event D)}
    (h : Machine.exec State.step (init disk junk) tr = some s) : Inv s :=
  Machine.exec_induction (motive := fun _ s => Inv s) inv_init
    (fun _ _ _ _ _ ih hstep => ih.step hstep) h

/-- A step gives a buffer to another block only if nobody uses it and the log does not need it. -/
lemma recycled (hstep : s.step e = some s')
    (hne : (s'.buf b).dev ≠ (s.buf b).dev ∨ (s'.buf b).blockno ≠ (s.buf b).blockno) :
    (s.buf b).refcnt = 0 ∧ ¬ (s.buf b).dirty := by
  cases does_of_step hstep with
  | @bread n c s1 hget =>
    cases hget with
    | hit hc =>
      simp only [State.add] at hne
      grind
    | recycle hc hu =>
      have hunused := unused_eq_some hu
      simp only [State.add] at hne
      by_cases hbc : b = c
      · exact hbc ▸ hunused
      · simp [update_buf, hbc] at hne
  | idle hq => simp at hne
  | _ => grind

/-- A buffer that `bread` returns holds the last data of its block. -/
lemma Inv.returned (h : Inv s) (hstep : s.step e = some s') (hb : .owns b ∉ s.acts)
    (hb' : .owns b ∈ s'.acts) :
    (s'.buf b).dev = ROOTDEV ∧ (s'.buf b).data = s'.last (s'.buf b).blockno := by
  have h' := h.step hstep
  have htouched : ¬ (s'.buf b).touched := by
    intro ht
    have hold : ¬ (s.buf b).touched := fun ht => hb (h.data.touched b ht)
    cases does_of_step hstep with
    | bread hget =>
      cases hget <;> simp only [State.add] at ht <;> grind
    | idle hq => exact hold ht
    | _ => grind
  exact ⟨h'.blocks.root b (.inl (h'.counts.ref_pos hb' rfl)),
    h'.data.data b (h'.data.owns b hb') htouched⟩

/-- Block 7 is read, changed, marked and given back; then it is read again. -/
def writeBlock : List (Event ℕ) :=
  [.bread 7, .go (.waiting 0), .go (.reading 0), .ideintr, .go (.io 0), .modify 0 5, .logWrite 0,
    .brelse 0, .go (.releasing 0), .bread 7, .go (.waiting 0)]

end Xv7.Bio
