import Xv7.Ide.Model

/-!
# The queue of the disk driver

The queue is the part of the appended buffers that has not been completed.  Each of its buffers is
locked by a process that sleeps in `iderw`, and only the head is on the controller.  A call returns
after the one request that it has appended was completed; but this can be with an error, and then the
buffer has not been transferred.
-/

namespace Xv7.Ide

open Function (update update_eq_self update_of_ne update_self)
open Bio (Buf NBUF)
open DList (Path)
open Machine
open Ptable (NPROC)

variable {s s' : State} {q : List Buf} {b : Buf} {p : Fin NPROC} {e : Event} {since : ℕ}

/-! ## The invariant -/

/-- The queue holds the buffers of a list. -/
structure Inv (q : List Buf) (s : State) : Prop where
  path : Path s.qnext none q none
  nodup : q.Nodup
  /-- The head is on the controller. -/
  started : s.started = q.head?.toList.map fun b => (b, s.dirty b)
  order : s.appended = s.completed.map Prod.fst ++ q
  waits : ∀ b ∈ q, ∃ p since, s.calls p = some (.asleep b since)
  owner : ∀ p c, s.calls p = some c → s.locked c.buf = some p
  entered : ∀ p b, s.calls p = some (.entered b) → b ∉ q ∧ ¬ s.Clean b
  asleep : ∀ p b since, s.calls p = some (.asleep b since) → since ≤ s.completed.length ∧
    if b ∈ q then ¬ s.Clean b ∧ s.transfers b since = []
    else s.Clean b ∧ ∃ ok, (b, ok) ∈ s.completed ∧ s.transfers b since = [ok]
  returned : ∀ r ∈ s.returned, r.valid = true ∧ r.dirty = false ∧
    ∃ ok, (r.buf, ok) ∈ s.completed ∧ r.transfers = [ok]

/-- One more request is completed. -/
lemma transfers_append {c : Buf} {ok : Bool} (hle : since ≤ s.completed.length)
    (hs' : s'.completed = s.completed ++ [(b, ok)]) :
    s'.transfers c since = s.transfers c since ++ if c = b then [ok] else [] := by
  rw [State.transfers, hs', List.drop_append_of_le_length hle, List.filter_append, List.map_append]
  split_ifs with hc
  · simp [State.transfers, hc]
  · simp [State.transfers, Ne.symm hc]

namespace Inv

/-- A buffer that no call is on is not in the queue. -/
lemma not_mem (h : Inv q s) (hb : ∀ p c, s.calls p = some c → c.buf ≠ b) : b ∉ q := fun hmem => by
  obtain ⟨p, since, hp⟩ := h.waits b hmem
  exact hb p _ hp rfl

/-- Nobody else is in `iderw` on a buffer that is not locked, or that is locked by a process that is
not in a call. -/
lemma no_call (h : Inv q s) (hlock : ∀ p, s.locked b = some p → s.calls p = none) :
    ∀ p c, s.calls p = some c → c.buf ≠ b := by
  rintro p c hc rfl
  rw [hlock p (h.owner p c hc)] at hc
  simp at hc

/-- Locks and flags of buffers that no call is on do not matter. -/
lemma congr (h : Inv q s) (hb : ∀ p c, s.calls p = some c → c.buf ≠ b) (hqnext : s'.qnext = s.qnext)
    (hcalls : s'.calls = s.calls) (hstarted : s'.started = s.started) (happended : s'.appended = s.appended)
    (hcompleted : s'.completed = s.completed) (hreturned : s'.returned = s.returned)
    (hlocked : ∀ c, c ≠ b → s'.locked c = s.locked c) (hvalid : ∀ c, c ≠ b → s'.valid c = s.valid c)
    (hdirty : ∀ c, c ≠ b → s'.dirty c = s.dirty c) : Inv q s' := by
  have hnot := h.not_mem hb
  have hclean : ∀ c, c ≠ b → (s'.Clean c ↔ s.Clean c) := fun c hc => by
    rw [State.Clean, State.Clean, hvalid c hc, hdirty c hc]
  have htransfers : ∀ c since, s'.transfers c since = s.transfers c since := fun c since => by
    rw [State.transfers, State.transfers, hcompleted]
  refine ⟨hqnext ▸ h.path, h.nodup, ?_, ?_, ?_, ?_, ?_, ?_, ?_⟩
  · rw [hstarted, h.started]
    cases q with
    | nil => rfl
    | cons c q =>
      have hc : c ≠ b := by
        rintro rfl
        exact hnot List.mem_cons_self
      simp [hdirty c hc]
  · rw [happended, hcompleted, h.order]
  · rw [hcalls]
    exact h.waits
  · intro p c hc
    rw [hcalls] at hc
    rw [hlocked _ (hb p c hc), h.owner p c hc]
  · intro p c hc
    rw [hcalls] at hc
    rw [hclean c (hb p _ hc)]
    exact h.entered p c hc
  · intro p c since hc
    rw [hcalls] at hc
    rw [hclean c (hb p _ hc), htransfers, hcompleted]
    exact h.asleep p c since hc
  · rw [hreturned, hcompleted]
    exact h.returned

/-- The call of one process changes. -/
lemma calls_update {c c' : Call} {p' : Fin NPROC} (h : update s.calls p (some c) p' = some c') :
    (p' = p ∧ c' = c) ∨ (p' ≠ p ∧ s.calls p' = some c') := by
  rcases eq_or_ne p' p with rfl | hne
  · rw [update_self, Option.some.injEq] at h
    exact .inl ⟨rfl, h.symm⟩
  · rw [update_of_ne hne] at h
    exact .inr ⟨hne, h⟩

/-- A process enters `iderw`. -/
lemma iderw (h : Inv q s) (hp : s.calls p = none) (hs' : s.iderw p b = some s') : Inv q s' := by
  unfold State.iderw at hs'
  split_ifs at hs' with hlock hclean
  cases hs'
  rw [not_not] at hlock
  have hnot : b ∉ q := h.not_mem (h.no_call fun p' hp' => by
    rw [hlock, Option.some.injEq] at hp'
    rw [← hp', hp])
  refine ⟨h.path, h.nodup, h.started, h.order, fun c hc => ?_, fun p' c hc => ?_, fun p' c hc => ?_,
    fun p' c since hc => ?_, h.returned⟩
  · obtain ⟨p', since, hp'⟩ := h.waits c hc
    have hne : p' ≠ p := by
      rintro rfl
      rw [hp] at hp'
      simp at hp'
    exact ⟨p', since, (update_of_ne hne _ _).trans hp'⟩
  · rcases calls_update hc with ⟨rfl, rfl⟩ | ⟨-, hc⟩
    · exact hlock
    · exact h.owner p' c hc
  · rcases calls_update hc with ⟨rfl, heq⟩ | ⟨-, hc⟩
    · cases heq
      exact ⟨hnot, hclean⟩
    · exact h.entered p' c hc
  · rcases calls_update hc with ⟨rfl, heq⟩ | ⟨-, hc⟩
    · cases heq
    · exact h.asleep p' c since hc

/-- A process tests the flags of its buffer. -/
lemma test (h : Inv q s) (hp : s.calls p = some (.asleep b since)) : Inv q (s.test p b since) := by
  obtain ⟨hle, hb⟩ := h.asleep p b since hp
  unfold State.test
  split_ifs with hclean
  · have hnot : b ∉ q := fun hmem => by
      rw [if_pos hmem] at hb
      exact hb.1 hclean
    rw [if_neg hnot] at hb
    have hother : ∀ p' c, update s.calls p none p' = some c → p' ≠ p ∧ s.calls p' = some c := by
      intro p' c hc
      have hne : p' ≠ p := by
        rintro rfl
        rw [update_self] at hc
        simp at hc
      exact ⟨hne, by rwa [update_of_ne hne] at hc⟩
    refine ⟨h.path, h.nodup, h.started, h.order, fun c hc => ?_, fun p' c hc => h.owner p' c (hother p' c hc).2,
      fun p' c hc => h.entered p' c (hother p' _ hc).2, fun p' c since hc => h.asleep p' c since (hother p' _ hc).2,
      fun r hr => ?_⟩
    · obtain ⟨p', since', hp'⟩ := h.waits c hc
      have hne : p' ≠ p := by
        rintro rfl
        rw [hp, Option.some.injEq, Call.asleep.injEq] at hp'
        exact hnot (hp'.1 ▸ hc)
      exact ⟨p', since', (update_of_ne hne _ _).trans hp'⟩
    · rcases List.mem_append.mp hr with hr | hr
      · exact h.returned r hr
      · rw [List.mem_singleton.mp hr]
        exact ⟨hclean.1, hclean.2, hb.2⟩
  · rw [← hp, update_eq_self]
    exact ⟨h.path, h.nodup, h.started, h.order, h.waits, h.owner, h.entered, h.asleep, h.returned⟩

/-- A buffer is appended to the queue. -/
lemma append (h : Inv q s) (hp : s.calls p = some (.entered b)) (hs' : s.append p b = some s') :
    Inv (q ++ [b]) s' := by
  obtain ⟨hnot, hclean⟩ := h.entered p b hp
  have hlen : q.length < NBUF + 1 := by
    have := h.nodup.length_le_card
    rw [Fintype.card_fin] at this
    omega
  have hnull : Path (update s.qnext (some b) none) none q none :=
    h.path.congr (update_of_ne (by simp) _ _) fun c hc => update_of_ne (by
      rintro heq
      exact hnot (Option.some.inj heq ▸ hc)) _ _
  have hwalk := Queue.walk_eq hnull hlen
  have hpath := Queue.path_append h.path h.nodup hnot
  obtain rfl : s' = { s with
      qnext := Queue.append s.qnext (DList.lastNode none q) b
      appended := s.appended ++ [b]
      started := (q ++ [b]).head?.toList.map fun c => (c, s.dirty c)
      calls := update s.calls p (some (.asleep b s.completed.length)) } := by
    simp only [State.append, hwalk, Option.bind_eq_bind, Option.bind_some] at hs'
    cases q with
    | nil =>
      rw [if_pos hpath.1, State.idestart] at hs'
      split_ifs at hs'
      · simp at hs'
      rw [Option.bind_some, State.test, if_neg (by exact hclean)] at hs'
      cases hs'
      simp [h.started]
    | cons a q =>
      have hne : a ≠ b := by
        rintro rfl
        exact hnot List.mem_cons_self
      rw [if_neg (by rw [hpath.1]; simpa using hne), State.test, if_neg (by exact hclean)] at hs'
      cases hs'
      simp [h.started]
  -- The other calls are on other buffers.
  have hbuf : ∀ p' c, p' ≠ p → s.calls p' = some c → c.buf ≠ b := by
    rintro p' c hne hc rfl
    have hp' := h.owner p' c hc
    have hown := h.owner p _ hp
    rw [Call.buf, hp', Option.some.injEq] at hown
    exact hne hown
  have hmem : ∀ {c}, c ≠ b → (c ∈ q ++ [b] ↔ c ∈ q) := fun hc => by simp [hc]
  refine ⟨hpath, ?_, rfl, ?_, fun c hc => ?_, fun p' c hc => ?_, fun p' c hc => ?_, fun p' c since hc => ?_,
    h.returned⟩
  · rw [List.nodup_append]
    refine ⟨h.nodup, List.nodup_singleton b, fun c hc d hd => ?_⟩
    rintro rfl
    exact hnot (List.mem_singleton.mp hd ▸ hc)
  · show s.appended ++ [b] = _
    rw [h.order, List.append_assoc]
  · rcases List.mem_append.mp hc with hc | hc
    · obtain ⟨p', since, hp'⟩ := h.waits c hc
      have hne : p' ≠ p := by
        rintro rfl
        rw [hp] at hp'
        simp at hp'
      exact ⟨p', since, (update_of_ne hne _ _).trans hp'⟩
    · rw [List.mem_singleton.mp hc]
      exact ⟨p, _, update_self _ _ _⟩
  · rcases calls_update hc with ⟨rfl, rfl⟩ | ⟨-, hc⟩
    · exact h.owner p' (.entered b) hp
    · exact h.owner p' c hc
  · rcases calls_update hc with ⟨rfl, heq⟩ | ⟨hne, hc⟩
    · cases heq
    · have hcb : c ≠ b := hbuf p' _ hne hc
      rw [hmem hcb]
      exact h.entered p' c hc
  · rcases calls_update hc with ⟨rfl, heq⟩ | ⟨hne, hc⟩
    · cases heq
      refine ⟨le_rfl, ?_⟩
      rw [if_pos (by simp)]
      exact ⟨hclean, by simp [State.transfers]⟩
    · have hcb : c ≠ b := hbuf p' _ hne hc
      simp only [hmem hcb]
      exact h.asleep p' c since hc

/-- An interrupt completes the request of the head. -/
lemma ideintr {request : Buf × Bool} {rest : List (Buf × Bool)} {err : Bool} (h : Inv q s)
    (hstarted : s.started = request :: rest)
    (hs' : { s with started := rest }.ideintr request err = some s') :
    ∃ b q', q = b :: q' ∧ s'.completed = s.completed ++ [(b, !err)] ∧ s'.Clean b ∧ s'.calls = s.calls ∧ Inv q' s' := by
  cases q with
  | nil =>
    rw [h.started] at hstarted
    simp at hstarted
  | cons b q =>
    obtain ⟨rfl, rfl⟩ : request = (b, s.dirty b) ∧ rest = [] := by
      rw [h.started] at hstarted
      simpa [eq_comm] using hstarted
    have hnot : b ∉ q := (List.nodup_cons.mp h.nodup).1
    obtain rfl : s' = { s with
        qnext := update s.qnext none (s.qnext (some b))
        completed := s.completed ++ [(b, !err)]
        valid := update s.valid b true
        dirty := update s.dirty b false
        started := q.head?.toList.map fun c => (c, s.dirty c) } := by
      have hpath := Queue.path_tail h.path
      simp only [State.ideintr, h.path.1, decide_true, Bool.true_and, update_self] at hs'
      cases q with
      | nil =>
        rw [show s.qnext (some b) = none from h.path.2] at hs'
        cases hs'
        simp [show s.qnext (some b) = none from h.path.2]
      | cons c q =>
        have hcb : c ≠ b := by
          rintro rfl
          exact hnot List.mem_cons_self
        have hnext : s.qnext (some b) = some c := h.path.2.1
        simp only [hnext, State.idestart] at hs'
        split_ifs at hs'
        cases hs'
        simp [hnext, hcb]
    have hne : ∀ {c}, c ∈ q → c ≠ b := by
      rintro c hc rfl
      exact hnot hc
    have hclean : ∀ {c}, c ≠ b → ((update s.valid b true c = true ∧
        update s.dirty b false c = false) ↔ s.Clean c) := fun hc => by
      rw [update_of_ne hc, update_of_ne hc]
      rfl
    refine ⟨b, q, rfl, rfl, ⟨update_self _ _ _, update_self _ _ _⟩, rfl,
      Queue.path_tail h.path, (List.nodup_cons.mp h.nodup).2, ?_, ?_,
      fun c hc => h.waits c (List.mem_cons_of_mem b hc), h.owner, fun p c hc => ?_, fun p c since hc => ?_,
      fun r hr => ?_⟩
    · refine List.map_congr_left fun c hc => ?_
      show (c, s.dirty c) = (c, update s.dirty b false c)
      rw [update_of_ne (hne (List.mem_of_mem_head? (by simpa using hc)))]
    · show s.appended = _
      rw [h.order, List.map_append, List.append_assoc]
      rfl
    · obtain ⟨hc, hdirty⟩ := h.entered p c hc
      obtain ⟨hcb, hcq⟩ := not_or.mp (List.mem_cons.not.mp hc)
      exact ⟨hcq, fun hcl => hdirty ((hclean hcb).mp hcl)⟩
    · obtain ⟨hle, hstate⟩ := h.asleep p c since hc
      refine ⟨by rw [List.length_append]; omega, ?_⟩
      rcases eq_or_ne c b with rfl | hcb
      · rw [if_pos List.mem_cons_self] at hstate
        rw [if_neg hnot]
        refine ⟨⟨update_self _ _ _, update_self _ _ _⟩, !err, by simp, ?_⟩
        rw [transfers_append hle rfl, hstate.2, if_pos rfl]
        rfl
      · rw [transfers_append hle rfl, if_neg hcb, List.append_nil]
        simp only [List.mem_cons, hcb, false_or] at hstate
        split_ifs at hstate ⊢
        · exact ⟨fun hcl => hstate.1 ((hclean hcb).mp hcl), hstate.2⟩
        · obtain ⟨hcl, ok, hmem, htr⟩ := hstate
          exact ⟨(hclean hcb).mpr hcl, ok, List.mem_append_left _ hmem, htr⟩
    · obtain ⟨hvalid, hdirty, ok, hmem, htr⟩ := h.returned r hr
      exact ⟨hvalid, hdirty, ok, List.mem_append_left _ hmem, htr⟩

/-- Each step leads to a queue. -/
lemma step (h : Inv q s) (hs' : s.step e = some s') : ∃ q', Inv q' s' := by
  cases e with
  | lock p b =>
    simp only [State.step] at hs'
    split_ifs at hs' with hc
    cases hs'
    exact ⟨q, h.congr (h.no_call fun p' hp' => by rw [hc.1] at hp'; simp at hp') rfl rfl rfl rfl rfl rfl
      (fun c hcb => update_of_ne hcb _ _) (fun _ _ => rfl) fun _ _ => rfl⟩
  | unlock p b =>
    simp only [State.step] at hs'
    split_ifs at hs' with hc
    cases hs'
    exact ⟨q, h.congr (h.no_call fun p' hp' => by rw [hc.1] at hp'; cases hp'; exact hc.2) rfl rfl rfl rfl rfl
      rfl (fun c hcb => update_of_ne hcb _ _) (fun _ _ => rfl) fun _ _ => rfl⟩
  | mark p b =>
    simp only [State.step] at hs'
    split_ifs at hs' with hc
    cases hs'
    exact ⟨q, h.congr (h.no_call fun p' hp' => by rw [hc.1] at hp'; cases hp'; exact hc.2) rfl rfl rfl rfl rfl
      rfl (fun _ _ => rfl) (fun _ _ => rfl) fun c hcb => update_of_ne hcb _ _⟩
  | recycle b dev blockno =>
    simp only [State.step] at hs'
    split_ifs at hs' with hc
    cases hs'
    exact ⟨q, h.congr (h.no_call fun p' hp' => by rw [hc] at hp'; simp at hp') rfl rfl rfl rfl rfl rfl
      (fun _ _ => rfl) (fun c hcb => update_of_ne hcb _ _)
      fun c hcb => update_of_ne hcb _ _⟩
  | iderw p b =>
    simp only [State.step] at hs'
    split_ifs at hs' with hc
    exact ⟨q, h.iderw hc hs'⟩
  | append p =>
    simp only [State.step] at hs'
    split at hs'
    next b hp => exact ⟨q ++ [b], h.append hp hs'⟩
    next => cases hs'
  | wake p =>
    simp only [State.step] at hs'
    split at hs'
    next b since hp =>
      cases hs'
      exact ⟨q, h.test hp⟩
    next => cases hs'
  | intr err =>
    simp only [State.step] at hs'
    split at hs'
    next => cases hs'
    next request rest hstarted =>
      obtain ⟨b, q', -, -, -, -, h'⟩ := h.ideintr hstarted hs'
      exact ⟨q', h'⟩

end Inv

/-! ## Runs -/

lemma completed_test : (s.test p b since).completed = s.completed := by
  unfold State.test
  split_ifs <;> rfl

/-- Only an interrupt completes a request. -/
lemma completed_step (he : ∀ err, e ≠ .intr err) (hs' : s.step e = some s') :
    s'.completed = s.completed := by
  cases e with
  | intr err => exact absurd rfl (he err)
  | append p =>
    simp only [State.step] at hs'
    split at hs'
    · obtain ⟨pp, -, hs'⟩ := Option.bind_eq_some_iff.mp hs'
      dsimp only at hs'
      split_ifs at hs'
      · obtain ⟨t, ht, hs'⟩ := Option.bind_eq_some_iff.mp hs'
        unfold State.idestart at ht
        split_ifs at ht
        cases ht
        cases hs'
        exact completed_test
      · cases hs'
        exact completed_test
    · cases hs'
  | wake p =>
    simp only [State.step] at hs'
    split at hs'
    · cases hs'
      exact completed_test
    · cases hs'
  | iderw p b =>
    simp only [State.step, State.iderw] at hs'
    split_ifs at hs'
    cases hs'
    rfl
  | _ =>
    simp only [State.step] at hs'
    split_ifs at hs'
    cases hs'
    rfl

/-- The queue has no buffer twice and none that is valid and clean, its head is the request on the
controller, requests are completed in the order in which they were appended, and each call that has
returned had its buffer transferred once, with `B_VALID` set and `B_DIRTY` clear. -/
def Orderly (s : State) : Prop :=
  ∃ q : List Buf, Path s.qnext none q none ∧ q.Nodup ∧ s.started.map Prod.fst = q.head?.toList ∧
    s.appended = s.completed.map Prod.fst ++ q ∧ (∀ b ∈ q, ¬ s.Clean b) ∧
    ∀ r ∈ s.returned, r.valid = true ∧ r.dirty = false ∧ r.transfers = [true]

lemma Inv.orderly (h : Inv q s) (hok : ∀ x ∈ s.completed, x.2 = true) : Orderly s := by
  refine ⟨q, h.path, h.nodup, ?_, h.order, fun b hb => ?_, fun r hr => ?_⟩
  · rw [h.started, List.map_map]
    exact List.map_id _
  · obtain ⟨p, since, hp⟩ := h.waits b hb
    have := (h.asleep p b since hp).2
    rw [if_pos hb] at this
    exact this.1
  · obtain ⟨hvalid, hdirty, ok, hmem, htr⟩ := h.returned r hr
    have hok' : ok = true := hok _ hmem
    rw [hok'] at htr
    exact ⟨hvalid, hdirty, htr⟩

section

variable {dev blockno : Buf → ℕ} {valid dirty : Buf → Bool} {havedisk1 : Bool} {tr : List Event}

lemma inv_init : Inv [] (State.init dev blockno valid dirty havedisk1) where
  path := rfl
  nodup := List.nodup_nil
  started := rfl
  order := rfl
  waits b hb := absurd hb List.not_mem_nil
  owner p c hc := by simp [State.init] at hc
  entered p b hc := by simp [State.init] at hc
  asleep p b since hc := by simp [State.init] at hc
  returned r hr := by simp [State.init] at hr

/-- In every run in which no request ends with an error the driver is orderly.  After such a run an
interrupt with an error can be followed by the return of the call, and then it is not. -/
theorem orderly_of_no_error
    (hrun : exec State.step (State.init dev blockno valid dirty havedisk1) tr = some s)
    (hok : Meets State.step (fun _ e => e ≠ .intr true) (State.init dev blockno valid dirty havedisk1) tr) :
    Orderly s ∧ ∀ s', s.step (.intr true) = some s' →
      ∃ p s'', s'.step (.wake p) = some s'' ∧ ¬ Orderly s'' := by
  obtain ⟨⟨q, h⟩, hdone⟩ : (∃ q, Inv q s) ∧ ∀ x ∈ s.completed, x.2 = true := by
    refine exec_induction_of_meets (motive := fun _ s => (∃ q, Inv q s) ∧ ∀ x ∈ s.completed, x.2 = true)
      ⟨⟨[], inv_init⟩, by simp [State.init]⟩ ?_ hrun hok
    rintro _ s e s' - ⟨⟨q, h⟩, hdone⟩ he hs'
    refine ⟨h.step hs', ?_⟩
    by_cases hintr : ∀ err, e ≠ .intr err
    · rwa [completed_step hintr hs']
    · simp only [not_forall, not_not] at hintr
      obtain ⟨err, rfl⟩ := hintr
      have herr : err = false := by simpa using he
      simp only [State.step] at hs'
      split at hs'
      · cases hs'
      next request rest hstarted =>
        obtain ⟨b, q', -, hcompleted, -⟩ := h.ideintr hstarted hs'
        rw [hcompleted, herr]
        intro x hx
        rcases List.mem_append.mp hx with hx | hx
        · exact hdone x hx
        · rw [List.mem_singleton.mp hx]
          rfl
  refine ⟨h.orderly hdone, fun s' hs' => ?_⟩
  simp only [State.step] at hs'
  split at hs'
  · cases hs'
  next request rest hstarted =>
    obtain ⟨b, q', rfl, hcompleted, hclean, hcalls, h'⟩ := h.ideintr hstarted hs'
    obtain ⟨p, since, hp⟩ := h.waits b List.mem_cons_self
    obtain ⟨hle, hempty⟩ := h.asleep p b since hp
    rw [if_pos List.mem_cons_self] at hempty
    have htr : s'.transfers b since = [false] := by
      rw [transfers_append hle hcompleted, hempty.2, if_pos rfl]
      rfl
    refine ⟨p, s'.test p b since, by simp only [State.step, hcalls, hp], ?_⟩
    rintro ⟨-, -, -, -, -, -, hreturned⟩
    have := (hreturned ⟨b, s'.valid b, s'.dirty b, s'.transfers b since⟩ (by
      rw [State.test, if_pos hclean]
      simp)).2.2
    rw [htr] at this
    simp at this

end

/-- All buffers are for block 7 of disk 1, and have not been read. -/
abbrev fresh : State := State.init (fun _ => 1) (fun _ => 7) (fun _ => false) (fun _ => false) true

/-- Two processes read two buffers at the same time. -/
abbrev twoReads : List Event :=
  [.lock 0 3, .lock 1 5, .iderw 0 3, .iderw 1 5, .append 1, .append 0, .intr false, .wake 0, .wake 1,
    .intr false, .wake 0]

/-- A process reads a buffer, and the disk reports an error. -/
abbrev failedRead : List Event := [.lock 0 3, .iderw 0 3, .append 0, .intr true, .wake 0]

lemma twoReads_runs : (exec State.step fresh twoReads).isSome := by decide +kernel

lemma failedRead_runs : (exec State.step fresh failedRead).isSome := by decide +kernel

theorem orderly_of_no_error_twoReads : ∃ s, exec State.step fresh twoReads = some s ∧
    s.returned.map Return.buf = [5, 3] ∧ Orderly s := by
  have hrun := (Option.some_get twoReads_runs).symm
  have hok : Meets State.step (fun _ e => e ≠ .intr true) fresh twoReads :=
    meets_of_forall fun _ => by decide
  exact ⟨_, hrun, by decide +kernel, (orderly_of_no_error hrun hok).1⟩

/-- The call has returned with `B_VALID` set, but nothing was read. -/
theorem failedRead_not_orderly : ∃ s, exec State.step fresh failedRead = some s ∧
    s.returned = [⟨3, true, false, [false]⟩] ∧ ¬ Orderly s := by
  have hreturned : ((exec State.step fresh failedRead).get failedRead_runs).returned =
      [⟨3, true, false, [false]⟩] := by decide +kernel
  refine ⟨_, (Option.some_get failedRead_runs).symm, hreturned, ?_⟩
  rintro ⟨-, -, -, -, -, -, hall⟩
  have := (hall _ (by rw [hreturned]; exact List.mem_singleton_self _)).2.2
  simp at this

end Xv7.Ide
