import Xv7.Lib.Machine
import Xv7.Proc.Trap

/-!
# A handler and `sigreturn`

`trap` saves the interrupted frame in the one page that `sig_tf` points to.  `sys_sigreturn` copies it
back and clears `sig_tf` without freeing the page, and `syscall` then stores the result of the call,
0, in the frame.
-/

namespace Xv7.Signal

open State

variable {s s' s₁ : State} {T : Trap} {a : Point → UInt32} {tf tf' : TrapFrame}

/-- The pages that a process can use for a frame: its own and those of the free list. -/
def State.pages (s : State) : List ℕ := (s.sigTf.map SavedFrame.page).toList ++ s.free

/-- A process in user mode, with its registers and the number of handlers it is in. -/
structure Run where
  s : State
  tf : TrapFrame
  depth : ℕ

/-- The number of handlers after a trap: one more if the frame was diverted to one, one less if the
trap was `sigreturn`. -/
def depthAfter (T : Trap) (s s' : State) (depth : ℕ) : ℕ :=
  if s'.stored ≠ s.stored then depth + 1
  else if T.tf.trapno = T_SYSCALL ∧ T.call = .sigreturn then depth - 1
  else depth

/-- A trap, with any registers that the handler has then, of a process that is in a handler. -/
def Run.step (r : Run) (e : Trap × (Point → UInt32)) : Option Run :=
  if e.1.tf.User ∧ 0 < r.depth then
    match r.s.trap e.1 e.2 with
    | .ret s' tf => some ⟨s', tf, depthAfter e.1 r.s s' r.depth⟩
    | _ => none
  else none

/-- The process goes on with the registers it had, and no page is lost. -/
def Transparent (s : State) (tf : TrapFrame) (r : Run) : Prop :=
  r.tf = tf ∧ ∀ page ∈ s.pages, page ∈ r.s.pages

/-- What a saved frame takes: the page of `sig_tf`, or the first of the free list. -/
lemma save_pages (h : s.save tf = some s') :
    s'.pages = s.pages ∧ s'.stored = s.stored ∧ s'.sigTf ≠ none ∧ s'.free ⊆ s.free := by
  unfold save at h
  split at h
  · rename_i saved hsaved
    cases h
    exact ⟨by simp [State.pages, hsaved], rfl, by simp, fun _ => id⟩
  · rename_i page free hsaved hfree
    cases h
    exact ⟨by simp [State.pages, hsaved, hfree], rfl, by simp, by simp [hfree]⟩
  · exact absurd h (by simp)

/-- What the search for a handler leaves of the pages. -/
structure Kept (s s' : State) : Prop where
  free : s'.free ⊆ s.free
  saved : s'.stored ≠ s.stored → s'.pages = s.pages ∧ s'.sigTf ≠ none

lemma Kept.of_eq (hfree : s'.free = s.free) (hstored : s'.stored = s.stored) : Kept s s' :=
  ⟨by rw [hfree]; exact fun _ => id, fun h => absurd hstored h⟩

lemma divert_kept {sig : Fin 32} (h : s.divert T sig = some (s', tf)) : Kept s s' := by
  unfold divert at h
  split at h
  · cases h
    exact .of_eq rfl rfl
  · rename_i s₁ hsave
    obtain ⟨hpages, -, hsome, hfree⟩ := save_pages hsave
    split_ifs at h
    cases h
    exact ⟨hfree, fun _ => ⟨hpages, hsome⟩⟩

lemma deliver_kept (h : s.deliver T = some (s', tf)) : Kept s s' := by
  unfold deliver at h
  dsimp only at h
  split_ifs at h
  · cases h
    exact .of_eq rfl rfl
  · cases h
    exact .of_eq rfl rfl
  · cases h
    exact .of_eq rfl rfl
  · obtain ⟨hfree, hsaved⟩ := divert_kept h
    exact ⟨hfree, hsaved⟩
  · cases h
    exact .of_eq rfl rfl

/-- A system call stores nothing on the stack and takes no page. -/
lemma syscall_kept (s : State) (tf : TrapFrame) (c : Call) : Kept s (s.syscall tf c).1 := by
  cases c with
  | sigaction sig handler =>
    cases handler with
    | none => exact .of_eq rfl rfl
    | some handler =>
      unfold syscall sysSigaction
      dsimp only
      split_ifs <;> exact .of_eq rfl rfl
  | sigreturn =>
    unfold syscall sysSigreturn
    dsimp only
    split <;> exact .of_eq rfl rfl
  | sigprocmask | exec | other => exact .of_eq rfl rfl

/-- A trap takes pages from the free list only, and saves the frame if it diverts it. -/
lemma trap_kept (h : s.trap T a = .ret s' tf) : Kept s s' := by
  unfold trap at h
  dsimp only at h
  split_ifs at h
  · unfold trapSyscall at h
    dsimp only at h
    split_ifs at h
    cases h
    obtain ⟨hfree, hsaved⟩ := syscall_kept ((s.raise (a .entry)).raise (a .enter)) T.tf T.call
    exact ⟨hfree, hsaved⟩
  · unfold trapInterrupt at h
    split at h
    · exact absurd h (by simp)
    · rename_i s₁ hservice
      have hs1 : s₁.free = s.free ∧ s₁.stored = s.stored ∧ s₁.sigTf = s.sigTf := by
        unfold service at hservice
        split_ifs at hservice <;> cases hservice <;> exact ⟨rfl, rfl, rfl⟩
      split at h
      · exact absurd h (by simp)
      · rename_i s2 tf2 hdeliver
        split_ifs at h
        cases h
        have hkept : Kept s₁ s2 := by
          split_ifs at hdeliver
          · exact deliver_kept hdeliver
          · cases hdeliver
            exact .of_eq rfl rfl
        refine ⟨hs1.1 ▸ hkept.free, fun hne => ?_⟩
        have := hkept.saved (hs1.2.1 ▸ hne)
        unfold State.pages at this ⊢
        rw [hs1.1, hs1.2.2] at this
        exact this

/-- After `sigreturn` there is no saved frame, and the result of the call is in `eax`. -/
lemma trap_sigreturn (hno : T.tf.trapno = T_SYSCALL) (hcall : T.call = .sigreturn)
    (h : s.trap T a = .ret s' tf) : s'.sigTf = none ∧ tf.eax = 0 := by
  unfold trap at h
  dsimp only at h
  split_ifs at h
  unfold trapSyscall at h
  dsimp only at h
  split_ifs at h
  cases h
  rw [hcall]
  unfold syscall sysSigreturn
  dsimp only
  split
  · exact ⟨rfl, rfl⟩
  · rename_i hnone
    exact ⟨hnone, rfl⟩

/-- A step of a process in a handler is a trap that returns. -/
lemma Run.step_eq_some {r r' : Run} {e : Trap × (Point → UInt32)} (h : r.step e = some r') :
    r.s.trap e.1 e.2 = .ret r'.s r'.tf ∧ r'.depth = depthAfter e.1 r.s r'.s r.depth ∧
      0 < r.depth := by
  unfold Run.step at h
  split_ifs at h with hr
  split at h
  · rename_i hret
    cases h
    exact ⟨hret, rfl, hr.2⟩
  · exact absurd h (by simp)

/-- The last handler is left by `sigreturn`. -/
lemma Run.step_depth_zero {r r' : Run} {e : Trap × (Point → UInt32)} (h : r.step e = some r')
    (h0 : r'.depth = 0) : e.1.tf.trapno = T_SYSCALL ∧ e.1.call = .sigreturn := by
  obtain ⟨-, hdepth, hpos⟩ := Run.step_eq_some h
  unfold depthAfter at hdepth
  split_ifs at hdepth with hs hcall
  · omega
  · exact hcall
  · omega

/-- A frame that is interrupted by a signal, with any number of further signals while its handler
runs: when as many calls of `sigreturn` were made as signals were delivered, the page that the frame
was saved in is lost and `eax` is 0, so the signals are never transparent. -/
theorem not_transparent {s₀ : State} {T₀ : Trap} {a₀ : Point → UInt32} {tf₁ : TrapFrame}
    {tr : List (Trap × (Point → UInt32))} {r : Run} (hpages : s₀.pages.Nodup)
    (h₀ : s₀.trap T₀ a₀ = .ret s₁ tf₁) (hdel : s₁.stored ≠ s₀.stored)
    (hrun : Machine.exec Run.step ⟨s₁, tf₁, 1⟩ tr = some r) (hend : r.depth = 0) :
    r.tf.eax = 0 ∧ (∃ page ∈ s₀.pages, page ∉ r.s.pages) ∧ ¬ Transparent s₀ T₀.tf r := by
  obtain ⟨hkept, hsome⟩ := (trap_kept h₀).saved hdel
  obtain ⟨saved, hsaved⟩ := Option.ne_none_iff_exists'.mp hsome
  have hmem : saved.page ∈ s₀.pages := by
    rw [← hkept]
    simp [State.pages, hsaved]
  have hfresh : saved.page ∉ s₁.free := by
    rw [← hkept] at hpages
    simp only [State.pages, hsaved, Option.map_some, Option.toList_some, List.singleton_append,
      List.nodup_cons] at hpages
    exact hpages.1
  -- along the run the free list only loses pages, and the last step is `sigreturn`
  have hinv : saved.page ∉ r.s.free ∧ (r.depth = 0 → r.s.sigTf = none ∧ r.tf.eax = 0) := by
    refine Machine.exec_induction
      (motive := fun _ r => saved.page ∉ r.s.free ∧ (r.depth = 0 → r.s.sigTf = none ∧ r.tf.eax = 0))
      ⟨hfresh, fun h => absurd h (by simp)⟩ (fun _ r e r' _ ih hstep => ?_) hrun
    have htrap := (Run.step_eq_some hstep).1
    refine ⟨fun hin => ih.1 ((trap_kept htrap).free hin), fun h0 => ?_⟩
    obtain ⟨hno, hcall⟩ := Run.step_depth_zero hstep h0
    exact trap_sigreturn hno hcall htrap
  obtain ⟨hnone, heax⟩ := hinv.2 hend
  have hlost : saved.page ∉ r.s.pages := by
    simpa [State.pages, hnone] using hinv.1
  exact ⟨heax, ⟨_, hmem, hlost⟩, fun h => hlost (h.2 _ hmem)⟩

/-- The call of `sigreturn` in the handler. -/
def sigreturnTrap : Trap := { userTrap T_SYSCALL with call := .sigreturn }

/-- One signal and its `sigreturn`. -/
theorem not_transparent_once : ∃ s₁ tf₁ r,
    installed.trap (userTrap 32) (once 15 .work) = .ret s₁ tf₁ ∧
    Machine.exec Run.step ⟨s₁, tf₁, 1⟩ [(sigreturnTrap, fun _ => 0)] = some r ∧
    ¬ Transparent installed (userTrap 32).tf r :=
  ⟨_, _, _, rfl, rfl, (@not_transparent _ installed (userTrap 32) (once 15 .work) _
    [(sigreturnTrap, fun _ => 0)] _ (by decide) rfl (by decide) rfl rfl).2.2⟩

/-- The process is interrupted with 6 in `eax` and goes on with 0; the page 7 is lost. -/
theorem resumed_eax_zero : ∃ s₁ tf₁ r,
    installed.trap (userTrap 32) (once 15 .work) = .ret s₁ tf₁ ∧ tf₁.eip = 0x40 ∧
    Machine.exec Run.step ⟨s₁, tf₁, 1⟩ [(sigreturnTrap, fun _ => 0)] = some r ∧ r.depth = 0 ∧
    (userTrap 32).tf.eax = 6 ∧ r.tf = { (userTrap 32).tf with eax := 0 } ∧
    installed.pages = [7, 8] ∧ r.s.pages = [8] ∧ ¬ Transparent installed (userTrap 32).tf r :=
  ⟨_, _, _, rfl, rfl, rfl, rfl, rfl, rfl, rfl, rfl, fun h => absurd h.1 (by decide)⟩

end Xv7.Signal
