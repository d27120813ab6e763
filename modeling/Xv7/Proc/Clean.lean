import Xv7.Proc.Parents

/-!
# What a new process starts with

`allocproc` clears the pending signals of the slot it takes but not `killed`, and `kill` looks for a
pid without looking at the state.  A slot that nobody uses keeps pid 0, or the pid of a `fork` that
has failed, so `kill` can find it and leave `killed` set for the process that gets the slot next.
-/

namespace Xv7.Ptable

open State

variable {s s' : State} {e : Event}

/-- The process has nothing to die from, unless `kill` was called with its pid. -/
def Proc.Clean (p : Proc) : Prop := p.named ∨ ¬ p.killed ∧ p.pending = 0

/-- A process that `fork` starts is clean, and `kill` returns 0 only for the pid of a process. -/
def StartsClean (s : State) : Event → Prop
  | .forkDone i => ∀ np, (s.proc i).task = .forked np → (s.proc np).Clean
  | .kill pid _ => s.killTarget pid ≠ none → ∃ p, (s.proc p).state ≠ .UNUSED ∧ (s.proc p).pid = pid
  | _ => True

/-- `kill` does not find a slot that nobody uses, and a `fork` does not fail after the new process
was killed. -/
def NoStaleKill (s : State) : Event → Prop
  | .forkFail i => ∀ np, (s.proc i).task = .forking np → ¬ (s.proc np).killed
  | .kill pid _ => ∀ p, s.killTarget pid = some p → (s.proc p).state ≠ .UNUSED
  | _ => True

instance (p : Proc) : Decidable p.Clean :=
  inferInstanceAs (Decidable (p.named ∨ ¬ p.killed ∧ p.pending = 0))

instance (s : State) (e : Event) : Decidable (StartsClean s e) := by
  unfold StartsClean
  split <;> infer_instance

instance (s : State) (e : Event) : Decidable (NoStaleKill s e) := by
  unfold NoStaleKill
  split <;> infer_instance

/-- What is kept while `kill` finds processes only. -/
structure Unmarked (s : State) : Prop where
  unused : ∀ p, (s.proc p).state = .UNUSED → ¬ (s.proc p).killed
  embryo : ∀ p, (s.proc p).state = .EMBRYO → (s.proc p).Clean

lemma unmarked_init : Unmarked init := by
  constructor <;> decide

/-- The slot that `kill` finds has the pid. -/
lemma killTarget_eq_some {pid : UInt32} {p : Slot} (h : s.killTarget pid = some p) :
    (s.proc p).pid = pid := by
  unfold killTarget at h
  split_ifs at h
  exact of_decide_eq_true (first_eq_some h)

/-- A step that changes no mark, and frees no slot and makes no embryo. -/
lemma Unmarked.of_same (h : Unmarked s)
    (hmark : ∀ p, (s'.proc p).killed = (s.proc p).killed ∧
      (s'.proc p).pending = (s.proc p).pending ∧ (s'.proc p).named = (s.proc p).named)
    (hunused : ∀ p, (s'.proc p).state = .UNUSED → (s.proc p).state = .UNUSED)
    (hembryo : ∀ p, (s'.proc p).state = .EMBRYO → (s.proc p).state = .EMBRYO) : Unmarked s' := by
  constructor
  · intro p hp
    rw [(hmark p).1]
    exact h.unused p (hunused p hp)
  · intro p hp
    unfold Proc.Clean
    rw [(hmark p).1, (hmark p).2.1, (hmark p).2.2]
    exact h.embryo p (hembryo p hp)

lemma Unmarked.alloc (h : Unmarked s) (i : Slot) : Unmarked (s.alloc i) := by
  unfold State.alloc
  split
  · exact h
  · rename_i np hnp
    have hU := h.unused np (of_decide_eq_true (first_eq_some hnp))
    obtain ⟨h1, h2⟩ := h
    constructor <;> grind [Proc.Clean]

lemma Unmarked.wait (h : Unmarked s) {i : Slot} (hi : (s.proc i).state = .RUNNING) :
    Unmarked (s.wait i) := by
  obtain ⟨h1, h2⟩ := h
  unfold State.wait
  split
  · constructor <;> grind [Proc.Clean]
  · split_ifs <;> constructor <;> grind [Proc.Clean]

lemma Unmarked.kill (h : Unmarked s) {pid sig : UInt32} (hC : NoStaleKill s (.kill pid sig)) :
    Unmarked (s.kill pid sig) := by
  obtain ⟨h1, h2⟩ := h
  unfold State.kill
  split
  · constructor <;> grind [Proc.Clean]
  · rename_i q hq
    have hU := hC q hq
    have hpid := killTarget_eq_some hq
    constructor <;> grind [Proc.Clean, signal]

lemma Unmarked.step (h : Unmarked s) (hF : Family s) (hC : NoStaleKill s e)
    (hstep : s.step e = some s') : Unmarked s' := by
  cases does_of_step hstep with
  | @alloc i => exact h.alloc i
  | @forkFail i np hi ht =>
    have hK := hC np ht
    obtain ⟨h1, h2⟩ := h
    constructor <;> grind [Proc.Clean]
  | @exit i hi ht hne =>
    obtain ⟨q, hq⟩ := Option.ne_none_iff_exists'.mp
      (hF.some_parent i hne (by simp [Live, Active, hi]))
    have hexit := exit_proc hq
    exact h.of_same (by grind) (by grind) (by grind)
  | wait hi ht => exact h.wait hi
  | kill => exact h.kill hC
  | forkCopy | forkDone | sleep | yield | schedule | wakeup =>
    exact h.of_same (by grind) (by grind) (by grind)

/-- If `kill` finds processes only, `fork` starts clean processes only. -/
lemma Unmarked.startsClean (h : Unmarked s) (hF : Family s) (hC : NoStaleKill s e) :
    StartsClean s e := by
  cases e with
  | forkDone i => exact fun np hnp => h.embryo np (hF.forked i np hnp).1
  | kill pid sig =>
    intro hfound
    obtain ⟨p, hp⟩ := Option.ne_none_iff_exists'.mp hfound
    exact ⟨p, hC p hp, killTarget_eq_some hp⟩
  | _ => trivial

/-- In every run in which `kill` finds no unused slot, and no `fork` fails after its new process was
killed, each process that `fork` starts is clean and `kill` returns 0 only for processes. -/
theorem startsClean_of_noStaleKill {tr : List Event}
    (h : Machine.exec State.step init tr = some s)
    (hC : Machine.Meets State.step NoStaleKill init tr) :
    Machine.Meets State.step StartsClean init tr := by
  have hrun : (Family s ∧ Unmarked s) ∧ Machine.Meets State.step StartsClean init tr :=
    Machine.exec_induction_of_meets
      (motive := fun tr s => (Family s ∧ Unmarked s) ∧ Machine.Meets State.step StartsClean init tr)
      ⟨⟨family_init, unmarked_init⟩, trivial⟩
      (fun tr s e s' hs ⟨⟨hF, hU⟩, hP⟩ hC hstep => ⟨⟨hF.step hstep, hU.step hF hC hstep⟩,
        (Machine.meets_concat hs).mpr ⟨hP, hU.startsClean hF hC⟩⟩) h hC
  exact hrun.2

/-- `initproc` forks, and the child is killed by its pid. -/
def forkKill : List Event :=
  [.schedule 0, .alloc 0, .forkCopy 0, .forkDone 0, .kill 2 SIGKILL]

theorem startsClean_forkKill : (Machine.exec State.step init forkKill).isSome ∧
    Machine.Meets State.step NoStaleKill init forkKill ∧
    Machine.Meets State.step StartsClean init forkKill := by
  have hrun : (Machine.exec State.step init forkKill).isSome := by decide +kernel
  have hC : Machine.Meets State.step NoStaleKill init forkKill := by decide +kernel
  obtain ⟨s, hs⟩ := Option.isSome_iff_exists.mp hrun
  exact ⟨hrun, hC, startsClean_of_noStaleKill hs hC⟩

/-- `kill(0, SIGKILL)` returns 0 without a process of that pid, and the next process that `fork`
starts is killed. -/
theorem not_startsClean_killZero :
    (∃ s, Machine.exec State.step init [.schedule 0] = some s ∧
      ¬ StartsClean s (.kill 0 SIGKILL)) ∧
    ∃ s, Machine.exec State.step init [.schedule 0, .kill 0 SIGKILL, .alloc 0, .forkCopy 0] =
      some s ∧ (s.proc 1).killed ∧ ¬ (s.proc 1).named ∧ ¬ StartsClean s (.forkDone 0) := by
  constructor
  · obtain ⟨s, hs, h⟩ := Option.map_eq_some_iff.mp (show (Machine.exec State.step init
      [.schedule 0]).map (fun s => decide (StartsClean s (.kill 0 SIGKILL))) = some false by
        decide +kernel)
    exact ⟨s, hs, of_decide_eq_false h⟩
  · obtain ⟨s, hs, h⟩ := Option.map_eq_some_iff.mp (show (Machine.exec State.step init
      [.schedule 0, .kill 0 SIGKILL, .alloc 0, .forkCopy 0]).map (fun s => decide
        ((s.proc 1).killed ∧ ¬ (s.proc 1).named ∧ ¬ StartsClean s (.forkDone 0))) = some true by
        decide +kernel)
    exact ⟨s, hs, of_decide_eq_true h⟩

end Xv7.Ptable
